import Chronicle.ParameterDoc.Comment
import Chronicle.Report.Statistics
import Chronicle.Run.Execute

/-!
# Tracing sources

From a source text to the runs of its annotated functions.  Each run starts afresh; one that fails
keeps its trace up to the failure and does not keep the others from running.
-/

set_option autoImplicit false

namespace Chronicle

/-- The step limit of runs for which none is given. -/
def defaultLimit : Int := 10000

/-- The annotations of a source. -/
def annotationsOf (parse : SourceParser) (source : String) : Annotating (List ParameterDoc) := do
  readAnnotations parse (← Annotating.lift (readProgram parse source)).comments

/-- The annotated functions of a source, not yet run. -/
def locateSource (parse : SourceParser) (source : String) : Annotating (List TracedFunction) := do
  let program ← Annotating.lift (readProgram parse source)
  let docs ← readAnnotations parse program.comments
  let found ← Annotating.lift (locateFunctions program docs)
  return found.map fun located => { located }

/-- The functions of a name, or all of them when it is empty. -/
def named (name : String) (functions : List TracedFunction) : List TracedFunction :=
  if name == "" then functions else functions.filter (·.located.name == name)

/-- A function after a run, and the error the run failed with.  A fault fails as a whole. -/
def runFunction (t : TracedFunction) (limit : Option Int) :
    Annotating (TracedFunction × Option RunError) := do
  let (t, stop) := t.execute limit
  modify (· ++ t.world.log)
  match stop with
  | some (.fault f) => throw (.fault f)
  | some (.error e) => return (t, some e)
  | none => return (t, none)

/-- The first annotated function of a name, or the first of all, after a run. -/
def traceFunction (parse : SourceParser) (source name : String) (limit : Option Int) :
    Annotating TracedFunction := do
  match named name (← locateSource parse source) with
  | [] => throw (.noAnnotatedFunction name)
  | t :: _ => do
    let (t, failure) ← runFunction t limit
    match failure with
    | some e => Annotating.note (.incompleteTrace t.located.name e)
    | none => pure ()
    return t

/-- Functions after their runs, in order. -/
def runFunctions (limit : Option Int) : List TracedFunction → Annotating (List TracedFunction)
  | [] => return []
  | t :: rest => do
    let (t, _) ← runFunction t limit
    return t :: (← runFunctions limit rest)

/-- The number of lines of a text. -/
def lineCount (source : String) : Nat :=
  let cs := source.toList
  cs.count '\n' + if cs.isEmpty || cs.getLast? == some '\n' then 0 else 1

/-- All annotated functions of a source after their runs, or those of a name, and the sizes that
came up on the way. -/
def traceSource (parse : SourceParser) (source name : String) (limit : Option Int) :
    Annotating (List TracedFunction × Statistics) := do
  let program ← Annotating.lift (readProgram parse source)
  let docs ← readAnnotations parse program.comments
  let found ← Annotating.lift (locateFunctions program docs)
  let pending := named name (found.map fun located => { located })
  let functions ← runFunctions limit pending
  return (functions, {
    sourceBytes := source.utf8ByteSize
    sourceLines := lineCount source
    language := Language.javascript.name
    statements := program.body.length
    annotations := docs.length
    functions := functions.length
    totalSteps := functions.foldl (fun sum t => sum + t.steps) 0
    failures := (functions.filter (·.failure.isSome)).length })

end Chronicle
