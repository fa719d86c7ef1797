import Chronicle.CommandLine.Options
import Chronicle.Report.Record
import Chronicle.Report.Table

/-!
# Sessions

What the program prints for its options and the text of its file, and how it exits: zero when all
runs completed, one when a run failed or there was none, two when the source is refused.
-/

set_option autoImplicit false

namespace Chronicle.CommandLine

/-- The source that is traced when no file is named. -/
def demonstration : String :=
  "/**\n" ++
  " * @param \x7bNumber\x7d size = 8, 0, 10\n" ++
  " * @param \x7bArray\x7d arr = []\n" ++
  " */\n" ++
  "function demo(size, arr) \x7b\n" ++
  "  let result = size * 2;\n" ++
  "  for (let i = 0; i < 3; i++) \x7b\n" ++
  "    arr.push(i);\n" ++
  "  \x7d\n" ++
  "  if (result > 10) \x7b\n" ++
  "    result = result + \"px\";\n" ++
  "  \x7d\n" ++
  "  return result;\n" ++
  "\x7d\n"

/-- The text with every line end as a line feed. -/
def unifyLines : List Char → List Char
  | [] => []
  | '\r' :: '\n' :: cs => '\n' :: unifyLines cs
  | '\r' :: cs => '\n' :: unifyLines cs
  | c :: cs => c :: unifyLines cs

/-- Why a session ends early. -/
inductive Complaint where
  | refused (failure : Failure)
  | nothingFound

/-- The line that is printed for a complaint. -/
def Complaint.text : Complaint → String
  | .refused failure => "error: " ++ failure.message?.getD "" ++ "\n"
  | .nothingFound => "No annotated functions found.\n"

/-- What a session prints and how it exits. -/
structure Session where
  exit : UInt32
  output : String
  complaint : Option Complaint := none

/-- How long the stages took, in seconds. -/
structure Times where
  parse : Float := 0
  annotate : Float := 0
  locate : Float := 0
  execution : Float := 0
  total : Float := 0

/-- Statistics with the times of the stages. -/
def Times.apply (t : Times) (s : Statistics) : Statistics :=
  { s with
    parseTime := t.parse, annotateTime := t.annotate, locateTime := t.locate
    executionTime := t.execution, totalTime := t.total }

namespace Options

/-- The source to trace, given the text of the file. -/
def source (o : Options) (file : String) : String :=
  if o.file == "" then demonstration else String.ofList (unifyLines file.toList)

/-- What is printed before anything is read. -/
def greeting (o : Options) : String :=
  if o.file == "" && !o.json then
    "No file provided. Using built-in demo:\n\n" ++ demonstration ++ "\n"
  else ""

/-- What is printed for the runs. -/
def report (o : Options) (functions : List TracedFunction) : Except Fault String := do
  if o.json then return (Json.list (← functions.mapM TracedFunction.json)).write ++ "\n"
  else return String.join ((← functions.mapM TracedFunction.table).map (· ++ "\n\n"))

/-- The session for the runs of a source. -/
def sessionOf (o : Options) (times : Times) (functions : List TracedFunction)
    (statistics : Statistics) : Annotating Session := do
  let sizes := if o.verbose then "\n" ++ (times.apply statistics).report ++ "\n" else ""
  let start := o.greeting ++ sizes
  if functions.isEmpty then return ⟨1, start, some .nothingFound⟩
  else
    let runs ← Annotating.lift (Failure.ofFault (o.report functions))
    let exit := if functions.any (·.failure.isSome) then 1 else 0
    return ⟨exit, start ++ runs, none⟩

/-- A session.  Refused sources and annotations are told to the user; other failures are not
expected and fail the session. -/
def session (o : Options) (parse : SourceParser) (file : String) (times : Times) :
    Annotating Session := fun log =>
  match traceSource parse (o.source file) o.function o.limit log with
  | .ok (functions, statistics) log => o.sessionOf times functions statistics log
  | .error (.malformed what location) log =>
    .ok ⟨2, o.greeting, some (.refused (.malformed what location))⟩ log
  | .error (.doc e) log => .ok ⟨2, o.greeting, some (.refused (.doc e))⟩ log
  | .error e log => .error e log

end Options

end Chronicle.CommandLine
