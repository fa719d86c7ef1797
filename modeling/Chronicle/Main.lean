import Chronicle.CommandLine.Session
import Chronicle.Grammar.Program

/-!
# The program

Reads the file that the command line names and prints the session.  Sources are parsed by the grammar
of `Grammar`; everything else is decided by `CommandLine`.
-/

set_option autoImplicit false

namespace Chronicle.CommandLine

/-- How the program is used. -/
def usage : String :=
  "usage: chronicle [-h] [--function NAME] [--max-steps N] [--json] [--verbose] [file]"

/-- The level at which a report is printed, and its text. -/
def noticeLine (n : Notice) : String :=
  match n with
  | .console _ => "INFO: " ++ n.message
  | _ => "WARNING: " ++ n.message

/-- The seconds that an action takes. -/
def seconds (action : IO Unit) : IO Float := do
  let start ← IO.monoNanosNow
  action
  let stop ← IO.monoNanosNow
  return (stop - start).toFloat / 1000000000

/-- The times of the stages of a source.  Each is the time up to and including the stage, less that
of the stages before it. -/
def measure (parser : SourceParser) (o : Options) (source : String) : IO Times := do
  let parse ← seconds do
    let _ ← IO.lazyPure fun _ => (readProgram parser source).toBool
  let annotate ← seconds do
    let _ ← IO.lazyPure fun _ => match annotationsOf parser source #[] with
      | .ok docs _ => docs.length
      | .error _ _ => 0
  let locate ← seconds do
    let _ ← IO.lazyPure fun _ => match locateSource parser source #[] with
      | .ok functions _ => functions.length
      | .error _ _ => 0
  let total ← seconds do
    let _ ← IO.lazyPure fun _ => match traceSource parser source o.function o.limit #[] with
      | .ok (functions, _) _ => functions.length
      | .error _ _ => 0
  return {
    parse, annotate := max 0 (annotate - parse), locate := max 0 (locate - annotate)
    execution := max 0 (total - locate), total }

/-- Prints the reports of a session. -/
def printLog (log : Array Notice) : IO Unit := do
  for n in log do
    IO.eprintln (noticeLine n)

/-- Runs a session and prints it. -/
def runSession (parser : SourceParser) (o : Options) : IO UInt32 := do
  let file ← if o.file == "" then pure "" else IO.FS.readFile o.file
  let times ← if o.verbose then measure parser o (o.source file) else pure {}
  match o.session parser file times #[] with
  | .ok session log =>
    printLog log
    IO.print session.output
    match session.complaint with
    | some complaint => IO.eprint complaint.text
    | none => pure ()
    return session.exit
  | .error failure log =>
    printLog log
    IO.eprint (Complaint.refused failure).text
    return 1

end Chronicle.CommandLine

open Chronicle Chronicle.CommandLine in
/-- The program. -/
def main (arguments : List String) : IO UInt32 := do
  match Options.ofArguments arguments with
  | .ok options => runSession Tree.ofSource options
  | .error .help =>
    IO.println usage
    return 0
  | .error .usage =>
    IO.eprintln usage
    return 2
