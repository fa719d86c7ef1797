import Chronicle.Number.Writing
import Chronicle.Text.Search

/-!
# Statistics of a run

How large the source was, how long each stage took and what it gave.
-/

set_option autoImplicit false

namespace Chronicle

/-- Sizes and times of the stages.  Times are in seconds. -/
structure Statistics where
  sourceBytes : Int := 0
  sourceLines : Int := 0
  language : String := ""
  parseTime : Float := 0
  annotateTime : Float := 0
  locateTime : Float := 0
  executionTime : Float := 0
  totalTime : Float := 0
  statements : Int := 0
  annotations : Int := 0
  functions : Int := 0
  totalSteps : Int := 0
  failures : Int := 0

namespace Statistics

/-- The stages: a name, a time, and what came out of it. -/
def stages (s : Statistics) : List (String × Float × String) := [
  ("parse", s.parseTime, Number.intText s.statements ++ " statements"),
  ("annotations", s.annotateTime, Number.intText s.annotations ++ " found"),
  ("locate", s.locateTime, Number.intText s.functions ++ " functions"),
  ("execute", s.executionTime, Number.intText s.totalSteps ++ " trace entries")]

/-- A time in milliseconds with two places. -/
def milliseconds (seconds : Float) : String :=
  Text.padLeft 9 (Number.fixedText 2 (seconds * 1000)) ++ " ms"

/-- The block that is printed. -/
def report (s : Statistics) : String :=
  let rule := "  " ++ String.ofList (List.replicate 48 '─')
  let rows := s.stages.map fun (stage, seconds, output) =>
    "  " ++ Text.padRight 12 stage ++ " " ++ milliseconds seconds ++ "   " ++ output
  Text.join "\n" (
    ["═══ Pipeline Statistics ═══",
      "  " ++ s.language ++ ": " ++ Number.intText s.sourceLines ++ " lines / " ++
        Number.intText s.sourceBytes ++ " bytes",
      rule] ++ rows ++
    [rule,
      "  " ++ Text.padRight 12 "total" ++ " " ++ milliseconds s.totalTime,
      "  " ++ Number.intText (s.functions - s.failures) ++ " completed, " ++
        Number.intText s.failures ++ " failed"])

end Statistics

end Chronicle
