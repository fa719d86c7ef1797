import Chronicle.Error

/-!
# The log

What a run or the reading of annotations reports besides its result, in order.
-/

set_option autoImplicit false

namespace Chronicle

/-- One report. -/
inductive Notice where
  /-- An operator that did not apply; its node has the value `undefined`. -/
  | operator (error : RunError) (location : Location)
  /-- A write stamped before the last recorded one. -/
  | lateWrite (text : String) (step last : Int)
  /-- A line printed by the interpreted program. -/
  | console (line : String)
  /-- An annotated parameter without values. -/
  | noValue (line : Int) (name : String)
  /-- An annotated parameter of an unknown kind. -/
  | unknownKind (line : Int) (kind name : String)
  /-- A run that failed. -/
  | failedRun (name : String) (steps : Nat) (error : RunError)
  /-- A trace handed out although its run failed. -/
  | incompleteTrace (name : String) (error : RunError)

/-- The wording of a report. -/
def Notice.message : Notice → String
  | .operator error location => error.message ++ " at " ++ location.text
  | .lateWrite text step last =>
    "Write of " ++ text ++ " at step " ++ Number.intText step ++ " precedes last recorded step " ++
      Number.intText last ++ "; kept at " ++ Number.intText last
  | .console line => "console.log: " ++ line
  | .noValue line name =>
    "Line " ++ Number.intText line ++ ": @param " ++ name ++ " has no value, skipped"
  | .unknownKind line kind name =>
    "Line " ++ Number.intText line ++ ": unknown @param kind \x7b" ++ kind ++ "\x7d for " ++ name ++
      ", skipped"
  | .failedRun name steps error =>
    name ++ " failed after " ++ Number.intText steps ++ " steps: " ++ error.message
  | .incompleteTrace name error =>
    "Returning partial trace for " ++ name ++ ": " ++ error.message

end Chronicle
