import Chronicle.Location
import Chronicle.Value.Basic

/-!
# Errors of a run

The ways in which the interpretation of a program fails, each with its cause and, where one is
known, its location.  An operator that does not apply to its operands is such an error too, but the
evaluator recovers from it.  `Stop` adds the faults, which no run recovers from.
-/

set_option autoImplicit false

namespace Chronicle

/-- Why a run fails. -/
inductive Cause where
  /-- A name that no visible scope binds. -/
  | undefinedVariable (name : String)
  /-- A statement of a form that is not interpreted. -/
  | unsupportedStatement (form : String)
  /-- An expression of a form that is not interpreted. -/
  | unsupportedExpression (form : String)
  /-- A construction other than of an empty record or a sequence of a given length. -/
  | unsupportedConstructor (detail : String)
  /-- A call that no built-in method answers. -/
  | unsupportedCall (detail : String)
  /-- A property read or write on a value that cannot hold it. -/
  | propertyAccess (detail : String)
  /-- A trace longer than its limit. -/
  | stepLimit (limit : Int)
  /-- Parameters and their specifications that do not line up. -/
  | parameterBinding (detail : String)
  /-- An operator that does not apply to operands of these kinds. -/
  | operator (symbol : String) (operands : List Kind)
  deriving DecidableEq, Repr

/-- The wording of a cause. -/
def Cause.text : Cause → String
  | .undefinedVariable name => "Undefined variable: " ++ name
  | .unsupportedStatement form => "Unsupported statement: " ++ form
  | .unsupportedExpression form => "Unsupported expression: " ++ form
  | .unsupportedConstructor detail | .unsupportedCall detail | .propertyAccess detail
  | .parameterBinding detail => detail
  | .stepLimit limit => "Execution exceeded " ++ Number.intText limit ++ " steps"
  | .operator symbol operands =>
    "Cannot evaluate operator " ++ Text.quoted symbol ++ " on (" ++
      String.intercalate ", " (operands.map Kind.name) ++ ")"

/-- An error of a run. -/
structure RunError where
  cause : Cause
  location : Option Location := none
  deriving DecidableEq, Repr

/-- The wording of an error, with the line where its location is known. -/
def RunError.message (e : RunError) : String :=
  match e.location with
  | none => e.cause.text
  | some loc =>
    if loc.isUnknown then e.cause.text
    else e.cause.text ++ " (line " ++ Number.intText loc.startLine ++ ")"

/-- Why evaluation stops: an error of the run, or a fault below it. -/
inductive Stop where
  | error (error : RunError)
  | fault (fault : Fault)
  deriving DecidableEq, Repr

/-- The stop by a cause at a location. -/
def Stop.because (cause : Cause) (location : Option Location) : Stop :=
  .error ⟨cause, location⟩

end Chronicle
