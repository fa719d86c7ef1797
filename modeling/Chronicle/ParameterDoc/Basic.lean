import Chronicle.Error
import Chronicle.Parameter

/-!
# Annotations

An annotation is what one comment says about the parameters of the function below it.  Its
specifications share a heap, in which their values live.
-/

set_option autoImplicit false

namespace Chronicle

/-- The parameter specifications of one comment. -/
structure ParameterDoc where
  location : Location
  heap : Heap := {}
  params : List ParameterSpec := []

namespace ParameterDoc

/-- The specification of a parameter. -/
def specFor (a : ParameterDoc) (name : String) : Option ParameterSpec :=
  a.params.find? (·.name == name)

/-- The last annotation whose comment ends on the line above a line. -/
def findAbove? (annotations : List ParameterDoc) (line : Int) : Option ParameterDoc :=
  (annotations.filter fun a => a.location.endLine + 1 == line).getLast?

end ParameterDoc

/-- Why an annotation cannot be read. -/
inductive DocError where
  /-- Values that are not well-formed, and where. -/
  | malformed (values what : String) (location : Location)
  /-- Values that are well-formed and no list of expressions. -/
  | noList (values : String)
  /-- Values that do not evaluate. -/
  | notLiterals (values : String) (error : RunError)
  /-- A parameter without values. -/
  | noValues (name : String)
  /-- A value of another kind than the parameter's; it is shown as text. -/
  | wrongKind (name expected found : String)
  /-- A name of an object parameter without any part. -/
  | emptyPath (name : String)
  /-- A parameter without a name. -/
  | noName (line : Int)
  deriving DecidableEq, Repr

/-- The wording of what is malformed in a source. -/
def malformedMessage (what : String) (location : Location) : String :=
  what ++ " at line " ++ Number.intText location.startLine ++ ", column " ++
    Number.intText location.startColumn

/-- The wording of an annotation error. -/
def DocError.message : DocError → String
  | .malformed values what location =>
    "Cannot parse parameter values " ++ Text.quoted values ++ ": " ++ malformedMessage what location
  | .noList values => "Cannot parse parameter values " ++ Text.quoted values
  | .notLiterals values error =>
    "Parameter values must be literals, got " ++ Text.quoted values ++ ": " ++ error.message
  | .noValues name => "Parameter " ++ name ++ ": no values given"
  | .wrongKind name expected found =>
    "Parameter " ++ name ++ ": expected " ++ expected ++ ", got " ++ Text.quoted found
  | .emptyPath name => "Invalid object parameter name: " ++ Text.quoted name
  | .noName line => "Line " ++ Number.intText line ++ ": @param without a name"

end Chronicle
