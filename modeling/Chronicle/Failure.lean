import Chronicle.ParameterDoc.Basic

/-!
# Failures

The ways in which source is refused before anything runs: it is malformed, an annotation in it
cannot be read, or the function sought is not there.
-/

set_option autoImplicit false

namespace Chronicle

/-- Why the reading of source stops. -/
inductive Failure where
  /-- Source that is not well-formed, and where. -/
  | malformed (what : String) (location : Location)
  | doc (error : DocError)
  | spec (error : SpecError)
  | fault (fault : Fault)
  /-- A function whose body should be a block and is none. -/
  | noBlock
  /-- No annotated function of this name, or none at all when it is empty. -/
  | noAnnotatedFunction (name : String)
  /-- No function of this name. -/
  | functionNotFound (name : String)
  /-- A search for a function without a name. -/
  | emptyFunctionName
  /-- A language that no sources are read in. -/
  | unknownLanguage (name : String)

/-- The wording of a failure, where it has one. -/
def Failure.message? : Failure → Option String
  | .malformed what location => some (malformedMessage what location)
  | .doc error => some error.message
  | .spec error => error.message?
  | .fault f => some f.message
  | .noBlock => none
  | .noAnnotatedFunction "" => some "No annotated function found in source"
  | .noAnnotatedFunction name =>
    some ("No annotated function " ++ Text.quoted name ++ " found in source")
  | .functionNotFound name => some ("Function '" ++ name ++ "' not found in source")
  | .emptyFunctionName => some "function_name must not be empty"
  | .unknownLanguage name =>
    some ("No frontend for language " ++ Text.quoted name ++ "; supported: javascript")

end Chronicle
