import Chronicle.Failure

/-!
# Languages

The languages that sources are read in.
-/

set_option autoImplicit false

namespace Chronicle

/-- A language of sources. -/
inductive Language where
  | javascript
  deriving DecidableEq, Repr

namespace Language

/-- The name of a language. -/
def name : Language → String
  | .javascript => "javascript"

/-- The language of a name. -/
def ofName (name : String) : Except Failure Language :=
  if name == Language.javascript.name then .ok .javascript else .error (.unknownLanguage name)

/-- A language is found under its name. -/
theorem ofName_name (l : Language) : ofName l.name = .ok l := by
  cases l; rfl

end Language

end Chronicle
