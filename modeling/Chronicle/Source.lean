import Chronicle.Language
import Chronicle.Reading.Program
import Chronicle.Tree.FirstError
import Chronicle.Tree.Function

/-!
# Sources

What can be read off a source text alone: its tree, its program, and the text of a function in it.
The parser is a parameter of all that reads sources.
-/

set_option autoImplicit false

namespace Chronicle

/-- A parser gives every source a concrete tree. -/
abbrev SourceParser := String → Tree

/-- A result below the source, whose fault is a failure of reading it. -/
def Failure.ofFault {α : Type} : Except Fault α → Except Failure α
  | .ok a => .ok a
  | .error f => .error (.fault f)

/-- The tree of a source, if the source is well-formed. -/
def readTree (parse : SourceParser) (source : String) : Except Failure Tree :=
  (parse source).wellFormed

/-- The program of a source. -/
def readProgram (parse : SourceParser) (source : String) : Except Failure Node := do
  Failure.ofFault ((← readTree parse source).program source.toUTF8)

/-- The comments of a program. -/
def Node.comments : Node → List Comment
  | .program _ _ comments => comments
  | _ => []

/-- The statements of a program. -/
def Node.body : Node → List Node
  | .program _ body _ => body
  | _ => []

/-- The text of the function of a name in a source. -/
def functionSource (parse : SourceParser) (source name : String) : Except Failure String := do
  if name == "" then throw .emptyFunctionName
  let t ← readTree parse source
  match ← Failure.ofFault (t.findFunction? source.toUTF8 name) with
  | some found => Failure.ofFault (found.label.text source.toUTF8)
  | none => throw (.functionNotFound name)

end Chronicle
