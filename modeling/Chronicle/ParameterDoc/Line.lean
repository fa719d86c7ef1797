import Chronicle.Text.Blank
import Chronicle.Text.Search

/-!
# Annotation lines

A line of a comment declares a parameter when it holds `@param`, a kind in braces, a name and, after
an equals sign, its values.  Blanks around each part are passed over.
-/

set_option autoImplicit false

namespace Chronicle

/-- The parts of a line that declares a parameter. -/
structure ParameterLine where
  kind : String
  name : String
  values : Option String
  deriving DecidableEq, Repr

namespace ParameterLine

/-- The lines of a text; a return before a line feed belongs to the line end. -/
def split : List Char → List (List Char)
  | [] => [[]]
  | '\r' :: '\n' :: cs => [] :: split cs
  | '\n' :: cs => [] :: split cs
  | c :: cs =>
    match split cs with
    | [] => [[c]]
    | l :: ls => (c :: l) :: ls

/-- The word that begins a declaration. -/
def tag : List Char := "@param".toList

/-- The text without blanks at either end. -/
def trimmed (cs : List Char) : String :=
  String.ofList (Text.trimEnds Text.isBlank cs)

/-- The parts after the tag: a kind in braces, a name, and values after the first equals sign. -/
def afterTag? (cs : List Char) : Option ParameterLine :=
  match cs.dropWhile Text.isBlank with
  | '{' :: rest =>
    match rest.dropWhile (· != '}') with
    | [] => none
    | _ :: after =>
      let kind := trimmed (rest.takeWhile (· != '}'))
      let name := trimmed (after.takeWhile (· != '='))
      match after.dropWhile (· != '=') with
      | [] => some ⟨kind, name, none⟩
      | _ :: values => some ⟨kind, name, some (trimmed values)⟩
  | _ => none

/-- The declaration of a line: the first tag that the other parts follow. -/
def read? : List Char → Option ParameterLine
  | [] => none
  | c :: cs =>
    if tag.isPrefixOf (c :: cs) then
      match afterTag? ((c :: cs).drop tag.length) with
      | some line => some line
      | none => read? cs
    else read? cs

end ParameterLine

end Chronicle
