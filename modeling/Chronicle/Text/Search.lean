/-!
# Searching and splitting text

Search for a pattern in a text given as characters, and the leftmost, non-overlapping splitting
that follows from it.
-/

set_option autoImplicit false

namespace Chronicle.Text

/-- The position of the first occurrence of a pattern. -/
def find? (pattern : List Char) : List Char → Option Nat
  | [] => if pattern.isEmpty then some 0 else none
  | c :: cs => if pattern.isPrefixOf (c :: cs) then some 0 else (find? pattern cs).map (· + 1)

/-- Whether a pattern occurs in a text. -/
def contains (pattern cs : List Char) : Bool :=
  (find? pattern cs).isSome

/-- The pieces between the leftmost, non-overlapping occurrences of a separator; the text itself
when the separator is empty. -/
def splitOn (separator cs : List Char) : List (List Char) :=
  if _h : 0 < separator.length ∧ 0 < cs.length then
    match find? separator cs with
    | none => [cs]
    | some i => cs.take i :: splitOn separator (cs.drop (i + separator.length))
  else [cs]
termination_by cs.length
decreasing_by
  simp only [List.length_drop]
  omega

/-- A text followed by the texts of a list, each after a separator. -/
def joinFrom (separator : String) : String → List String → String
  | start, [] => start
  | start, s :: rest => joinFrom separator (start ++ separator ++ s) rest

/-- The texts of a list with a separator between neighbours. -/
def join (separator : String) : List String → String
  | [] => ""
  | s :: rest => joinFrom separator s rest

/-- A text written `n` times. -/
def repeated (s : String) (n : Nat) : String :=
  String.ofList (List.replicate n s.toList).flatten

/-- The text with blanks before it, so that it is at least `width` characters long. -/
def padLeft (width : Nat) (s : String) : String :=
  String.ofList (List.replicate (width - s.length) ' ') ++ s

/-- The text with blanks after it, so that it is at least `width` characters long. -/
def padRight (width : Nat) (s : String) : String :=
  s ++ String.ofList (List.replicate (width - s.length) ' ')

end Chronicle.Text
