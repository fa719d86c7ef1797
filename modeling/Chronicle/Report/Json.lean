import Chronicle.Number.Writing
import Chronicle.Text.Quoted
import Chronicle.Text.Search

/-!
# JSON

Structured data as text over several lines, each level two blanks further in.  Characters outside
the basic range are written by their codes in sixteen bits, so that the text is plain.
-/

set_option autoImplicit false

namespace Chronicle

/-- Structured data; the members of an object keep their order. -/
inductive Json where
  | null
  | boolean (value : Bool)
  | integer (value : Int)
  | text (value : String)
  | list (items : List Json)
  | object (members : List (String × Json))

namespace Json

/-- A code of sixteen bits, written out. -/
def codeText (n : Nat) : List Char :=
  '\\' :: 'u' :: Text.hexDigits 4 n

/-- One character between quotes. -/
def charText (c : Char) : List Char :=
  let n := c.toNat
  match c with
  | '"' => ['\\', '"']
  | '\\' => ['\\', '\\']
  | '\n' => ['\\', 'n']
  | '\r' => ['\\', 'r']
  | '\t' => ['\\', 't']
  | '\x0c' => ['\\', 'f']
  | '\x08' => ['\\', 'b']
  | c =>
    if 0x20 ≤ n && n < 0x7F then [c]
    else if n < 0x10000 then codeText n
    else
      let rest := n - 0x10000
      codeText (0xD800 + rest / 0x400) ++ codeText (0xDC00 + rest % 0x400)

/-- A text between quotes. -/
def quoted (s : String) : String :=
  String.ofList ('"' :: s.toList.flatMap charText ++ ['"'])

/-- The line break before an item at a depth. -/
def lineBreak (depth : Nat) : String :=
  "\n" ++ String.ofList (List.replicate (2 * depth) ' ')

mutual

/-- The text of data at a depth. -/
def render (depth : Nat) : Json → String
  | .null => "null"
  | .boolean b => if b then "true" else "false"
  | .integer n => Number.intText n
  | .text s => quoted s
  | .list [] => "[]"
  | .list (item :: items) =>
    "[" ++ lineBreak (depth + 1) ++ item.render (depth + 1) ++ renderItems (depth + 1) items ++
      lineBreak depth ++ "]"
  | .object [] => "\x7b\x7d"
  | .object ((name, value) :: members) =>
    "\x7b" ++ lineBreak (depth + 1) ++ quoted name ++ ": " ++ value.render (depth + 1) ++
      renderMembers (depth + 1) members ++ lineBreak depth ++ "\x7d"

/-- The text of further items. -/
def renderItems (depth : Nat) : List Json → String
  | [] => ""
  | item :: items => "," ++ lineBreak depth ++ item.render depth ++ renderItems depth items

/-- The text of further members. -/
def renderMembers (depth : Nat) : List (String × Json) → String
  | [] => ""
  | (name, value) :: members =>
    "," ++ lineBreak depth ++ quoted name ++ ": " ++ value.render depth ++
      renderMembers depth members

end

/-- The text of data. -/
def write (j : Json) : String :=
  j.render 0

end Json

end Chronicle
