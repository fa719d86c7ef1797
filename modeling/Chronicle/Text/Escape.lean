import Chronicle.Fault
import Chronicle.Text.Digits

/-!
# Escape sequences

The body of a quoted text may write a character as an escape sequence: a backslash followed by
`u` and digits in braces, `u` and four digits, `x` and two digits, a line break, or one character.
`unescape` resolves the sequences of a body.  A line break after a backslash joins two lines, and a
backslash that ends the body stands for itself.
-/

set_option autoImplicit false

namespace Chronicle.Text

/-- The character of a code; the fault of a code beyond the last character.  A code that no
character has is shown by the replacement character. -/
def ofCode (code : Nat) : Except Fault Char :=
  if code < 0x110000 then
    if 0xD800 ≤ code && code < 0xE000 then .ok '\ufffd' else .ok (Char.ofNat code)
  else .error .characterCode

/-- The line breaks that a backslash removes. -/
def isLineBreak (c : Char) : Bool :=
  c == '\n' || c == '\r' || c == '\u2028' || c == '\u2029'

/-- What a single character after a backslash stands for. -/
def unescapeChar (c : Char) : List Char :=
  match c with
  | 'n' => ['\n']
  | 't' => ['\t']
  | 'r' => ['\r']
  | 'b' => ['\x08']
  | 'f' => ['\x0c']
  | 'v' => ['\x0b']
  | '0' => ['\x00']
  | c => if isLineBreak c then [] else [c]

/-- The character that hexadecimal digits name. -/
def ofHexDigits (digits : List Char) : Except Fault (List Char) :=
  (ofCode ((positional? 16 digits).getD 0)).map ([·])

/-- The longest form of an escape sequence that the characters after a backslash begin with: what it
stands for and how many characters it takes. -/
def escapeAt (c : Char) (rest : List Char) : Except Fault (List Char) × Nat :=
  let braced := (rest.drop 1).takeWhile isHexDigit
  if c == 'u' && rest.head? == some '\x7b' && !braced.isEmpty
      && rest[braced.length + 1]? == some '\x7d' then
    (ofHexDigits braced, braced.length + 3)
  else if c == 'u' && (rest.take 4).length == 4 && (rest.take 4).all isHexDigit then
    (ofHexDigits (rest.take 4), 5)
  else if c == 'x' && (rest.take 2).length == 2 && (rest.take 2).all isHexDigit then
    (ofHexDigits (rest.take 2), 3)
  else if c == '\r' && rest.head? == some '\n' then (.ok [], 2)
  else (.ok (unescapeChar c), 1)

/-- The characters that the body of a quoted text stands for. -/
def unescapeChars (cs : List Char) : Except Fault (List Char) :=
  match cs with
  | [] => .ok []
  | ['\\'] => .ok ['\\']
  | '\\' :: c :: rest => do
    let (meaning, length) := escapeAt c rest
    let cs ← meaning
    return cs ++ (← unescapeChars (rest.drop (length - 1)))
  | c :: rest => return c :: (← unescapeChars rest)
termination_by cs.length
decreasing_by
  all_goals simp only [List.length_cons, List.length_drop]; omega

/-- The text that the body of a quoted text stands for. -/
def unescape (body : String) : Except Fault String :=
  (unescapeChars body.toList).map String.ofList

end Chronicle.Text
