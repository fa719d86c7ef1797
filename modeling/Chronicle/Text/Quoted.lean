import Chronicle.Text.Digits
import Chronicle.Text.Printable

/-!
# Quoted text in messages

Messages show a text between quotes: single ones, unless the text holds a single quote and no
double quote.  The quote itself and the backslash are escaped by a backslash, tab, line feed and
return by their letters, and every other unprintable character by its code.
-/

set_option autoImplicit false

namespace Chronicle.Text

/-- The quote a text is shown between. -/
def quoteMark (cs : List Char) : Char :=
  if cs.contains '\'' && !cs.contains '"' then '"' else '\''

/-- The lowest `width` hexadecimal digits of a number, most significant first. -/
def hexDigits : Nat → Nat → List Char
  | 0, _ => []
  | width + 1, n => hexDigits width (n / 16) ++ [digitChar (n % 16)]

/-- One character as it stands between quotes. -/
def quoteChar (mark c : Char) : List Char :=
  let n := c.toNat
  if c == mark || c == '\\' then ['\\', c]
  else if n == 0x9 then ['\\', 't']
  else if n == 0xA then ['\\', 'n']
  else if n == 0xD then ['\\', 'r']
  else if isPrintable c then [c]
  else if n < 0x100 then '\\' :: 'x' :: hexDigits 2 n
  else if n < 0x10000 then '\\' :: 'u' :: hexDigits 4 n
  else '\\' :: 'U' :: hexDigits 8 n

/-- The text between quotes. -/
def quoted (s : String) : String :=
  let cs := s.toList
  let mark := quoteMark cs
  String.ofList (mark :: cs.flatMap (quoteChar mark) ++ [mark])

end Chronicle.Text
