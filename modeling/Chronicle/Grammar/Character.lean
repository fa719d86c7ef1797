import Chronicle.Text.Digits

/-!
# Characters of source text

The classes of characters that tokens are made of.  A word is made of every character that is
neither blank, a control character, nor one of the characters with a meaning of their own, so
letters of all scripts and symbols can stand in it; digits can, but not at its start.
-/

set_option autoImplicit false

namespace Chronicle.Grammar

/-- Unicode white space. -/
def isWhiteSpace (c : Char) : Bool :=
  let n := c.toNat
  (0x9 ≤ n && n ≤ 0xD) || n == 0x20 || n == 0x85 || n == 0xA0 || n == 0x1680
    || (0x2000 ≤ n && n ≤ 0x200A) || n == 0x2028 || n == 0x2029 || n == 0x202F || n == 0x205F
    || n == 0x3000

/-- The characters between tokens: white space and the invisible ones. -/
def isGap (c : Char) : Bool :=
  isWhiteSpace c || c == '\ufeff' || c == '\u2060' || c == '\u200b'

/-- The blanks that are passed over when the end of a statement is looked for; unlike `isGap` this
leaves out the characters that keep two words together. -/
def isBreakingSpace (c : Char) : Bool :=
  isWhiteSpace c && c != '\u0085' && c != '\u00a0' && c != '\u2007' && c != '\u202f'

/-- The characters that end a line. -/
def endsLine (c : Char) : Bool :=
  c == '\n' || c == '\u2028' || c == '\u2029'

/-- The characters with a meaning of their own. -/
def isMark (c : Char) : Bool :=
  ":;\x60\"'@#.,|^&<=>+-*/\\%?!~()[]\x7b\x7d".toList.contains c

/-- The characters of a word after its first. -/
def isWordChar (c : Char) : Bool :=
  0x20 ≤ c.toNat && !isGap c && !isMark c

/-- The first characters of a word. -/
def isWordStart (c : Char) : Bool :=
  isWordChar c && !Text.isPlainDigit c

/-- Letters, as far as the words `in` and `instanceof` are told from longer ones. -/
def isLetter (c : Char) : Bool :=
  c.isAlpha || 0xC0 ≤ c.toNat

end Chronicle.Grammar
