/-!
# Blank characters

The characters that separate words: the Unicode white space characters together with the four
information separators U+001C to U+001F.  `trim` removes them from both ends of a text, and the
reading of annotation lines skips them between their parts.
-/

set_option autoImplicit false

namespace Chronicle.Text

/-- Blank characters: Unicode white space and the information separators. -/
def isBlank (c : Char) : Bool :=
  let n := c.toNat
  (0x9 ≤ n && n ≤ 0xD) || (0x1C ≤ n && n ≤ 0x20) || n == 0x85 || n == 0xA0 || n == 0x1680
    || (0x2000 ≤ n && n ≤ 0x200A) || n == 0x2028 || n == 0x2029 || n == 0x202F || n == 0x205F
    || n == 0x3000

/-- The blanks of the basic range: tab, line feed, vertical tab, form feed, return and space. -/
def isBasicBlank (c : Char) : Bool :=
  let n := c.toNat
  (0x9 ≤ n && n ≤ 0xD) || n == 0x20

/-- The text without the characters of class `p` at either end. -/
def trimEnds (p : Char → Bool) (cs : List Char) : List Char :=
  ((cs.dropWhile p).reverse.dropWhile p).reverse

/-- The text without blanks at either end. -/
def trim (s : String) : String :=
  String.ofList (trimEnds isBlank s.toList)

/-- The text without blanks at its end. -/
def trimRight (s : String) : String :=
  String.ofList (s.toList.reverse.dropWhile isBlank).reverse

end Chronicle.Text
