/-!
# Digits of every script

A decimal digit is one of ten consecutive characters that a script uses for zero to nine;
`decimalValue?` gives its value.  A wider class, `isDigit`, also holds the superscripts, subscripts
and enclosed digits, which look like digits but have no place in a positional numeral.
-/

set_option autoImplicit false

namespace Chronicle.Text

/-- The zero of each script; its nine other digits follow it. -/
def zeros : List Nat := [
  0x30, 0x660, 0x6F0, 0x7C0, 0x966, 0x9E6, 0xA66, 0xAE6, 0xB66, 0xBE6, 0xC66, 0xCE6, 0xD66, 0xDE6,
  0xE50, 0xED0, 0xF20, 0x1040, 0x1090, 0x17E0, 0x1810, 0x1946, 0x19D0, 0x1A80, 0x1A90, 0x1B50,
  0x1BB0, 0x1C40, 0x1C50, 0xA620, 0xA8D0, 0xA900, 0xA9D0, 0xA9F0, 0xAA50, 0xABF0, 0xFF10, 0x104A0,
  0x10D30, 0x11066, 0x110F0, 0x11136, 0x111D0, 0x112F0, 0x11450, 0x114D0, 0x11650, 0x116C0,
  0x11730, 0x118E0, 0x11950, 0x11C50, 0x11D50, 0x11DA0, 0x16A60, 0x16AC0, 0x16B50, 0x1D7CE,
  0x1D7D8, 0x1D7E2, 0x1D7EC, 0x1D7F6, 0x1E140, 0x1E2F0, 0x1E950, 0x1FBF0]

/-- The value of a decimal digit, in whatever script. -/
def decimalValue? (c : Char) : Option Nat :=
  (zeros.find? fun z => z ≤ c.toNat && c.toNat < z + 10).map (c.toNat - ·)

/-- Digits outside every positional numeral: superscripts, subscripts, enclosed digits. -/
def looseDigits : List (Nat × Nat) := [
  (0xB2, 0xB3), (0xB9, 0xB9), (0x1369, 0x1371), (0x19DA, 0x19DA), (0x2070, 0x2070),
  (0x2074, 0x2079), (0x2080, 0x2089), (0x2460, 0x2468), (0x2474, 0x247C), (0x2488, 0x2490),
  (0x24EA, 0x24EA), (0x24F5, 0x24FD), (0x24FF, 0x24FF), (0x2776, 0x277E), (0x2780, 0x2788),
  (0x278A, 0x2792), (0x10A40, 0x10A43), (0x10E60, 0x10E68), (0x11052, 0x1105A), (0x1F100, 0x1F10A)]

/-- The characters that count as digits, positional or not. -/
def isDigit (c : Char) : Bool :=
  (decimalValue? c).isSome || looseDigits.any fun (lo, hi) => lo ≤ c.toNat && c.toNat ≤ hi

/-- The plain digits `0` to `9`. -/
def isPlainDigit (c : Char) : Bool :=
  0x30 ≤ c.toNat && c.toNat ≤ 0x39

/-- The character of a digit value below ten. -/
def plainDigit (n : Nat) : Char :=
  Char.ofNat (0x30 + n)

/-- The value of a digit in bases up to thirty-six, letters of either case after nine. -/
def digitValue? (c : Char) : Option Nat :=
  let n := c.toNat
  if 0x30 ≤ n && n ≤ 0x39 then some (n - 0x30)
  else if 0x61 ≤ n && n ≤ 0x7A then some (n - 0x61 + 10)
  else if 0x41 ≤ n && n ≤ 0x5A then some (n - 0x41 + 10)
  else none

/-- The digit of a value below thirty-six, with small letters after nine. -/
def digitChar (n : Nat) : Char :=
  if n < 10 then Char.ofNat (0x30 + n) else Char.ofNat (0x61 + (n - 10))

/-- The hexadecimal digits. -/
def isHexDigit (c : Char) : Bool :=
  match digitValue? c with
  | some v => v < 16
  | none => false

/-- The value of a run of digits in a base, most significant first; `none` at a foreign digit. -/
def positional? (base : Nat) (ds : List Char) : Option Nat :=
  ds.foldlM (fun n c => do
    let v ← digitValue? c
    if v < base then some (n * base + v) else none) 0

end Chronicle.Text
