import Chronicle.Number.Basic

/-!
# Numerals in other bases

The digits of an integer in a base from two to thirty-six, least significant first, and the numeral
they form.
-/

set_option autoImplicit false

namespace Chronicle.Number

/-- The digits of a natural in a base, most significant first; zero has one digit.  Digits are
produced from the last one on, in front of those already found. -/
def radixDigits (base n : Nat) (found : List Char) : List Char :=
  if _h : 2 ≤ base ∧ base ≤ n then
    radixDigits base (n / base) (Text.digitChar (n % base) :: found)
  else Text.digitChar (n % base) :: found
termination_by n
decreasing_by exact Nat.div_lt_self (by omega) (by omega)

/-- The numeral of an integer in a base. -/
def radixText (base : Nat) (n : Int) : String :=
  let ds := radixDigits base n.natAbs []
  String.ofList (if n < 0 then '-' :: ds else ds)

end Chronicle.Number
