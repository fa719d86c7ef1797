/-!
# Doubles as dyadic numbers

A finite double is a significand times a power of two.  `decode` reads sign, significand and
exponent off the bits, and `ofRatio?` goes the other way: it rounds a quotient of naturals to the
nearest double, an exact half to the even neighbour, and answers `none` when the quotient lies
beyond the largest double.  All arithmetic between the two is exact.
-/

set_option autoImplicit false

namespace Chronicle.Number

-- powers of naturals and integers are repeated products
attribute [local instance (high)] instPowNat

/-- What the bits of a double stand for. -/
inductive Binary64 where
  /-- No number. -/
  | nan
  /-- An infinity with its sign. -/
  | infinite (negative : Bool)
  /-- `significand · 2 ^ exponent`, with a sign that zero keeps too. -/
  | finite (negative : Bool) (significand : Nat) (exponent : Int)
  deriving DecidableEq, Repr

namespace Binary64

/-- The least significand of a double that is not subnormal. -/
def leastNormal : Nat := 2 ^ (52 : Nat)

/-- The place value of the sign bit. -/
def signWeight : Nat := 2 ^ (63 : Nat)

/-- Sign, significand and exponent of a double. -/
def ofFloat (x : Float) : Binary64 :=
  let bits := x.toBits.toNat
  let negative := bits / signWeight == 1
  let exponent : Nat := bits / leastNormal % 2048
  let fraction := bits % leastNormal
  if exponent == 2047 then
    if fraction == 0 then .infinite negative else .nan
  else if exponent == 0 then .finite negative fraction (-1074)
  else .finite negative (leastNormal + fraction) ((exponent : Int) - 1075)

/-- The integer that a double stands for, rounded toward zero. -/
def truncate (negative : Bool) (significand : Nat) (exponent : Int) : Int :=
  let magnitude : Nat :=
    if exponent < 0 then significand / 2 ^ exponent.natAbs else significand * 2 ^ exponent.natAbs
  if negative then -(magnitude : Int) else magnitude

/-- Whether a finite double is an integer. -/
def isIntegral (significand : Nat) (exponent : Int) : Bool :=
  0 ≤ exponent || significand % 2 ^ exponent.natAbs == 0

/-- The integer that a double equals, if it equals one. -/
def toInt? : Binary64 → Option Int
  | .finite negative significand exponent =>
    if isIntegral significand exponent then some (truncate negative significand exponent) else none
  | _ => none

/-- The greatest integer at most the double. -/
def floor (negative : Bool) (significand : Nat) (exponent : Int) : Int :=
  let t := truncate negative significand exponent
  if negative && !isIntegral significand exponent then t - 1 else t

/-- The least integer at least the double. -/
def ceil (negative : Bool) (significand : Nat) (exponent : Int) : Int :=
  let t := truncate negative significand exponent
  if !negative && !isIntegral significand exponent then t + 1 else t

end Binary64

/-! ## Rounding to a double -/

/-- A quotient rounded to the nearest natural, a half to the even neighbour. -/
def divHalfEven (num den : Nat) : Nat :=
  let q := num / den
  let r := num % den
  if 2 * r > den || (2 * r == den && q % 2 == 1) then q + 1 else q

/-- The quotient `num / (den · 2 ^ e)` rounded to a natural. -/
def scaledQuotient (num den : Nat) (e : Int) : Nat :=
  if e < 0 then divHalfEven (num * 2 ^ e.natAbs) den else divHalfEven num (den * 2 ^ e.natAbs)

/-- The exponent of the last place of a quotient's significand: fifty-three bits, but no place
below `2 ^ -1074`. -/
def lastPlace (num den : Nat) : Int :=
  let guess : Int := (num.log2 : Int) - den.log2 - 52
  let fits : Bool :=
    if guess < 0 then den * Binary64.leastNormal ≤ num * 2 ^ guess.natAbs
    else den * 2 ^ guess.natAbs * Binary64.leastNormal ≤ num
  max (if fits then guess else guess - 1) (-1074)

/-- The bits of the double nearest to `num / den`; `none` beyond the largest double. -/
def ratioBits? (num den : Nat) : Option Nat :=
  if num == 0 then some 0
  else
    let e := lastPlace num den
    let q := scaledQuotient num den e
    let (q, e) := if q == 2 * Binary64.leastNormal then (Binary64.leastNormal, e + 1) else (q, e)
    if q < Binary64.leastNormal then some q
    else if e > 971 then none
    else some ((e + 1075).toNat * Binary64.leastNormal + (q - Binary64.leastNormal))

/-- The double nearest to a signed quotient; `none` beyond the largest double. -/
def ofRatio? (negative : Bool) (num den : Nat) : Option Float :=
  (ratioBits? num den).map fun bits =>
    Float.ofBits (UInt64.ofNat (if negative then bits + Binary64.signWeight else bits))

/-- The double nearest to an integer; `none` beyond the largest double. -/
def ofInt? (n : Int) : Option Float :=
  ofRatio? (n < 0) n.natAbs 1

/-- The infinite double of a sign. -/
def infinity (negative : Bool) : Float :=
  Float.ofBits (if negative then 0xFFF0000000000000 else 0x7FF0000000000000)

/-- The double that is no number. -/
def notANumber : Float :=
  Float.ofBits 0x7FF8000000000000

/-! ## Reading a decimal -/

/-- The double nearest to `digits · 10 ^ exponent`, infinite beyond the largest double.  Exponents
far outside the range of doubles are settled without computing the power. -/
def ofDecimal (negative : Bool) (digits : Nat) (exponent : Int) : Float :=
  let ratio : Option Float :=
    if digits == 0 || exponent + digits.log2 / 3 + 1 < -330 then ofRatio? negative 0 1
    else if exponent > 310 then none
    else if exponent < 0 then ofRatio? negative digits (10 ^ exponent.natAbs)
    else ofRatio? negative (digits * 10 ^ exponent.natAbs) 1
  ratio.getD (infinity negative)

end Chronicle.Number
