import Chronicle.Number.Binary64

/-!
# The fewest digits that read back

The decimal digits that stand for a double: as few as identify it, and of that many the ones
nearest to it.  The reals that round to a double form an interval whose ends belong to it exactly
when its significand is even; for one, two, up to seventeen digits the two neighbours of the double
on that decimal grid are tested against the interval in exact arithmetic.
-/

set_option autoImplicit false

namespace Chronicle.Number

-- powers of naturals and integers are repeated products
attribute [local instance (high)] instPowNat

/-- A positive decimal `digits · 10 ^ exponent`. -/
structure Decimal where
  digits : Nat
  exponent : Int
  deriving DecidableEq, Repr

/-- The reals that round to `significand · 2 ^ exponent`, as a quarter-unit interval: the double is
`4 · significand` units of `2 ^ (exponent - 2)`, and `low`, `high` are its ends in those units. -/
structure RoundingInterval where
  low : Nat
  value : Nat
  high : Nat
  closed : Bool
  unit : Int

namespace RoundingInterval

/-- The interval of a positive finite double.  Below a power of two the gap is half as wide. -/
def ofFinite (significand : Nat) (exponent : Int) : RoundingInterval where
  low := 4 * significand -
    (if significand == Binary64.leastNormal && exponent > -1074 then 1 else 2)
  value := 4 * significand
  high := 4 * significand + 2
  closed := significand % 2 == 0
  unit := exponent - 2

/-- Numerator and denominator that bring `units · 2 ^ unit` and `d · 10 ^ e` to one scale: the first
is `units · num`, the second `d · den`. -/
def scales (unit e : Int) : Nat × Nat :=
  let num := (if unit < 0 then 1 else 2 ^ unit.natAbs) * (if e < 0 then 10 ^ e.natAbs else 1)
  let den := (if unit < 0 then 2 ^ unit.natAbs else 1) * (if e < 0 then 1 else 10 ^ e.natAbs)
  (num, den)

/-- Whether `d · 10 ^ e` lies in the interval. -/
def holds (i : RoundingInterval) (d : Nat) (e : Int) : Bool :=
  let (num, den) := scales i.unit e
  if i.closed then i.low * num ≤ d * den && d * den ≤ i.high * num
  else i.low * num < d * den && d * den < i.high * num

/-- The candidate on the grid `10 ^ e`: the nearer of the value's two neighbours in the interval,
the even one when both are equally near. -/
def candidate? (i : RoundingInterval) (e : Int) : Option Nat :=
  let (num, den) := scales i.unit e
  let below := i.value * num / den
  let above := below + 1
  match below != 0 && i.holds below e, i.holds above e with
  | true, false => some below
  | false, true => some above
  | false, false => none
  | true, true =>
    let toBelow := i.value * num - below * den
    let toAbove := above * den - i.value * num
    if toBelow < toAbove || (toBelow == toAbove && below % 2 == 0) then some below else some above

/-- The least `k` with the value below `10 ^ k`, sought upward from `k`. -/
def magnitudeFrom (i : RoundingInterval) : Nat → Int → Int
  | 0, k => k
  | fuel + 1, k =>
    let (num, den) := scales i.unit k
    if i.value * num < den then k else magnitudeFrom i fuel (k + 1)

/-- The number of digits before the point of the value; not positive for values below one tenth. -/
def magnitude (i : RoundingInterval) : Int :=
  let log2 : Int := (i.value.log2 : Int) + i.unit
  magnitudeFrom i 8 (log2 * 30103 / 100000 - 2)

/-- The first candidate on grids of `n`, `n + 1`, … digits. -/
def search (i : RoundingInterval) (k : Int) : Nat → Nat → Option Decimal
  | 0, _ => none
  | fuel + 1, n =>
    match i.candidate? (k - n) with
    | some d => some ⟨d, k - n⟩
    | none => search i k fuel (n + 1)

end RoundingInterval

/-- A decimal without trailing zeros. -/
def Decimal.strip : Nat → Decimal → Decimal
  | 0, d => d
  | fuel + 1, d =>
    if d.digits != 0 && d.digits % 10 == 0 then strip fuel ⟨d.digits / 10, d.exponent + 1⟩ else d

/-- The shortest decimal of a positive finite double; the exact value were none to be found. -/
def shortest (significand : Nat) (exponent : Int) : Decimal :=
  let i := RoundingInterval.ofFinite significand exponent
  match i.search i.magnitude 17 1 with
  | some d => d.strip 32
  | none =>
    if exponent < 0 then ⟨significand * 5 ^ exponent.natAbs, exponent⟩
    else ⟨significand * 2 ^ exponent.natAbs, 0⟩

end Chronicle.Number
