import Chronicle.Number.Basic
import Chronicle.Number.Bits

/-!
# Arithmetic

Sums, products, quotients, remainders and powers of numbers.  Two integers are added, subtracted and
multiplied exactly; a quotient of integers is the double nearest to it; a power of integers is exact
while it stays below `2 ^ 53`.  In all other cases the operands become doubles first, which faults
for an integer beyond the largest double.
-/

set_option autoImplicit false

namespace Chronicle.Number

-- powers of naturals and integers are repeated products
attribute [local instance (high)] instPowNat

/-- An operation that is exact on integers and otherwise takes place between doubles. -/
def lift (onInt : Int → Int → Int) (onFloat : Float → Float → Float) :
    Number → Number → Except Fault Number
  | .int a, .int b => .ok (.int (onInt a b))
  | a, b => do
    let x ← a.toFloat
    let y ← b.toFloat
    return .float (onFloat x y)

/-- The sum. -/
def add : Number → Number → Except Fault Number := lift (· + ·) (· + ·)

/-- The difference. -/
def subtract : Number → Number → Except Fault Number := lift (· - ·) (· - ·)

/-- The product. -/
def multiply : Number → Number → Except Fault Number := lift (· * ·) (· * ·)

/-- The opposite number. -/
def negate : Number → Number
  | .int n => .int (-n)
  | .float x => .float (-x)

/-! ## Division -/

/-- Whether the sign of a number is minus, that of a zero included. -/
def signBit : Number → Bool
  | .int n => n < 0
  | .float x => x.toBits.toNat / Binary64.signWeight == 1

/-- The quotient of two integers as the nearest double. -/
def divideInts (a b : Int) : Except Fault Number :=
  match ofRatio? ((a < 0) != (b < 0)) a.natAbs b.natAbs with
  | some x => .ok (.float x)
  | none => .error .quotientToFloat

/-- The quotient.  Division by zero is infinite with the product of the signs, and no number when
the dividend is zero or no number. -/
def divide (a b : Number) : Except Fault Number := do
  if b.isZero then
    if a.isZero then return nan
    if (← a.floatIsNaN) then return nan
    return inf (a.signBit != b.signBit)
  match a, b with
  | .int m, .int n => divideInts m n
  | a, b => do
    let x ← a.toFloat
    let y ← b.toFloat
    return .float (x / y)

/-- The remainder of two finite doubles, with the sign of the dividend; it is always a double. -/
def finiteRemainder (negative : Bool) (m : Nat) (d : Int) (n : Nat) (e : Int) : Float :=
  let low := min d e
  let r := (m * 2 ^ (d - low).toNat) % (n * 2 ^ (e - low).toNat)
  let magnitude :=
    if low < 0 then ofRatio? negative r (2 ^ low.natAbs)
    else ofRatio? negative (r * 2 ^ low.natAbs) 1
  magnitude.getD notANumber

/-- The remainder of doubles that are not special, with the sign of the dividend. -/
def floatRemainder (x y : Float) : Float :=
  match Binary64.ofFloat x, Binary64.ofFloat y with
  | .finite negative m d, .finite _ n e =>
    if n == 0 then notANumber else finiteRemainder negative m d n e
  | .finite .., .infinite _ => x
  | _, _ => notANumber

/-- The remainder of the magnitudes of two integers, with the sign of the dividend. -/
def intRemainder (a b : Int) : Int :=
  let r : Int := (a.natAbs % b.natAbs : Nat)
  if 0 ≤ a then r else -r

/-- The remainder of a division that rounds toward zero; it has the sign of the dividend. -/
def remainder (a b : Number) : Except Fault Number := do
  if b.isZero then return nan
  if (← a.floatIsInfinite) then return nan
  if (← a.floatIsNaN) then return nan
  if (← b.floatIsNaN) then return nan
  match a, b with
  | .int m, .int n => return .int (intRemainder m n)
  | a, b => do
    let x ← a.toFloat
    let y ← b.toFloat
    return .float (floatRemainder x y)

/-! ## Powers -/

/-- Whether a number is an odd integer. -/
def isOdd (a : Number) : Bool :=
  match a with
  | .int n => n % 2 == 1
  | .float x =>
    match (Binary64.ofFloat x).toInt? with
    | some n => n % 2 == 1
    | none => false

/-- A power of an integer of magnitude at most one. -/
def unitPower (a : Int) (b : Nat) : Int :=
  if b == 0 then 1
  else if a == 0 then 0
  else if a == 1 then 1
  else if b % 2 == 0 then 1 else -1

/-- The exact power of two integers while it stays below `2 ^ 53`; powers of `0`, `1` and `-1` are
always exact. -/
def exactPower? (a : Int) (b : Nat) : Option Int :=
  if a.natAbs < 2 then some (unitPower a b)
  else if b < 53 && a.natAbs ^ b < safeBound then some (a ^ b)
  else none

/-- How a power of doubles comes out. -/
inductive PowerResult where
  | value (x : Float)
  /-- Beyond the largest double. -/
  | overflow
  /-- A negative power of zero. -/
  | zeroDivision

/-- The power of two doubles.  A negative base has powers with integral exponents only; any other is
no number, unless its magnitude is beyond the largest double. -/
def floatPower (x y : Float) : PowerResult :=
  let odd := isOdd (.float y)
  match Binary64.ofFloat x, Binary64.ofFloat y with
  | _, .finite _ 0 _ => .value 1.0
  | .nan, _ => .value notANumber
  | _, .nan => if x == 1.0 then .value 1.0 else .value notANumber
  | _, .infinite toZero =>
    let m := x.abs
    if m == 1.0 then .value 1.0
    else if (!toZero) == (m > 1.0) then .value (infinity false)
    else .value 0.0
  | .infinite negative, .finite toZero _ _ =>
    if toZero then .value 0.0
    else .value (infinity (negative && odd))
  | .finite _ 0 _, .finite toZero _ _ => if toZero then .zeroDivision else .value 0.0
  | .finite negative _ _, .finite _ significand exponent =>
    let m := x.abs
    if m == 1.0 && (!negative || Binary64.isIntegral significand exponent) then
      .value (if negative && odd then -1.0 else 1.0)
    else
      let p := Float.pow m y
      if p.isInf then .overflow
      else if negative && !Binary64.isIntegral significand exponent then .value notANumber
      else .value (if negative && odd then -p else p)

/-- The power, exact while it stays a small integer, else between doubles.  A power beyond the
largest double is infinite, with a minus for an odd power of a negative number. -/
def power (a b : Number) : Except Fault Number := do
  let beyond : Number := inf (a.isNegative && b.isOdd)
  let rounded : Except Fault Number :=
    match a.toFloat, b.toFloat with
    | .ok x, .ok y =>
      match floatPower x y with
      | .value z => .ok (.float z)
      | .overflow => .ok beyond
      | .zeroDivision => .ok (inf false)
    | _, _ => .ok beyond
  match a, b with
  | .int m, .int n =>
    if 0 ≤ n then
      match exactPower? m n.toNat with
      | some p => return .int p
      | none => do
        let _ ← (Number.int n).toFloat
        rounded
    else rounded
  | _, _ => rounded

/-! ## Words -/

/-- The low 32 bits of an integer, less `2 ^ 32` when the highest of them is set. -/
def wrap (n : Int) : Int :=
  let low := Bits.land n 0xFFFFFFFF
  if Bits.land low 0x80000000 != 0 then low - 0x100000000 else low

/-- The integer part of a number, wrapped to a signed word; special values count as zero. -/
def toInt32 (a : Number) : Except Fault Int := do
  if (← a.floatIsNaN) then return 0
  if (← a.floatIsInfinite) then return 0
  return wrap (← a.truncate)

/-- The word of a number as an unsigned integer. -/
def toUInt32 (a : Number) : Except Fault Int := do
  return Bits.land (← a.toInt32) 0xFFFFFFFF

/-- An operation on the signed words of two numbers, wrapped again. -/
def bitwise (f : Int → Int → Int) (a b : Number) : Except Fault Number := do
  let m ← a.toInt32
  let n ← b.toInt32
  return .int (← (Number.int (f m n)).toInt32)

/-- How far a number shifts: the low five bits of its word. -/
def shiftCount (b : Number) : Except Fault Nat := do
  return (Bits.land (← b.toUInt32) 31).toNat

/-- The bits of the signed word moved up, and wrapped again. -/
def shiftLeft (a b : Number) : Except Fault Number := do
  let m ← a.toInt32
  let k ← b.shiftCount
  return .int (← (Number.int (m <<< k)).toInt32)

/-- The bits of the signed word moved down with the sign kept. -/
def shiftRight (a b : Number) : Except Fault Number := do
  let m ← a.toInt32
  let k ← b.shiftCount
  return .int (m >>> k)

/-- The bits of the unsigned word moved down. -/
def shiftRightZero (a b : Number) : Except Fault Number := do
  let m ← a.toUInt32
  let k ← b.shiftCount
  return .int (m >>> k)

/-- The opposite bits of the signed word of a number, wrapped again. -/
def complement (a : Number) : Except Fault Number := do
  let n ← a.toInt32
  return .int (← (Number.int (~~~n)).toInt32)

end Chronicle.Number
