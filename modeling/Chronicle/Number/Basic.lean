import Chronicle.Fault

/-!
# Numbers

A number is an exact integer or a double.  Integral doubles below `2 ^ 53` and integers are kept
apart by `normalize`, after which four halves and two are the same number.  Comparison is exact
across the two kinds, since both are dyadic rationals; arithmetic on two integers is exact, and
otherwise takes place between doubles.
-/

set_option autoImplicit false

namespace Chronicle

-- powers of naturals and integers are repeated products
attribute [local instance (high)] instPowNat

/-- An exact integer or a double. -/
inductive Number where
  | int (value : Int)
  | float (value : Float)

namespace Number

instance : Inhabited Number := ⟨.int 0⟩

/-- The least integer magnitude from which doubles no longer tell neighbouring integers apart. -/
def safeBound : Nat := 2 ^ (53 : Nat)

/-- The double that is no number. -/
def nan : Number := .float notANumber

/-- The infinity of a sign. -/
def inf (negative : Bool) : Number := .float (infinity negative)

/-- A truth value counted as a number. -/
def ofBool (b : Bool) : Number := .int (if b then 1 else 0)

/-! ## Normal form -/

/-- The integer that a double stands for in normal form: an integral double below `2 ^ 53`. -/
def safeInteger? (x : Float) : Option Int :=
  (Binary64.ofFloat x).toInt?.filter fun n => n.natAbs < safeBound

/-- The normal form: integral doubles below `2 ^ 53` become integers. -/
def normalize : Number → Number
  | .int n => .int n
  | .float x =>
    match safeInteger? x with
    | some n => .int n
    | none => .float x

/-- Numbers in normal form: integers, and doubles that are not integral or at least `2 ^ 53`. -/
def IsNormal : Number → Prop
  | .int _ => True
  | .float x => safeInteger? x = none

/-- Normalization gives a normal form. -/
theorem isNormal_normalize (n : Number) : n.normalize.IsNormal := by
  cases n with
  | int n => trivial
  | float x =>
    simp only [normalize]
    split
    · trivial
    · assumption

/-- A normal form is its own normal form. -/
theorem normalize_of_isNormal {n : Number} (h : n.IsNormal) : n.normalize = n := by
  cases n with
  | int n => rfl
  | float x =>
    have h : safeInteger? x = none := h
    simp [normalize, h]

/-! ## Exact order -/

/-- The exact value of a number. -/
inductive Exact where
  | nan
  | infinite (negative : Bool)
  /-- `numerator · 2 ^ exponent`. -/
  | dyadic (numerator exponent : Int)

/-- The exact value of a number. -/
def exact : Number → Exact
  | .int n => .dyadic n 0
  | .float x =>
    match Binary64.ofFloat x with
    | .nan => .nan
    | .infinite negative => .infinite negative
    | .finite negative significand exponent =>
      .dyadic (if negative then -(significand : Int) else significand) exponent

/-- The order of two exact values; `none` when one of them is no number. -/
def Exact.compare? : Exact → Exact → Option Ordering
  | .nan, _ | _, .nan => none
  | .infinite a, .infinite b =>
    some (if a == b then .eq else if a then .lt else .gt)
  | .infinite a, .dyadic .. => some (if a then .lt else .gt)
  | .dyadic .., .infinite b => some (if b then .gt else .lt)
  | .dyadic m d, .dyadic n e =>
    let low := min d e
    some (compare (m * 2 ^ (d - low).toNat) (n * 2 ^ (e - low).toNat))

/-- The order of two numbers; `none` when one of them is no number. -/
def compare? (a b : Number) : Option Ordering :=
  a.exact.compare? b.exact

/-- Equality of numbers; nothing equals the number that is none. -/
def equals (a b : Number) : Bool := a.compare? b == some .eq

/-- Whether one number is less than another. -/
def less (a b : Number) : Bool := a.compare? b == some .lt

/-- Whether one number is at most another. -/
def atMost (a b : Number) : Bool := a.less b || a.equals b

/-- Whether a number is zero. -/
def isZero (a : Number) : Bool := a.equals (.int 0)

/-- Whether a number is below zero. -/
def isNegative (a : Number) : Bool := a.less (.int 0)

/-- Whether a number is no number, of either kind. -/
def isNaN (a : Number) : Bool :=
  match a.exact with
  | .nan => true
  | _ => false

/-- Whether a number is infinite. -/
def isInfinite (a : Number) : Bool :=
  match a.exact with
  | .infinite _ => true
  | _ => false

/-! ## Between the kinds -/

/-- The number as a double; integers beyond the largest double have none. -/
def toFloat : Number → Except Fault Float
  | .int n =>
    match ofInt? n with
    | some x => .ok x
    | none => .error .integerToFloat
  | .float x => .ok x

/-- The integer part of a number. -/
def truncate : Number → Except Fault Int
  | .int n => .ok n
  | .float x =>
    match Binary64.ofFloat x with
    | .nan => .error .nanToInteger
    | .infinite _ => .error .infinityToInteger
    | .finite negative significand exponent =>
      .ok (Binary64.truncate negative significand exponent)

/-- Whether a number equals an integer. -/
def isIntegral : Number → Bool
  | .int _ => true
  | .float x => (Binary64.ofFloat x).toInt?.isSome

/-- Whether a number is no number, asked of its double: an integer beyond the largest double is a
fault. -/
def floatIsNaN (a : Number) : Except Fault Bool := do
  let _ ← a.toFloat
  return a.isNaN

/-- Whether a number is infinite, asked of its double. -/
def floatIsInfinite (a : Number) : Except Fault Bool := do
  let _ ← a.toFloat
  return a.isInfinite

/-! ## Text -/

/-- The text of a number: its normal form in decimal, or the name of a special value. -/
def text (n : Number) : Except Fault String :=
  match n with
  | .int n => writeInt n
  | .float x =>
    match Binary64.ofFloat x with
    | .nan => .ok "NaN"
    | .infinite negative => .ok (if negative then "-Infinity" else "Infinity")
    | .finite .. =>
      match safeInteger? x with
      | some n => .ok (intText n)
      | none => .ok (floatText x)

end Number

end Chronicle
