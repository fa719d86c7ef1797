import Chronicle.Error
import Chronicle.Method.Argument

/-!
# Global objects

The functions of `Math` on one number, and `console.log`, whose output is kept in the log.
-/

set_option autoImplicit false

namespace Chronicle.Method

/-- Functions on one number. -/
inductive MathFunction where
  | floor | ceil | round | abs | sqrt | trunc | sign
  deriving DecidableEq, Repr

namespace MathFunction

/-- The function of a name. -/
def ofName? : String → Option MathFunction
  | "floor" => some .floor
  | "ceil" => some .ceil
  | "round" => some .round
  | "abs" => some .abs
  | "sqrt" => some .sqrt
  | "trunc" => some .trunc
  | "sign" => some .sign
  | _ => none

/-- A rounding of doubles to integers, which leaves integers alone. -/
def toInteger (f : Bool → Nat → Int → Int) (n : Number) : Number :=
  match n with
  | .int n => .int n
  | .float x =>
    match Number.Binary64.ofFloat x with
    | .finite negative significand exponent => .int (f negative significand exponent)
    | _ => .float x

/-- The value of a function at a finite number.  Rounding takes the floor of the double half a unit
above. -/
def atFinite (n : Number) : MathFunction → Except Fault Number
  | .floor => .ok (toInteger Number.Binary64.floor n)
  | .ceil => .ok (toInteger Number.Binary64.ceil n)
  | .trunc => .ok (toInteger Number.Binary64.truncate n)
  | .round => do
    let x ← n.toFloat
    return toInteger Number.Binary64.floor (.float (x + 0.5))
  | .abs => .ok (match n with
    | .int n => .int n.natAbs
    | .float x => .float x.abs)
  | .sqrt =>
    if n.isNegative then .ok Number.nan else do return .float (← n.toFloat).sqrt
  | .sign => .ok (.int (if n.isNegative then -1 else if n.isZero then 0 else 1))

/-- The value of a function at a number; special values are their own. -/
def apply (f : MathFunction) (n : Number) : Except Fault Number := do
  if (← n.floatIsNaN) || n.isInfinite then return n
  return (← f.atFinite n).normalize

end MathFunction

/-- The names of the global objects. -/
def isGlobal (name : String) : Bool :=
  name == "Math" || name == "console"

/-- What a global function gives. -/
inductive GlobalResult where
  | value (value : Value)
  /-- A line for the log; the value is `undefined`. -/
  | logged (line : String)

/-- A function of a global object applied to arguments. -/
def callGlobal (h : Heap) (object method : String) (args : List Value)
    (location : Option Location) : Except Stop GlobalResult :=
  let unsupported : Stop :=
    .because (.unsupportedCall ("Unsupported call: " ++ object ++ "." ++ method)) location
  let ofFault {α : Type} : Except Fault α → Except Stop α := fun
    | .ok x => .ok x
    | .error f => .error (.fault f)
  match object with
  | "Math" =>
    match MathFunction.ofName? method with
    | none => .error unsupported
    | some f => ofFault do
      let n ← h.toNumber (argument args 0)
      return .value (.number (← f.apply n))
  | "console" =>
    if method == "log" then ofFault do
      return .logged (Text.join " " (← args.mapM h.text))
    else .error unsupported
  | _ => .error unsupported

end Chronicle.Method
