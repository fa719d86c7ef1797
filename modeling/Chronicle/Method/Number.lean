import Chronicle.Method.Argument
import Chronicle.Number.Radix

/-!
# Methods of numbers and records

Numbers are written with a set number of places or in another base; records answer whether they have
a field.
-/

set_option autoImplicit false

namespace Chronicle.Method

/-- The methods of numbers. -/
inductive OfNumber where
  | toFixed | toString
  deriving DecidableEq, Repr

namespace OfNumber

/-- The method of a name. -/
def ofName? : String → Option OfNumber
  | "toFixed" => some .toFixed
  | "toString" => some .toString
  | _ => none

/-- A number with zero to a hundred places after the point. -/
def fixed (n places : Number) : Except Fault String := do
  let places ← places.truncate
  if 0 ≤ places && places ≤ 100 then
    return Number.fixedText places.toNat (← n.toFloat)
  else .error (.fixedPlaces (← Number.writeInt places))

/-- A number in a base: any number in base ten, integers in bases from two to thirty-six. -/
def inBase (n base : Number) : Except Fault String := do
  if base.equals (.int 10) then n.text
  else
    let base ← base.truncate
    let unsupported : Bool ←
      if 2 ≤ base && base ≤ 36 then do
        let _ ← n.toFloat
        pure !n.isIntegral
      else pure true
    if unsupported then .error (.radix (← Number.writeInt base))
    else return Number.radixText base.toNat (← n.truncate)

/-- A method applied to a number. -/
def apply (h : Heap) (n : Number) (args : List Value) : OfNumber → Outcome
  | .toFixed => do
    let places ← h.toNumber (args.getD 0 (.int 0))
    return (.text (← fixed n places), h)
  | .toString =>
    match argument args 0 with
    | .undefined => do return (.text (← n.text), h)
    | v => do return (.text (← inBase n (← h.toNumber v)), h)

end OfNumber

/-- The methods of records. -/
inductive OfRecord where
  | hasOwnProperty
  deriving DecidableEq, Repr

namespace OfRecord

/-- The method of a name. -/
def ofName? : String → Option OfRecord
  | "hasOwnProperty" => some .hasOwnProperty
  | _ => none

/-- A method applied to the record at an address. -/
def apply (h : Heap) (a : Address) (args : List Value) : OfRecord → Outcome
  | .hasOwnProperty => do
    return (.boolean ((h.fields a).get? (← h.text (argument args 0))).isSome, h)

end OfRecord

end Chronicle.Method
