import Chronicle.Error
import Chronicle.Method.Number
import Chronicle.Method.Sequence
import Chronicle.Method.Text

/-!
# Calling a built-in method

The methods by the kind of their receiver.  A method that faults on a value or on the form of an
operand fails the call; a result outside the range of its representation is a fault of the run.
-/

set_option autoImplicit false

namespace Chronicle.Method

/-- The built-in method of a name for a receiver, applied to arguments. -/
def find? (h : Heap) (receiver : Value) (method : String) (args : List Value) : Option Outcome :=
  match receiver with
  | .sequence a => (OfSequence.ofName? method).map (OfSequence.apply h a args)
  | .text s => (OfText.ofName? method).map (OfText.apply h s args)
  | .number n => (OfNumber.ofName? method).map (OfNumber.apply h n args)
  | .record a => (OfRecord.ofName? method).map (OfRecord.apply h a args)
  | _ => none

/-- Whether a fault fails the call and not the whole run. -/
def failsCall (f : Fault) : Bool :=
  match f.nature with
  | .value | .form => true
  | _ => false

/-- A method call on a receiver: its value and the heap after it. -/
def call (h : Heap) (receiver : Value) (method : String) (args : List Value)
    (location : Option Location) : Except Stop (Value × Heap) :=
  match find? h receiver method args with
  | none =>
    .error (.because (.unsupportedCall
      ("Unsupported call: " ++ method ++ "() on " ++ receiver.kind.name)) location)
  | some (.ok result) => .ok result
  | some (.error f) =>
    if failsCall f then
      .error (.because (.unsupportedCall
        ("Call " ++ method ++ "() on " ++ receiver.kind.name ++ " failed: " ++ f.message)) location)
    else .error (.fault f)

end Chronicle.Method
