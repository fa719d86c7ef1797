import Chronicle.Error
import Chronicle.Method.Text

/-!
# Properties

Reading and writing `receiver[key]`.  Sequences and texts have a length and elements by index,
records have fields by name.  A write past the end of a sequence fills the gap with `undefined`.
-/

set_option autoImplicit false

namespace Chronicle

-- powers of naturals and integers are repeated products
attribute [local instance (high)] instPowNat

/-- The index that a key addresses: a natural number, or a text of digits.  Digits that form no
numeral are a fault. -/
def Value.index? : Value → Except Fault (Option Nat)
  | .text s =>
    if s.isEmpty || !s.toList.all Text.isDigit then .ok none
    else (Number.readDecimal s).map fun n => some n.toNat
  | .number (.int n) => .ok (if 0 ≤ n then some n.toNat else none)
  | .number (.float x) =>
    match (Number.Binary64.ofFloat x).toInt? with
    | some n => .ok (if 0 ≤ n then some n.toNat else none)
    | none => .ok none
  | _ => .ok none

namespace Heap

/-- The element that a key addresses in a list, or its length. -/
def elementAt (name : String) (key : Value) (length : Nat) (get : Nat → Option Value) :
    Except Fault Value := do
  if name == "length" then return .int length
  match ← key.index? with
  | some i => return (get i).getD .undefined
  | none => return .undefined

/-- The value of a property.  Reading one of `null` or `undefined` is an error. -/
def getProperty (h : Heap) (receiver key : Value) (location : Option Location) :
    Except Stop Value := do
  match h.text key with
  | .error f => .error (.fault f)
  | .ok name =>
    let answer (r : Except Fault Value) : Except Stop Value :=
      match r with
      | .ok v => .ok v
      | .error f => .error (.fault f)
    match receiver with
    | .null =>
      .error (.because (.propertyAccess
        ("Cannot read property " ++ Text.quoted name ++ " of null")) location)
    | .undefined =>
      .error (.because (.propertyAccess
        ("Cannot read property " ++ Text.quoted name ++ " of undefined")) location)
    | .sequence a =>
      let items := h.items a
      answer (elementAt name key items.length (items[·]?))
    | .text s =>
      let cs := s.toList
      answer (elementAt name key cs.length fun i => (cs[i]?).map fun c => .text (String.ofList [c]))
    | .record a => .ok (((h.fields a).get? name).getD .undefined)
    | .number _ | .boolean _ => .ok .undefined

/-- The elements after a write at an index; a gap before it is filled with `undefined`. -/
def writeAt (items : List Value) (i : Nat) (v : Value) : List Value :=
  if i < items.length then items.set i v
  else items ++ List.replicate (i - items.length) .undefined ++ [v]

/-- Sequences do not grow to this length. -/
def lengthLimit : Nat := 2 ^ (28 : Nat)

/-- The heap after a write to a property.  Only records take any name, and sequences an index. -/
def setProperty (h : Heap) (receiver key v : Value) (location : Option Location) :
    Except Stop Heap := do
  let refuse (what : String → String) : Except Stop Heap :=
    match h.text key with
    | .ok name => .error (.because (.propertyAccess (what (Text.quoted name))) location)
    | .error f => .error (.fault f)
  match receiver with
  | .record a =>
    match h.text key with
    | .ok name => .ok (h.setFields a ((h.fields a).insert name v))
    | .error f => .error (.fault f)
  | .sequence a =>
    match key.index? with
    | .error f => .error (.fault f)
    | .ok none => refuse fun name => "Cannot set non-index property " ++ name ++ " on a sequence"
    | .ok (some i) =>
      if (h.items a).length + lengthLimit ≤ i then .error (.fault .indexSize)
      else .ok (h.setItems a (writeAt (h.items a) i v))
  | other => refuse fun name => "Cannot set property " ++ name ++ " on " ++ other.kind.name

end Heap

end Chronicle
