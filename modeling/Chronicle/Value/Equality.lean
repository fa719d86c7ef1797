import Chronicle.Value.Coercion

/-!
# Equality

Strict equality compares values of one kind: data by content, sequences and records by identity.
Loose equality first brings operands of different kinds to one kind.
-/

set_option autoImplicit false

namespace Chronicle

/-- Strict equality. -/
def Value.strictEquals : Value → Value → Bool
  | .number a, .number b => a.equals b
  | .text a, .text b => a == b
  | .boolean a, .boolean b => a == b
  | .null, .null => true
  | .undefined, .undefined => true
  | .sequence a, .sequence b => a == b
  | .record a, .record b => a == b
  | _, _ => false

/-- How many steps of coercion a value is away from a number or a text. -/
def Value.rank : Value → Nat
  | .boolean _ | .sequence _ | .record _ => 1
  | _ => 0

/-- Loose equality.  Values of one kind are compared strictly; `null` and `undefined` equal each
other and nothing else; truth values count as numbers, sequences and records as their texts, and a
number meets a text as numbers. -/
def Heap.looseEquals (h : Heap) (a b : Value) : Except Fault Bool :=
  if a.kind == b.kind then .ok (a.strictEquals b)
  else if a.isNullish || b.isNullish then .ok (a.isNullish && b.isNullish)
  else match a, b with
    | .boolean x, b => looseEquals h (.number (Number.ofBool x)) b
    | a, .boolean y => looseEquals h a (.number (Number.ofBool y))
    | .number m, .text t => .ok (m.normalize.equals (Number.ofText t))
    | .text s, .number n => .ok ((Number.ofText s).equals n.normalize)
    | .sequence r, b =>
      match h.text (.sequence r) with
      | .ok s => looseEquals h (.text s) b
      | .error e => .error e
    | .record r, b =>
      match h.text (.record r) with
      | .ok s => looseEquals h (.text s) b
      | .error e => .error e
    | a, .sequence r =>
      match h.text (.sequence r) with
      | .ok t => looseEquals h a (.text t)
      | .error e => .error e
    | a, .record r =>
      match h.text (.record r) with
      | .ok t => looseEquals h a (.text t)
      | .error e => .error e
    | _, _ => .ok false
termination_by a.rank + b.rank
decreasing_by all_goals simp [Value.rank]

end Chronicle
