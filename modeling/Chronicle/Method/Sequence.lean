import Chronicle.Method.Argument

/-!
# Methods of sequences

Some of them change the sequence in place: `push`, `pop`, `shift`, `unshift` and `reverse`.
-/

set_option autoImplicit false

namespace Chronicle.Method

/-- The methods of sequences. -/
inductive OfSequence where
  | push | pop | shift | unshift | indexOf | includes | join | concat | slice | reverse
  deriving DecidableEq, Repr

namespace OfSequence

/-- The method of a name. -/
def ofName? : String → Option OfSequence
  | "push" => some .push
  | "pop" => some .pop
  | "shift" => some .shift
  | "unshift" => some .unshift
  | "indexOf" => some .indexOf
  | "includes" => some .includes
  | "join" => some .join
  | "concat" => some .concat
  | "slice" => some .slice
  | "reverse" => some .reverse
  | _ => none

/-- The position of the first element strictly equal to a value. -/
def indexOf? (items : List Value) (target : Value) : Option Nat :=
  items.findIdx? (·.strictEquals target)

/-- The texts of elements, empty for `null` and `undefined`, with a separator between. -/
def joined (h : Heap) (items : List Value) (separator : Value) : Except Fault String := do
  let separator ← match separator with
    | .undefined => .ok ","
    | v => h.text v
  let parts ← items.mapM fun v => if v.isNullish then .ok "" else h.text v
  return Text.join separator parts

/-- The elements followed by those of an argument: a sequence gives its elements, any other value
itself, and a missing argument nothing. -/
def concatenated (h : Heap) (items : List Value) (args : List Value) : List Value :=
  match args with
  | [] => items
  | .sequence a :: _ => items ++ h.items a
  | v :: _ => items ++ [v]

/-- A method applied to the sequence at an address. -/
def apply (h : Heap) (a : Address) (args : List Value) : OfSequence → Outcome
  | .push =>
    let items := h.items a ++ args
    .ok (.int items.length, h.setItems a items)
  | .pop =>
    let items := h.items a
    .ok (items.getLast?.getD .undefined, h.setItems a items.dropLast)
  | .shift =>
    let items := h.items a
    .ok (items.head?.getD .undefined, h.setItems a items.tail)
  | .unshift =>
    let items := args ++ h.items a
    .ok (.int items.length, h.setItems a items)
  | .indexOf =>
    let i := match indexOf? (h.items a) (argument args 0) with
      | some i => (i : Int)
      | none => -1
    .ok (.int i, h)
  | .includes => .ok (.boolean (indexOf? (h.items a) (argument args 0)).isSome, h)
  | .join => return (.text (← joined h (h.items a) (argument args 0)), h)
  | .concat => .ok (h.newSequence (concatenated h (h.items a) args))
  | .slice => return h.newSequence (← Method.slice h args (h.items a))
  | .reverse => .ok (.sequence a, h.setItems a (h.items a).reverse)

end OfSequence

end Chronicle.Method
