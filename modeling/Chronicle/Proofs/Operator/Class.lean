import Chronicle.Operator.Binary

/-!
# How arithmetic reads its operands

Of the arithmetic operators only sums have a second reading: they are taken of texts where an operand
is a text, a sequence or a record (`Heap.binary_sum`).  All others, and sums of anything else, are
taken of numbers (`Heap.binary_arithmetic`).
-/

set_option autoImplicit false

namespace Chronicle

/-- Whether a value is added as a text. -/
def Value.IsTextual (v : Value) : Prop :=
  v.kind = .text ∨ v.kind = .sequence ∨ v.kind = .record

theorem Value.isNumberLike_eq_false {v : Value} : v.kind.isNumberLike = false ↔ v.IsTextual := by
  unfold IsTextual
  cases v <;> simp [kind, Kind.isNumberLike]

section
variable {symbol : String} {op : Arithmetic}
  (hop : BinaryOp.ofSymbol? symbol = some (.arithmetic op))
include hop

theorem OperandClass.of_arithmetic (a b : Value) :
    OperandClass.of symbol a.kind b.kind = .text ↔ op = .add ∧ (a.IsTextual ∨ b.IsTextual) := by
  rw [← Value.isNumberLike_eq_false, ← Value.isNumberLike_eq_false]
  unfold OperandClass.of
  rw [hop]
  cases op with
  | add => cases a.kind.isNumberLike <;> cases b.kind.isNumberLike <;> simp
  | _ => simp

/-- A sum with a text, a sequence or a record is one of texts. -/
theorem Heap.binary_sum (h : Heap) {a b : Value}
    (htext : op = .add ∧ (a.IsTextual ∨ b.IsTextual)) :
    h.binary symbol a b = orFault (do
      let s ← h.text a
      let t ← h.text b
      return .text (s ++ t)) := by
  unfold Heap.binary
  rw [hop]
  dsimp only
  rw [(OperandClass.of_arithmetic hop a b).2 htext]

/-- Other arithmetic is on numbers. -/
theorem Heap.binary_arithmetic (h : Heap) {a b : Value}
    (hnumeric : ¬ (op = .add ∧ (a.IsTextual ∨ b.IsTextual))) :
    h.binary symbol a b = orOperatorError symbol a b (do
      let m ← h.toNumber a
      let n ← h.toNumber b
      return .number (← op.apply m n).normalize) := by
  unfold Heap.binary
  rw [hop]
  dsimp only
  cases hclass : OperandClass.of symbol a.kind b.kind with
  | text => exact absurd ((OperandClass.of_arithmetic hop a b).1 hclass) hnumeric
  | numeric => rfl

end

end Chronicle
