import Chronicle.Operator.Unary
import Chronicle.Proofs.Number.Word
import Chronicle.Proofs.Operator.Class

/-!
# Operators on integers

The arithmetic operators on two integers below `2 ^ 1000` in magnitude.  The operators on bits are
the operations on their words, read as signed integers, and shifts go by the count modulo the length
of a word; sums, differences and products are exact; a remainder has the sign of the dividend
(`integers_operate`).
-/

set_option autoImplicit false

namespace Chronicle

-- powers of naturals and integers are repeated products
attribute [local instance (high)] instPowNat

open Word

/-! ## Operators on words -/

namespace Arithmetic

variable {a b : Int} (ha : (Number.int a).IsModerate) (hb : (Number.int b).IsModerate)
include ha hb

theorem bitAnd_int :
    bitAnd.apply (.int a) (.int b) = .ok (.int (signed (residue a &&& residue b))) := by
  refine (Number.bitwise_int ha hb (· && ·)).trans ?_
  rw [← Bits.land, residue_land, Number.residue_wrap, Number.residue_wrap]

theorem bitOr_int :
    bitOr.apply (.int a) (.int b) = .ok (.int (signed (residue a ||| residue b))) := by
  refine (Number.bitwise_int ha hb (· || ·)).trans ?_
  rw [← Bits.lor, residue_lor, Number.residue_wrap, Number.residue_wrap]

theorem bitXor_int :
    bitXor.apply (.int a) (.int b) = .ok (.int (signed (residue a ^^^ residue b))) := by
  refine (Number.bitwise_int ha hb (· != ·)).trans ?_
  rw [← Bits.lxor, residue_lxor, Number.residue_wrap, Number.residue_wrap]

end Arithmetic

/-! ## From symbols to results -/

/-- An arithmetic operator on integers gives what its operation gives. -/
theorem Heap.binary_integers (h : Heap) (op : Arithmetic) {symbol : String}
    (hop : BinaryOp.ofSymbol? symbol = some (.arithmetic op)) {a b r : Int}
    (hr : op.apply (.int a) (.int b) = .ok (.int r)) :
    h.binary symbol (.int a) (.int b) = .ok (.int r) := by
  have hnumeric : ∀ n, ¬ (Value.int n).IsTextual := fun n => by
    simp [Value.IsTextual, Value.int, Value.kind]
  rw [binary_arithmetic hop h fun htext => htext.2.elim (hnumeric a) (hnumeric b)]
  show orOperatorError symbol _ _ (do
    return Value.number (← op.apply (.int a) (.int b)).normalize) = _
  rw [hr]
  rfl

/-- What the arithmetic operators make of two integers. -/
theorem integers_operate (h : Heap) {a b : Int} (ha : a.natAbs < Number.moderateBound)
    (hb : b.natAbs < Number.moderateBound) :
    h.binary "&" (.int a) (.int b) = .ok (.int (signed (residue a &&& residue b))) ∧
    h.binary "|" (.int a) (.int b) = .ok (.int (signed (residue a ||| residue b))) ∧
    h.binary "^" (.int a) (.int b) = .ok (.int (signed (residue a ^^^ residue b))) ∧
    h.unary "~" (.int a) = .ok (.int (signed (2 ^ 32 - 1 - residue a))) ∧
    h.binary "<<" (.int a) (.int b) =
      .ok (.int (signed (residue a * 2 ^ (b % 32).toNat % 2 ^ 32))) ∧
    h.binary ">>" (.int a) (.int b) = .ok (.int (signed (residue a) / 2 ^ (b % 32).toNat)) ∧
    h.binary ">>>" (.int a) (.int b) = .ok (.int (residue a / 2 ^ (b % 32).toNat : Nat)) ∧
    h.binary "+" (.int a) (.int b) = .ok (.int (a + b)) ∧
    h.binary "-" (.int a) (.int b) = .ok (.int (a - b)) ∧
    h.binary "*" (.int a) (.int b) = .ok (.int (a * b)) ∧
    (b ≠ 0 → ∃ r, h.binary "%" (.int a) (.int b) = .ok (.int r) ∧
      b ∣ a - r ∧ r.natAbs < b.natAbs ∧ (r = 0 ∨ r.sign = a.sign)) := by
  refine ⟨h.binary_integers .bitAnd rfl (Arithmetic.bitAnd_int ha hb),
    h.binary_integers .bitOr rfl (Arithmetic.bitOr_int ha hb),
    h.binary_integers .bitXor rfl (Arithmetic.bitXor_int ha hb), ?_,
    h.binary_integers .shiftLeft rfl (Number.shiftLeft_int ha hb),
    h.binary_integers .shiftRight rfl (Number.shiftRight_int ha hb),
    h.binary_integers .shiftRightZero rfl (Number.shiftRightZero_int ha hb),
    h.binary_integers .add rfl rfl, h.binary_integers .subtract rfl rfl,
    h.binary_integers .multiply rfl rfl, fun hzero => ?_⟩
  · show orFault (do return Value.number (← (Number.int a).complement)) = _
    rw [Number.complement_int ha]
    rfl
  · refine ⟨Number.intRemainder a b, ?_, Number.intRemainder_characterized a hzero⟩
    exact h.binary_integers .remainder rfl (Number.remainder_int ha hb hzero)

/-- The word of `-5` is all ones but for the third bit, and a shift by `35` is one by `3`. -/
theorem integers_operate_negative :
    Heap.empty.binary "&" (.int (-5)) (.int 35) = .ok (.int 35) ∧
    Heap.empty.unary "~" (.int (-5)) = .ok (.int 4) ∧
    Heap.empty.binary "<<" (.int (-5)) (.int 35) = .ok (.int (-40)) ∧
    Heap.empty.binary ">>" (.int (-5)) (.int 35) = .ok (.int (-1)) ∧
    Heap.empty.binary ">>>" (.int (-5)) (.int 35) = .ok (.int 536870911) ∧
    ∃ r, Heap.empty.binary "%" (.int (-5)) (.int 35) = .ok (.int r) ∧ 35 ∣ -5 - r ∧
      r.natAbs < 35 ∧ (r = 0 ∨ r.sign = -1) := by
  obtain ⟨hand, -, -, hnot, hleft, hright, hzero, -, -, -, hremainder⟩ :=
    integers_operate Heap.empty (a := -5) (b := 35) (Number.lt_moderateBound (by decide))
      (Number.lt_moderateBound (by decide))
  exact ⟨hand, hnot, hleft, hright, hzero, hremainder (by decide)⟩

end Chronicle
