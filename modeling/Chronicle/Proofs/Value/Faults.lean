import Chronicle.Proofs.Number.Word
import Chronicle.Proofs.Value.Equality
import Chronicle.Proofs.Value.Normal

/-!
# Faults of numbers and values

Which faults arithmetic and the readings of a value can give.  Operations on numbers fault where an
integer has no double or a special value no integer part (`toFloat_raises`, `truncate_raises`), and
writing a value where an integer in it is too long or the value contains itself (`text_raises`,
`format_raises`).  No arithmetic operator faults on moderate numbers (`Arithmetic.apply_total`).
-/

set_option autoImplicit false

namespace Chronicle

/-! ## Numbers -/

namespace Number

variable (n : Number)

theorem writeInt_raises (n : Int) : Raises (· = Fault.writtenDigits) (writeInt n) :=
  .ite (fun _ => .ok _) fun _ => .error rfl

/-- Writing a number faults as writing an integer does. -/
theorem text_of_writeInt {p : Fault → Prop} (hint : ∀ k, n = .int k → Raises p (writeInt k)) :
    Raises p n.text := by
  cases n with
  | int n => exact hint n rfl
  | float x =>
    unfold text
    dsimp only
    split
    · exact .ok _
    · exact .ok _
    · split <;> exact .ok _

theorem text_raises : Raises (· = Fault.writtenDigits) n.text :=
  n.text_of_writeInt fun k _ => writeInt_raises k

theorem IsModerate.text_total {n : Number} (hn : n.IsModerate) : Raises (fun _ => False) n.text :=
  n.text_of_writeInt fun k hk => (hk ▸ hn : (int k).IsModerate).writeInt_total

theorem toFloat_raises : Raises (· = Fault.integerToFloat) n.toFloat := by
  cases n with
  | int n =>
    unfold toFloat
    dsimp only
    split
    · exact .ok _
    · exact .error rfl
  | float x => exact .ok x

/-- Only special values have no integer part. -/
theorem truncate_raises : Raises
    (fun f => f = .nanToInteger ∧ n.isNaN = true ∨ f = .infinityToInteger ∧ n.isInfinite = true)
    n.truncate := by
  cases n with
  | int n => exact .ok n
  | float x =>
    unfold truncate isNaN isInfinite exact
    dsimp only
    cases Binary64.ofFloat x with
    | nan => exact .error (.inl ⟨rfl, rfl⟩)
    | infinite negative => exact .error (.inr ⟨rfl, rfl⟩)
    | finite negative significand exponent => exact .ok _

/-- A number that equals an integer has an integer part. -/
theorem truncate_raises_of_isIntegral (h : n.isIntegral = true) : Raises (fun _ => False)
    n.truncate := by
  cases n with
  | int n => exact .ok n
  | float x =>
    unfold isIntegral at h
    unfold truncate
    dsimp only at h ⊢
    cases hx : Binary64.ofFloat x with
    | nan =>
      rw [hx] at h
      cases h
    | infinite negative =>
      rw [hx] at h
      cases h
    | finite negative significand exponent => exact .ok _

theorem isNaN_of_floatIsNaN {b : Bool} (h : n.floatIsNaN = .ok b) : n.isNaN = b := by
  unfold floatIsNaN at h
  cases hx : n.toFloat with
  | ok x =>
    rw [hx] at h
    exact Except.ok.inj h
  | error f =>
    rw [hx] at h
    cases h

theorem isInfinite_of_floatIsInfinite {b : Bool} (h : n.floatIsInfinite = .ok b) :
    n.isInfinite = b := by
  unfold floatIsInfinite at h
  cases hx : n.toFloat with
  | ok x =>
    rw [hx] at h
    exact Except.ok.inj h
  | error f =>
    rw [hx] at h
    cases h

/-! ### Operations that fault as the doubles of their operands do -/

section
variable {p : Fault → Prop} {m n : Number}

theorem floatIsNaN_of_toFloat (hn : Raises p n.toFloat) : Raises p n.floatIsNaN :=
  hn.bind fun _ _ => .pure _

theorem floatIsInfinite_of_toFloat (hn : Raises p n.toFloat) : Raises p n.floatIsInfinite :=
  hn.bind fun _ _ => .pure _

/-- Special values are counted as zero, so only the double of an integer can be missing. -/
theorem toInt32_of_toFloat (hn : Raises p n.toFloat) : Raises p n.toInt32 := by
  refine (floatIsNaN_of_toFloat hn).bind fun b hb => .ite (fun _ => .pure _) fun hnan => ?_
  refine (floatIsInfinite_of_toFloat hn).bind fun c hc => .ite (fun _ => .pure _) fun hinf => ?_
  refine .bind (n.truncate_raises.mono fun f hf => ?_) fun _ _ => .pure _
  rcases hf with ⟨-, hf⟩ | ⟨-, hf⟩
  · exact absurd (n.isNaN_of_floatIsNaN hb ▸ hf) hnan
  · exact absurd (n.isInfinite_of_floatIsInfinite hc ▸ hf) hinf

theorem lift_of_toFloat (hm : Raises p m.toFloat) (hn : Raises p n.toFloat)
    (onInt : Int → Int → Int) (onFloat : Float → Float → Float) :
    Raises p (lift onInt onFloat m n) := by
  unfold lift
  split
  · exact .ok _
  · exact hm.bind fun _ _ => hn.bind fun _ _ => .pure _

/-- A quotient of integers can lie beyond the largest double. -/
theorem divide_of_toFloat (hm : Raises p m.toFloat) (hn : Raises p n.toFloat)
    (hquotient : ∀ a b, m = .int a → n = .int b → Raises p (divideInts a b)) :
    Raises p (divide m n) := by
  refine .ite (fun _ => .ite (fun _ => .pure _) fun _ => ?_) fun _ => ?_
  · exact (floatIsNaN_of_toFloat hm).bind fun _ _ => .ite (fun _ => .pure _) fun _ => .pure _
  · split
    · exact hquotient _ _ rfl rfl
    · exact hm.bind fun _ _ => hn.bind fun _ _ => .pure _

theorem remainder_of_toFloat (hm : Raises p m.toFloat) (hn : Raises p n.toFloat) :
    Raises p (remainder m n) := by
  refine .ite (fun _ => .pure _) fun _ => ?_
  refine (floatIsInfinite_of_toFloat hm).bind fun _ _ => .ite (fun _ => .pure _) fun _ => ?_
  refine (floatIsNaN_of_toFloat hm).bind fun _ _ => .ite (fun _ => .pure _) fun _ => ?_
  refine (floatIsNaN_of_toFloat hn).bind fun _ _ => .ite (fun _ => .pure _) fun _ => ?_
  split
  · exact .pure _
  · exact hm.bind fun _ _ => hn.bind fun _ _ => .pure _

/-- A power between doubles is infinite where it has no double. -/
theorem power_of_toFloat (hn : Raises p n.toFloat) : Raises p (power m n) := by
  unfold power
  dsimp only
  split
  · refine .ite (fun _ => ?_) fun _ => ?_
    · split
      · exact .pure _
      · refine hn.bind fun _ _ => ?_
        split
        · split <;> exact .ok _
        · exact .ok _
    · split
      · split <;> exact .ok _
      · exact .ok _
  · split
    · split <;> exact .ok _
    · exact .ok _

theorem shiftCount_of_toFloat (hn : Raises p n.toFloat) : Raises p n.shiftCount :=
  ((toInt32_of_toFloat hn).bind fun _ _ => .pure _).bind fun _ _ => .pure _

/-- A moderate integer is wrapped without a fault. -/
theorem toInt32_of_isModerate {k : Int} (hk : (int k).IsModerate) : Raises p (int k).toInt32 := by
  rw [toInt32_int hk]
  exact .ok _

theorem bitwise_of_toFloat (hm : Raises p m.toFloat) (hn : Raises p n.toFloat)
    (f : Bool → Bool → Bool) : Raises p (bitwise (Bits.combine f) m n) := by
  refine (toInt32_of_toFloat hm).bind fun a ha => (toInt32_of_toFloat hn).bind fun b hb => ?_
  have hmoderate := isModerate_combine f (m.toInt32_bounds a ha) (n.toInt32_bounds b hb)
  exact (toInt32_of_isModerate hmoderate).bind fun _ _ => .pure _

theorem shiftLeft_of_toFloat (hm : Raises p m.toFloat) (hn : Raises p n.toFloat) :
    Raises p (shiftLeft m n) := by
  refine (toInt32_of_toFloat hm).bind fun a ha => (shiftCount_of_toFloat hn).bind fun k hk => ?_
  have hmoderate := isModerate_shiftLeft (m.toInt32_bounds a ha) (n.shiftCount_lt k hk)
  exact (toInt32_of_isModerate hmoderate).bind fun _ _ => .pure _

theorem shiftRight_of_toFloat (hm : Raises p m.toFloat) (hn : Raises p n.toFloat) :
    Raises p (shiftRight m n) :=
  (toInt32_of_toFloat hm).bind fun _ _ => (shiftCount_of_toFloat hn).bind fun _ _ => .pure _

theorem shiftRightZero_of_toFloat (hm : Raises p m.toFloat) (hn : Raises p n.toFloat) :
    Raises p (shiftRightZero m n) :=
  ((toInt32_of_toFloat hm).bind fun _ _ => .pure _).bind fun _ _ =>
    (shiftCount_of_toFloat hn).bind fun _ _ => .pure _

theorem complement_of_toFloat (hn : Raises p n.toFloat) : Raises p n.complement := by
  refine (toInt32_of_toFloat hn).bind fun a ha => ?_
  exact (toInt32_of_isModerate (isModerate_not (n.toInt32_bounds a ha))).bind fun _ _ => .pure _

end

theorem floatIsNaN_raises : Raises (· = Fault.integerToFloat) n.floatIsNaN :=
  floatIsNaN_of_toFloat n.toFloat_raises

theorem complement_raises : Raises (· = Fault.integerToFloat) n.complement :=
  complement_of_toFloat n.toFloat_raises

theorem lift_raises (onInt : Int → Int → Int) (onFloat : Float → Float → Float) (m n : Number) :
    Raises (· = Fault.integerToFloat) (lift onInt onFloat m n) :=
  lift_of_toFloat m.toFloat_raises n.toFloat_raises onInt onFloat

theorem divideInts_raises (a b : Int) : Raises (· = Fault.quotientToFloat) (divideInts a b) := by
  unfold divideInts
  split
  · exact .ok _
  · exact .error rfl

end Number

namespace Arithmetic

variable (op : Arithmetic)

/-- An arithmetic operator faults as the doubles of its operands and a quotient of integers do. -/
theorem apply_of_toFloat {p : Fault → Prop} {m n : Number} (hm : Raises p m.toFloat)
    (hn : Raises p n.toFloat)
    (hquotient : ∀ a b, m = .int a → n = .int b → Raises p (Number.divideInts a b)) :
    Raises p (op.apply m n) := by
  cases op with
  | add | subtract | multiply => exact Number.lift_of_toFloat hm hn _ _
  | divide => exact Number.divide_of_toFloat hm hn hquotient
  | remainder => exact Number.remainder_of_toFloat hm hn
  | power => exact Number.power_of_toFloat hn
  | bitAnd | bitOr | bitXor => exact Number.bitwise_of_toFloat hm hn _
  | shiftLeft => exact Number.shiftLeft_of_toFloat hm hn
  | shiftRight => exact Number.shiftRight_of_toFloat hm hn
  | shiftRightZero => exact Number.shiftRightZero_of_toFloat hm hn

theorem apply_range (m n : Number) : Raises (fun f => f.nature = .range) (op.apply m n) := by
  have htoFloat : ∀ k : Number, Raises (fun f => f.nature = .range) k.toFloat :=
    fun k => k.toFloat_raises.mono fun _ hf => hf ▸ rfl
  exact op.apply_of_toFloat (htoFloat m) (htoFloat n) fun a b _ _ =>
    (Number.divideInts_raises a b).mono fun _ hf => hf ▸ rfl

/-- Arithmetic on moderate numbers does not fault. -/
theorem apply_total {m n : Number} (hm : m.IsModerate)
    (hn : n.IsModerate) : Raises (fun _ => False) (op.apply m n) :=
  op.apply_of_toFloat hm.toFloat_total hn.toFloat_total fun _ b ha _ =>
    (ha ▸ hm : Number.IsModerate (.int _)).divideInts_total b

end Arithmetic

/-! ## Values -/

/-- The faults of writing a value: an integer in it is too long, or it contains itself. -/
def Fault.OfWriting (f : Fault) : Prop :=
  f = .writtenDigits ∨ f = .endlessNesting

namespace Heap

variable (h : Heap)

/-- A text faults as those of the numbers in it do, or is endless. -/
theorem textWithin_of_numbers {p : Fault → Prop} (hendless : p .endlessNesting) (k : Nat)
    {v : Value} (hnumbers : ∀ n, h.Holds v (.number n) → Raises p n.text) :
    Raises p (h.textWithin k v) := by
  induction k generalizing v with
  | zero =>
    cases v with
    | number n => exact hnumbers n (.self _)
    | sequence a => exact .error hendless
    | _ => exact .ok _
  | succ k ih =>
    cases v with
    | number n => exact hnumbers n (.self _)
    | sequence a =>
      rw [textWithin_sequence]
      refine Raises.map (.mapM fun u hu => ?_) _
      exact .ite (fun _ => .ok _) fun _ => ih fun n hn => hnumbers n (.item hu hn)
    | _ => exact .ok _

theorem text_raises (v : Value) : Raises Fault.OfWriting (h.text v) :=
  h.textWithin_of_numbers (.inr rfl) _ fun n _ => n.text_raises.mono fun _ => .inl

theorem formatWithin_raises (k : Nat) (v : Value) :
    Raises Fault.OfWriting (h.formatWithin k v) := by
  induction k generalizing v with
  | zero =>
    cases v with
    | number n => exact n.text_raises.mono fun _ hf => .inl hf
    | sequence a => exact .error (.inr rfl)
    | record a => exact .error (.inr rfl)
    | _ => exact .ok _
  | succ k ih =>
    cases v with
    | number n => exact n.text_raises.mono fun _ hf => .inl hf
    | sequence a =>
      rw [formatWithin_sequence]
      exact Raises.map (.mapM fun u _ => ih u) _
    | record a =>
      rw [formatWithin_record]
      exact Raises.map (.mapM fun field _ => (ih field.2).map _) _
    | _ => exact .ok _

theorem format_raises (v : Value) : Raises Fault.OfWriting (h.format v) :=
  h.formatWithin_raises _ v

/-! ### Coercions that fault as the texts of their operands do -/

section
variable {p : Fault → Prop} {a b : Value}

theorem toNumber_of_text (ha : Raises p (h.text a)) : Raises p (h.toNumber a) := by
  cases a with
  | sequence r => exact ha.map _
  | _ => exact .ok _

theorem primitive?_of_text (ha : Raises p (h.text a)) {q? : Except Fault Primitive}
    (hq : h.primitive? a = some q?) : Raises p q? := by
  cases a with
  | sequence r | record r =>
    cases hq
    exact ha.map _
  | null | undefined => cases hq
  | _ =>
    cases hq
    exact .ok _

theorem looseEquals_of_text (ha : Raises p (h.text a)) (hb : Raises p (h.text b)) :
    Raises p (h.looseEquals a b) := by
  rw [looseEquals_eq]
  refine .ite (fun _ => .ok _) fun _ => ?_
  unfold equalByPrimitives
  cases hp : h.primitive? a with
  | none => exact .ok _
  | some p? =>
    cases hq : h.primitive? b with
    | none => exact .ok _
    | some q? =>
      exact (h.primitive?_of_text ha hp).bind fun _ _ => (h.primitive?_of_text hb hq).map _

theorem equality_of_text (op : Equality) (ha : Raises p (h.text a)) (hb : Raises p (h.text b)) :
    Raises p (op.apply h a b) := by
  cases op with
  | loose => exact h.looseEquals_of_text ha hb
  | notLoose => exact (h.looseEquals_of_text ha hb).map _
  | strict | notStrict => exact .ok _

end

theorem toNumber_raises (v : Value) : Raises Fault.OfWriting (h.toNumber v) :=
  h.toNumber_of_text (h.text_raises v)

end Heap

end Chronicle
