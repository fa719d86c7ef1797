import Chronicle.Proofs.Number.Bits
import Chronicle.Proofs.Number.Moderate

/-!
# Words

A word is a natural below `2 ^ 32`: `Word.residue` is the word of an integer, and `Word.signed` the
integer that a word stands for in two's complement.  Wrapping an integer keeps its word
(`wrap_eq_signed`, `residue_wrap`), and the bits of a combination of integers are those of their words
(`residue_land`).  So what the operators on words make of integers, by operations on unbounded
integers between two wrappings, goes by the words of the integers (`bitwise_int`,
`shiftLeft_int`).
-/

set_option autoImplicit false

namespace Chronicle

-- powers of naturals and integers are repeated products
attribute [local instance (high)] instPowNat

namespace Word

/-- The word of an integer. -/
def residue (n : Int) : Nat := (n % 2 ^ 32).toNat

/-- The integer in `[-2 ^ 31, 2 ^ 31)` that a word stands for. -/
def signed (w : Nat) : Int := if w < 2 ^ 31 then w else w - 2 ^ 32

theorem residue_lt (n : Int) : residue n < 2 ^ 32 := by
  unfold residue
  omega

theorem natCast_residue (n : Int) : (residue n : Int) = n % 2 ^ 32 := by
  unfold residue
  omega

theorem signed_bounds {w : Nat} (h : w < 2 ^ 32) : -2 ^ 31 ≤ signed w ∧ signed w < 2 ^ 31 := by
  unfold signed
  split <;> omega

/-- What a word stands for has that word. -/
theorem residue_signed {w : Nat} (h : w < 2 ^ 32) : residue (signed w) = w := by
  unfold residue signed
  split <;> omega

/-! ## Words of combinations -/

theorem residue_testBit (n : Int) (i : Nat) :
    (residue n).testBit i = (decide (i < 32) && n.testBit i) :=
  Bits.testBit_emod_two_pow n 32 i

theorem residue_land (m n : Int) : residue (Bits.land m n) = residue m &&& residue n := by
  apply Nat.eq_of_testBit_eq
  intro i
  rw [Nat.testBit_and, residue_testBit, residue_testBit, residue_testBit, Bits.land,
    Bits.combine_testBit]
  cases decide (i < 32) <;> rfl

theorem residue_lor (m n : Int) : residue (Bits.lor m n) = residue m ||| residue n := by
  apply Nat.eq_of_testBit_eq
  intro i
  rw [Nat.testBit_or, residue_testBit, residue_testBit, residue_testBit, Bits.lor,
    Bits.combine_testBit]
  cases decide (i < 32) <;> rfl

theorem residue_lxor (m n : Int) : residue (Bits.lxor m n) = residue m ^^^ residue n := by
  apply Nat.eq_of_testBit_eq
  intro i
  rw [Nat.testBit_xor, residue_testBit, residue_testBit, residue_testBit, Bits.lxor,
    Bits.combine_testBit]
  cases decide (i < 32) <;> rfl

/-- The opposite bits of an integer are those that complete its word. -/
theorem residue_not (n : Int) : residue (~~~n) = 2 ^ 32 - 1 - residue n := by
  unfold residue
  rw [Bits.not_eq]
  omega

theorem residue_shiftLeft (n : Int) (k : Nat) :
    residue (n <<< k) = residue n * 2 ^ k % 2 ^ 32 := by
  have hcast : ((2 ^ k : Nat) : Int) = 2 ^ k := by push_cast; rfl
  apply Int.natCast_inj.1
  rw [natCast_residue, Int.shiftLeft_eq, Int.natCast_emod, Int.natCast_mul, natCast_residue,
    ← hcast]
  show _ = n % 2 ^ 32 * (2 ^ k : Nat) % 2 ^ 32
  rw [Int.mul_emod, Int.mul_emod (n % 2 ^ 32) (2 ^ k : Nat), Int.emod_emod]

end Word

namespace Number

open Word

/-! ## Wrapping -/

/-- Wrapping an integer gives what its word stands for. -/
theorem wrap_eq_signed (n : Int) : wrap n = signed (residue n) := by
  have hlow : Bits.land n 0xFFFFFFFF = residue n :=
    (Bits.land_ones n 32).trans (natCast_residue n).symm
  have hhigh : Bits.land (residue n) 0x80000000 = if residue n < 2 ^ 31 then 0 else 2 ^ 31 :=
    Bits.land_one (residue_lt n)
  unfold wrap signed
  dsimp only
  rw [hlow, hhigh]
  by_cases h : residue n < 2 ^ 31
  · rw [if_pos h, if_pos h]
    rfl
  · rw [if_neg h, if_neg h]
    rfl

theorem wrap_bounds (n : Int) : -2 ^ 31 ≤ wrap n ∧ wrap n < 2 ^ 31 := by
  rw [wrap_eq_signed]
  exact signed_bounds (residue_lt n)

/-- Wrapping an integer keeps its word. -/
theorem residue_wrap (n : Int) : residue (wrap n) = residue n := by
  rw [wrap_eq_signed, residue_signed (residue_lt n)]

/-- A signed word, whatever the number. -/
theorem toInt32_bounds (a : Number) :
    Yields a.toInt32 fun n => -2 ^ 31 ≤ n ∧ n < 2 ^ 31 := by
  have hzero : -2 ^ 31 ≤ (0 : Int) ∧ (0 : Int) < 2 ^ 31 := by omega
  exact .after _ fun _ => .ite (.pure hzero) <| .after _ fun _ => .ite (.pure hzero) <|
    .after _ fun n => .pure (wrap_bounds n)

theorem toUInt32_bounds (a : Number) : Yields a.toUInt32 fun n => 0 ≤ n ∧ n < 2 ^ 32 := by
  refine .after _ fun n => .pure ?_
  have hlow : Bits.land n 0xFFFFFFFF = n % 2 ^ 32 := Bits.land_ones n 32
  rw [hlow]
  omega

theorem toInt32_int {n : Int} (hn : (int n).IsModerate) : (int n).toInt32 = .ok (wrap n) := by
  obtain ⟨x, hx⟩ := hn.toFloat_total.exists_ok
  unfold toInt32 floatIsNaN floatIsInfinite
  rw [hx]
  rfl

theorem toUInt32_int {n : Int} (hn : (int n).IsModerate) :
    (int n).toUInt32 = .ok (residue n : Int) := by
  unfold toUInt32
  rw [toInt32_int hn, ← residue_wrap, natCast_residue]
  exact congrArg Except.ok (Bits.land_ones (wrap n) 32)

/-! ## Operations on words -/

/-- Integers up to the square of a word are moderate. -/
theorem isModerate_of_le {n : Int} (h : n.natAbs ≤ 2 ^ 62) : (int n).IsModerate := by
  show n.natAbs < moderateBound
  unfold moderateBound
  calc n.natAbs < 2 ^ 63 := by omega
    _ ≤ 2 ^ 1000 := Nat.pow_le_pow_right (by omega) (by omega)

theorem isModerate_combine (f : Bool → Bool → Bool) {m n : Int} (hm : -2 ^ 31 ≤ m ∧ m < 2 ^ 31)
    (hn : -2 ^ 31 ≤ n ∧ n < 2 ^ 31) : (int (Bits.combine f m n)).IsModerate := by
  have hbounds := Bits.combine_bounds f hm hn
  exact isModerate_of_le (by omega)

theorem isModerate_not {n : Int} (hn : -2 ^ 31 ≤ n ∧ n < 2 ^ 31) : (int (~~~n)).IsModerate := by
  apply isModerate_of_le
  rw [Bits.not_eq]
  omega

theorem isModerate_shiftLeft {n : Int} (hn : -2 ^ 31 ≤ n ∧ n < 2 ^ 31) {k : Nat} (hk : k < 32) :
    (int (n <<< k)).IsModerate := by
  have hpow : 2 ^ k ≤ 2 ^ 31 := Nat.pow_le_pow_right (by omega) (by omega)
  apply isModerate_of_le
  rw [Int.shiftLeft_eq, Int.natAbs_mul, Int.natAbs_pow]
  calc n.natAbs * 2 ^ k ≤ 2 ^ 31 * 2 ^ 31 := Nat.mul_le_mul (by omega) hpow
    _ = 2 ^ 62 := rfl

/-- A combination of signed words has the combination of their words. -/
theorem bitwise_int {a b : Int} (ha : (int a).IsModerate) (hb : (int b).IsModerate)
    (f : Bool → Bool → Bool) :
    bitwise (Bits.combine f) (int a) (int b) =
      .ok (.int (signed (residue (Bits.combine f (wrap a) (wrap b))))) := by
  unfold bitwise
  rw [toInt32_int ha, toInt32_int hb, ← wrap_eq_signed]
  show (do return Number.int (← (int (Bits.combine f (wrap a) (wrap b))).toInt32)) = _
  rw [toInt32_int (isModerate_combine f (wrap_bounds a) (wrap_bounds b))]
  rfl

theorem complement_int {a : Int} (ha : (int a).IsModerate) :
    (int a).complement = .ok (.int (signed (2 ^ 32 - 1 - residue a))) := by
  unfold complement
  rw [toInt32_int ha]
  show (do return Number.int (← (int (~~~wrap a)).toInt32)) = _
  rw [toInt32_int (isModerate_not (wrap_bounds a)), wrap_eq_signed, residue_not, residue_wrap]
  rfl

/-! ## Shifts -/

/-- The count is below the length of a word, whatever the number. -/
theorem shiftCount_lt (b : Number) : Yields b.shiftCount fun k => k < 32 := by
  refine .after _ fun n => .pure ?_
  have hlow : Bits.land n 31 = n % 2 ^ 5 := Bits.land_ones n 5
  rw [hlow]
  omega

/-- An integer shifts by its remainder by the length of a word. -/
theorem shiftCount_int {b : Int} (hb : (int b).IsModerate) :
    (int b).shiftCount = .ok (b % 32).toNat := by
  have hlow : Bits.land (residue b) 31 = residue b % 2 ^ 5 := Bits.land_ones (residue b) 5
  have hcount : (Bits.land (residue b) 31).toNat = (b % 32).toNat := by
    rw [hlow, natCast_residue]
    omega
  unfold shiftCount
  rw [toUInt32_int hb]
  exact congrArg Except.ok hcount

theorem shiftLeft_int {a b : Int} (ha : (int a).IsModerate) (hb : (int b).IsModerate) :
    shiftLeft (int a) (int b) =
      .ok (.int (signed (residue a * 2 ^ (b % 32).toNat % 2 ^ 32))) := by
  have hlt : (b % 32).toNat < 32 := by omega
  unfold shiftLeft
  rw [toInt32_int ha, shiftCount_int hb]
  show (do return Number.int (← (int (wrap a <<< (b % 32).toNat)).toInt32)) = _
  rw [toInt32_int (isModerate_shiftLeft (wrap_bounds a) hlt), wrap_eq_signed, residue_shiftLeft,
    residue_wrap]
  rfl

theorem shiftRight_int {a b : Int} (ha : (int a).IsModerate) (hb : (int b).IsModerate) :
    shiftRight (int a) (int b) = .ok (.int (signed (residue a) / 2 ^ (b % 32).toNat)) := by
  unfold shiftRight
  rw [toInt32_int ha, shiftCount_int hb, wrap_eq_signed]
  show Except.ok (Number.int (signed (residue a) >>> (b % 32).toNat)) = _
  rw [Int.shiftRight_eq_div_pow]
  push_cast
  rfl

theorem shiftRightZero_int {a b : Int} (ha : (int a).IsModerate) (hb : (int b).IsModerate) :
    shiftRightZero (int a) (int b) = .ok (.int (residue a / 2 ^ (b % 32).toNat : Nat)) := by
  unfold shiftRightZero
  rw [toUInt32_int ha, shiftCount_int hb]
  show Except.ok (Number.int ((residue a : Int) >>> (b % 32).toNat)) = _
  rw [Int.shiftRight_eq_div_pow, Int.natCast_ediv]

/-- Moving bits down leaves a signed word one. -/
theorem shiftRight_bounds {n : Int} (hn : -2 ^ 31 ≤ n ∧ n < 2 ^ 31) (k : Nat) :
    -2 ^ 31 ≤ n >>> k ∧ n >>> k < 2 ^ 31 := by
  have hpos : 0 < ((2 ^ k : Nat) : Int) := by exact_mod_cast Nat.two_pow_pos k
  rw [Int.shiftRight_eq_div_pow]
  refine ⟨Int.le_ediv_of_mul_le hpos ?_, Int.ediv_lt_of_lt_mul hpos ?_⟩
  · omega
  · omega

theorem shiftRightZero_bounds {n : Int} (hn : 0 ≤ n ∧ n < 2 ^ 32) (k : Nat) :
    0 ≤ n >>> k ∧ n >>> k < 2 ^ 32 := by
  have hpos : 0 < ((2 ^ k : Nat) : Int) := by exact_mod_cast Nat.two_pow_pos k
  rw [Int.shiftRight_eq_div_pow]
  exact ⟨Int.ediv_nonneg hn.1 (by omega), Int.ediv_lt_of_lt_mul hpos (by omega)⟩

/-! ## Remainders -/

/-- Integers are equal as numbers when they are the same. -/
theorem equals_int (a b : Int) : (int a).equals (int b) = decide (a = b) := by
  unfold equals compare? exact Exact.compare?
  simp only [Int.min_self, Int.sub_self, Int.toNat_zero, Int.pow_zero, Int.mul_one]
  by_cases h : a = b
  · subst h
    simp
  · have hne : compare a b ≠ .eq := fun he => h (Int.compare_eq_eq.1 he)
    simp [h, hne]

theorem isZero_int (n : Int) : (int n).isZero = decide (n = 0) :=
  equals_int n 0

theorem remainder_int {a b : Int} (ha : (int a).IsModerate) (hb : (int b).IsModerate)
    (hzero : b ≠ 0) : remainder (int a) (int b) = .ok (.int (intRemainder a b)) := by
  obtain ⟨x, hx⟩ := ha.toFloat_total.exists_ok
  obtain ⟨y, hy⟩ := hb.toFloat_total.exists_ok
  unfold remainder floatIsInfinite floatIsNaN
  rw [isZero_int, if_neg (by simpa using hzero), hx, hy]
  rfl

/-- The remainder of the magnitudes with the sign of the dividend is that of the division that rounds
toward zero. -/
theorem intRemainder_eq_tmod (a b : Int) : intRemainder a b = a.tmod b := by
  have hdivisor : ∀ c : Int, c.tmod b.natAbs = c.tmod b := by
    intro c
    rcases Int.natAbs_eq b with hb | hb
    · exact congrArg c.tmod hb.symm
    · rw [← Int.tmod_neg, ← hb]
  unfold intRemainder
  dsimp only
  rw [Int.ofNat_tmod, hdivisor]
  split
  · rename_i hpos
    rw [Int.natAbs_of_nonneg hpos]
  · rename_i hneg
    rw [Int.ofNat_natAbs_of_nonpos (by omega), Int.neg_tmod, Int.neg_neg]

/-- The remainder is what is left of the dividend, less than the divisor and of the sign of the
dividend. -/
theorem intRemainder_characterized (a : Int) {b : Int} (hzero : b ≠ 0) :
    b ∣ a - intRemainder a b ∧ (intRemainder a b).natAbs < b.natAbs ∧
      (intRemainder a b = 0 ∨ (intRemainder a b).sign = a.sign) := by
  rw [intRemainder_eq_tmod]
  refine ⟨Int.dvd_self_sub_tmod, ?_, ?_⟩
  · rw [Int.natAbs_tmod]
    exact Nat.mod_lt _ (Int.natAbs_pos.2 hzero)
  · rw [Int.sign_tmod, ← Int.sign_eq_zero_iff_zero, Int.sign_tmod]
    by_cases h : b ∣ a <;> simp [h]

end Number

end Chronicle
