import Chronicle.Number.Bits
import Mathlib.Data.Int.Bitwise

/-!
# Bits of integers

A combination of integers has at each place the combination of their bits (`combine_testBit`), and it
is no longer than they are (`combine_bounds`).  With a word of ones it leaves the remainder by a power
of two (`land_ones`), with a single one the bit at a place (`land_one`).
-/

set_option autoImplicit false

namespace Chronicle.Bits

-- powers of naturals and integers are repeated products
attribute [local instance (high)] instPowNat

theorem combineNats_eq_natBitwise (f : Bool → Bool → Bool) (m n : Nat) :
    combineNats f m n = Int.natBitwise f m n := by
  unfold combineNats Int.natBitwise
  cases f false false <;> rfl

theorem combine_eq_bitwise (f : Bool → Bool → Bool) (m n : Int) :
    combine f m n = Int.bitwise f m n := by
  cases m with
  | ofNat m =>
    cases n with
    | ofNat n => exact combineNats_eq_natBitwise f m n
    | negSucc n => exact combineNats_eq_natBitwise (fun x y => f x !y) m n
  | negSucc m =>
    cases n with
    | ofNat n => exact combineNats_eq_natBitwise (fun x y => f (!x) y) m n
    | negSucc n => exact combineNats_eq_natBitwise (fun x y => f (!x) !y) m n

theorem combine_testBit (f : Bool → Bool → Bool) (m n : Int) (i : Nat) :
    (combine f m n).testBit i = f (m.testBit i) (n.testBit i) := by
  rw [combine_eq_bitwise, Int.testBit_bitwise]

/-! ## Length -/

/-- An integer is between `-2 ^ k` and `2 ^ k` when its bits from `k` on are those of its sign. -/
theorem ofNat_bounds {m k : Nat} : (-2 ^ k ≤ Int.ofNat m ∧ Int.ofNat m < 2 ^ k) ↔ m < 2 ^ k := by
  have hcast : ((2 ^ k : Nat) : Int) = 2 ^ k := by push_cast; rfl
  rw [← hcast, Int.ofNat_eq_natCast]
  omega

theorem negSucc_bounds {m k : Nat} :
    (-2 ^ k ≤ Int.negSucc m ∧ Int.negSucc m < 2 ^ k) ↔ m < 2 ^ k := by
  have hcast : ((2 ^ k : Nat) : Int) = 2 ^ k := by push_cast; rfl
  rw [← hcast, Int.negSucc_eq]
  omega

theorem combineNats_bounds (f : Bool → Bool → Bool) {m n k : Nat} (hm : m < 2 ^ k)
    (hn : n < 2 ^ k) : -2 ^ k ≤ combineNats f m n ∧ combineNats f m n < 2 ^ k := by
  unfold combineNats
  split
  · exact negSucc_bounds.2 (Nat.bitwise_lt_two_pow hm hn)
  · exact ofNat_bounds.2 (Nat.bitwise_lt_two_pow hm hn)

theorem combine_bounds (f : Bool → Bool → Bool) {m n : Int} {k : Nat}
    (hm : -2 ^ k ≤ m ∧ m < 2 ^ k) (hn : -2 ^ k ≤ n ∧ n < 2 ^ k) :
    -2 ^ k ≤ combine f m n ∧ combine f m n < 2 ^ k := by
  cases m with
  | ofNat m =>
    have hm := ofNat_bounds.1 hm
    cases n with
    | ofNat n => exact combineNats_bounds f hm (ofNat_bounds.1 hn)
    | negSucc n => exact combineNats_bounds (fun x y => f x !y) hm (negSucc_bounds.1 hn)
  | negSucc m =>
    have hm := negSucc_bounds.1 hm
    cases n with
    | ofNat n => exact combineNats_bounds (fun x y => f (!x) y) hm (ofNat_bounds.1 hn)
    | negSucc n => exact combineNats_bounds (fun x y => f (!x) !y) hm (negSucc_bounds.1 hn)

/-- The opposite bits are those of the integer that completes `-1`. -/
theorem not_eq (n : Int) : ~~~n = -1 - n := by
  cases n with
  | ofNat m =>
    show Int.negSucc m = _
    rw [Int.negSucc_eq, Int.ofNat_eq_natCast]
    omega
  | negSucc m =>
    show Int.ofNat m = _
    rw [Int.negSucc_eq, Int.ofNat_eq_natCast]
    omega

/-! ## Words of ones -/

/-- The bits of a remainder by `2 ^ k` are the lowest `k` ones. -/
theorem testBit_emod_two_pow (n : Int) (k i : Nat) :
    (n % 2 ^ k).toNat.testBit i = (decide (i < k) && n.testBit i) := by
  have hcast : ((2 ^ k : Nat) : Int) = 2 ^ k := by push_cast; rfl
  have hpos : 0 < 2 ^ k := Nat.two_pow_pos k
  rw [← hcast]
  cases n with
  | ofNat m =>
    rw [Int.ofNat_eq_natCast, ← Int.natCast_emod, Int.toNat_natCast, Nat.testBit_mod_two_pow]
    rfl
  | negSucc m =>
    have hlt : m % 2 ^ k < 2 ^ k := Nat.mod_lt m hpos
    have hresidue : (Int.negSucc m % (2 ^ k : Nat)).toNat = 2 ^ k - (m % 2 ^ k + 1) := by
      rw [Int.negSucc_emod m (by omega), ← Int.natCast_emod]
      omega
    rw [hresidue, Nat.testBit_two_pow_sub_succ hlt, Nat.testBit_mod_two_pow]
    cases decide (i < k) <;> rfl

theorem land_ofNat (m n : Nat) : land (m : Int) (n : Int) = (m &&& n : Nat) := rfl

/-- With `k` ones, the bits in common are the lowest `k` bits. -/
theorem land_ones (n : Int) (k : Nat) : land n ((2 ^ k - 1 : Nat) : Int) = n % 2 ^ k := by
  have hcast : ((2 ^ k : Nat) : Int) = 2 ^ k := by push_cast; rfl
  have hpos : 0 < 2 ^ k := Nat.two_pow_pos k
  rw [← hcast]
  cases n with
  | ofNat m =>
    rw [Int.ofNat_eq_natCast, land_ofNat, Nat.and_two_pow_sub_one_eq_mod, Int.natCast_emod]
  | negSucc m =>
    have hlt : m % 2 ^ k < 2 ^ k := Nat.mod_lt m hpos
    have hbits : Nat.bitwise (fun x y => !x && y) m (2 ^ k - 1) = 2 ^ k - (m % 2 ^ k + 1) := by
      apply Nat.eq_of_testBit_eq
      intro i
      rw [Nat.testBit_bitwise rfl, Nat.testBit_two_pow_sub_succ hlt, Nat.testBit_two_pow_sub_one,
        Nat.testBit_mod_two_pow]
      cases decide (i < k) <;> simp
    show Int.ofNat (Nat.bitwise (fun x y => !x && y) m (2 ^ k - 1)) = _
    rw [hbits, Int.ofNat_eq_natCast, Int.negSucc_emod m (by omega), ← Int.natCast_emod]
    omega

/-- With a one at the highest place alone, there are bits in common when that bit is set. -/
theorem land_one {m k : Nat} (h : m < 2 ^ (k + 1)) :
    land (m : Int) ((2 ^ k : Nat) : Int) = if m < 2 ^ k then 0 else 2 ^ k := by
  have hcast : ((2 ^ k : Nat) : Int) = 2 ^ k := by push_cast; rfl
  rw [land_ofNat, Nat.and_two_pow, Nat.testBit_eq_decide_div_mod_eq]
  split
  · rename_i hlow
    rw [Nat.div_eq_of_lt hlow]
    simp
  · rename_i hhigh
    have hquotient : m / 2 ^ k = 1 := Nat.div_eq_of_lt_le (by omega) (by omega)
    rw [hquotient, ← hcast]
    simp

end Chronicle.Bits
