import Chronicle.Proofs.Outcome

/-!
# Moderate numbers

A number is moderate when it is a double or an integer below `2 ^ 1000` in magnitude.  Rounding finds
a double for a quotient of moderate size (`ratioBits?_isSome`), so moderate numbers and the quotients
of moderate integers have doubles.  Moderate integers can be written, too.
-/

set_option autoImplicit false

namespace Chronicle

-- powers of naturals and integers are repeated products
attribute [local instance (high)] instPowNat

namespace Number

/-- Integers are moderate below this magnitude. -/
def moderateBound : Nat := 2 ^ (1000 : Nat)

theorem lt_moderateBound {n : Nat} (h : n < safeBound) : n < moderateBound := by
  unfold safeBound at h
  unfold moderateBound
  calc n < 2 ^ 53 := h
    _ ≤ 2 ^ 1000 := Nat.pow_le_pow_right (by omega) (by omega)

/-- A number that is a double or an integer of moderate magnitude. -/
def IsModerate : Number → Prop
  | .int n => n.natAbs < moderateBound
  | .float _ => True

/-! ## Doubles of quotients -/

theorem lastPlace_le {num den : Nat} (h : num.log2 < 1000) : lastPlace num den ≤ 947 := by
  unfold lastPlace
  dsimp only
  generalize den.log2 = d
  split <;> omega

theorem log2_lt_of_moderate {n : Nat} (hzero : n ≠ 0) (h : n < moderateBound) :
    n.log2 < 1000 := by
  unfold moderateBound at h
  rwa [Nat.log2_lt hzero]

/-- A quotient whose numerator is moderate does not lie beyond the largest double. -/
theorem ratioBits?_isSome {num : Nat} (h : num < moderateBound) (den : Nat) :
    (ratioBits? num den).isSome := by
  unfold ratioBits?
  split
  · rfl
  · rename_i hzero
    have hplace : lastPlace num den ≤ 947 :=
      lastPlace_le (log2_lt_of_moderate (by simpa using hzero) h)
    dsimp only
    split <;> dsimp only
    all_goals
      split
      · rfl
      · rw [if_neg (by omega)]
        rfl

theorem ofRatio?_isSome (negative : Bool) {num : Nat} (h : num < moderateBound) (den : Nat) :
    (ofRatio? negative num den).isSome := by
  unfold ofRatio?
  rw [Option.isSome_map]
  exact ratioBits?_isSome h den

namespace IsModerate

theorem toFloat_total {n : Number} (hn : n.IsModerate) : Raises (fun _ => False) n.toFloat := by
  cases n with
  | int n =>
    obtain ⟨x, hx⟩ := Option.isSome_iff_exists.1 (ofRatio?_isSome (n < 0) hn 1)
    unfold toFloat ofInt?
    dsimp only
    rw [hx]
    exact .ok x
  | float x => exact .ok x

theorem divideInts_total {a : Int} (ha : (int a).IsModerate) (b : Int) :
    Raises (fun _ => False) (divideInts a b) := by
  obtain ⟨x, hx⟩ := Option.isSome_iff_exists.1
    (ofRatio?_isSome ((a < 0) != (b < 0)) ha b.natAbs)
  unfold divideInts
  rw [hx]
  exact .ok _

/-- A moderate integer is short enough to be written. -/
theorem writeInt_total {n : Int} (hn : (int n).IsModerate) :
    Raises (fun _ => False) (writeInt n) := by
  have hlt : n.natAbs < moderateBound := hn
  have hbound : moderateBound ≤ 10 ^ Fault.digitLimit := by
    unfold moderateBound Fault.digitLimit
    calc 2 ^ 1000 ≤ 10 ^ 1000 := Nat.pow_le_pow_left (by omega) _
      _ ≤ 10 ^ 4300 := Nat.pow_le_pow_right (by omega) (by omega)
  unfold writeInt
  rw [if_pos (Nat.lt_of_lt_of_le hlt hbound)]
  exact .ok _

end IsModerate

end Number

end Chronicle
