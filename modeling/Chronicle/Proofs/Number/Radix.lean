import Chronicle.Proofs.Method.Call
import Chronicle.Proofs.Number.Word
import Chronicle.Proofs.Text.Numeral

/-!
# Numerals in other bases

A number is written in a base by a minus sign where it is negative and the digits of its magnitude
(`Number.WrittenInBase`).  The digits are found from the last one on, and each of them is put in
front of those found before: they are the digits of the whole when the rest is used up
(`radixDigits_digitsOf`).  Reading them back gives the magnitude, so a text writes one integer only
(`WrittenInBase.unique`).
-/

set_option autoImplicit false

namespace Chronicle

open Text

namespace Number

/-- The digits of a natural in a base, the most significant first.  They begin with a zero only when
that is all there is. -/
structure DigitsOf (base n : Nat) (vs : List Nat) : Prop where
  nonempty : vs ≠ []
  below : ∀ v ∈ vs, v < base
  leading : vs.head? = some 0 → vs = [0]
  value : Nat.ofDigits base vs.reverse = n

/-- Whether a text writes an integer in a base: a minus sign for a negative integer, then the digits
of its magnitude, small letters after nine. -/
def WrittenInBase (base : Nat) (n : Int) (s : String) : Prop :=
  ∃ vs : List Nat, DigitsOf base n.natAbs vs ∧
    s.toList = (if n < 0 then ['-'] else []) ++ vs.map digitChar

/-! ## Finding the digits -/

theorem DigitsOf.pos {base n : Nat} {vs : List Nat} (h : DigitsOf base n vs) (hn : n ≠ 0) :
    vs.head? ≠ some 0 := by
  intro hhead
  apply hn
  rw [← h.value, h.leading hhead]
  rfl

/-- A digit after those of the quotient by the base. -/
theorem DigitsOf.concat {base n : Nat} {vs : List Nat} (hbase : 2 ≤ base) (hn : base ≤ n)
    (h : DigitsOf base (n / base) vs) : DigitsOf base n (vs ++ [n % base]) where
  nonempty := by simp
  below := by
    refine List.forall_mem_append.2 ⟨h.below, ?_⟩
    simpa using Nat.mod_lt n (by omega)
  leading hhead := by
    have hpos : n / base ≠ 0 := Nat.ne_of_gt (Nat.div_pos hn (by omega))
    rw [List.head?_append_of_ne_nil _ h.nonempty] at hhead
    exact absurd hhead (h.pos hpos)
  value := by
    rw [List.reverse_concat, Nat.ofDigits_cons, h.value]
    exact Nat.mod_add_div n base

/-- In front of what was found before stand the digits of what is left. -/
theorem radixDigits_digitsOf {base : Nat} (hbase : 2 ≤ base) (n : Nat) (found : List Char) :
    ∃ vs, DigitsOf base n vs ∧ radixDigits base n found = vs.map digitChar ++ found := by
  fun_induction radixDigits base n found with
  | case1 n found h ih =>
    obtain ⟨vs, hvs, hdigits⟩ := ih
    refine ⟨vs ++ [n % base], hvs.concat hbase h.2, ?_⟩
    rw [hdigits, List.map_append, List.append_assoc]
    rfl
  | case2 n found h =>
    have hlt : n < base := by omega
    rw [Nat.mod_eq_of_lt hlt]
    refine ⟨[n], ⟨by simp, by simpa using hlt, ?_, Nat.ofDigits_singleton⟩, rfl⟩
    simp

theorem radixText_written {base : Nat} (hbase : 2 ≤ base) (n : Int) :
    WrittenInBase base n (radixText base n) := by
  obtain ⟨vs, hvs, hdigits⟩ := radixDigits_digitsOf hbase n.natAbs []
  refine ⟨vs, hvs, ?_⟩
  rw [List.append_nil] at hdigits
  unfold radixText
  rw [hdigits, String.toList_ofList]
  split <;> rfl

example : radixText 16 (-255) = "-ff" := by cbv

/-! ## Reading the digits back -/

theorem DigitsOf.isNumeral {base n : Nat} {vs : List Nat} (h : DigitsOf base n vs) :
    IsNumeral base n (vs.map digitChar) := by
  refine ⟨by simpa using h.nonempty, vs, ?_, h.value⟩
  rw [List.forall₂_map_left_iff, List.forall₂_same]
  exact fun v hv => ⟨h.below v hv, List.mem_cons_self⟩

/-- No digit is a minus sign. -/
theorem DigitsOf.head?_ne_minus {base n : Nat} {vs : List Nat} (hbase : base ≤ 36)
    (h : DigitsOf base n vs) : (vs.map digitChar).head? ≠ some '-' := by
  have hforms : ∀ v < 36, ∀ c ∈ digitForms v, c ≠ '-' := forall_digitForms (by decide)
  intro hhead
  refine h.isNumeral.forall_mem (p := (· ≠ '-')) (fun v hv => ?_) _ (List.mem_of_head? hhead) rfl
  exact hforms v (Nat.lt_of_lt_of_le hv hbase)

namespace WrittenInBase

variable {base : Nat} {m n : Int} {s : String} (hbase : base ≤ 36)
include hbase

theorem negative_iff (h : WrittenInBase base n s) : n < 0 ↔ s.toList.head? = some '-' := by
  obtain ⟨vs, hvs, hs⟩ := h
  rw [hs]
  by_cases hn : n < 0
  · simp [hn]
  · simpa [hn] using hvs.head?_ne_minus hbase

/-- A text writes one integer only. -/
theorem unique (hm : WrittenInBase base m s) (hn : WrittenInBase base n s) : m = n := by
  have hsign : m < 0 ↔ n < 0 := (hm.negative_iff hbase).trans (hn.negative_iff hbase).symm
  obtain ⟨vs, hvs, hs⟩ := hm
  obtain ⟨ws, hws, hs'⟩ := hn
  have hdigits : vs.map digitChar = ws.map digitChar := by
    rw [hs, if_congr hsign rfl rfl] at hs'
    exact List.append_cancel_left hs'
  have hmagnitude : m.natAbs = n.natAbs := by
    have hread := hvs.isNumeral.positional?_eq hbase
    rw [hdigits, hws.isNumeral.positional?_eq hbase] at hread
    exact (Option.some.inj hread).symm
  omega

end WrittenInBase

end Number

namespace Method

/-! ## Calls -/

theorem inBase_int {base : Nat} (hleast : 2 ≤ base) (hmost : base ≤ 36) (hten : base ≠ 10) {n : Int}
    (hn : (Number.int n).IsModerate) :
    OfNumber.inBase (.int n) (.int base) = .ok (Number.radixText base n) := by
  obtain ⟨x, hx⟩ := hn.toFloat_total.exists_ok
  have hrange : (2 ≤ (base : Int) && (base : Int) ≤ 36) = true := by
    simp
    omega
  unfold OfNumber.inBase
  rw [Number.equals_int, if_neg (by simpa using (by omega : (base : Int) ≠ 10))]
  simp only [Number.truncate, bind, Except.bind, hrange, if_true, hx]
  rfl

theorem call_toString_int {base : Nat} (hleast : 2 ≤ base) (hmost : base ≤ 36) (hten : base ≠ 10)
    {n : Int} (hn : (Number.int n).IsModerate) (h : Heap) (location : Option Location) :
    call h (.int n) "toString" [.int base] location =
      .ok (.text (Number.radixText base n), h) := by
  refine call_of_find? ?_ location
  show some (do return (Value.text (← OfNumber.inBase (.int n) (.int base)), h)) = _
  rw [inBase_int hleast hmost hten hn]
  rfl

/-- An integer below `2 ^ 1000` in magnitude is written in every base from two to thirty-six other
than ten, and no other integer is written so. -/
theorem call_toString_written {base : Nat} (hleast : 2 ≤ base) (hmost : base ≤ 36)
    (hten : base ≠ 10) {n : Int} (hn : n.natAbs < Number.moderateBound) (h : Heap)
    (location : Option Location) :
    ∃ s, call h (.int n) "toString" [.int base] location = .ok (.text s, h) ∧
      Number.WrittenInBase base n s ∧
      ∀ m : Int, m.natAbs < Number.moderateBound → m ≠ n →
        call h (.int m) "toString" [.int base] location ≠ .ok (.text s, h) := by
  have hwritten := Number.radixText_written hleast
  refine ⟨_, call_toString_int hleast hmost hten hn h location, hwritten n,
    fun m hm hne hcall => ?_⟩
  rw [call_toString_int hleast hmost hten hm h location] at hcall
  have hs : Number.radixText base m = Number.radixText base n :=
    Value.text.inj (congrArg Prod.fst (Except.ok.inj hcall))
  exact hne ((hwritten m).unique hmost (hs ▸ hwritten n))

/-- Minus two hundred and fifty-five in base sixteen. -/
theorem call_toString_written_hexadecimal :
    (2 ≤ 16 ∧ 16 ≤ 36 ∧ 16 ≠ 10 ∧ (-255 : Int).natAbs < Number.moderateBound) ∧
    ∃ s, call {} (.int (-255)) "toString" [.int 16] none = .ok (.text s, {}) ∧
      Number.WrittenInBase 16 (-255) s ∧
      ∀ m : Int, m.natAbs < Number.moderateBound → m ≠ -255 →
        call {} (.int m) "toString" [.int 16] none ≠ .ok (.text s, {}) := by
  have hn : (-255 : Int).natAbs < Number.moderateBound := Number.lt_moderateBound (by decide)
  exact ⟨⟨by decide, by decide, by decide, hn⟩,
    call_toString_written (by decide) (by decide) (by decide) hn {} none⟩

end Method

end Chronicle
