import Mathlib.Data.List.Forall2
import Mathlib.Data.Nat.Digits.Defs
import Chronicle.Text.Digits

/-!
# Numerals

A numeral of a number in a base is a text of digits of the base whose positional value is the number
(`IsNumeral`): the most significant digit comes first, there may be zeros before it, and a digit
after nine is a letter of either case.  The reader of digits finds the number that a numeral is of
(`IsNumeral.positional?_eq`).
-/

set_option autoImplicit false

namespace Chronicle.Text

/-- The characters that a digit is written as; after nine they are a small and a capital letter. -/
def digitForms (v : Nat) : List Char :=
  [digitChar v, (digitChar v).toUpper]

/-- Whether a text is a numeral of a number in a base. -/
def IsNumeral (base n : Nat) (cs : List Char) : Prop :=
  cs ≠ [] ∧ ∃ vs : List Nat, List.Forall₂ (fun c v => v < base ∧ c ∈ digitForms v) cs vs ∧
    Nat.ofDigits base vs.reverse = n

/-- What holds of both ways of writing a digit holds of its forms. -/
theorem forall_digitForms {p : Nat → Char → Prop} {base : Nat}
    (h : ∀ v < base, p v (digitChar v) ∧ p v (digitChar v).toUpper) :
    ∀ v < base, ∀ c ∈ digitForms v, p v c := by
  intro v hv c hc
  rcases List.mem_pair.1 hc with rfl | rfl
  · exact (h v hv).1
  · exact (h v hv).2

/-- Every form of a digit has the value of the digit. -/
theorem digitValue?_of_mem_digitForms :
    ∀ v < 36, ∀ c ∈ digitForms v, digitValue? c = some v :=
  forall_digitForms (by decide)

theorem ofDigits_reverse (base : Nat) (vs : List Nat) :
    Nat.ofDigits base vs.reverse = vs.foldl (fun n v => n * base + v) 0 := by
  rw [Nat.ofDigits_eq_foldr, List.foldr_reverse]
  congr 1
  funext n v
  rw [Nat.add_comm, Nat.mul_comm]
  rfl

section
variable {base n : Nat} {cs : List Char}

theorem foldlM_digitValue? (hbase : base ≤ 36) {vs : List Nat}
    (h : List.Forall₂ (fun c v => v < base ∧ c ∈ digitForms v) cs vs) (start : Nat) :
    cs.foldlM (fun n c => do
      let v ← digitValue? c
      if v < base then some (n * base + v) else none) start =
    some (vs.foldl (fun n v => n * base + v) start) := by
  induction h generalizing start with
  | nil => rfl
  | @cons c v cs vs hc _ ih =>
    obtain ⟨hv, hform⟩ := hc
    have hvalue := digitValue?_of_mem_digitForms v (Nat.lt_of_lt_of_le hv hbase) c hform
    rw [List.foldlM_cons, List.foldl_cons, hvalue]
    simpa [hv] using ih (start * base + v)

/-- The digits of a numeral are read as its number. -/
theorem IsNumeral.positional?_eq (hbase : base ≤ 36) (h : IsNumeral base n cs) :
    positional? base cs = some n := by
  obtain ⟨-, vs, hvs, rfl⟩ := h
  rw [positional?, foldlM_digitValue? hbase hvs, ofDigits_reverse]

/-- The digits of a numeral give its number by the value of each of them. -/
theorem IsNumeral.foldl_eq {f : Char → Nat} (h : IsNumeral base n cs)
    (hf : ∀ v < base, ∀ c ∈ digitForms v, f c = v) :
    cs.foldl (fun n c => n * base + f c) 0 = n := by
  obtain ⟨-, vs, hvs, rfl⟩ := h
  have hvalues : List.Forall₂ (fun c v => f c = v) cs vs :=
    hvs.imp fun c v ⟨hv, hc⟩ => hf v hv c hc
  have hmap : cs.map f = vs := by
    rwa [← List.forall₂_map_left_iff, List.forall₂_eq_eq_eq] at hvalues
  rw [ofDigits_reverse, ← hmap, List.foldl_map]

theorem IsNumeral.forall_mem {p : Char → Prop} (h : IsNumeral base n cs)
    (hp : ∀ v < base, ∀ c ∈ digitForms v, p c) : ∀ c ∈ cs, p c := by
  obtain ⟨-, vs, hvs, -⟩ := h
  have hforms : List.Forall₂ (fun c v => p c ∧ (v < base ∧ c ∈ digitForms v)) cs vs :=
    hvs.imp fun c v ⟨hv, hc⟩ => ⟨hp v hv c hc, hv, hc⟩
  exact ((List.forall₂_and_left cs vs).1 hforms).1

/-- The digits of a base up to sixteen are hexadecimal digits. -/
theorem IsNumeral.isHexDigit (hbase : base ≤ 16) (h : IsNumeral base n cs) :
    ∀ c ∈ cs, isHexDigit c = true := by
  have hforms : ∀ v < 16, ∀ c ∈ digitForms v, Text.isHexDigit c = true :=
    forall_digitForms (by decide)
  exact h.forall_mem fun v hv => hforms v (Nat.lt_of_lt_of_le hv hbase)

/-- The digits of base ten are plain digits. -/
theorem IsNumeral.isPlainDigit (h : IsNumeral 10 n cs) : ∀ c ∈ cs, isPlainDigit c = true := by
  have hforms : ∀ v < 10, ∀ c ∈ digitForms v, Text.isPlainDigit c = true :=
    forall_digitForms (by decide)
  exact h.forall_mem hforms

end

end Chronicle.Text
