import Chronicle.Number.Reading
import Chronicle.Proofs.Text.Numeral
import Chronicle.Proofs.Text.Trim

/-!
# Integer literals

A literal of a natural number is a numeral in base two, eight, ten or sixteen, with the mark of its
base before it, underscores between its digits, and possibly an `n` after it.  It is read as that
number, of whatever size, unless it is in base ten and longer than can be read
(`ofLiteral_integer`).  So none of these literals is read as a decimal number.
-/

set_option autoImplicit false

namespace Chronicle.Number

open Text

/-- The bases that a literal can be written in. -/
inductive LiteralBase where
  | binary | octal | decimal | hexadecimal
  deriving DecidableEq

namespace LiteralBase

/-- The number that a base is. -/
def radix : LiteralBase → Nat
  | binary => 2
  | octal => 8
  | decimal => 10
  | hexadecimal => 16

/-- What can be written before the digits of a base; base ten has no mark. -/
def marks : LiteralBase → List (List Char)
  | binary => [['0', 'b'], ['0', 'B']]
  | octal => [['0', 'o'], ['0', 'O']]
  | decimal => [[]]
  | hexadecimal => [['0', 'x'], ['0', 'X']]

theorem radix_le (base : LiteralBase) : base.radix ≤ 16 := by
  cases base <;> decide

end LiteralBase

/-- Characters with any number of underscores between neighbours. -/
inductive Separated : List Char → List Char → Prop
  | single (c : Char) : Separated [c] [c]
  | cons (c : Char) (count : Nat) {cs written : List Char} : Separated cs written →
      Separated (c :: cs) (c :: (List.replicate count '_' ++ written))

/-! ## What is passed over -/

/-- The characters of a literal other than underscores and a final `n`. -/
structure IsSolid (c : Char) : Prop where
  ascii : c.toNat < 127
  noBlank : isBasicBlank c = false
  noUnderscore : c ≠ '_'
  noSuffix : c ≠ 'n'

instance (c : Char) : Decidable (IsSolid c) :=
  decidable_of_iff (c.toNat < 127 ∧ isBasicBlank c = false ∧ c ≠ '_' ∧ c ≠ 'n')
    ⟨fun ⟨hascii, hblank, hunderscore, hsuffix⟩ => ⟨hascii, hblank, hunderscore, hsuffix⟩,
      fun h => ⟨h.ascii, h.noBlank, h.noUnderscore, h.noSuffix⟩⟩

theorem isSolid_of_isNumeral {base n : Nat} {cs : List Char} (hbase : base ≤ 16)
    (h : IsNumeral base n cs) : ∀ c ∈ cs, IsSolid c := by
  have hforms : ∀ v < 16, ∀ c ∈ digitForms v, IsSolid c := forall_digitForms (by decide)
  exact h.forall_mem fun v hv => hforms v (Nat.lt_of_lt_of_le hv hbase)

theorem isSolid_of_mark {base : LiteralBase} {mark : List Char} (h : mark ∈ base.marks) :
    ∀ c ∈ mark, IsSolid c := by
  have hmarks : base.marks.all (·.all (IsSolid ·)) = true := by
    cases base <;> decide
  exact fun c hc => of_decide_eq_true (List.all_eq_true.1 (List.all_eq_true.1 hmarks mark h) c hc)

section
variable {cs : List Char} (hcs : ∀ c ∈ cs, IsSolid c)
include hcs

theorem withoutUnderscores_solid : withoutUnderscores cs = cs :=
  List.filter_eq_self.2 fun c hc => bne_iff_ne.2 (hcs c hc).noUnderscore

theorem withoutUnderscores_separated {written : List Char} (h : Separated cs written) :
    withoutUnderscores written = cs := by
  induction h with
  | single c => exact withoutUnderscores_solid hcs
  | @cons c count cs written _ ih =>
    obtain ⟨hc, hcs⟩ := List.forall_mem_cons.1 hcs
    have hgap : withoutUnderscores (List.replicate count '_') = [] :=
      List.filter_eq_nil_iff.2 fun d hd => by simp [List.eq_of_mem_replicate hd]
    calc withoutUnderscores (c :: (List.replicate count '_' ++ written))
      _ = c :: (withoutUnderscores (List.replicate count '_') ++ withoutUnderscores written) := by
        rw [withoutUnderscores, List.filter_cons_of_pos (by simpa using hc.noUnderscore),
          List.filter_append]
        rfl
      _ = c :: cs := by rw [hgap, ih hcs, List.nil_append]

/-- An `n` at the end is passed over, and nothing else. -/
theorem dropSuffix_solid {suffix : List Char} (h : suffix ∈ [[], ['n']]) :
    (if (cs ++ suffix).getLast? == some 'n' then (cs ++ suffix).dropLast else cs ++ suffix) =
      cs := by
  have hlast : cs.getLast? ≠ some 'n' := fun he => (hcs 'n' (List.mem_of_getLast? he)).noSuffix rfl
  rcases List.mem_pair.1 h with rfl | rfl
  · rw [List.append_nil, if_neg (by simpa using hlast)]
  · rw [if_pos (by simp), List.dropLast_concat]

/-- A text in ASCII without blanks is a numeral as it stands. -/
theorem numeral_solid (hnil : cs ≠ []) : numeral (String.ofList cs) = cs := by
  have hplain : plain cs = cs := by
    unfold plain
    conv => rhs; rw [← List.map_id cs]
    exact List.map_congr_left fun c hc => if_pos (hcs c hc).ascii
  have htrim : trimEnds isBasicBlank ([] ++ cs ++ []) = cs :=
    trimEnds_between nofun nofun hnil (fun c hc => (hcs c (List.mem_of_head? hc)).noBlank)
      fun c hc => (hcs c (List.mem_of_getLast? hc)).noBlank
  rw [List.nil_append, List.append_nil] at htrim
  rw [numeral, String.toList_ofList, hplain, htrim]

end

/-! ## Reading the digits -/

section
variable {n : Nat} {digits : List Char}

/-- After a mark, the digits of the base that it names are read. -/
theorem readNamedBase_of {base : Nat} {mark : List Char} (hlength : mark.length = 2)
    (hsolid : ∀ c ∈ mark ++ digits, IsSolid c) (hbase : namedBase? (mark ++ digits) = some base)
    (hle : base ≤ 36) (h : IsNumeral base n digits) :
    readNamedBase (String.ofList (mark ++ digits)) = .ok n := by
  have hdigits : (mark ++ digits).drop 2 = digits := by
    rw [← hlength, List.drop_left]
  have hempty : ¬ digits.isEmpty = true := fun he => h.1 (List.isEmpty_iff.1 he)
  unfold readNamedBase
  rw [numeral_solid hsolid (by simp [h.1])]
  simp only [hbase, hdigits, if_neg hempty, h.positional?_eq hle]

theorem digitsValue_isNumeral (h : IsNumeral 10 n digits) : digitsValue digits = n := by
  have hforms : ∀ v < 10, ∀ c ∈ digitForms v, c.toNat - 0x30 = v :=
    forall_digitForms (by decide)
  exact h.foldl_eq hforms

theorem splitSign_digits (h : ∀ c ∈ digits, isPlainDigit c = true) :
    splitSign digits = (false, digits) := by
  unfold splitSign
  split
  · exact absurd (h '-' List.mem_cons_self) (by decide)
  · exact absurd (h '+' List.mem_cons_self) (by decide)
  · rfl

/-- Digits alone name no base. -/
theorem namedBase?_digits (h : ∀ c ∈ digits, isPlainDigit c = true) : namedBase? digits = none := by
  have hmark : ∀ {c : Char} {rest : List Char}, digits = '0' :: c :: rest →
      isPlainDigit c = true := by
    rintro c rest rfl
    exact h c (by simp)
  unfold namedBase?
  split
  · exact absurd (hmark rfl) (by decide)
  · exact absurd (hmark rfl) (by decide)
  · exact absurd (hmark rfl) (by decide)
  · exact absurd (hmark rfl) (by decide)
  · exact absurd (hmark rfl) (by decide)
  · exact absurd (hmark rfl) (by decide)
  · rfl

/-- Digits up to the limit are read in base ten. -/
theorem readDecimal_of (hsolid : ∀ c ∈ digits, IsSolid c) (h : IsNumeral 10 n digits)
    (hlimit : digits.length ≤ Fault.digitLimit) :
    readDecimal (String.ofList digits) = .ok n := by
  have hplain := h.isPlainDigit
  have htake : digits.takeWhile isPlainDigit = digits := List.takeWhile_eq_self_iff.2 hplain
  unfold readDecimal
  rw [numeral_solid hsolid h.1, splitSign_digits hplain]
  dsimp only
  rw [htake, if_neg (Nat.not_lt.2 hlimit), if_neg (by simpa using h.1),
    digitsValue_isNumeral h]
  rfl

end

/-! ## Reading a literal -/

/-- Of a literal, its mark, its digits and a final `n` are left without underscores. -/
theorem withoutUnderscores_literal {mark digits written suffix : List Char}
    (hmark : ∀ c ∈ mark, IsSolid c) (hdigits : ∀ c ∈ digits, IsSolid c)
    (hwritten : Separated digits written) (hsuffix : suffix ∈ [[], ['n']]) :
    withoutUnderscores (mark ++ written ++ suffix) = mark ++ digits ++ suffix := by
  have hkept : withoutUnderscores suffix = suffix := by
    rcases List.mem_pair.1 hsuffix with rfl | rfl <;> rfl
  rw [withoutUnderscores, List.filter_append, List.filter_append, ← withoutUnderscores,
    ← withoutUnderscores, ← withoutUnderscores, withoutUnderscores_solid hmark,
    withoutUnderscores_separated hdigits hwritten, hkept]

/-- A literal of a natural number is read as that number. -/
theorem ofLiteral_integer (base : LiteralBase) (n : Nat) {mark digits written suffix : List Char}
    (hmark : mark ∈ base.marks) (hdigits : IsNumeral base.radix n digits)
    (hwritten : Separated digits written) (hsuffix : suffix ∈ [[], ['n']])
    (hlimit : base = .decimal → digits.length ≤ 4300) :
    ofLiteral (String.ofList (mark ++ written ++ suffix)) = .ok (.int n) := by
  have hmarkSolid := isSolid_of_mark hmark
  have hdigitsSolid := isSolid_of_isNumeral base.radix_le hdigits
  have hsolid : ∀ c ∈ mark ++ digits, IsSolid c :=
    List.forall_mem_append.2 ⟨hmarkSolid, hdigitsSolid⟩
  unfold ofLiteral
  rw [String.toList_ofList, withoutUnderscores_literal hmarkSolid hdigitsSolid hwritten hsuffix]
  dsimp only
  rw [dropSuffix_solid hsolid hsuffix]
  by_cases hdecimal : base = .decimal
  · subst hdecimal
    obtain rfl : mark = [] := by simpa [LiteralBase.marks] using hmark
    rw [List.nil_append, namedBase?_digits hdigits.isPlainDigit,
      readDecimal_of hdigitsSolid hdigits (hlimit rfl)]
    rfl
  · have hnamed : mark.length = 2 ∧ namedBase? (mark ++ digits) = some base.radix := by
      cases base with
      | decimal => exact absurd rfl hdecimal
      | binary | octal | hexadecimal =>
        rcases List.mem_pair.1 hmark with rfl | rfl <;> exact ⟨rfl, rfl⟩
    have hle : base.radix ≤ 36 := Nat.le_trans base.radix_le (by decide)
    rw [readNamedBase_of hnamed.1 hsolid hnamed.2 hle hdigits, hnamed.2]
    rfl

/-- The literal `0X0_0__fFn`. -/
theorem ofLiteral_integer_separated :
    (['0', 'X'] ∈ LiteralBase.marks .hexadecimal ∧ IsNumeral 16 255 ['0', '0', 'f', 'F'] ∧
      Separated ['0', '0', 'f', 'F'] "0_0__fF".toList) ∧
    ofLiteral "0X0_0__fFn" = .ok (.int 255) := by
  have hmark : ['0', 'X'] ∈ LiteralBase.marks .hexadecimal := by decide
  have hdigits : IsNumeral 16 255 ['0', '0', 'f', 'F'] :=
    ⟨by decide, [0, 0, 15, 15], by decide, by decide⟩
  have hwritten : Separated ['0', '0', 'f', 'F'] "0_0__fF".toList :=
    .cons '0' 1 (.cons '0' 2 (.cons 'f' 0 (.single 'F')))
  have h := ofLiteral_integer .hexadecimal 255 hmark hdigits hwritten (by decide : ['n'] ∈ _) nofun
  have hliteral : String.ofList (['0', 'X'] ++ "0_0__fF".toList ++ ['n']) = "0X0_0__fFn" := by
    decide
  rw [hliteral] at h
  exact ⟨⟨hmark, hdigits, hwritten⟩, h⟩

end Chronicle.Number
