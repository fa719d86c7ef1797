import Chronicle.Proofs.Text.Escape
import Chronicle.Proofs.Text.Pattern

/-!
# Matches of escape sequences

`escapePattern` is the pattern of an escape sequence, whose alternatives are tried in order.  Its
first way after a backslash is the sequence that stands there (`first_escapePattern`), and elsewhere
it does not match.  So decoding leaves what is not matched as it is (`unescapeChars_pass`), and a
match stands for the same in the text as by itself (`unescapeChars_found`).
-/

set_option autoImplicit false

namespace Chronicle.Text

open Pattern

/-- Hexadecimal digits in braces, after a `u`. -/
def bracedPattern : Pattern Unit := do
  word ['u', '\x7b']
  char isHexDigit
  skip isHexDigit
  word ['\x7d']
  return ()

/-- So many hexadecimal digits after a letter. -/
def codePattern (letter : Char) (count : Nat) : Pattern Unit := do
  word [letter]
  times isHexDigit count

/-- An escape sequence. -/
def escapePattern : Pattern Unit := do
  word ['\\']
  oneOf [bracedPattern, codePattern 'u' 4, codePattern 'x' 2, word ['\r', '\n'], char fun _ => true]

/-! ## Ways of the alternatives -/

section
variable {cs : List Char} {b : Unit × List Char}

theorem first_bracedPattern_iff : bracedPattern.first cs = some b ↔
    ∃ digits, cs = 'u' :: '\x7b' :: (digits ++ '\x7d' :: b.2) ∧ digits ≠ [] ∧
      ∀ d ∈ digits, isHexDigit d = true := by
  have hclose : isHexDigit '\x7d' = false := by decide
  unfold bracedPattern
  constructor
  · intro h
    obtain ⟨_, rfl, hfirst⟩ := first_word_bind_iff.1 h
    obtain ⟨c, _, rfl, hc, hrest⟩ := first_char_bind_iff.1 hfirst
    obtain ⟨xs, rest, rfl, hxs, hend⟩ := (first_skip_word_iff hclose).1 hrest
    cases hend
    exact ⟨c :: xs, rfl, List.cons_ne_nil c xs, List.forall_mem_cons.2 ⟨hc, hxs⟩⟩
  · rintro ⟨_ | ⟨c, xs⟩, rfl, hnil, hhex⟩
    · exact absurd rfl hnil
    · obtain ⟨hc, hxs⟩ := List.forall_mem_cons.1 hhex
      exact first_word_bind_iff.2 ⟨_, rfl, first_char_bind_iff.2 ⟨c, _, rfl, hc,
        (first_skip_word_iff hclose).2 ⟨xs, b.2, rfl, hxs, rfl⟩⟩⟩

theorem first_codePattern_iff {letter : Char} {count : Nat} :
    (codePattern letter count).first cs = some b ↔
    ∃ digits, cs = letter :: (digits ++ b.2) ∧ digits.length = count ∧
      ∀ d ∈ digits, isHexDigit d = true := by
  unfold codePattern
  constructor
  · intro h
    obtain ⟨_, rfl, hrest⟩ := first_word_bind_iff.1 h
    obtain ⟨digits, rfl, hlength, hhex⟩ := first_times_iff.1 hrest
    exact ⟨digits, rfl, hlength, hhex⟩
  · rintro ⟨digits, rfl, hlength, hhex⟩
    exact first_word_bind_iff.2 ⟨_, rfl, first_times_iff.2 ⟨digits, rfl, hlength, hhex⟩⟩

end

/-! ## The first way -/

/-- The forms of an escape sequence that are longer than a character. -/
def longPatterns : List (Pattern Unit) :=
  [bracedPattern, codePattern 'u' 4, codePattern 'x' 2, word ['\r', '\n']]

theorem first_escapePattern_eq (cs : List Char) :
    escapePattern.first ('\\' :: cs) =
      ((oneOf longPatterns).first cs).or ((char fun _ => true).first cs) := by
  unfold escapePattern
  rw [first_word_self, first_oneOf, first_oneOf]
  show (longPatterns ++ [char fun _ => true]).findSome? _ = _
  rw [List.findSome?_append, List.findSome?_singleton]

/-- What one of these patterns matches is a longer form. -/
theorem longForm_of_first {x : Pattern Unit} (hx : x ∈ longPatterns) {cs : List Char}
    {b : Unit × List Char} (h : x.first cs = some b) :
    ∃ w meaning, LongForm w meaning ∧ cs = w ++ b.2 := by
  simp only [longPatterns, List.mem_cons, List.not_mem_nil, or_false] at hx
  rcases hx with rfl | rfl | rfl | rfl
  · obtain ⟨digits, rfl, hnil, hhex⟩ := first_bracedPattern_iff.1 h
    exact ⟨_, _, .braced hnil hhex, by simp⟩
  · obtain ⟨digits, rfl, hlength, hhex⟩ := first_codePattern_iff.1 h
    exact ⟨_, _, .code (by decide) hlength hhex, rfl⟩
  · obtain ⟨digits, rfl, hlength, hhex⟩ := first_codePattern_iff.1 h
    exact ⟨_, _, .code (by decide) hlength hhex, rfl⟩
  · exact ⟨_, _, .lineEnd, first_word_iff.1 h⟩

/-- One of these patterns matches each longer form. -/
theorem LongForm.exists_first {w : List Char} {meaning : Except Fault (List Char)}
    (h : LongForm w meaning) (after : List Char) :
    ∃ x ∈ longPatterns, x.first (w ++ after) = some ((), after) := by
  cases h with
  | @braced digits nonempty hex =>
    exact ⟨bracedPattern, by simp [longPatterns],
      first_bracedPattern_iff.2 ⟨digits, by simp, nonempty, hex⟩⟩
  | @code letter count digits kind length hex =>
    have hpattern : codePattern letter count ∈ longPatterns := by
      rcases List.mem_pair.1 kind with h | h <;> cases h <;> simp [longPatterns]
    exact ⟨_, hpattern, first_codePattern_iff.2 ⟨digits, rfl, length, hex⟩⟩
  | lineEnd => exact ⟨word ['\r', '\n'], by simp [longPatterns], first_word_iff.2 rfl⟩

/-- Longer forms that begin in the same place are the same. -/
theorem LongForm.eq_of_append {v w after rest : List Char} {meaning other : Except Fault (List Char)}
    (hv : LongForm v meaning) (hw : LongForm w other) (h : v ++ after = w ++ rest) : v = w := by
  obtain ⟨c, vs, rfl, hvs⟩ := hv.escapeAt_eq after
  obtain ⟨d, ws, rfl, hws⟩ := hw.escapeAt_eq rest
  obtain ⟨rfl, hrest⟩ : c = d ∧ vs ++ after = ws ++ rest := List.cons.inj h
  rw [hrest, hws] at hvs
  exact List.append_inj_left h (congrArg Prod.snd hvs).symm

theorem first_longPatterns {w : List Char} {meaning : Except Fault (List Char)}
    (h : LongForm w meaning) (after : List Char) :
    (oneOf longPatterns).first (w ++ after) = some ((), after) := by
  rw [first_oneOf]
  obtain ⟨x, hx, hfirst⟩ := h.exists_first after
  obtain ⟨way, hway⟩ : ∃ way, longPatterns.findSome? (·.first (w ++ after)) = some way := by
    rw [← Option.isSome_iff_exists, List.findSome?_isSome_iff]
    exact ⟨x, hx, by rw [hfirst]; rfl⟩
  -- whichever pattern matches first, it matches the same form
  obtain ⟨y, hy, hsome⟩ := List.exists_of_findSome?_eq_some hway
  obtain ⟨v, other, hform, hsplit⟩ := longForm_of_first hy hsome
  obtain rfl := h.eq_of_append hform hsplit
  rw [hway, List.append_cancel_left hsplit]

/-- The pattern matches the sequence that stands after a backslash. -/
theorem first_escapePattern {w after : List Char} {meaning : Except Fault (List Char)}
    (h : Sequence w after meaning) :
    escapePattern.first ('\\' :: (w ++ after)) = some ((), after) := by
  rw [first_escapePattern_eq]
  cases h with
  | long form => rw [first_longPatterns form, Option.some_or]
  | @single c _ hnone =>
    have hlong : (oneOf longPatterns).first ([c] ++ after) = none := by
      rw [first_oneOf, List.findSome?_eq_none_iff]
      intro x hx
      cases hfirst : x.first ([c] ++ after) with
      | none => rfl
      | some way =>
        obtain ⟨w, meaning, hform, hsplit⟩ := longForm_of_first hx hfirst
        exact absurd ⟨way.2, hsplit.symm⟩ (hnone w meaning hform)
    rw [hlong, Option.none_or]
    rfl

/-- After every backslash but one that ends the text stands a sequence. -/
theorem exists_sequence (c : Char) (cs : List Char) :
    ∃ w after meaning, c :: cs = w ++ after ∧ Sequence w after meaning := by
  by_cases h : ∃ w meaning, LongForm w meaning ∧ w <+: c :: cs
  · obtain ⟨w, meaning, hform, after, hafter⟩ := h
    exact ⟨w, after, meaning, hafter.symm, .long hform⟩
  · exact ⟨[c], cs, _, rfl, .single fun w meaning hform hprefix => h ⟨w, meaning, hform, hprefix⟩⟩

/-! ## Decoding by matches -/

/-- What begins no match is decoded as it stands. -/
theorem unescapeChars_pass {c : Char} {cs : List Char} (h : escapePattern.first (c :: cs) = none) :
    unescapeChars (c :: cs) = (unescapeChars cs).map (c :: ·) := by
  by_cases hc : c = '\\'
  · subst hc
    cases cs with
    | nil => rw [unescapeChars, unescapeChars]; rfl
    | cons d rest =>
      obtain ⟨w, after, meaning, hsplit, hsequence⟩ := exists_sequence d rest
      rw [hsplit, first_escapePattern hsequence] at h
      cases h
  · exact unescapeChars_raw hc cs

/-- A match is a backslash and the sequence that stands after it. -/
theorem sequence_of_first {w cs : List Char} (h : escapePattern.first (w ++ cs) = some ((), cs)) :
    ∃ v meaning, w = '\\' :: v ∧ Sequence v cs meaning := by
  obtain ⟨rest, hrest, -⟩ := first_word_bind_iff.1 h
  cases rest with
  | nil =>
    rw [hrest] at h
    cases h
  | cons d rest =>
    obtain ⟨v, after, meaning, hsplit, hsequence⟩ := exists_sequence d rest
    have hword : w ++ cs = '\\' :: (v ++ after) := by rw [hrest, hsplit]; rfl
    rw [hword, first_escapePattern hsequence] at h
    cases h
    exact ⟨v, meaning, List.append_cancel_right hword, hsequence⟩

/-- A match is decoded by itself. -/
theorem unescapeChars_found {w cs : List Char}
    (h : escapePattern.first (w ++ cs) = some ((), cs)) :
    unescapeChars (w ++ cs) = (do
      let ds ← unescapeChars w
      return ds ++ (← unescapeChars cs)) := by
  obtain ⟨v, meaning, rfl, hsequence⟩ := sequence_of_first h
  have halone := hsequence.alone.unescapeChars_append
  rw [List.append_nil, unescapeChars] at halone
  rw [List.cons_append, hsequence.unescapeChars_append, halone]
  cases meaning with
  | error f => rfl
  | ok ds =>
    show _ = (do return (ds ++ []) ++ (← unescapeChars cs))
    rw [List.append_nil]
    rfl

end Chronicle.Text
