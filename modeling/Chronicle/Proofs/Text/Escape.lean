import Mathlib.Data.List.TakeWhile
import Chronicle.Proofs.Text.Numeral
import Chronicle.Text.Escape

/-!
# Escape sequences

After a backslash stands one of the longer forms of an escape sequence (`LongForm`), where one begins
there, and a single character otherwise (`Sequence`).  The decoder takes just this much, and the rest
of the text does not change what it stands for (`Sequence.unescapeChars_append`).

The body of a quoted text writes each character of a text as it is or as an escape sequence
(`Writing`), and may hold line breaks after a backslash between them (`Rendering`).  Such a body
stands for the text (`unescape_rendering`).
-/

set_option autoImplicit false

namespace Chronicle.Text

/-! ## Forms of an escape sequence -/

/-- The letters that a fixed number of hexadecimal digits follows. -/
def codeLetters : List (Char × Nat) :=
  [('u', 4), ('x', 2)]

/-- The forms of an escape sequence, without its backslash, that are longer than a character, and
what they stand for. -/
inductive LongForm : List Char → Except Fault (List Char) → Prop
  | braced {digits : List Char} (nonempty : digits ≠ [])
    (hex : ∀ d ∈ digits, isHexDigit d = true) :
    LongForm ('u' :: '\x7b' :: (digits ++ ['\x7d'])) (ofHexDigits digits)
  | code {letter : Char} {count : Nat} {digits : List Char} (kind : (letter, count) ∈ codeLetters)
    (length : digits.length = count) (hex : ∀ d ∈ digits, isHexDigit d = true) :
    LongForm (letter :: digits) (ofHexDigits digits)
  | lineEnd : LongForm ['\r', '\n'] (.ok [])

/-- What follows a backslash, cut where its escape sequence ends: after a longer form or, where none
begins, after one character. -/
inductive Sequence : List Char → List Char → Except Fault (List Char) → Prop
  | long {w after : List Char} {meaning : Except Fault (List Char)} (form : LongForm w meaning) :
    Sequence w after meaning
  | single {c : Char} {after : List Char}
    (none : ∀ w meaning, LongForm w meaning → ¬ w <+: c :: after) :
    Sequence [c] after (.ok (unescapeChar c))

theorem pos_of_mem_codeLetters {letter : Char} {count : Nat}
    (h : (letter, count) ∈ codeLetters) : 0 < count := by
  rcases List.mem_pair.1 h with h | h <;> cases h <;> decide

theorem LongForm.two_le_length {w : List Char} {meaning : Except Fault (List Char)}
    (h : LongForm w meaning) : 2 ≤ w.length := by
  cases h with
  | braced => simp
  | code kind length =>
    rw [List.length_cons, length]
    exact Nat.succ_le_succ (pos_of_mem_codeLetters kind)
  | lineEnd => exact Nat.le_refl 2

/-- Where a sequence ends the text, it is cut in the same way. -/
theorem Sequence.alone {w after : List Char} {meaning : Except Fault (List Char)}
    (h : Sequence w after meaning) : Sequence w [] meaning := by
  cases h with
  | long form => exact .long form
  | single =>
    refine .single fun w meaning hform hprefix => ?_
    have hlength := hprefix.length_le
    exact absurd hform.two_le_length (by simpa using Nat.lt_succ_of_le hlength)

/-! ## Taking an escape sequence -/

section
variable {digits : List Char} (hhex : ∀ d ∈ digits, isHexDigit d = true) (after : List Char)
include hhex

theorem escapeAt_braced (hnil : digits ≠ []) :
    escapeAt 'u' ('\x7b' :: (digits ++ '\x7d' :: after)) =
      (ofHexDigits digits, digits.length + 3) := by
  have htake : (digits ++ '\x7d' :: after).takeWhile isHexDigit = digits := by
    rw [List.takeWhile_append_of_pos hhex, List.takeWhile_cons_of_neg (by decide), List.append_nil]
  unfold escapeAt
  simp [htake, hnil]

theorem head?_ne_of_isHexDigit {c : Char} (hc : isHexDigit c = false) (hnil : digits ≠ []) :
    (digits ++ after).head? ≠ some c := by
  intro he
  rw [List.head?_append_of_ne_nil _ hnil] at he
  rw [hhex c (List.mem_of_head? he)] at hc
  cases hc

theorem escapeAt_code {letter : Char} {count : Nat} (hkind : (letter, count) ∈ codeLetters)
    (hlength : digits.length = count) :
    escapeAt letter (digits ++ after) = (ofHexDigits digits, count + 1) := by
  have hnil : digits ≠ [] :=
    List.ne_nil_of_length_pos (hlength ▸ pos_of_mem_codeLetters hkind)
  have hbrace := head?_ne_of_isHexDigit hhex after (by decide : isHexDigit '\x7b' = false) hnil
  have hall : digits.all isHexDigit = true := List.all_eq_true.2 hhex
  have htake : (digits ++ after).take count = digits := by rw [← hlength, List.take_left]
  generalize digits ++ after = rest at hbrace htake
  unfold escapeAt
  rcases List.mem_pair.1 hkind with h | h <;> cases h
  · simp [htake, hlength, hall, hbrace]
  · simp [htake, hlength, hall]

end

/-- A longer form is taken as a whole. -/
theorem LongForm.escapeAt_eq {w : List Char} {meaning : Except Fault (List Char)}
    (h : LongForm w meaning) (after : List Char) :
    ∃ c rest, w = c :: rest ∧ escapeAt c (rest ++ after) = (meaning, w.length) := by
  cases h with
  | @braced digits nonempty hex =>
    refine ⟨'u', _, rfl, ?_⟩
    rw [List.cons_append, List.append_assoc, List.singleton_append,
      escapeAt_braced hex after nonempty]
    simp
  | code kind length hex =>
    exact ⟨_, _, rfl, by rw [escapeAt_code hex after kind length, List.length_cons, length]⟩
  | lineEnd => exact ⟨'\r', _, rfl, by simp [escapeAt]⟩

section
variable {c : Char} {after : List Char}
  (hnone : ∀ w meaning, LongForm w meaning → ¬ w <+: c :: after)
include hnone

theorem not_braced :
    ¬ (c = 'u' ∧ after.head? = some '\x7b' ∧ (after.drop 1).takeWhile isHexDigit ≠ [] ∧
      after[((after.drop 1).takeWhile isHexDigit).length + 1]? = some '\x7d') := by
  rintro ⟨rfl, hopen, hnil, hclose⟩
  obtain ⟨rest, rfl⟩ := List.head?_eq_some_iff.1 hopen
  rw [List.drop_one, List.tail_cons] at hnil hclose
  have hhead : (rest.dropWhile isHexDigit).head? = some '\x7d' := by
    obtain ⟨digits, hdigits⟩ : ∃ digits, digits = rest.takeWhile isHexDigit := ⟨_, rfl⟩
    have hsplit : digits ++ rest.dropWhile isHexDigit = rest :=
      hdigits ▸ List.takeWhile_append_dropWhile
    rwa [List.getElem?_cons_succ, ← hdigits, ← hsplit, List.getElem?_append_right (Nat.le_refl _),
      Nat.sub_self, ← List.head?_eq_getElem?] at hclose
  obtain ⟨tail, htail⟩ := List.head?_eq_some_iff.1 hhead
  refine hnone _ _ (.braced hnil fun d hd => List.mem_takeWhile_imp hd) ⟨tail, ?_⟩
  rw [List.cons_append, List.cons_append, List.append_assoc, List.singleton_append, ← htail,
    List.takeWhile_append_dropWhile]

theorem not_code {letter : Char} {count : Nat} (hkind : (letter, count) ∈ codeLetters) :
    ¬ (c = letter ∧ (after.take count).length = count ∧
      ∀ d ∈ after.take count, isHexDigit d = true) := by
  rintro ⟨rfl, hlength, hhex⟩
  exact hnone _ _ (.code hkind hlength hhex)
    ((List.prefix_cons_inj c).2 (List.take_prefix count after))

/-- Where no longer form begins, a character is taken. -/
theorem escapeAt_single : escapeAt c after = (.ok (unescapeChar c), 1) := by
  have hbraced := not_braced hnone
  have hfour := not_code hnone (by decide : ('u', 4) ∈ codeLetters)
  have htwo := not_code hnone (by decide : ('x', 2) ∈ codeLetters)
  have hreturn : ¬ (c = '\r' ∧ after.head? = some '\n') := by
    rintro ⟨rfl, hhead⟩
    obtain ⟨rest, rfl⟩ := List.head?_eq_some_iff.1 hhead
    exact hnone _ _ .lineEnd (List.prefix_append ['\r', '\n'] rest)
  unfold escapeAt
  dsimp only
  rw [if_neg (by simpa using hbraced), if_neg (by simpa using hfour), if_neg (by simpa using htwo),
    if_neg (by simpa using hreturn)]

end

theorem Sequence.escapeAt_eq {w after : List Char} {meaning : Except Fault (List Char)}
    (h : Sequence w after meaning) :
    ∃ c rest, w = c :: rest ∧ escapeAt c (rest ++ after) = (meaning, w.length) := by
  cases h with
  | long form => exact form.escapeAt_eq after
  | @single c _ hnone => exact ⟨c, [], rfl, escapeAt_single hnone⟩

/-! ## Decoding -/

theorem unescapeChars_raw {c : Char} (h : c ≠ '\\') (cs : List Char) :
    unescapeChars (c :: cs) = (unescapeChars cs).map (c :: ·) := by
  rw [unescapeChars]
  · cases unescapeChars cs <;> rfl
  · exact fun he _ => h he
  · exact fun _ _ he _ => h he

/-- After a sequence, decoding goes on with what follows it. -/
theorem Sequence.unescapeChars_append {w after : List Char} {meaning : Except Fault (List Char)}
    (h : Sequence w after meaning) :
    unescapeChars ('\\' :: (w ++ after)) = (do
      let cs ← meaning
      return cs ++ (← unescapeChars after)) := by
  obtain ⟨c, rest, rfl, hescape⟩ := h.escapeAt_eq
  have hdrop : (rest ++ after).drop ((c :: rest).length - 1) = after := by
    rw [List.length_cons, Nat.add_sub_cancel, List.drop_left]
  rw [List.cons_append, unescapeChars, hescape]
  dsimp only
  rw [hdrop]

/-! ## Written characters -/

/-- The characters that a letter after a backslash stands for. -/
def letters : List (Char × Char) :=
  [('\n', 'n'), ('\t', 't'), ('\r', 'r'), ('\x08', 'b'), ('\x0c', 'f'), ('\x0b', 'v'),
    ('\x00', '0')]

/-- The characters that do not stand for themselves after a backslash. -/
def reserved : List Char :=
  ['n', 't', 'r', 'b', 'f', 'v', '0', 'u', 'x', '\n', '\r', '\u2028', '\u2029']

/-- The ways of writing a character. -/
inductive Writing : Char → List Char → Prop
  | raw {c : Char} : c ≠ '\\' → Writing c [c]
  | braced {c : Char} {digits : List Char} : IsNumeral 16 c.toNat digits →
    Writing c ('\\' :: 'u' :: '\x7b' :: (digits ++ ['\x7d']))
  | four {c : Char} {digits : List Char} : IsNumeral 16 c.toNat digits → digits.length = 4 →
    Writing c ('\\' :: 'u' :: digits)
  | two {c : Char} {digits : List Char} : IsNumeral 16 c.toNat digits → digits.length = 2 →
    Writing c ('\\' :: 'x' :: digits)
  | letter {c d : Char} : (c, d) ∈ letters → Writing c ['\\', d]
  | itself {c : Char} : c ∉ reserved → Writing c ['\\', c]

/-- What can stand after a backslash to join two lines. -/
def lineBreaks : List (List Char) :=
  [['\n'], ['\r', '\n'], ['\r'], ['\u2028'], ['\u2029']]

/-- A text as the body of a quoted text: its characters in one of the ways of writing them, and any
number of line breaks after a backslash before, between and after them.  A return that is joined
must not be followed by a line feed, which would belong to it. -/
inductive Rendering : List Char → List Char → Prop
  | nil : Rendering [] []
  | char {c : Char} {w cs body : List Char} : Writing c w → Rendering cs body →
    Rendering (c :: cs) (w ++ body)
  | joined {lineBreak cs body : List Char} : lineBreak ∈ lineBreaks →
    (lineBreak = ['\r'] → body.head? ≠ some '\n') → Rendering cs body →
    Rendering cs ('\\' :: (lineBreak ++ body))

/-- The code of a character is decoded as it. -/
theorem ofCode_toNat (c : Char) : ofCode c.toNat = .ok c := by
  have hvalid : c.toNat < 0xD800 ∨ (0xDFFF < c.toNat ∧ c.toNat < 0x110000) := c.valid
  unfold ofCode
  rw [if_pos (by omega), if_neg (by simp; omega), Char.ofNat_toNat]

theorem ofHexDigits_isNumeral {c : Char} {digits : List Char}
    (h : IsNumeral 16 c.toNat digits) : ofHexDigits digits = .ok [c] := by
  rw [ofHexDigits, h.positional?_eq (by decide), Option.getD_some, ofCode_toNat]
  rfl

/-- No longer form begins with another character than the code letters, or a return before a line
feed. -/
theorem Sequence.of_char {c : Char} {after : List Char} (hcode : c ≠ 'u' ∧ c ≠ 'x')
    (hreturn : c = '\r' → after.head? ≠ some '\n') :
    Sequence [c] after (.ok (unescapeChar c)) := by
  refine .single fun w meaning hform hprefix => ?_
  cases hform with
  | braced => exact hcode.1 (List.cons_prefix_cons.1 hprefix).1.symm
  | code kind =>
    have hletter := (List.cons_prefix_cons.1 hprefix).1
    rcases List.mem_pair.1 kind with h | h <;> cases h
    · exact hcode.1 hletter.symm
    · exact hcode.2 hletter.symm
  | lineEnd =>
    obtain ⟨hc, hrest⟩ := List.cons_prefix_cons.1 hprefix
    obtain ⟨tail, htail⟩ := hrest
    exact hreturn hc.symm (by rw [← htail]; rfl)

theorem unescapeChar_of_mem_letters :
    ∀ written ∈ letters, unescapeChar written.2 = [written.1] := by
  decide

theorem unescapeChar_of_not_mem {c : Char} (h : c ∉ reserved) : unescapeChar c = [c] := by
  unfold unescapeChar
  split
  · exact absurd (by decide) h
  · exact absurd (by decide) h
  · exact absurd (by decide) h
  · exact absurd (by decide) h
  · exact absurd (by decide) h
  · exact absurd (by decide) h
  · exact absurd (by decide) h
  · have hbreak : isLineBreak c = false := by
      simp only [reserved, List.mem_cons, not_or] at h
      simp [isLineBreak, h]
    rw [hbreak, if_neg Bool.false_ne_true]

/-- A written character is decoded as it, whatever follows. -/
theorem Writing.unescapeChars_append {c : Char} {w : List Char} (h : Writing c w)
    (body : List Char) : unescapeChars (w ++ body) = (unescapeChars body).map (c :: ·) := by
  have hsequence : ∀ {v : List Char} {meaning : Except Fault (List Char)}, Sequence v body meaning →
      meaning = .ok [c] →
      unescapeChars ('\\' :: (v ++ body)) = (unescapeChars body).map (c :: ·) := by
    rintro v _ hv rfl
    rw [hv.unescapeChars_append]
    cases unescapeChars body <;> rfl
  cases h with
  | raw hraw => exact unescapeChars_raw hraw body
  | braced hdigits =>
    exact hsequence (.long (.braced hdigits.1 (hdigits.isHexDigit (by decide))))
      (ofHexDigits_isNumeral hdigits)
  | four hdigits hlength =>
    exact hsequence (.long (.code (by decide) hlength (hdigits.isHexDigit (by decide))))
      (ofHexDigits_isNumeral hdigits)
  | two hdigits hlength =>
    exact hsequence (.long (.code (by decide) hlength (hdigits.isHexDigit (by decide))))
      (ofHexDigits_isNumeral hdigits)
  | @letter d hletter =>
    have hplain : ∀ written ∈ letters, written.2 ∉ ['u', 'x', '\r'] := by decide
    have hd := hplain _ hletter
    simp only [List.mem_cons, List.not_mem_nil, or_false, not_or] at hd
    refine hsequence (.of_char ⟨hd.1, hd.2.1⟩ fun he => absurd he hd.2.2) ?_
    rw [unescapeChar_of_mem_letters _ hletter]
  | itself hitself =>
    have hplain : ∀ d ∈ reserved, c ≠ d := fun d hd he => hitself (he ▸ hd)
    refine hsequence (.of_char ⟨hplain 'u' (by decide), hplain 'x' (by decide)⟩
      fun he => absurd he (hplain '\r' (by decide))) ?_
    rw [unescapeChar_of_not_mem hitself]

/-- A line break after a backslash is left out. -/
theorem sequence_of_lineBreak {lineBreak body : List Char} (h : lineBreak ∈ lineBreaks)
    (hreturn : lineBreak = ['\r'] → body.head? ≠ some '\n') :
    Sequence lineBreak body (.ok []) := by
  simp only [lineBreaks, List.mem_cons, List.not_mem_nil, or_false] at h
  rcases h with rfl | rfl | rfl | rfl | rfl
  · exact .of_char (by decide) nofun
  · exact .long .lineEnd
  · exact .of_char (by decide) fun _ => hreturn rfl
  · exact .of_char (by decide) nofun
  · exact .of_char (by decide) nofun

theorem unescapeChars_rendering {cs body : List Char} (h : Rendering cs body) :
    unescapeChars body = .ok cs := by
  induction h with
  | nil => rw [unescapeChars]
  | char hw _ ih =>
    rw [hw.unescapeChars_append, ih]
    rfl
  | joined hbreak hreturn _ ih =>
    rw [(sequence_of_lineBreak hbreak hreturn).unescapeChars_append, ih]
    rfl

theorem unescape_ofList (cs : List Char) :
    unescape (String.ofList cs) = (unescapeChars cs).map String.ofList := by
  rw [unescape, String.toList_ofList]

/-- A text is what every body stands for that it is written as. -/
theorem unescape_rendering {text body : String} (h : Rendering text.toList body.toList) :
    unescape body = .ok text := by
  rw [unescape, unescapeChars_rendering h]
  exact congrArg _ String.ofList_toList

/-- Every form of an escape sequence but the shortest code, next to each other and over three lines. -/
theorem unescape_rendering_adjacent :
    Rendering "n\né\x00f'".toList "n\\n\\u\x7b00E9\x7d\\\r\\0\\\r\n\\u0066\\'\\\u2028".toList ∧
      unescape "n\\n\\u\x7b00E9\x7d\\\r\\0\\\r\n\\u0066\\'\\\u2028" = .ok "n\né\x00f'" := by
  have hcode : IsNumeral 16 'é'.toNat ['0', '0', 'E', '9'] :=
    ⟨by decide, [0, 0, 14, 9], by decide, by decide⟩
  have hletter : IsNumeral 16 'f'.toNat ['0', '0', '6', '6'] :=
    ⟨by decide, [0, 0, 6, 6], by decide, by decide⟩
  have h : Rendering ['n', '\n', 'é', '\x00', 'f', '\''] _ :=
    .char (.raw (by decide)) <| .char (.letter (by decide : ('\n', 'n') ∈ letters)) <|
    .char (.braced hcode) <| .joined (by decide : ['\r'] ∈ lineBreaks) (by decide) <|
    .char (.letter (by decide : ('\x00', '0') ∈ letters)) <|
    .joined (by decide : ['\r', '\n'] ∈ lineBreaks) nofun <|
    .char (.four hletter rfl) <| .char (.itself (by decide)) <|
    .joined (by decide : ['\u2028'] ∈ lineBreaks) nofun .nil
  exact ⟨h, unescape_rendering h⟩

end Chronicle.Text
