import Mathlib.Data.List.Basic
import Chronicle.Text.Blank

/-!
# Words between brackets

A word is plain, or a list of words between square brackets, or a list of named words between braces
(`Word`).  Words with a mark of their end behind them can be read in one way only: two words that
begin the same text are the same, and so is what follows them (`Word.told`).  So the elements of a
list are known from the list (`separated_cancel`).

The induction is on the first of the two words: what tells it apart from all others is that its
parts are told apart, and that a list ends where no separator follows.
-/

set_option autoImplicit false

namespace Chronicle.Text

/-- The characters that make up the structure of words, and those that stand around texts. -/
def marks : List Char := ['\x7b', '\x7d', '[', ']', ',', ':', '"']

/-- Characters without structure: not none, without marks and blanks. -/
def IsPlain (cs : List Char) : Prop :=
  cs ≠ [] ∧ ∀ c ∈ cs, c ∉ marks ∧ isBlank c = false

instance (cs : List Char) : Decidable (IsPlain cs) :=
  @instDecidableAnd _ _ inferInstance (List.decidableBAll _ _)

/-- Words with separators between them. -/
def separated (words : List (List Char)) : List Char :=
  [',', ' '].intercalate words

/-- A word after its name. -/
def named (field : List Char × List Char) : List Char :=
  field.1 ++ ':' :: ' ' :: field.2

/-- Plain words, lists and named lists of words. -/
inductive Word : List Char → Prop
  | plain {cs : List Char} (h : IsPlain cs) : Word cs
  | sequence (words : List (List Char)) (h : ∀ w ∈ words, Word w) :
    Word ('[' :: separated words ++ [']'])
  | record (fields : List (List Char × List Char)) (hnames : ∀ f ∈ fields, IsPlain f.1)
    (h : ∀ f ∈ fields, Word f.2) : Word ('\x7b' :: separated (fields.map named) ++ ['\x7d'])

/-- The marks that can follow a word. -/
def closers : List Char := [',', ']', '\x7d']

/-- What can follow a word: a mark of its end, or nothing. -/
def Ends (rest : List Char) : Prop :=
  ∀ c ∈ rest.head?, c ∈ closers

theorem mem_marks_of_mem_closers : ∀ c ∈ closers, c ∈ marks := by simp [closers, marks]

/-! ## Plain words -/

variable {c : Char} {s t u v : List Char}

theorem ends_nil : Ends [] := nofun

theorem ends_cons : Ends (c :: s) ↔ c ∈ closers := by
  simp [Ends]

/-- Plain words go on until the next mark. -/
theorem IsPlain.cancel (hs : IsPlain s) (ht : IsPlain t) (hu : ∀ c ∈ u.head?, c ∈ marks)
    (hv : ∀ c ∈ v.head?, c ∈ marks) (h : s ++ u = t ++ v) : s = t ∧ u = v := by
  rcases List.append_eq_append_iff.1 h with ⟨more, rfl, rfl⟩ | ⟨more, rfl, rfl⟩
  · cases more with
    | nil => exact ⟨(List.append_nil s).symm, rfl⟩
    | cons c more => exact absurd (hu c rfl) (ht.2 c (by simp)).1
  · cases more with
    | nil => exact ⟨List.append_nil t, rfl⟩
    | cons c more => exact absurd (hv c rfl) (hs.2 c (by simp)).1

theorem IsPlain.not_mem_marks (hs : IsPlain s) : ∃ c rest, s = c :: rest ∧ c ∉ marks := by
  obtain ⟨c, rest, rfl⟩ := List.exists_cons_of_ne_nil hs.1
  exact ⟨c, rest, rfl, (hs.2 c List.mem_cons_self).1⟩

/-! ## Words told apart -/

/-- A word that is told apart from the words `T` where one of them begins the same text. -/
structure Told (T : List Char → Prop) (s : List Char) : Prop where
  begins : ¬ Ends s
  cut : ∀ {t u v : List Char}, T t → Ends u → Ends v → s ++ u = t ++ v → s = t ∧ u = v

/-- Further words of a list, each after a separator. -/
def further (words : List (List Char)) : List Char :=
  words.flatMap ([',', ' '] ++ ·)

theorem separated_cons (w : List Char) (words : List (List Char)) :
    separated (w :: words) = w ++ further words := by
  induction words generalizing w with
  | nil => simp [separated, further]
  | cons w' words ih =>
    rw [separated, List.intercalate_cons_cons, ← separated, ih]
    simp [further]

theorem ends_further (hc : c ∈ closers) (words : List (List Char)) (rest : List Char) :
    Ends (further words ++ c :: rest) := by
  cases words with
  | nil => exact ends_cons.2 hc
  | cons w words => exact ends_cons.2 (by decide)

section
variable {T : List Char → Prop} {ps qs : List (List Char)}

theorem further_cancel (hc : c ∈ closers) (hcomma : c ≠ ',') (hps : ∀ p ∈ ps, Told T p)
    (hqs : ∀ q ∈ qs, T q) (h : further ps ++ c :: u = further qs ++ c :: v) :
    ps = qs ∧ u = v := by
  induction ps generalizing qs with
  | nil =>
    cases qs with
    | nil => exact ⟨rfl, (List.cons.inj h).2⟩
    | cons q qs => exact absurd (List.cons.inj h).1 hcomma
  | cons p ps ih =>
    obtain ⟨hp, hps⟩ := List.forall_mem_cons.1 hps
    cases qs with
    | nil => exact absurd (List.cons.inj h).1.symm hcomma
    | cons q qs =>
      obtain ⟨hq, hqs⟩ := List.forall_mem_cons.1 hqs
      have hrest : p ++ (further ps ++ c :: u) = q ++ (further qs ++ c :: v) := by
        simpa [further] using h
      obtain ⟨hfirst, hrest⟩ := hp.cut hq (ends_further hc ps u) (ends_further hc qs v) hrest
      obtain ⟨hlater, huv⟩ := ih hps hqs hrest
      exact ⟨by rw [hfirst, hlater], huv⟩

/-- A word that begins a list does not stand where the list is empty. -/
theorem not_ends_separated {w : List Char} (hw : ¬ Ends w) (words : List (List Char))
    (rest : List Char) : ¬ Ends (separated (w :: words) ++ rest) := by
  rw [separated_cons]
  cases w with
  | nil => exact absurd ends_nil hw
  | cons d w => exact fun h => hw (ends_cons.2 (ends_cons.1 h))

/-- Of two lists that begin the same text, the elements are the same, when those of the first are
told apart from those of the second. -/
theorem separated_cancel (hT : ∀ t, T t → ¬ Ends t) (hc : c ∈ closers) (hcomma : c ≠ ',')
    (hps : ∀ p ∈ ps, Told T p) (hqs : ∀ q ∈ qs, T q)
    (h : separated ps ++ c :: u = separated qs ++ c :: v) : ps = qs ∧ u = v := by
  cases ps with
  | nil =>
    cases qs with
    | nil => exact ⟨rfl, (List.cons.inj h).2⟩
    | cons q qs =>
      refine absurd ?_ (not_ends_separated (hT q (hqs q List.mem_cons_self)) qs (c :: v))
      exact h ▸ ends_cons.2 hc
  | cons p ps =>
    obtain ⟨hp, hps⟩ := List.forall_mem_cons.1 hps
    cases qs with
    | nil =>
      refine absurd ?_ (not_ends_separated hp.begins ps (c :: u))
      exact h ▸ ends_cons.2 hc
    | cons q qs =>
      obtain ⟨hq, hqs⟩ := List.forall_mem_cons.1 hqs
      rw [separated_cons, separated_cons, List.append_assoc, List.append_assoc] at h
      obtain ⟨hfirst, h⟩ := hp.cut hq (ends_further hc ps u) (ends_further hc qs v) h
      obtain ⟨hlater, huv⟩ := further_cancel hc hcomma hps hqs h
      exact ⟨by rw [hfirst, hlater], huv⟩

end

/-! ## Named words -/

/-- Named words, which make up a record. -/
def NamedWord (t : List Char) : Prop :=
  ∃ f : List Char × List Char, IsPlain f.1 ∧ Word f.2 ∧ named f = t

theorem IsPlain.not_ends (hs : IsPlain s) (rest : List Char) : ¬ Ends (s ++ rest) := by
  obtain ⟨c, s, rfl, hc⟩ := hs.not_mem_marks
  exact fun h => hc (mem_marks_of_mem_closers c (ends_cons.1 h))

/-- A name ends at its colon. -/
theorem named_cancel {f g : List Char × List Char} (hf : IsPlain f.1) (hg : IsPlain g.1)
    (h : named f ++ u = named g ++ v) : f.1 = g.1 ∧ f.2 ++ u = g.2 ++ v := by
  have hcolon : ∀ c ∈ (':' :: ' ' :: (f.2 ++ u)).head?, c ∈ marks := by simp [marks]
  have hcolon' : ∀ c ∈ (':' :: ' ' :: (g.2 ++ v)).head?, c ∈ marks := by simp [marks]
  have h : f.1 ++ ':' :: ' ' :: (f.2 ++ u) = g.1 ++ ':' :: ' ' :: (g.2 ++ v) := by
    simpa [named] using h
  obtain ⟨hname, h⟩ := hf.cancel hg hcolon hcolon' h
  exact ⟨hname, (List.cons.inj (List.cons.inj h).2).2⟩

theorem Told.named {f : List Char × List Char} (hname : IsPlain f.1) (h : Told Word f.2) :
    Told NamedWord (named f) where
  begins := hname.not_ends _
  cut := by
    rintro t u v ⟨g, hg, hword, rfl⟩ hu hv heq
    obtain ⟨hnames, hrest⟩ := named_cancel hname hg heq
    obtain ⟨hvalues, huv⟩ := h.cut hword hu hv hrest
    exact ⟨by rw [Text.named, Text.named, hnames, hvalues], huv⟩

/-! ## All words -/

theorem Word.not_ends (hs : Word s) : ¬ Ends s := by
  cases hs with
  | plain h => simpa using h.not_ends []
  | sequence words h => exact fun h => absurd (ends_cons.1 h) (by decide)
  | record fields hnames h => exact fun h => absurd (ends_cons.1 h) (by decide)

theorem not_ends_of_namedWord (hs : NamedWord s) : ¬ Ends s := by
  obtain ⟨f, hname, -, rfl⟩ := hs
  exact hname.not_ends _

/-- Of two words that begin the same text, followed by a mark of their end or nothing, the words are
the same. -/
theorem Word.told (hs : Word s) : Told Word s := by
  induction hs with
  | plain hs =>
    refine ⟨by simpa using hs.not_ends [], fun {t u v} ht hu hv h => ?_⟩
    cases ht with
    | plain ht =>
      exact hs.cancel ht (fun c hc => mem_marks_of_mem_closers c (hu c hc))
        (fun c hc => mem_marks_of_mem_closers c (hv c hc)) h
    | sequence words hwords =>
      obtain ⟨c, s, rfl, hc⟩ := hs.not_mem_marks
      exact absurd (List.cons.inj h).1 fun hbracket => hc (hbracket ▸ by decide)
    | record fields hnames hfields =>
      obtain ⟨c, s, rfl, hc⟩ := hs.not_mem_marks
      exact absurd (List.cons.inj h).1 fun hbrace => hc (hbrace ▸ by decide)
  | sequence ps hps ih =>
    refine ⟨(Word.sequence ps hps).not_ends, fun {t u v} ht hu hv h => ?_⟩
    cases ht with
    | plain ht =>
      obtain ⟨c, t, rfl, hc⟩ := ht.not_mem_marks
      exact absurd (List.cons.inj h).1 fun hbracket => hc (hbracket ▸ by decide)
    | sequence qs hqs =>
      have h : separated ps ++ ']' :: u = separated qs ++ ']' :: v := by simpa using h
      obtain ⟨rfl, huv⟩ :=
        separated_cancel (fun t ht => ht.not_ends) (by decide) (by decide) ih hqs h
      exact ⟨rfl, huv⟩
    | record fields hnames hfields => exact absurd (List.cons.inj h).1 (by decide)
  | record fs hnames hfs ih =>
    refine ⟨(Word.record fs hnames hfs).not_ends, fun {t u v} ht hu hv h => ?_⟩
    cases ht with
    | plain ht =>
      obtain ⟨c, t, rfl, hc⟩ := ht.not_mem_marks
      exact absurd (List.cons.inj h).1 fun hbrace => hc (hbrace ▸ by decide)
    | sequence qs hqs => exact absurd (List.cons.inj h).1 (by decide)
    | record gs hnames' hgs =>
      have h : separated (fs.map named) ++ '\x7d' :: u =
          separated (gs.map named) ++ '\x7d' :: v := by
        simpa using h
      have htold : ∀ p ∈ fs.map named, Told NamedWord p := List.forall_mem_map.2 fun f hf =>
        .named (hnames f hf) (ih f hf)
      have hwords : ∀ q ∈ gs.map named, NamedWord q := List.forall_mem_map.2 fun g hg =>
        ⟨g, hnames' g hg, hgs g hg, rfl⟩
      obtain ⟨heq, huv⟩ :=
        separated_cancel (fun t => not_ends_of_namedWord) (by decide) (by decide) htold hwords h
      exact ⟨by rw [heq], huv⟩

/-- The words of a list are known from the list. -/
theorem separated_injective {ps qs : List (List Char)} (hps : ∀ p ∈ ps, Word p)
    (hqs : ∀ q ∈ qs, Word q) (h : separated ps = separated qs) : ps = qs :=
  (separated_cancel (u := []) (v := []) (fun t ht => ht.not_ends) (c := ']') (by decide) (by decide)
    (fun p hp => (hps p hp).told) hqs (by rw [h])).1

/-- Names are plain, so they end where the colons stand. -/
theorem map_named_injective {fs gs : List (List Char × List Char)} (hfs : ∀ f ∈ fs, IsPlain f.1)
    (hgs : ∀ g ∈ gs, IsPlain g.1) (h : fs.map named = gs.map named) : fs = gs := by
  induction fs generalizing gs with
  | nil => exact (List.map_eq_nil_iff.1 h.symm).symm
  | cons f fs ih =>
    cases gs with
    | nil => cases h
    | cons g gs =>
      obtain ⟨hf, hfs⟩ := List.forall_mem_cons.1 hfs
      obtain ⟨hg, hgs⟩ := List.forall_mem_cons.1 hgs
      obtain ⟨hfirst, hlater⟩ := List.cons.inj h
      obtain ⟨hname, hword⟩ := named_cancel (u := []) (v := []) hf hg (by rw [hfirst])
      rw [List.append_nil, List.append_nil] at hword
      rw [Prod.ext hname hword, ih hfs hgs hlater]

/-- Names and words of a record are known from the list of them. -/
theorem separated_named_injective {fs gs : List (List Char × List Char)}
    (hfs : ∀ f ∈ fs, IsPlain f.1 ∧ Word f.2) (hgs : ∀ g ∈ gs, IsPlain g.1 ∧ Word g.2)
    (h : separated (fs.map named) = separated (gs.map named)) : fs = gs := by
  have htold : ∀ p ∈ fs.map named, Told NamedWord p := List.forall_mem_map.2 fun f hf =>
    .named (hfs f hf).1 (hfs f hf).2.told
  have hwords : ∀ q ∈ gs.map named, NamedWord q := List.forall_mem_map.2 fun g hg =>
    ⟨g, (hgs g hg).1, (hgs g hg).2, rfl⟩
  have hnamed : fs.map named = gs.map named :=
    (separated_cancel (u := []) (v := []) (c := ']') (fun t => not_ends_of_namedWord) (by decide)
      (by decide) htold hwords (by rw [h])).1
  exact map_named_injective (fun f hf => (hfs f hf).1) (fun g hg => (hgs g hg).1) hnamed

end Chronicle.Text
