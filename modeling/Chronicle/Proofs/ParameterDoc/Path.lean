import Chronicle.ParameterDoc.Path

/-!
# The parts of a path

A path is written as its first part followed by each further part after a point, between brackets,
or between brackets and quotes (`Path.rendering`).  Splitting it gives its parts, and whatever text
is split, the parts are the text without its separators, cut where these stood (`split_exact`).

Where a separator ends the text before it, the two sides are split on their own (`words_append`), so
that only what stands right between two parts matters: a run of separators, however long.
-/

set_option autoImplicit false

namespace Chronicle.Path

/-! ## Renderings -/

/-- The characters that separate parts. -/
def separators : List Char := ['[', ']', '"', '\'', '.']

/-- A part of a path: not empty, and without separators. -/
def IsPart (part : String) : Prop :=
  part ≠ "" ∧ ∀ c ∈ part.toList, c ∉ separators

instance (part : String) : Decidable (IsPart part) :=
  @instDecidableAnd _ _ inferInstance (List.decidableBAll _ _)

/-- The ways to write a part that is not the first. -/
inductive Form where
  | point
  | bracketed
  | doubleQuoted
  | singleQuoted

namespace Form

/-- What stands before a part. -/
def opening : Form → List Char
  | point => ['.']
  | bracketed => ['[']
  | doubleQuoted => ['[', '"']
  | singleQuoted => ['[', '\'']

/-- What stands after a part. -/
def closing : Form → List Char
  | point => []
  | bracketed => [']']
  | doubleQuoted => ['"', ']']
  | singleQuoted => ['\'', ']']

/-- A part as it is written in a form. -/
def write (form : Form) (part : String) : List Char :=
  form.opening ++ part.toList ++ form.closing

end Form

/-- A path as it is written: its first part, and each further part in a form. -/
def rendering (first : String) (further : List (Form × String)) : String :=
  String.ofList (first.toList ++ further.flatMap fun x => x.1.write x.2)

/-! ## Pieces -/

theorem isSeparator_iff {c : Char} : isSeparator c = true ↔ c ∈ separators := by
  simp [isSeparator, separators, or_assoc]

theorem isSeparator_eq_false_iff {c : Char} : isSeparator c = false ↔ c ∉ separators := by
  rw [← isSeparator_iff, Bool.not_eq_true]

variable {c : Char} {cs xs ys : List Char}

/-- The pieces are those of splitting a list at its separators. -/
theorem pieces_eq_splitOnP (cs : List Char) : pieces cs = cs.splitOnP isSeparator := by
  induction cs with
  | nil => rfl
  | cons c cs ih =>
    obtain ⟨p, ps, hpieces⟩ := List.exists_cons_of_ne_nil (List.splitOnP_ne_nil isSeparator cs)
    rw [pieces, ih, List.splitOnP_cons_eq_if_modifyHead, hpieces]
    rfl

/-- Nothing but the separators is lost. -/
theorem flatten_pieces (cs : List Char) :
    (pieces cs).flatten = cs.filter fun c => !isSeparator c := by
  rw [pieces_eq_splitOnP]
  induction cs with
  | nil => rfl
  | cons c cs ih =>
    obtain ⟨p, ps, hpieces⟩ := List.exists_cons_of_ne_nil (List.splitOnP_ne_nil isSeparator cs)
    rw [hpieces] at ih
    rw [List.splitOnP_cons_eq_if_modifyHead, hpieces]
    by_cases hc : isSeparator c = true
    · simpa [hc] using ih
    · simpa [hc] using ih

/-! ## Words -/

/-- The pieces of a text that are not empty. -/
def words (cs : List Char) : List (List Char) :=
  (pieces cs).filter (!·.isEmpty)

theorem split_eq (name : String) : split name = (words name.toList).map String.ofList := rfl

theorem words_cons_of_separator (hc : isSeparator c = true) (cs : List Char) :
    words (c :: cs) = words cs := by
  rw [words, pieces, if_pos hc]
  rfl

theorem words_separators_append (h : ∀ c ∈ xs, isSeparator c = true) (ys : List Char) :
    words (xs ++ ys) = words ys := by
  induction xs with
  | nil => rfl
  | cons c xs ih =>
    obtain ⟨hc, hxs⟩ := List.forall_mem_cons.1 h
    rw [List.cons_append, words_cons_of_separator hc, ih hxs]

/-- What begins with a separator is split on its own. -/
theorem words_append (h : ∀ c ∈ ys.head?, isSeparator c = true) :
    words (xs ++ ys) = words xs ++ words ys := by
  cases ys with
  | nil => rw [List.append_nil, show words [] = [] from rfl, List.append_nil]
  | cons c ys =>
    have hc := h c rfl
    rw [words_cons_of_separator hc, words, pieces_eq_splitOnP, List.splitOnP_append_cons _ _ hc,
      List.filter_append, ← pieces_eq_splitOnP, ← pieces_eq_splitOnP]
    rfl

theorem words_of_isPart {part : String} (h : IsPart part) : words part.toList = [part.toList] := by
  obtain ⟨hne, hplain⟩ := h
  rw [words, pieces_eq_splitOnP,
    List.splitOnP_eq_singleton fun c hc => isSeparator_eq_false_iff.2 (hplain c hc)]
  simp [hne]

theorem flatten_words (cs : List Char) :
    (words cs).flatten = cs.filter fun c => !isSeparator c := by
  rw [words, List.flatten_filter_not_isEmpty, flatten_pieces]

theorem isPart_of_mem_split {name part : String} (h : part ∈ split name) : IsPart part := by
  obtain ⟨cs, hcs, rfl⟩ := List.mem_map.1 h
  refine ⟨fun hnil => ?_, fun c hc => ?_⟩
  · obtain ⟨-, hne⟩ := List.mem_filter.1 hcs
    simp [String.ofList_eq_empty_iff.1 hnil] at hne
  · rw [String.toList_ofList] at hc
    have hmem : c ∈ (words name.toList).flatten := List.mem_flatten.2 ⟨cs, hcs, hc⟩
    rw [flatten_words, List.mem_filter] at hmem
    exact isSeparator_eq_false_iff.1 (by simpa using hmem.2)

/-! ## Splitting what was written -/

namespace Form

theorem opening_separators (form : Form) : ∀ c ∈ form.opening, isSeparator c = true := by
  cases form <;> simp [opening, isSeparator]

theorem closing_separators (form : Form) : ∀ c ∈ form.closing, isSeparator c = true := by
  cases form <;> simp [closing, isSeparator]

end Form

variable {further : List (Form × String)}

/-- What follows a part begins with a separator, if anything does. -/
theorem head?_further : ∀ c ∈ (further.flatMap fun x => x.1.write x.2).head?,
    isSeparator c = true := by
  cases further with
  | nil => nofun
  | cons x further =>
    obtain ⟨form, part⟩ := x
    intro c hc
    refine form.opening_separators c (List.mem_of_mem_head? ?_)
    cases form <;> exact hc

theorem words_further (h : ∀ x ∈ further, IsPart x.2) :
    words (further.flatMap fun x => x.1.write x.2) = further.map fun x => x.2.toList := by
  induction further with
  | nil => rfl
  | cons x further ih =>
    obtain ⟨hx, hfurther⟩ := List.forall_mem_cons.1 h
    obtain ⟨form, part⟩ := x
    -- what closes the part and what follows it begin with a separator together
    have hhead : ∀ c ∈ (form.closing ++ further.flatMap fun x => x.1.write x.2).head?,
        isSeparator c = true := by
      intro c hc
      rw [List.head?_append] at hc
      cases hclosing : form.closing.head? with
      | none =>
        rw [hclosing] at hc
        exact head?_further c hc
      | some d =>
        rw [hclosing] at hc
        cases hc
        exact form.closing_separators c (List.mem_of_mem_head? hclosing)
    rw [List.flatMap_cons, Form.write, List.append_assoc, List.append_assoc,
      words_separators_append form.opening_separators, words_append hhead, words_of_isPart hx,
      words_separators_append form.closing_separators, ih hfurther]
    rfl

/-- A path that was written from parts has these parts. -/
theorem split_rendering {first : String} (hfirst : IsPart first) (h : ∀ x ∈ further, IsPart x.2) :
    split (rendering first further) = first :: further.map Prod.snd := by
  rw [split_eq, rendering, String.toList_ofList, words_append head?_further, words_of_isPart hfirst,
    words_further h]
  simp [Function.comp_def]

/-- Points between parts are one way to write a path. -/
theorem intercalate_eq_rendering (first : String) (further : List String) :
    String.intercalate "." (first :: further) = rendering first (further.map (Form.point, ·)) := by
  apply String.toList_inj.1
  rw [String.toList_intercalate, rendering, String.toList_ofList]
  induction further generalizing first with
  | nil => simp
  | cons second further ih =>
    have := ih second
    simp [Form.write, Form.opening, Form.closing, List.intercalate_cons_cons] at this ⊢
    exact this

/-- A path written from parts, each further one in any of the forms, is split into these parts.
Splitting any text gives parts which together are the text without its separators, and which are
given again by the path that has points between them. -/
theorem split_exact :
    (∀ (first : String) (further : List (Form × String)),
      IsPart first → (∀ x ∈ further, IsPart x.2) →
        split (rendering first further) = first :: further.map Prod.snd) ∧
    ∀ name : String,
      (∀ part ∈ split name, IsPart part) ∧
      (String.join (split name)).toList = name.toList.filter (· ∉ separators) ∧
      split (String.intercalate "." (split name)) = split name := by
  refine ⟨fun _ _ hfirst h => split_rendering hfirst h, fun name =>
    ⟨fun _ => isPart_of_mem_split, ?_, ?_⟩⟩
  · rw [String.toList_join, split_eq, List.flatMap_map]
    simp only [String.toList_ofList, List.flatMap_id', flatten_words, ← isSeparator_eq_false_iff]
    simp
  · cases hparts : split name with
    | nil => rfl
    | cons first further =>
      have hpart : ∀ part ∈ first :: further, IsPart part := fun part hmem =>
        isPart_of_mem_split (hparts ▸ hmem)
      obtain ⟨hfirst, hfurther⟩ := List.forall_mem_cons.1 hpart
      rw [intercalate_eq_rendering, split_rendering hfirst (List.forall_mem_map.2 hfurther)]
      simp [Function.comp_def]

theorem split_exact_mixed :
    IsPart "cfg" ∧ (∀ part ∈ ["a", "b", "c", "d"], IsPart part) ∧
      rendering "cfg" [(.doubleQuoted, "a"), (.point, "b"), (.singleQuoted, "c"),
        (.bracketed, "d")] = "cfg[\"a\"].b['c'][d]" ∧
      split "cfg[\"a\"].b['c'][d]" = ["cfg", "a", "b", "c", "d"] := by
  have hfirst : IsPart "cfg" := by decide
  have hparts : ∀ part ∈ ["a", "b", "c", "d"], IsPart part := by decide
  have htext : rendering "cfg" [(.doubleQuoted, "a"), (.point, "b"), (.singleQuoted, "c"),
      (.bracketed, "d")] = "cfg[\"a\"].b['c'][d]" := by decide
  refine ⟨hfirst, hparts, htext, ?_⟩
  rw [← htext]
  exact split_exact.1 "cfg" _ hfirst fun x hx => hparts x.2 (List.mem_map_of_mem hx)

end Chronicle.Path
