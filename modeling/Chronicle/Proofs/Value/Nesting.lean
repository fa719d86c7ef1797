import Chronicle.Proofs.Value.Stores
import Mathlib.Combinatorics.Enumerative.DoubleCounting

/-!
# How deep values are nested

A value is read cell by cell, each cell one level deeper.  One that does not contain itself is read
within `Heap.depth` levels, since every level takes another cell of the heap; one that does is read
within no number of levels.  Reading deeper than `Heap.depth` thus changes nothing
(`textWithin_eq_text`, `formatWithin_eq_format`).
-/

set_option autoImplicit false

namespace Chronicle

section
variable {ε α β : Type} {f g : α → Except ε β} {x : ε}

/-- Where `g` does what `f` does except when `f` fails with `x`, so it does on a list. -/
theorem mapM_eq_of_ne : ∀ {l : List α}, (∀ a ∈ l, f a ≠ .error x → g a = f a) →
    l.mapM f ≠ .error x → l.mapM g = l.mapM f
  | [], _, _ => rfl
  | a :: l, hfg, h => by
    rw [List.mapM_cons] at h
    rw [List.mapM_cons, List.mapM_cons]
    have ha : f a ≠ .error x := by
      intro ha
      rw [ha] at h
      exact h rfl
    rw [hfg a List.mem_cons_self ha]
    cases hfa : f a with
    | error y => rfl
    | ok b =>
      have hl : l.mapM f ≠ .error x := by
        intro hl
        rw [hfa, hl] at h
        exact h rfl
      rw [mapM_eq_of_ne (fun a' ha' => hfg a' (List.mem_cons_of_mem a ha')) hl]

/-- Where a list fails with `x` under `f` and not under `g`, an element does. -/
theorem exists_of_mapM_eq_error {l : List α} (hfg : ∀ a ∈ l, f a ≠ .error x → g a = f a)
    (hf : l.mapM f = .error x) (hg : l.mapM g ≠ .error x) :
    ∃ a ∈ l, f a = .error x ∧ g a ≠ .error x := by
  apply Classical.byContradiction
  intro hnone
  apply hg
  rw [← hf]
  refine (mapM_eq_of_ne (fun a ha hga => ?_) hg).symm
  refine (hfg a ha fun hfa => hnone ⟨a, ha, hfa, hga⟩).symm

end

/-- The value that a cell is. -/
def Cell.value : Cell → Value
  | .sequence a => .sequence a
  | .record a => .record a

namespace Heap

/-- The cells of a heap. -/
def cells (h : Heap) : Finset Cell :=
  (Finset.range h.sequences.size).image Cell.sequence ∪
    (Finset.range h.records.size).image Cell.record

theorem card_cells_lt_depth (h : Heap) : h.cells.card < h.depth := by
  have hs : ((Finset.range h.sequences.size).image Cell.sequence).card ≤ h.sequences.size := by
    simpa using (Finset.card_image_le (s := Finset.range h.sequences.size) (f := Cell.sequence))
  have hr : ((Finset.range h.records.size).image Cell.record).card ≤ h.records.size := by
    simpa using (Finset.card_image_le (s := Finset.range h.records.size) (f := Cell.record))
  have hu := Finset.card_union_le ((Finset.range h.sequences.size).image Cell.sequence)
    ((Finset.range h.records.size).image Cell.record)
  unfold depth cells
  omega

/-- A sequence that holds something is a cell of the heap. -/
theorem mem_cells_of_items {h : Heap} {a : Address} {u : Value} (hu : u ∈ h.items a) :
    Cell.sequence a ∈ h.cells := by
  have ha : a < h.sequences.size := by
    apply Classical.byContradiction
    intro ha
    simp [items, ha] at hu
  simp [cells, ha]

/-- A record that holds something is a cell of the heap. -/
theorem mem_cells_of_fields {h : Heap} {a : Address} {u : String × Value} (hu : u ∈ h.fields a) :
    Cell.record a ∈ h.cells := by
  have ha : a < h.records.size := by
    apply Classical.byContradiction
    intro ha
    simp [fields, ha] at hu
  simp [cells, ha]

/-! ## Endless values -/

section
variable {h : Heap} {E : Nat → Value → Prop}

/-- Where a value is not read within `m` levels but within `m + 1`, there are values of every
smaller depth. -/
theorem exists_of_depth (hdown : ∀ k v, E (k + 1) v → ¬ E (k + 2) v →
      (∃ c ∈ h.cells, c.value = v) ∧ ∃ u, E k u ∧ ¬ E (k + 1) u) {v : Value} {m : Nat}
    (hv : E m v ∧ ¬ E (m + 1) v) {i : Nat} (hi : i ≤ m) : ∃ u, E i u ∧ ¬ E (i + 1) u := by
  induction m generalizing v with
  | zero =>
    obtain rfl : i = 0 := by omega
    exact ⟨v, hv⟩
  | succ m ih =>
    by_cases him : i = m + 1
    · subst him
      exact ⟨v, hv⟩
    · obtain ⟨-, u, hu⟩ := hdown m v hv.1 hv.2
      exact ih hu (by omega)

/-- A value that is not read within the depth of the heap is read within no number of levels: each
level would take another cell. -/
theorem endless_of_depth (hmono : ∀ k v, E (k + 1) v → E k v)
    (hdown : ∀ k v, E (k + 1) v → ¬ E (k + 2) v →
      (∃ c ∈ h.cells, c.value = v) ∧ ∃ u, E k u ∧ ¬ E (k + 1) u) {v : Value}
    (hv : E h.depth v) (k : Nat) : E k v := by
  have hanti : ∀ {i j : Nat} {u : Value}, i ≤ j → E j u → E i u := by
    intro i j u hij hj
    induction hij with
    | refl => exact hj
    | step _ ih => exact ih (hmono _ u hj)
  apply Classical.byContradiction
  intro hk
  obtain ⟨m, hm, hm'⟩ : ∃ m, E m v ∧ ¬ E (m + 1) v := by
    apply Classical.byContradiction
    intro hnone
    refine hk (k.rec (hanti (Nat.zero_le _) hv) fun i hi => ?_)
    exact Classical.byContradiction fun hi' => hnone ⟨i, hi, hi'⟩
  have hdm : h.depth ≤ m := by
    apply Classical.byContradiction
    intro hlt
    exact hm' (hanti (by omega) hv)
  -- the depths from one to `m` each belong to a cell, and a cell has one depth
  have hcard : (Finset.range m).card ≤ h.cells.card := by
    refine Finset.card_le_card_of_forall_subsingleton
      (fun i (c : Cell) => E (i + 1) c.value ∧ ¬ E (i + 2) c.value) (fun i hi => ?_)
      fun c _ i hi j hj => ?_
    · obtain ⟨u, hu, hu'⟩ := exists_of_depth hdown ⟨hm, hm'⟩ (Finset.mem_range.1 hi)
      obtain ⟨⟨c, hc, rfl⟩, -⟩ := hdown i u hu hu'
      exact ⟨c, hc, hu, hu'⟩
    · obtain ⟨-, hi, hi'⟩ := hi
      obtain ⟨-, hj, hj'⟩ := hj
      rcases Nat.lt_trichotomy i j with hij | hij | hij
      · exact absurd (hanti (Nat.add_le_add_right hij 1) hj) hi'
      · exact hij
      · exact absurd (hanti (Nat.add_le_add_right hij 1) hi) hj'
  have := h.card_cells_lt_depth
  rw [Finset.card_range] at hcard
  omega

/-- A reading that goes on where it has not failed, and fails on a cell through one of its
contents, does not depend on how deep it may go beyond the depth of the heap. -/
theorem eq_of_depth_le {F : Nat → Value → Except Fault String}
    (hmono : ∀ k v, F k v ≠ .error .endlessNesting → F (k + 1) v = F k v)
    (hdown : ∀ k v, F (k + 1) v = .error .endlessNesting → F (k + 2) v ≠ .error .endlessNesting →
      (∃ c ∈ h.cells, c.value = v) ∧
        ∃ u, F k u = .error .endlessNesting ∧ F (k + 1) u ≠ .error .endlessNesting)
    {fuel : Nat} (hf : h.depth ≤ fuel) (v : Value) : F fuel v = F h.depth v := by
  by_cases hv : F h.depth v = .error .endlessNesting
  · rw [hv]
    refine endless_of_depth (E := fun k u => F k u = .error .endlessNesting) (fun k u hu => ?_)
      hdown hv fuel
    apply Classical.byContradiction
    intro hu'
    rw [hmono k u hu'] at hu
    exact hu' hu
  · induction hf with
    | refl => rfl
    | step _ ih =>
      rw [hmono _ v (by rw [ih]; exact hv), ih]

end

/-! ## Contents of cells -/

/-- `G` reads contents through the values that they hold, as `F` reads these. -/
structure ReadsThrough {α : Type} (F : Nat → Value → Except Fault String)
    (G : Nat → α → Except Fault String) (held : α → Value) : Prop where
  fails : ∀ k a, G k a = .error .endlessNesting ↔ F k (held a) = .error .endlessNesting
  same : ∀ k a, F (k + 1) (held a) = F k (held a) → G (k + 1) a = G k a

section
variable {α : Type} {F : Nat → Value → Except Fault String} {G : Nat → α → Except Fault String}
variable {held : α → Value} {l : List α} {wrap : List String → String} {k : Nat}

theorem map_eq_error {e : Except Fault (List String)} {f : Fault} :
    e.map wrap = .error f ↔ e = .error f := by
  cases e <;> simp [Except.map]

/-- One level more changes nothing where the level below did not fail. -/
theorem ReadsThrough.succ (hG : ReadsThrough F G held)
    (ih : ∀ v, F k v ≠ .error .endlessNesting → F (k + 1) v = F k v)
    (hl : (l.mapM (G k)).map wrap ≠ .error .endlessNesting) :
    (l.mapM (G (k + 1))).map wrap = (l.mapM (G k)).map wrap := by
  rw [mapM_eq_of_ne (fun a _ ha => hG.same k a (ih _ fun h => ha ((hG.fails k a).2 h)))
    fun h => hl (map_eq_error.2 h)]

/-- What fails within one level and not within two holds something that does so one level below. -/
theorem ReadsThrough.exists_of_eq_error (hG : ReadsThrough F G held)
    (hmono : ∀ v, F k v ≠ .error .endlessNesting → F (k + 1) v = F k v)
    (hl : (l.mapM (G k)).map wrap = .error .endlessNesting)
    (hl' : (l.mapM (G (k + 1))).map wrap ≠ .error .endlessNesting) :
    ∃ a ∈ l, F k (held a) = .error .endlessNesting ∧ F (k + 1) (held a) ≠ .error .endlessNesting := by
  obtain ⟨a, ha, hf, hf'⟩ := exists_of_mapM_eq_error
    (fun a _ ha => hG.same k a (hmono _ fun h => ha ((hG.fails k a).2 h)))
    (map_eq_error.1 hl) fun h => hl' (map_eq_error.2 h)
  exact ⟨a, ha, (hG.fails k a).1 hf, fun h => hf' ((hG.fails (k + 1) a).2 h)⟩

end

section
variable (h : Heap)

/-! ## Texts -/

/-- The text of an element, which is empty for `null` and `undefined`. -/
def elementText (k : Nat) (u : Value) : Except Fault String :=
  if u.isNullish then .ok "" else h.textWithin k u

theorem readsThrough_elementText : ReadsThrough h.textWithin h.elementText id where
  fails k u := by
    unfold elementText
    cases u <;> simp [Value.isNullish, textWithin]
  same k u hu := by
    unfold elementText
    rw [← id_eq u, hu]

theorem textWithin_sequence (k : Nat) (a : Address) :
    h.textWithin (k + 1) (.sequence a) =
      ((h.items a).mapM (h.elementText k)).map (Text.join ",") := rfl

theorem textWithin_succ (k : Nat) (v : Value) (hv : h.textWithin k v ≠ .error .endlessNesting) :
    h.textWithin (k + 1) v = h.textWithin k v := by
  induction k generalizing v with
  | zero =>
    cases v with
    | sequence a => exact absurd rfl hv
    | _ => rfl
  | succ k ih =>
    cases v with
    | sequence a => exact h.readsThrough_elementText.succ ih hv
    | _ => rfl

/-- Reading a text deeper than the heap changes nothing. -/
theorem textWithin_eq_text {fuel : Nat} (hf : h.depth ≤ fuel) (v : Value) :
    h.textWithin fuel v = h.text v := by
  refine eq_of_depth_le h.textWithin_succ (fun k u hu hu' => ?_) hf v
  cases u with
  | sequence a =>
    obtain ⟨x, hx, hfails⟩ :=
      h.readsThrough_elementText.exists_of_eq_error (h.textWithin_succ k) hu hu'
    exact ⟨⟨_, mem_cells_of_items hx, rfl⟩, x, hfails⟩
  | _ => exact absurd hu hu'

/-! ## Renderings -/

/-- The rendering of a field. -/
def fieldFormat (k : Nat) (field : String × Value) : Except Fault String :=
  (h.formatWithin k field.2).map (field.1 ++ ": " ++ ·)

theorem readsThrough_formatWithin : ReadsThrough h.formatWithin h.formatWithin id where
  fails _ _ := Iff.rfl
  same _ _ hu := hu

theorem readsThrough_fieldFormat : ReadsThrough h.formatWithin h.fieldFormat Prod.snd where
  fails k field := by
    unfold fieldFormat
    cases h.formatWithin k field.2 <;> simp [Except.map]
  same k field hfield := by
    unfold fieldFormat
    rw [hfield]

theorem formatWithin_sequence (k : Nat) (a : Address) :
    h.formatWithin (k + 1) (.sequence a) =
      ((h.items a).mapM (h.formatWithin k)).map (fun parts => "[" ++ Text.join ", " parts ++ "]") :=
  rfl

theorem formatWithin_record (k : Nat) (a : Address) :
    h.formatWithin (k + 1) (.record a) = ((h.fields a).mapM (h.fieldFormat k)).map
      fun parts => "\x7b" ++ Text.join ", " parts ++ "\x7d" := rfl

theorem formatWithin_succ (k : Nat) (v : Value)
    (hv : h.formatWithin k v ≠ .error .endlessNesting) :
    h.formatWithin (k + 1) v = h.formatWithin k v := by
  induction k generalizing v with
  | zero =>
    cases v with
    | sequence a | record a => exact absurd rfl hv
    | _ => rfl
  | succ k ih =>
    cases v with
    | sequence a => exact h.readsThrough_formatWithin.succ ih hv
    | record a => exact h.readsThrough_fieldFormat.succ ih hv
    | _ => rfl

/-- Rendering a value deeper than the heap changes nothing. -/
theorem formatWithin_eq_format {fuel : Nat} (hf : h.depth ≤ fuel) (v : Value) :
    h.formatWithin fuel v = h.format v := by
  refine eq_of_depth_le h.formatWithin_succ (fun k u hu hu' => ?_) hf v
  cases u with
  | sequence a =>
    obtain ⟨x, hx, hfails⟩ :=
      h.readsThrough_formatWithin.exists_of_eq_error (h.formatWithin_succ k) hu hu'
    exact ⟨⟨_, mem_cells_of_items hx, rfl⟩, x, hfails⟩
  | record a =>
    obtain ⟨x, hx, hfails⟩ :=
      h.readsThrough_fieldFormat.exists_of_eq_error (h.formatWithin_succ k) hu hu'
    exact ⟨⟨_, mem_cells_of_fields hx, rfl⟩, x.2, hfails⟩
  | _ => exact absurd hu hu'

end

end Heap

end Chronicle
