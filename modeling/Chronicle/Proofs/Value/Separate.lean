import Chronicle.Proofs.Value.Same

/-!
# Separate values

A value of a heap is `Closed` when all cells that it reaches are there, as are all values that a
program makes (`Normal.closed`).  `Heap.Grows h h'`: between the two heaps there were stores, and no
cell is gone.  `Heap.Extends h h'`: only new cells were stored to, so that closed values reach the
same cells and are the same in both.  `Heap.Beyond h h' v`: the value reaches new cells only, as a
copy does (`beyond_shift`).

`Heap.ChangedThrough h v h'`: the stores between the two heaps went to cells that `v` reaches or to
new ones.  A value that shares no cell with `v` is the same afterwards (`ChangedThrough.same`).
-/

set_option autoImplicit false

namespace Chronicle.Heap

variable {h h' h'' below source : Heap} {v u : Value} {c : Cell}

/-! ## Cells that values reach -/

@[simp] theorem sequence_mem_cells {a : Address} :
    Cell.sequence a ∈ h.cells ↔ a < h.sequences.size := by
  simp [cells]

@[simp] theorem record_mem_cells {a : Address} : Cell.record a ∈ h.cells ↔ a < h.records.size := by
  simp [cells]

/-- A value reaches the cells that it holds. -/
theorem reaches_iff_holds : h.Reaches v c ↔ h.Holds v c.value := by
  constructor
  · intro hc
    induction hc with
    | sequence a => exact .self _
    | record a => exact .self _
    | item hv _ ih => exact .item hv ih
    | field hv _ ih => exact .field hv ih
  · intro hc
    generalize hu : c.value = u at hc
    induction hc with
    | self v =>
      cases c with
      | sequence a => exact hu ▸ .sequence a
      | record a => exact hu ▸ .record a
    | item hv _ ih => exact .item hv (ih hu)
    | field hv _ ih => exact .field hv (ih hu)

/-- All cells that the value reaches are there. -/
def Closed (h : Heap) (v : Value) : Prop :=
  ∀ c, h.Reaches v c → c ∈ h.cells

theorem Normal.closed (hv : h.Normal v) : h.Closed v := by
  intro c hc
  have hfits : h.Fits c.value := hv _ (reaches_iff_holds.1 hc)
  cases c with
  | sequence a => exact sequence_mem_cells.2 hfits
  | record a => exact record_mem_cells.2 hfits

/-- Stores to other cells do not change which cells a value reaches. -/
theorem Evolves.reaches (he : h.Evolves h')
    (hout : ∀ c, h.Reaches v c → c ∉ h'.storesFrom h.stores.size) (hc : h'.Reaches v c) :
    h.Reaches v c := by
  induction hc with
  | sequence a => exact .sequence a
  | record a => exact .record a
  | @item a _ _ hv _ ih =>
    rw [he.items a (hout _ (.sequence a))] at hv
    exact .item hv (ih fun c hc => hout c (.item hv hc))
  | @field a _ _ _ hv _ ih =>
    rw [he.fields a (hout _ (.record a))] at hv
    exact .field hv (ih fun c hc => hout c (.field hv hc))

/-! ## Heaps with more cells -/

/-- `h'` comes from `h` by stores, and all cells of `h` are there. -/
structure Grows (h h' : Heap) : Prop where
  evolves : h.Evolves h'
  cells : h.cells ⊆ h'.cells

theorem Grows.refl (h : Heap) : h.Grows h := ⟨.refl h, fun _ hc => hc⟩

theorem Grows.trans (h₁ : h.Grows h') (h₂ : h'.Grows h'') : h.Grows h'' :=
  ⟨h₁.evolves.trans h₂.evolves, h₁.cells.trans h₂.cells⟩

theorem grows_setItems (h : Heap) (a : Address) (items : List Value) :
    h.Grows (h.setItems a items) :=
  ⟨h.evolves_setItems a items, by simp [cells, setItems]⟩

theorem grows_setFields (h : Heap) (a : Address) (fields : Fields) :
    h.Grows (h.setFields a fields) :=
  ⟨h.evolves_setFields a fields, by simp [cells, setFields]⟩

/-- `h'` comes from `h` by stores to new cells. -/
structure Extends (h h' : Heap) : Prop where
  evolves : h.Evolves h'
  fresh : ∀ c ∈ h'.storesFrom h.stores.size, c ∉ h.cells
  cells : h.cells ⊆ h'.cells

namespace Extends

theorem refl (h : Heap) : h.Extends h := by
  have hnone : h.storesFrom h.stores.size = [] := List.drop_eq_nil_of_le (by simp)
  exact ⟨.refl h, fun c hc => by simp [hnone] at hc, fun _ hc => hc⟩

theorem trans (h₁ : h.Extends h') (h₂ : h'.Extends h'') : h.Extends h'' := by
  refine ⟨h₁.evolves.trans h₂.evolves, fun c hc => ?_, fun _ hc => h₂.cells (h₁.cells hc)⟩
  rw [h₁.evolves.storesFrom_eq h₂.evolves, List.mem_append] at hc
  rcases hc with hc | hc
  · exact h₁.fresh c hc
  · exact fun hold => h₂.fresh c hc (h₁.cells hold)

theorem grows (he : h.Extends h') : h.Grows h' := ⟨he.evolves, he.cells⟩

theorem append (below h : Heap) : below.Extends (below.append h) := by
  refine ⟨evolves_append below h, fun c hc hold => ?_, fun c hold => ?_⟩
  · rw [storesFrom_append, List.mem_append] at hc
    rcases hc with hc | hc
    · obtain ⟨i, -, rfl⟩ := List.mem_map.1 hc
      simp at hold
    · obtain ⟨i, -, rfl⟩ := List.mem_map.1 hc
      simp at hold
  · cases c with
    | sequence a =>
      rw [sequence_mem_cells] at hold ⊢
      exact Nat.lt_of_lt_of_le hold (by simp [Heap.append])
    | record a =>
      rw [record_mem_cells] at hold ⊢
      exact Nat.lt_of_lt_of_le hold (by simp [Heap.append])

variable (he : h.Extends h')
include he

/-- A closed value reaches no new cell. -/
theorem not_mem (hv : h.Closed v) (c : Cell) (hc : h.Reaches v c) :
    c ∉ h'.storesFrom h.stores.size :=
  fun hstored => he.fresh c hstored (hv c hc)

theorem reaches (hv : h.Closed v) (hc : h'.Reaches v c) : h.Reaches v c :=
  he.evolves.reaches (he.not_mem hv) hc

theorem closed (hv : h.Closed v) : h'.Closed v :=
  fun c hc => he.cells (hv c (he.reaches hv hc))

/-- A closed value is the same. -/
theorem same {u₀ : Value} {h₀ : Heap} (hs : h₀.Same h u₀ u) (hu : h.Closed u) :
    h₀.Same h' u₀ u :=
  hs.evolves he.evolves (he.not_mem hu)

end Extends

/-! ## Values of new cells -/

/-- All cells that the value reaches are there, and none of them is in `h`. -/
def Beyond (h h' : Heap) (v : Value) : Prop :=
  ∀ c, h'.Reaches v c → c ∈ h'.cells ∧ c ∉ h.cells

namespace Beyond

theorem closed (hv : Beyond h h' v) : h'.Closed v :=
  fun c hc => (hv c hc).1

theorem later (hv : Beyond h h' v) (he : h'.Extends h'') : Beyond h h'' v :=
  fun c hc => ⟨he.closed hv.closed c hc, (hv c (he.reaches hv.closed hc)).2⟩

theorem of_extends (he : h.Extends h') (hv : Beyond h' h'' v) : Beyond h h'' v :=
  fun c hc => ⟨(hv c hc).1, fun hold => (hv c hc).2 (he.cells hold)⟩

end Beyond

/-- A copy consists of new cells. -/
theorem beyond_shift (h : Heap) (hv : source.Closed v) :
    Beyond h (h.append source) (h.shiftValue v) := by
  intro c hc
  obtain ⟨u, hu, hheld⟩ := Holds.of_shift h (reaches_iff_holds.1 hc)
  -- the value that the copy holds is a cell, so it is the copy of one
  cases c with
  | sequence a =>
    cases u with
    | sequence b =>
      have hb := sequence_mem_cells.1 (hv (.sequence b) (reaches_iff_holds.2 hheld))
      obtain rfl : a = h.sequences.size + b := by simpa [Cell.value, shiftValue] using hu
      simp [append, hb]
    | _ => cases hu
  | record a =>
    cases u with
    | record b =>
      have hb := record_mem_cells.1 (hv (.record b) (reaches_iff_holds.2 hheld))
      obtain rfl : a = h.records.size + b := by simpa [Cell.value, shiftValue] using hu
      simp [append, hb]
    | _ => cases hu

/-! ## Changes through a value -/

/-- The two values reach no cell in common. -/
def Apart (h : Heap) (v u : Value) : Prop :=
  ∀ c, h.Reaches v c → ¬ h.Reaches u c

/-- `h'` comes from `h` by stores to cells that the value reaches, at any depth, and to new ones. -/
structure ChangedThrough (h : Heap) (v : Value) (h' : Heap) : Prop where
  evolves : h.Evolves h'
  reached : ∀ c ∈ h'.storesFrom h.stores.size, c ∈ h.cells → h.Reaches v c

/-- A change through a value leaves those apart from it as they were. -/
theorem ChangedThrough.same {u₀ : Value} {h₀ : Heap} (hc : h.ChangedThrough v h')
    (hs : h₀.Same h u₀ u) (hu : h.Closed u) (hapart : h.Apart v u) : h₀.Same h' u₀ u :=
  hs.evolves hc.evolves fun c hreach hstored =>
    hapart c (hc.reached c hstored (hu c hreach)) hreach

end Chronicle.Heap
