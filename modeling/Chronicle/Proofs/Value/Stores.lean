import Chronicle.Proofs.Outcome
import Chronicle.Value.Coercion

/-!
# Stores

`Heap.Evolves h h'`: `h'` comes from `h` by stores.  It remembers the stores of `h` and has added
its own, and a cell that none of these names holds what it held.  Every operation on heaps is a
store or a sequence of stores.

A rendering shows the cells that the value reaches (`Heap.Reaches`), so it outlives all stores to
other cells (`Evolves.format_eq`).
-/

set_option autoImplicit false

namespace Chronicle

namespace Heap

/-! ## Heaps that come from others -/

/-- The cells stored to after the first `n` stores. -/
def storesFrom (h : Heap) (n : Nat) : List Cell :=
  h.stores.toList.drop n

/-- `h'` comes from `h` by stores. -/
structure Evolves (h h' : Heap) : Prop where
  stores : ∃ cells, h'.stores.toList = h.stores.toList ++ cells
  items : ∀ a, Cell.sequence a ∉ h'.storesFrom h.stores.size → h'.items a = h.items a
  fields : ∀ a, Cell.record a ∉ h'.storesFrom h.stores.size → h'.fields a = h.fields a
  depth : h.depth ≤ h'.depth

theorem Evolves.refl (h : Heap) : h.Evolves h :=
  ⟨⟨[], by simp⟩, fun _ _ => rfl, fun _ _ => rfl, Nat.le_refl _⟩

/-- The stores after a heap are those up to a later one and those after it. -/
theorem Evolves.storesFrom_eq {h h' h'' : Heap} (h₁ : h.Evolves h') (h₂ : h'.Evolves h'') :
    h''.storesFrom h.stores.size =
      h'.storesFrom h.stores.size ++ h''.storesFrom h'.stores.size := by
  obtain ⟨l, hl⟩ := h₁.stores
  obtain ⟨k, hk⟩ := h₂.stores
  unfold storesFrom
  have h1 : h.stores.size = h.stores.toList.length := by simp
  have h2 : h'.stores.size = h'.stores.toList.length := by simp
  rw [h2, hk, List.drop_left, h1, hl, List.append_assoc, List.drop_left, List.drop_left]

theorem Evolves.trans {h h' h'' : Heap} (h₁ : h.Evolves h') (h₂ : h'.Evolves h'') :
    h.Evolves h'' := by
  have hs := h₁.storesFrom_eq h₂
  obtain ⟨l, hl⟩ := h₁.stores
  obtain ⟨k, hk⟩ := h₂.stores
  refine ⟨⟨l ++ k, by rw [hk, hl, List.append_assoc]⟩, fun a ha => ?_, fun a ha => ?_,
    Nat.le_trans h₁.depth h₂.depth⟩
  · rw [hs, List.mem_append, not_or] at ha
    rw [h₂.items a ha.2, h₁.items a ha.1]
  · rw [hs, List.mem_append, not_or] at ha
    rw [h₂.fields a ha.2, h₁.fields a ha.1]

/-! ## Operations -/

theorem storesFrom_push {h h' : Heap} {c : Cell} (hs : h'.stores = h.stores.push c) :
    h'.storesFrom h.stores.size = [c] := by
  have hl : h.stores.size = h.stores.toList.length := by simp
  unfold storesFrom
  rw [hs, Array.toList_push, hl, List.drop_left]

theorem evolves_newSequence (h : Heap) (items : List Value) :
    h.Evolves (h.newSequence items).2 := by
  have hs : (h.newSequence items).2.storesFrom h.stores.size = [.sequence h.sequences.size] :=
    storesFrom_push rfl
  refine ⟨⟨[.sequence h.sequences.size], by simp [newSequence]⟩, fun a ha => ?_, fun _ _ => rfl,
    by simp [depth, newSequence]⟩
  rw [hs, List.mem_singleton, Cell.sequence.injEq] at ha
  simp [Heap.items, newSequence, Array.getElem?_push, ha]

theorem evolves_newRecord (h : Heap) (fields : Fields) : h.Evolves (h.newRecord fields).2 := by
  have hs : (h.newRecord fields).2.storesFrom h.stores.size = [.record h.records.size] :=
    storesFrom_push rfl
  refine ⟨⟨[.record h.records.size], by simp [newRecord]⟩, fun _ _ => rfl, fun a ha => ?_,
    by simp [depth, newRecord]⟩
  rw [hs, List.mem_singleton, Cell.record.injEq] at ha
  simp [Heap.fields, newRecord, Array.getElem?_push, ha]

theorem evolves_setItems (h : Heap) (a : Address) (items : List Value) :
    h.Evolves (h.setItems a items) := by
  have hs : (h.setItems a items).storesFrom h.stores.size = [.sequence a] := storesFrom_push rfl
  refine ⟨⟨[.sequence a], by simp [setItems]⟩, fun b hb => ?_, fun _ _ => rfl,
    by simp [depth, setItems]⟩
  rw [hs, List.mem_singleton, Cell.sequence.injEq] at hb
  simp [Heap.items, setItems, Ne.symm hb]

theorem evolves_setFields (h : Heap) (a : Address) (fields : Fields) :
    h.Evolves (h.setFields a fields) := by
  have hs : (h.setFields a fields).storesFrom h.stores.size = [.record a] := storesFrom_push rfl
  refine ⟨⟨[.record a], by simp [setFields]⟩, fun _ _ => rfl, fun b hb => ?_,
    by simp [depth, setFields]⟩
  rw [hs, List.mem_singleton, Cell.record.injEq] at hb
  simp [Heap.fields, setFields, Ne.symm hb]

theorem storesFrom_append (below h : Heap) :
    (below.append h).storesFrom below.stores.size =
      (List.range h.sequences.size).map (fun a => .sequence (below.sequences.size + a)) ++
        (List.range h.records.size).map fun a => .record (below.records.size + a) := by
  have hl : below.stores.size = below.stores.toList.length := by simp
  unfold storesFrom append
  simp only [Array.toList_append, Array.toList_map, Array.toList_range, List.append_assoc]
  rw [hl, List.drop_left]

/-- A place that is none of the appended ones reads as before. -/
theorem getElem?_append_of_ne {α : Type} (xs ys : Array α) {a : Nat}
    (h : ∀ i, i < ys.size → xs.size + i ≠ a) : (xs ++ ys)[a]? = xs[a]? := by
  rw [Array.getElem?_append]
  by_cases hlt : a < xs.size
  · rw [if_pos hlt]
  · have hge : ys.size ≤ a - xs.size := by
      apply Classical.byContradiction
      intro hc
      exact h (a - xs.size) (by omega) (by omega)
    rw [if_neg hlt, Array.getElem?_eq_none hge, Array.getElem?_eq_none (by omega)]

theorem evolves_append (below h : Heap) : below.Evolves (below.append h) := by
  refine ⟨⟨_, by simp only [append, Array.toList_append, List.append_assoc]; rfl⟩,
    fun a ha => ?_, fun a ha => ?_, by simp [depth, append]; omega⟩
  · rw [storesFrom_append, List.mem_append, not_or] at ha
    unfold Heap.items append
    rw [getElem?_append_of_ne]
    intro i hi he
    exact ha.1 (List.mem_map.2 ⟨i, by simpa using hi, by rw [he]⟩)
  · rw [storesFrom_append, List.mem_append, not_or] at ha
    unfold Heap.fields append
    rw [getElem?_append_of_ne]
    intro i hi he
    exact ha.2 (List.mem_map.2 ⟨i, by simpa using hi, by rw [he]⟩)

/-! ## Renderings -/

/-- The cells that a value shows: its own and those of its contents. -/
inductive Reaches (h : Heap) : Value → Cell → Prop
  | sequence (a : Address) : Reaches h (.sequence a) (.sequence a)
  | record (a : Address) : Reaches h (.record a) (.record a)
  | item {a : Address} {v : Value} {c : Cell} (hv : v ∈ h.items a) (hc : Reaches h v c) :
    Reaches h (.sequence a) c
  | field {a : Address} {name : String} {v : Value} {c : Cell} (hv : (name, v) ∈ h.fields a)
    (hc : Reaches h v c) : Reaches h (.record a) c

/-- A rendering outlives the stores to cells that the value does not reach, and more room for
nesting. -/
theorem Evolves.formatWithin_eq {h h' : Heap} (he : h.Evolves h') :
    ∀ {fuel fuel' : Nat} {v : Value} {text : String}, fuel ≤ fuel' →
      (∀ c, h'.Reaches v c → c ∉ h'.storesFrom h.stores.size) →
      h.formatWithin fuel v = .ok text → h'.formatWithin fuel' v = .ok text := by
  intro fuel
  induction fuel with
  | zero =>
    intro fuel' v text _ _ hv
    cases v with
    | sequence a | record a => cases hv
    | number _ | text _ | boolean _ | null | undefined =>
      cases fuel' <;> exact hv
  | succ fuel ih =>
    intro fuel' v text hle hreach hv
    obtain ⟨fuel', rfl⟩ : ∃ k, fuel' = k + 1 := ⟨fuel' - 1, by omega⟩
    cases v with
    | number _ | text _ | boolean _ | null | undefined => exact hv
    | sequence a =>
      have hitems : h'.items a = h.items a := he.items a (hreach _ (.sequence a))
      obtain ⟨parts, hparts, hv⟩ := bind_eq_ok hv
      have hparts' : (h'.items a).mapM (fun v => h'.formatWithin fuel' v) = .ok parts := by
        rw [hitems]
        refine mapM_eq_ok (fun x hx y hy => ?_) hparts
        exact ih (by omega) (fun c hc => hreach c (.item (hitems ▸ hx) hc)) hy
      unfold formatWithin
      rw [hparts']
      exact hv
    | record a =>
      have hfields : h'.fields a = h.fields a := he.fields a (hreach _ (.record a))
      obtain ⟨parts, hparts, hv⟩ := bind_eq_ok hv
      have hparts' : (h'.fields a).mapM (fun field => do
          return field.1 ++ ": " ++ (← h'.formatWithin fuel' field.2)) = .ok parts := by
        rw [hfields]
        refine mapM_eq_ok (fun field hx y hy => ?_) hparts
        obtain ⟨shown, hshown, hy⟩ := bind_eq_ok hy
        have hx' : h'.formatWithin fuel' field.2 = .ok shown :=
          ih (by omega) (fun c hc => hreach c (.field (hfields ▸ hx) hc)) hshown
        rw [hx']
        exact hy
      have hrecord : h'.formatWithin (fuel' + 1) (.record a) = (do
          let parts ← (h'.fields a).mapM fun field => do
            return field.1 ++ ": " ++ (← h'.formatWithin fuel' field.2)
          return "\x7b" ++ Text.join ", " parts ++ "\x7d") := rfl
      rw [hrecord, hparts']
      exact hv

theorem Evolves.format_eq {h h' : Heap} (he : h.Evolves h') {v : Value} {text : String}
    (hreach : ∀ c, h'.Reaches v c → c ∉ h'.storesFrom h.stores.size) (hv : h.format v = .ok text) :
    h'.format v = .ok text :=
  he.formatWithin_eq he.depth hreach hv

end Heap

end Chronicle
