import Chronicle.Proofs.Value.Separate

/-!
# Values that stores spare

`Heap.Spares h h' v`: `h'` comes from `h` by stores to cells that `v` does not reach.  Such a value
reaches the same cells in both heaps and reads the same at every depth.

`Heap.Grafts h a v h'` says what writing `v` somewhere below the record at `a` does to the cells that
values reach: stores go to cells of the record and to new ones, and a value comes to reach no more
than the record, `v` and what is new.
-/

set_option autoImplicit false

namespace Chronicle

namespace Heap

variable {h h₀ h' h'' : Heap} {a : Address} {v u u₀ : Value} {c : Cell}

theorem reaches_trans {c' : Cell} (hv : h.Reaches v c) (hc : h.Reaches c.value c') :
    h.Reaches v c' := by
  induction hv with
  | sequence a => exact hc
  | record a => exact hc
  | item hmem _ ih => exact .item hmem (ih hc)
  | field hmem _ ih => exact .field hmem (ih hc)

theorem Apart.symm (ha : h.Apart v u) : h.Apart u v := fun c hu hv => ha c hv hu

/-! ## Stores that spare a value -/

/-- `h'` comes from `h` by stores of which none goes to a cell that the value reaches. -/
structure Spares (h h' : Heap) (v : Value) : Prop where
  evolves : h.Evolves h'
  outside : ∀ c, h.Reaches v c → c ∉ h'.storesFrom h.stores.size

theorem Extends.spares (he : h.Extends h') (hv : h.Closed v) : h.Spares h' v :=
  ⟨he.evolves, he.not_mem hv⟩

/-- A change through a value spares those apart from it. -/
theorem ChangedThrough.spares (hc : h.ChangedThrough v h') (hu : h.Closed u)
    (hapart : h.Apart v u) : h.Spares h' u :=
  ⟨hc.evolves, fun c hreach hstored =>
    hapart c (hc.reached c hstored (hu c hreach)) hreach⟩

namespace Spares

theorem refl (h : Heap) (v : Value) : h.Spares h v := by
  have hnone : h.storesFrom h.stores.size = [] := List.drop_eq_nil_of_le (by simp)
  exact ⟨.refl h, fun c _ hc => by simp [hnone] at hc⟩

theorem item {a : Address} (hs : h.Spares h' (.sequence a)) (hv : v ∈ h.items a) : h.Spares h' v :=
  ⟨hs.evolves, fun c hc => hs.outside c (.item hv hc)⟩

theorem field {a : Address} {field : String × Value} (hs : h.Spares h' (.record a))
    (hf : field ∈ h.fields a) : h.Spares h' field.2 :=
  ⟨hs.evolves, fun c hc => hs.outside c (.field hf hc)⟩

theorem items_eq {a : Address} (hs : h.Spares h' (.sequence a)) : h'.items a = h.items a :=
  hs.evolves.items a (hs.outside _ (.sequence a))

theorem fields_eq {a : Address} (hs : h.Spares h' (.record a)) : h'.fields a = h.fields a :=
  hs.evolves.fields a (hs.outside _ (.record a))

theorem reaches_iff (hs : h.Spares h' v) : h'.Reaches v c ↔ h.Reaches v c := by
  refine ⟨hs.evolves.reaches hs.outside, fun hc => ?_⟩
  induction hc with
  | sequence a => exact .sequence a
  | record a => exact .record a
  | item hmem _ ih => exact .item (hs.items_eq ▸ hmem) (ih (hs.item hmem))
  | field hmem _ ih => exact .field (hs.fields_eq ▸ hmem) (ih (hs.field hmem))

theorem trans (h₁ : h.Spares h' v) (h₂ : h'.Spares h'' v) : h.Spares h'' v := by
  refine ⟨h₁.evolves.trans h₂.evolves, fun c hc hstored => ?_⟩
  rw [h₁.evolves.storesFrom_eq h₂.evolves, List.mem_append] at hstored
  rcases hstored with hstored | hstored
  · exact h₁.outside c hc hstored
  · exact h₂.outside c (h₁.reaches_iff.2 hc) hstored

/-- A spared value is the same as what it was the same as. -/
theorem same (hs : h.Spares h' v) (hsame : h₀.Same h u₀ v) : h₀.Same h' u₀ v :=
  hsame.evolves hs.evolves hs.outside

theorem textWithin_eq_ok {k : Nat} {t : String} (hs : h.Spares h' v)
    (ht : h.textWithin k v = .ok t) : h'.textWithin k v = .ok t := by
  induction k generalizing v t with
  | zero =>
    cases v with
    | sequence a => cases ht
    | _ => exact ht
  | succ k ih =>
    cases v with
    | sequence a =>
      rw [textWithin_sequence] at ht ⊢
      cases hparts : (h.items a).mapM (h.elementText k) with
      | error f =>
        rw [hparts] at ht
        cases ht
      | ok parts =>
        have hparts' : (h'.items a).mapM (h'.elementText k) = .ok parts := by
          rw [hs.items_eq]
          refine mapM_eq_ok (fun u hu s hus => ?_) hparts
          unfold elementText at hus ⊢
          by_cases hnull : u.isNullish = true
          · rwa [if_pos hnull] at hus ⊢
          · rw [if_neg hnull] at hus ⊢
            exact ih (hs.item hu) hus
        rw [hparts] at ht
        rw [hparts']
        exact ht
    | _ => exact ht

/-- A spared value has the text that it had. -/
theorem text_eq_ok {t : String} (hs : h.Spares h' v) (ht : h.text v = .ok t) : h'.text v = .ok t :=
  hs.textWithin_eq_ok ((h.textWithin_eq_text hs.evolves.depth v).trans ht)

theorem apart_iff (hv : h.Spares h' v) (hu : h.Spares h' u) : h'.Apart v u ↔ h.Apart v u := by
  simp only [Apart, hv.reaches_iff, hu.reaches_iff]

end Spares

/-! ## Values written below a record -/

/-- What writing `v` below the record at `a` changes: cells that the record reaches and new ones.
After it a value reaches what it did, and else only cells of the record, of `v` and new ones. -/
structure Grafts (h : Heap) (a : Address) (v : Value) (h' : Heap) : Prop
    extends h.ChangedThrough (.record a) h' where
  cells : h.cells ⊆ h'.cells
  later : ∀ u c, h'.Reaches u c →
    h.Reaches u c ∨ h.Reaches (.record a) c ∨ h.Reaches v c ∨ (c ∈ h'.cells ∧ c ∉ h.cells)

namespace Grafts

variable {w : Value}

theorem closed (hg : h.Grafts a v h') (ha : h.Closed (.record a)) (hv : h.Closed v)
    (hu : h.Closed u) : h'.Closed u := by
  intro c hc
  rcases hg.later u c hc with hc | hc | hc | hc
  · exact hg.cells (hu c hc)
  · exact hg.cells (ha c hc)
  · exact hg.cells (hv c hc)
  · exact hc.1

/-- What is apart from a value, from the record and from what is written is apart from the value
afterwards. -/
theorem apart (hg : h.Grafts a v h') (hw : h.Closed w) (hu : h.Apart u w)
    (ha : h.Apart (.record a) w) (hv : h.Apart v w) : h'.Apart u w := by
  intro c hc hcw
  rw [(hg.spares hw ha).reaches_iff] at hcw
  rcases hg.later u c hc with hc | hc | hc | hc
  · exact hu c hc hcw
  · exact ha c hc hcw
  · exact hv c hc hcw
  · exact hc.2 (hw c hcw)

end Grafts

theorem cells_setFields (h : Heap) (a : Address) (fields : Fields) :
    (h.setFields a fields).cells = h.cells := by
  simp [cells, setFields]

/-- A store of fields below the record or the value is a graft. -/
theorem grafts_setFields {fields : Fields} (hfields : ∀ field ∈ fields, ∀ c,
    h.Reaches field.2 c → h.Reaches (.record a) c ∨ h.Reaches v c) :
    h.Grafts a v (h.setFields a fields) := by
  have hstored : (h.setFields a fields).storesFrom h.stores.size = [.record a] := storesFrom_push rfl
  refine ⟨⟨evolves_setFields h a fields, fun c hc _ => ?_⟩, ?_, fun u c hc => ?_⟩
  · rw [hstored, List.mem_singleton] at hc
    exact hc ▸ .record a
  · rw [cells_setFields]
  · induction hc with
    | sequence b => exact .inl (.sequence b)
    | record b => exact .inl (.record b)
    | item hmem _ ih => exact ih.imp_left (.item hmem)
    | @field b name u c hmem _ ih =>
      rcases ih with ih | ih
      · by_cases hb : Cell.record b = .record a
        · cases hb
          rcases fields_setFields h fields a hmem with hmem | hmem
          · exact .inr ((hfields _ hmem c ih).imp_right .inl)
          · exact .inl (.field hmem ih)
        · have hold : (h.setFields a fields).fields b = h.fields b :=
            (evolves_setFields h a fields).fields b (by simpa [hstored] using hb)
          exact .inl (.field (hold ▸ hmem) ih)
      · exact .inr ih

/-- A write to a field is a graft. -/
theorem grafts_insert (h : Heap) (a : Address) (key : String) (v : Value) :
    h.Grafts a v (h.setFields a ((h.fields a).insert key v)) := by
  refine grafts_setFields fun field hf c hc => ?_
  rcases Fields.mem_insert hf with he | hf
  · exact .inr (he ▸ hc)
  · exact .inl (.field hf hc)

/-- Taking over the fields of another record is a graft. -/
theorem grafts_update (h : Heap) (a source : Address) :
    h.Grafts a (.record source) (h.setFields a ((h.fields a).update (h.fields source))) := by
  refine grafts_setFields fun field hf c hc => ?_
  rcases Fields.mem_update hf with hf | ⟨other, hother, he⟩
  · exact .inl (.field hf hc)
  · exact .inr (.field hother (he ▸ hc))

/-- An empty record changes nothing that can be read. -/
theorem fields_newRecord_empty (h : Heap) (b : Address) :
    (h.newRecord []).2.fields b = h.fields b := by
  rw [fields_newRecord]
  split
  · rename_i hb
    simp [Heap.fields, hb]
  · rfl

theorem reaches_newRecord_empty : (h.newRecord []).2.Reaches v c ↔ h.Reaches v c := by
  constructor
  · intro hc
    induction hc with
    | sequence b => exact .sequence b
    | record b => exact .record b
    | item hmem _ ih => exact .item hmem ih
    | field hmem _ ih => exact .field (h.fields_newRecord_empty _ ▸ hmem) ih
  · intro hc
    induction hc with
    | sequence b => exact .sequence b
    | record b => exact .record b
    | item hmem _ ih => exact .item hmem ih
    | field hmem _ ih => exact .field ((h.fields_newRecord_empty _).symm ▸ hmem) ih

theorem extends_newSequence (h : Heap) (items : List Value) :
    h.Extends (h.newSequence items).2 := by
  have hstored : (h.newSequence items).2.storesFrom h.stores.size = [.sequence h.sequences.size] :=
    storesFrom_push rfl
  refine ⟨evolves_newSequence h items, fun c hc hold => ?_, fun c hold => ?_⟩
  · rw [hstored, List.mem_singleton] at hc
    simp [hc] at hold
  · cases c with
    | sequence b =>
      rw [sequence_mem_cells] at hold ⊢
      exact Nat.lt_of_lt_of_le hold (by simp [newSequence])
    | record b => simpa [newSequence] using hold

theorem extends_newRecord (h : Heap) (fields : Fields) : h.Extends (h.newRecord fields).2 := by
  have hstored : (h.newRecord fields).2.storesFrom h.stores.size = [.record h.records.size] :=
    storesFrom_push rfl
  refine ⟨evolves_newRecord h fields, fun c hc hold => ?_, fun c hold => ?_⟩
  · rw [hstored, List.mem_singleton] at hc
    simp [hc] at hold
  · cases c with
    | sequence b => simpa [newRecord] using hold
    | record b =>
      rw [record_mem_cells] at hold ⊢
      exact Nat.lt_of_lt_of_le hold (by simp [newRecord])

end Heap

end Chronicle
