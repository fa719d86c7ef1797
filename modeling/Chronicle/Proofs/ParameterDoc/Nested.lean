import Mathlib.Data.List.Infix
import Chronicle.ParameterDoc.Path
import Chronicle.Proofs.Evaluation.Slots
import Chronicle.Proofs.Value.Unshared

/-!
# Writes at paths

`Heap.follow` goes down a path through records.  Below a record that is a tree, a write at a path is
found there, leaves what stands at every path beside it (`setNested_written`), is undone by the next
write at the path (`setNested_setNested`) and can be exchanged with a write at a path beside it
(`setNested_comm`).

All of these go down the path one key at a time: `Heap.enter` is the step, and `Entered` says what
it leaves of the record and the values around it.
-/

set_option autoImplicit false

namespace Chronicle

namespace Heap

variable {h h' h₁ : Heap} {a b child : Address} {v u w : Value} {c : Cell} {key : String}
  {p q path : List String}

/-! ## Following a path -/

/-- The value at a path below a value, by way of records. -/
def follow (h : Heap) : Value → List String → Option Value
  | v, [] => some v
  | .record a, key :: path => ((h.fields a).get? key).bind fun v => h.follow v path
  | _, _ :: _ => none

@[simp] theorem follow_nil (v : Value) : h.follow v [] = some v := by
  cases v <;> rfl

theorem follow_record_cons (a : Address) (key : String) (path : List String) :
    h.follow (.record a) (key :: path) =
      ((h.fields a).get? key).bind fun v => h.follow v path := rfl

theorem follow_cons_of_ne (hv : ∀ b, v ≠ .record b) (key : String) (path : List String) :
    h.follow v (key :: path) = none := by
  cases v with
  | record b => exact absurd rfl (hv b)
  | _ => rfl

theorem follow_append (v : Value) (p q : List String) :
    h.follow v (p ++ q) = (h.follow v p).bind fun w => h.follow w q := by
  induction p generalizing v with
  | nil => rw [List.nil_append, follow_nil, Option.bind_some]
  | cons key p ih =>
    cases v with
    | record a =>
      rw [List.cons_append, follow_record_cons, follow_record_cons]
      cases (h.fields a).get? key with
      | none => rfl
      | some u => exact ih u
    | _ => rfl

/-- What is found at a path reaches no more than where it was looked for. -/
theorem reaches_of_follow (hw : h.follow v path = some w) (hc : h.Reaches w c) : h.Reaches v c := by
  induction path generalizing v with
  | nil =>
    rw [follow_nil] at hw
    exact Option.some.inj hw ▸ hc
  | cons key path ih =>
    cases v with
    | record a =>
      rw [follow_record_cons] at hw
      obtain ⟨u, hu, hw⟩ := Option.bind_eq_some_iff.1 hw
      exact .field (Fields.mem_of_get? hu) (ih hw)
    | _ => cases hw

/-- Below a value that stores spare, every path leads to where it did. -/
theorem Spares.follow_eq (hs : h.Spares h' v) (path : List String) :
    h'.follow v path = h.follow v path := by
  induction path generalizing v with
  | nil => rw [follow_nil, follow_nil]
  | cons key path ih =>
    cases v with
    | record a =>
      rw [follow_record_cons, follow_record_cons, hs.fields_eq]
      cases hu : (h.fields a).get? key with
      | none => rfl
      | some u => exact ih (hs.field (Fields.mem_of_get? hu))
    | _ => rfl

theorem Spares.of_follow (hs : h.Spares h' v) (hw : h.follow v path = some w) : h.Spares h' w :=
  ⟨hs.evolves, fun c hc => hs.outside c (reaches_of_follow hw hc)⟩

/-! ## Trees that stand in a heap -/

/-- A tree whose cells are all there. -/
structure Planted (h : Heap) (v : Value) : Prop where
  closed : h.Closed v
  unshared : h.Unshared v

namespace Planted

theorem lt (ha : h.Planted (.record a)) : a < h.records.size :=
  record_mem_cells.1 (ha.closed _ (.record a))

theorem field (ha : h.Planted (.record a)) {field : String × Value} (hf : field ∈ h.fields a) :
    h.Planted field.2 :=
  ⟨fun c hc => ha.closed c (.field hf hc), ha.unshared.fields hf⟩

theorem spared (hv : h.Planted v) (hs : h.Spares h' v) (hcells : h.cells ⊆ h'.cells) :
    h'.Planted v :=
  ⟨fun c hc => hcells (hv.closed c (hs.reaches_iff.1 hc)), hs.unshared hv.unshared⟩

end Planted

theorem Planted.of_follow (hv : h.Planted v) (hw : h.follow v path = some w) : h.Planted w := by
  induction path generalizing v with
  | nil =>
    rw [follow_nil] at hw
    exact Option.some.inj hw ▸ hv
  | cons key path ih =>
    cases v with
    | record a =>
      rw [follow_record_cons] at hw
      obtain ⟨u, hu, hw⟩ := Option.bind_eq_some_iff.1 hw
      exact ih (hv.field (Fields.mem_of_get? hu)) hw
    | _ => cases hw

theorem planted_atom (hv : ∀ c, ¬ h.Reaches v c) : h.Planted v :=
  ⟨fun c hc => absurd hc (hv c), .atom hv⟩

/-- An empty record is a tree. -/
theorem planted_empty (hb : b < h.records.size) (hfields : h.fields b = []) :
    h.Planted (.record b) := by
  refine ⟨fun c hc => ?_, .record ?_ ?_ ?_⟩
  · cases hc with
    | record => exact record_mem_cells.2 hb
    | field hmem => simp [hfields] at hmem
  all_goals simp [hfields]

/-- What is apart from a record is apart from its fields. -/
theorem Apart.field (ha : h.Apart (.record a) v) {field : String × Value}
    (hf : field ∈ h.fields a) : h.Apart field.2 v :=
  fun c hc => ha c (.field hf hc)

/-! ## Writes to a field -/

theorem spares_setFields {fields : Fields} (hu : ¬ h.Reaches u (.record a)) :
    h.Spares (h.setFields a fields) u := by
  refine ⟨evolves_setFields h a fields, fun c hc hstored => hu ?_⟩
  have hone : (h.setFields a fields).storesFrom h.stores.size = [.record a] := storesFrom_push rfl
  rw [hone, List.mem_singleton] at hstored
  exact hstored ▸ hc

/-- A write of a tree to a field of a tree that is apart from it gives a tree. -/
theorem Planted.insert (ha : h.Planted (.record a)) (hv : h.Planted v)
    (hapart : h.Apart (.record a) v) (key : String) :
    (h.setFields a ((h.fields a).insert key v)).Planted (.record a) := by
  have hgraft := h.grafts_insert a key v
  have hfields := h.fields_setFields_self ha.lt ((h.fields a).insert key v)
  have hspared : ∀ field ∈ h.fields a, h.Spares (h.setFields a ((h.fields a).insert key v)) field.2 :=
    fun field hf => spares_setFields (ha.unshared.not_reaches_self hf)
  have hvspared : h.Spares (h.setFields a ((h.fields a).insert key v)) v :=
    spares_setFields (hapart _ (.record a))
  refine ⟨hgraft.closed ha.closed hv.closed ha.closed, ?_⟩
  refine unshared_insert ha.unshared hfields (fun f hf _ => hspared f hf)
    (hvspared.unshared hv.unshared) fun f hf _ => ?_
  exact (hvspared.apart_iff (hspared f hf)).2 (hapart.field hf).symm

/-! ## One step down a path -/

/-- The record under a key of the record at an address, and the heap in which it stands there: the
heap itself if there is one, else that with a new one. -/
def enter (h : Heap) (a : Address) (key : String) : Address × Heap :=
  match (h.fields a).get? key with
  | some (.record child) => (child, h)
  | _ => (h.records.size, (h.newRecord []).2.setFields a
      (((h.newRecord []).2.fields a).insert key (h.newRecord []).1))

theorem enter_of_record (hget : (h.fields a).get? key = some (.record b)) :
    h.enter a key = (b, h) := by
  rw [enter, hget]

theorem enter_of_other (hget : ∀ b, (h.fields a).get? key ≠ some (.record b)) :
    h.enter a key = (h.records.size, (h.newRecord []).2.setFields a
      (((h.newRecord []).2.fields a).insert key (h.newRecord []).1)) := by
  unfold enter
  split
  · exact absurd ‹_› (hget _)
  · rfl

theorem setNested_cons (h : Heap) (a : Address) (key k : String) (path : List String) (v : Value) :
    h.setNested a (key :: k :: path) v =
      (h.enter a key).2.setNested (h.enter a key).1 (k :: path) v := by
  conv_lhs => unfold setNested
  split
  · rename_i child hget
    rw [enter_of_record hget]
  · rename_i hget
    rw [enter_of_other hget]
    rfl

/-! ### Cells -/

theorem Grafts.refl (h : Heap) (a : Address) (v : Value) : h.Grafts a v h := by
  have hnone : h.storesFrom h.stores.size = [] := List.drop_eq_nil_of_le (by simp)
  exact ⟨⟨.refl h, fun c hc => by simp [hnone] at hc⟩, fun _ hc => hc, fun _ _ hc => .inl hc⟩

theorem fields_size (h : Heap) : h.fields h.records.size = [] := by
  simp [fields]

theorem reaches_size (hc : h.Reaches (.record h.records.size) c) : c = .record h.records.size := by
  cases hc with
  | record => rfl
  | field hmem => simp [fields_size] at hmem

/-- Going down a key grafts at most an empty record, and below lie cells of the record or new ones. -/
theorem grafts_enter (h : Heap) (a : Address) (key : String) :
    h.Grafts a .null (h.enter a key).2 ∧ ∀ c, h.Reaches (.record (h.enter a key).1) c →
      h.Reaches (.record a) c ∨ c ∈ (h.enter a key).2.cells ∧ c ∉ h.cells := by
  by_cases hget : ∃ b, (h.fields a).get? key = some (.record b)
  · obtain ⟨b, hget⟩ := hget
    rw [enter_of_record hget]
    exact ⟨.refl h a _, fun c hc => .inl (.field (Fields.mem_of_get? hget) hc)⟩
  · rw [enter_of_other fun b hb => hget ⟨b, hb⟩]
    have hnew := extends_newRecord h []
    have hgraft := grafts_insert (h.newRecord []).2 a key (h.newRecord []).1
    have hmade : ∀ c, c = Cell.record h.records.size →
        c ∈ ((h.newRecord []).2.setFields a
          (((h.newRecord []).2.fields a).insert key (h.newRecord []).1)).cells ∧ c ∉ h.cells := by
      rintro c rfl
      exact ⟨hgraft.cells (by simp [newRecord]), by simp⟩
    refine ⟨⟨⟨hnew.evolves.trans hgraft.evolves, fun c hc hold => ?_⟩,
      fun c hc => hgraft.cells (hnew.cells hc), fun u c hc => ?_⟩,
      fun c hc => .inr (hmade c (reaches_size hc))⟩
    · rw [hnew.evolves.storesFrom_eq hgraft.evolves, List.mem_append] at hc
      rcases hc with hc | hc
      · exact absurd hold (hnew.fresh c hc)
      · exact reaches_newRecord_empty.1 (hgraft.reached c hc (hnew.cells hold))
    · rcases hgraft.later u c hc with hc | hc | hc | hc
      · exact .inl (reaches_newRecord_empty.1 hc)
      · exact .inr (.inl (reaches_newRecord_empty.1 hc))
      · exact .inr (.inr (.inr (hmade c (reaches_size (reaches_newRecord_empty.1 hc)))))
      · exact .inr (.inr (.inr ⟨hc.1, fun hold => hc.2 (hnew.cells hold)⟩))

/-- A write at a path grafts the value. -/
theorem grafts_setNested (v : Value) : ∀ (path : List String) (h : Heap) (a : Address),
    h.Grafts a v (h.setNested a path v)
  | [], h, a => .refl h a v
  | [key], h, a => grafts_insert h a key v
  | key :: k :: path, h, a => by
    rw [setNested_cons]
    obtain ⟨henter, hchild⟩ := grafts_enter h a key
    generalize h.enter a key = entered at henter hchild
    obtain ⟨child, h₁⟩ := entered
    have hgraft := grafts_setNested v (k :: path) h₁ child
    -- what is reached after the step was reached before it, or is new
    have hstep : ∀ u c, h₁.Reaches u c →
        h.Reaches u c ∨ h.Reaches (.record a) c ∨ c ∈ h₁.cells ∧ c ∉ h.cells := by
      intro u c hc
      rcases henter.later u c hc with hc | hc | hc | hc
      · exact .inl hc
      · exact .inr (.inl hc)
      · cases hc
      · exact .inr (.inr hc)
    have hbelow : ∀ c, h₁.Reaches (.record child) c →
        h.Reaches (.record a) c ∨ c ∈ h₁.cells ∧ c ∉ h.cells := by
      intro c hc
      rcases hstep _ c hc with hc | hc
      · exact hchild c hc
      · exact hc
    refine ⟨⟨henter.evolves.trans hgraft.evolves, fun c hc hold => ?_⟩,
      fun c hc => hgraft.cells (henter.cells hc), fun u c hc => ?_⟩
    · rw [henter.evolves.storesFrom_eq hgraft.evolves, List.mem_append] at hc
      rcases hc with hc | hc
      · exact henter.reached c hc hold
      · exact (hbelow c (hgraft.reached c hc (henter.cells hold))).resolve_right fun hnew =>
          hnew.2 hold
    · have hlift : c ∈ h₁.cells ∧ c ∉ h.cells → c ∈ (h₁.setNested child (k :: path) v).cells ∧
          c ∉ h.cells := fun hc => ⟨hgraft.cells hc.1, hc.2⟩
      rcases hgraft.later u c hc with hc | hc | hc | hc
      · exact (hstep u c hc).imp_right fun hc => hc.imp_right fun hc => .inr (hlift hc)
      · exact .inr ((hbelow c hc).imp_right fun hc => .inr (hlift hc))
      · rcases hstep v c hc with hc | hc | hc
        · exact .inr (.inr (.inl hc))
        · exact .inr (.inl hc)
        · exact .inr (.inr (.inr (hlift hc)))
      · exact .inr (.inr (.inr ⟨hc.1, fun hold => hc.2 (henter.cells hold)⟩))

/-! ### Trees -/

/-- What going down a key leaves of a tree and of the values around it. -/
structure Entered (h : Heap) (a : Address) (key : String) (child : Address) (h₁ : Heap) : Prop where
  planted : h₁.Planted (.record a)
  found : (h₁.fields a).get? key = some (.record child)
  others : ∀ k, k ≠ key → (h₁.fields a).get? k = (h.fields a).get? k
  spares : ∀ u, h.Closed u → ¬ h.Reaches u (.record a) → h.Spares h₁ u
  below : ∀ k path, h₁.follow (.record child) (k :: path) = h.follow (.record a) (key :: k :: path)

theorem entered_enter (ha : h.Planted (.record a)) (key : String) :
    h.Entered a key (h.enter a key).1 (h.enter a key).2 := by
  by_cases hget : ∃ b, (h.fields a).get? key = some (.record b)
  · obtain ⟨b, hget⟩ := hget
    rw [enter_of_record hget]
    refine ⟨ha, hget, fun _ _ => rfl, fun u _ _ => .refl h u, fun k path => ?_⟩
    rw [h.follow_record_cons a, hget]
    rfl
  · have hnone : ∀ b, (h.fields a).get? key ≠ some (.record b) := fun b hb => hget ⟨b, hb⟩
    rw [enter_of_other hnone]
    have hnew := extends_newRecord h []
    have ha' : (h.newRecord []).2.Planted (.record a) :=
      ha.spared (hnew.spares ha.closed) hnew.cells
    have hmade : (h.newRecord []).2.Planted (.record h.records.size) :=
      planted_empty (by simp [newRecord]) (by rw [fields_newRecord_empty, fields_size])
    have hapart : (h.newRecord []).2.Apart (.record a) (.record h.records.size) := by
      intro c hc hsize
      obtain rfl := reaches_size (reaches_newRecord_empty.1 hsize)
      simpa using ha.closed _ (reaches_newRecord_empty.1 hc)
    have hfields := fields_setFields_self (h.newRecord []).2 ha'.lt
      (((h.newRecord []).2.fields a).insert key (h.newRecord []).1)
    refine ⟨ha'.insert hmade hapart key, ?_, fun k hk => ?_, fun u hu hua => ?_, fun k path => ?_⟩
    · rw [hfields, Fields.get?_insert, if_pos rfl]
      rfl
    · rw [hfields, Fields.get?_insert, if_neg hk, fields_newRecord_empty]
    · exact (hnew.spares hu).trans (spares_setFields fun hc => hua (reaches_newRecord_empty.1 hc))
    · have hempty : h.fields h.records.size = [] := h.fields_size
      have hsize : a ≠ h.records.size := Nat.ne_of_lt ha.lt
      rw [follow_record_cons, follow_record_cons,
        fields_setFields_of_ne _ (Ne.symm hsize), fields_newRecord_empty, hempty]
      cases hv : (h.fields a).get? key with
      | none => rfl
      | some v => exact (follow_cons_of_ne (fun b hb => hnone b (hb ▸ hv)) k path).symm

/-! ## Writes -/

/-- Neither path leads through the end of the other. -/
def Beside (p q : List String) : Prop :=
  ¬ p <+: q ∧ ¬ q <+: p

namespace Beside

theorem symm (hpq : Beside p q) : Beside q p := ⟨hpq.2, hpq.1⟩

theorem ne_nil (hpq : Beside p q) : p ≠ [] := fun hp => hpq.1 (hp ▸ List.nil_prefix)

theorem of_cons (hpq : Beside (key :: p) (key :: q)) : Beside p q := by
  unfold Beside at hpq ⊢
  simpa using hpq

end Beside

/-- The path leads to the same value in both heaps, and the stores between them spare it. -/
def KeptAt (h h' : Heap) (v : Value) (path : List String) : Prop :=
  h'.follow v path = h.follow v path ∧ ∀ w, h.follow v path = some w → h.Spares h' w

theorem Spares.keptAt (hs : h.Spares h' v) (path : List String) : h.KeptAt h' v path :=
  ⟨hs.follow_eq path, fun _ hw => hs.of_follow hw⟩

/-- What a write of `v` at the path `p` below the record at `a` leaves in `h'`: the value stands at
the path, with records on the way, and at every path beside it stands what did. -/
structure Written (h : Heap) (a : Address) (p : List String) (v : Value) (h' : Heap) : Prop where
  at_path : h'.follow (.record a) p = some v
  on_the_way : ∀ q, q <+: p → q ≠ p → ∃ b, h'.follow (.record a) q = some (.record b)
  beside : ∀ q, Beside p q → h.KeptAt h' (.record a) q

/-- What an entered record keeps while there are changes below the key. -/
theorem Entered.kept (he : h.Entered a key child h₁) (hg : h₁.Grafts child v h') :
    h'.fields a = h₁.fields a ∧
      ∀ field ∈ h₁.fields a, field.1 ≠ key → h₁.Spares h' field.2 := by
  have hchild := Fields.mem_of_get? he.found
  refine ⟨hg.evolves.fields a fun hstored => ?_, fun field hf hne => ?_⟩
  · exact he.planted.unshared.not_reaches_self hchild
      (hg.reached _ hstored (record_mem_cells.2 he.planted.lt))
  · exact hg.spares (he.planted.field hf).closed
      (he.planted.unshared.apart hchild hf (Ne.symm hne))

/-- Under a key whose value is the same and spared, all is kept. -/
theorem keptAt_cons (hget : (h'.fields a).get? key = (h.fields a).get? key)
    (hs : ∀ u, (h.fields a).get? key = some u → h.Spares h' u) (q : List String) :
    h.KeptAt h' (.record a) (key :: q) := by
  unfold KeptAt
  rw [follow_record_cons, follow_record_cons, hget]
  cases hu : (h.fields a).get? key with
  | none => exact ⟨rfl, nofun⟩
  | some u => exact (hs u hu).keptAt q

theorem Planted.not_reaches_get? (ha : h.Planted (.record a))
    (hget : (h.fields a).get? key = some u) : ¬ h.Reaches u (.record a) :=
  ha.unshared.not_reaches_self (Fields.mem_of_get? hget)

/-- A write to a field is found there and nowhere beside it. -/
theorem written_setFields (ha : h.Planted (.record a)) (key : String) (v : Value) :
    h.Written a [key] v (h.setFields a ((h.fields a).insert key v)) := by
  have hfields := h.fields_setFields_self ha.lt ((h.fields a).insert key v)
  refine ⟨?_, fun q hq hne => ⟨a, ?_⟩, fun q hq => ?_⟩
  · rw [follow_record_cons, hfields, Fields.get?_insert, if_pos rfl, Option.bind_some, follow_nil]
  · rcases List.prefix_cons_iff.1 hq with rfl | ⟨t, rfl, ht⟩
    · rw [follow_nil]
    · exact absurd (by rw [List.prefix_nil.1 ht]) hne
  · cases q with
    | nil => exact absurd rfl hq.symm.ne_nil
    | cons k q =>
      have hk : k ≠ key := by
        rintro rfl
        exact hq.1 (by simp)
      refine keptAt_cons ?_ (fun u hu => spares_setFields (ha.not_reaches_get? hu)) q
      rw [hfields, Fields.get?_insert, if_neg hk]

/-- A write below an entered record is one below the record that was entered. -/
theorem Entered.written (ha : h.Planted (.record a)) (he : h.Entered a key child h₁)
    (hg : h₁.Grafts child v h') (hw : h₁.Written child p v h') :
    h.Written a (key :: p) v h' := by
  obtain ⟨hfields, hspared⟩ := he.kept hg
  have hunder : ∀ q, h'.follow (.record a) (key :: q) = h'.follow (.record child) q := by
    intro q
    rw [follow_record_cons, hfields, he.found, Option.bind_some]
  refine ⟨?_, fun q hq hne => ?_, fun q hq => ?_⟩
  · rw [hunder, hw.at_path]
  · rcases List.prefix_cons_iff.1 hq with rfl | ⟨t, rfl, ht⟩
    · exact ⟨a, follow_nil (.record a)⟩
    · rw [hunder]
      exact hw.on_the_way t ht fun he => hne (by rw [he])
  · cases q with
    | nil => exact absurd rfl hq.symm.ne_nil
    | cons k q =>
      by_cases hk : k = key
      · subst hk
        obtain ⟨k', q, rfl⟩ := List.exists_cons_of_ne_nil hq.of_cons.symm.ne_nil
        obtain ⟨hfollow, hspares⟩ := hw.beside _ hq.of_cons
        rw [he.below] at hfollow hspares
        refine ⟨by rw [hunder, hfollow], fun w hfound => ?_⟩
        obtain ⟨u, hu, hwu⟩ := Option.bind_eq_some_iff.1 (h.follow_record_cons a k _ ▸ hfound)
        have hstep : h.Spares h₁ w := he.spares w
          (fun c hc => ha.closed c (reaches_of_follow hfound hc))
          (fun hc => ha.not_reaches_get? hu (reaches_of_follow hwu hc))
        exact hstep.trans (hspares w hfound)
      · -- what stands under another key is spared by the step and by the changes below
        refine keptAt_cons (by rw [hfields, he.others k hk]) (fun u hu => ?_) q
        have hu₁ := Fields.mem_of_get? ((he.others k hk).trans hu)
        exact (he.spares u (ha.field (Fields.mem_of_get? hu)).closed
          (ha.not_reaches_get? hu)).trans (hspared (k, u) hu₁ hk)

theorem written_setNested (v : Value) : ∀ (p : List String) {h : Heap} {a : Address},
    p ≠ [] → h.Planted (.record a) → h.Written a p v (h.setNested a p v)
  | [key], h, a, _, ha => written_setFields ha key v
  | key :: k :: path, h, a, _, ha => by
    rw [setNested_cons]
    have he := entered_enter ha key
    have hchild := he.planted.field (Fields.mem_of_get? he.found)
    exact he.written ha (grafts_setNested v _ _ _)
      (written_setNested v (k :: path) (List.cons_ne_nil k path) hchild)

/-- Below a tree, a write of a tree that is apart from it leaves a tree. -/
theorem Planted.setNested : ∀ (p : List String) {h : Heap} {a : Address} {v : Value},
    h.Planted (.record a) → h.Planted v → h.Apart (.record a) v →
      (h.setNested a p v).Planted (.record a)
  | [], h, a, v, ha, _, _ => ha
  | [key], h, a, v, ha, hv, hapart => ha.insert hv hapart key
  | key :: k :: path, h, a, v, ha, hv, hapart => by
    rw [setNested_cons]
    have he := entered_enter ha key
    have hentered := (grafts_enter h a key).1
    generalize h.enter a key = entered at he hentered
    obtain ⟨child, h₁⟩ := entered
    have hchild := Fields.mem_of_get? he.found
    have hvspared : h.Spares h₁ v := he.spares v hv.closed (hapart _ (.record a))
    have hv₁ := hv.spared hvspared hentered.cells
    have hapart₁ : h₁.Apart (.record a) v := hentered.apart hv.closed hapart hapart nofun
    have hgraft := grafts_setNested v (k :: path) h₁ child
    obtain ⟨hfields, hspared⟩ := he.kept hgraft
    have hbelow := Planted.setNested (k :: path) (he.planted.field hchild) hv₁
      (hapart₁.field hchild)
    refine ⟨hgraft.closed (he.planted.field hchild).closed hv₁.closed he.planted.closed, ?_⟩
    refine unshared_insert he.planted.unshared (hfields.trans (Fields.insert_of_get? he.found).symm)
      hspared hbelow.unshared fun f hf hne => ?_
    have hchildApart := he.planted.unshared.apart hchild hf (Ne.symm hne)
    exact hgraft.apart (he.planted.field hf).closed hchildApart hchildApart (hapart₁.field hf).symm

/-! ## Two writes -/

/-- A second write at a path leaves the sequences and records that it alone would. -/
theorem setNested_setNested (v u : Value) : ∀ (p : List String) {h : Heap} {a : Address},
    p ≠ [] → h.Planted (.record a) →
      ((h.setNested a p v).setNested a p u).sequences = (h.setNested a p u).sequences ∧
        ((h.setNested a p v).setNested a p u).records = (h.setNested a p u).records
  | [key], h, a, _, ha => by
    have hfields := h.fields_setFields_self ha.lt ((h.fields a).insert key v)
    refine ⟨rfl, ?_⟩
    show ((h.setFields a ((h.fields a).insert key v)).setFields a
      (((h.setFields a ((h.fields a).insert key v)).fields a).insert key u)).records =
        (h.setFields a ((h.fields a).insert key u)).records
    rw [hfields, Fields.insert_insert]
    exact Array.setIfInBounds_setIfInBounds _
  | key :: k :: path, h, a, _, ha => by
    have he := entered_enter ha key
    have hchild := he.planted.field (Fields.mem_of_get? he.found)
    obtain ⟨hfields, -⟩ := he.kept (grafts_setNested v (k :: path) _ _)
    have hagain : ((h.enter a key).2.setNested (h.enter a key).1 (k :: path) v).enter a key =
        ((h.enter a key).1, (h.enter a key).2.setNested (h.enter a key).1 (k :: path) v) :=
      enter_of_record (by rw [hfields, he.found])
    rw [setNested_cons h a key k path v, setNested_cons h a key k path u, setNested_cons, hagain]
    exact setNested_setNested v u (k :: path) (List.cons_ne_nil k path) hchild

/-- Two values that are found at one path: both are records, whose fields lie at longer paths, or
they are the same. -/
def Agree (h h' : Heap) (v v' : Value) : Prop :=
  (∃ a b, v = .record a ∧ v' = .record b) ∨ h.Same h' v v'

/-- From the two values, every path leads to values that agree, or nowhere. -/
def AgreeBelow (h h' : Heap) (v v' : Value) : Prop :=
  ∀ path, Option.Rel (h.Agree h') (h.follow v path) (h'.follow v' path)

theorem agree_records (a b : Address) : h.Agree h' (.record a) (.record b) :=
  .inl ⟨a, b, rfl, rfl⟩

/-- A tree that is spared by two changes is the same after both. -/
theorem agree_of_spares (hv : h.Unshared v) (hs : h.Spares h₁ v) (hs' : h.Spares h' v) :
    h₁.Agree h' v v :=
  .inr (hs'.same (hs.same hv.same_self).symm)

/-- Where two changes keep what stands at a path below a tree, the results agree there. -/
theorem KeptAt.agree (hv : h.Planted v) (hk : h.KeptAt h₁ v path) (hk' : h.KeptAt h' v path) :
    Option.Rel (h₁.Agree h') (h₁.follow v path) (h'.follow v path) := by
  rw [hk.1, hk'.1]
  cases hw : h.follow v path with
  | none => exact .none
  | some w => exact .some (agree_of_spares (hv.of_follow hw).unshared (hk.2 w hw) (hk'.2 w hw))

/-- What two writes at paths beside each other leave: both values with all below them, records on
the way to either, and at paths beside both what stood there. -/
structure WrittenBoth (h : Heap) (a : Address) (p : List String) (v : Value) (q : List String)
    (u : Value) (h' : Heap) : Prop where
  at_first : ∀ path, h'.follow (.record a) (p ++ path) = h'.follow v path
  at_second : ∀ path, h'.follow (.record a) (q ++ path) = h'.follow u path
  spares_first : h.Spares h' v
  spares_second : h.Spares h' u
  on_the_way : ∀ path, path <+: p ∧ path ≠ p ∨ path <+: q ∧ path ≠ q →
    ∃ b, h'.follow (.record a) path = some (.record b)
  beside : ∀ path, Beside p path → Beside q path → h.KeptAt h' (.record a) path

theorem writtenBoth_setNested (ha : h.Planted (.record a)) (hv : h.Planted v) (hu : h.Planted u)
    (hav : h.Apart (.record a) v) (hau : h.Apart (.record a) u) (hpq : Beside p q) :
    h.WrittenBoth a p v q u ((h.setNested a p v).setNested a q u) := by
  have hg := h.grafts_setNested v p a
  have ha₁ := ha.setNested p hv hav
  have hw := written_setNested v p hpq.ne_nil ha
  have hv₁ : h.Spares (h.setNested a p v) v := hg.spares hv.closed hav
  have hu₁ : h.Spares (h.setNested a p v) u := hg.spares hu.closed hau
  generalize h.setNested a p v = h₁ at hg ha₁ hw hv₁ hu₁
  have hg' := h₁.grafts_setNested u q a
  have hw' := written_setNested u q hpq.symm.ne_nil ha₁
  generalize h₁.setNested a q u = h₂ at hg' hw'
  have hv₂ : h₁.Spares h₂ v := (hw'.beside p hpq.symm).2 v hw.at_path
  -- the second write stores below the record, where there are now its old cells, those of `v` and
  -- new ones
  have hu₂ : h₁.Spares h₂ u := by
    refine ⟨hg'.evolves, fun c hc hstored => ?_⟩
    have hcu := hu₁.reaches_iff.1 hc
    rcases hg.later _ c (hg'.reached c hstored (hg.cells (hu.closed c hcu))) with hc | hc | hc | hc
    · exact hau c hc hcu
    · exact hau c hc hcu
    · exact hv₂.outside c (hv₁.reaches_iff.2 hc) hstored
    · exact hc.2 (hu.closed c hcu)
  refine ⟨fun path => ?_, fun path => ?_, hv₁.trans hv₂, hu₁.trans hu₂, fun path hway => ?_,
    fun path hp hq => ?_⟩
  · rw [follow_append, (hw'.beside p hpq.symm).1, hw.at_path, Option.bind_some]
  · rw [follow_append, hw'.at_path, Option.bind_some]
  · by_cases hq : path <+: q ∧ path ≠ q
    · exact hw'.on_the_way path hq.1 hq.2
    · obtain ⟨hp, hne⟩ := hway.resolve_right hq
      have hbeside : Beside q path :=
        ⟨fun h => hpq.2 (h.trans hp), fun h => hq ⟨h, fun he => hpq.2 (he ▸ hp)⟩⟩
      rw [(hw'.beside path hbeside).1]
      exact hw.on_the_way path hp hne
  · obtain ⟨hfollow, hspares⟩ := hw.beside path hp
    obtain ⟨hfollow', hspares'⟩ := hw'.beside path hq
    exact ⟨hfollow'.trans hfollow, fun w hfound =>
      (hspares w hfound).trans (hspares' w (hfollow.trans hfound))⟩

/-- Writes at paths beside each other can be made in either order. -/
theorem setNested_comm (ha : h.Planted (.record a)) (hv : h.Planted v) (hu : h.Planted u)
    (hav : h.Apart (.record a) v) (hau : h.Apart (.record a) u) (hpq : Beside p q) :
    ((h.setNested a p v).setNested a q u).AgreeBelow ((h.setNested a q u).setNested a p v)
      (.record a) (.record a) := by
  have hboth := writtenBoth_setNested ha hv hu hav hau hpq
  have hboth' := writtenBoth_setNested ha hu hv hau hav hpq.symm
  intro path
  by_cases hp : p <+: path
  · obtain ⟨below, rfl⟩ := hp
    rw [hboth.at_first, hboth'.at_second]
    exact (hboth.spares_first.keptAt below).agree hv (hboth'.spares_second.keptAt below)
  by_cases hq : q <+: path
  · obtain ⟨below, rfl⟩ := hq
    rw [hboth.at_second, hboth'.at_first]
    exact (hboth.spares_second.keptAt below).agree hu (hboth'.spares_first.keptAt below)
  by_cases hway : path <+: p ∨ path <+: q
  · have hway : path <+: p ∧ path ≠ p ∨ path <+: q ∧ path ≠ q :=
      hway.imp (fun h => ⟨h, fun he => hp (he ▸ List.prefix_refl p)⟩)
        fun h => ⟨h, fun he => hq (he ▸ List.prefix_refl q)⟩
    obtain ⟨b, hb⟩ := hboth.on_the_way path hway
    obtain ⟨b', hb'⟩ := hboth'.on_the_way path hway.symm
    rw [hb, hb']
    exact .some (agree_records b b')
  · rw [not_or] at hway
    exact (hboth.beside path ⟨hp, hway.1⟩ ⟨hq, hway.2⟩).agree ha
      (hboth'.beside path ⟨hq, hway.2⟩ ⟨hp, hway.1⟩)

end Heap

end Chronicle
