import Chronicle.Proofs.Value.Spared

/-!
# Values without sharing

`Heap.Unshared h v`: the value is a tree.  Its elements or fields are trees that have no cell in
common, and the derivation is finite, so that no part of it leads back to it
(`Unshared.not_reaches_self`).

A tree stays one where stores spare it (`Spares.unshared`), when it is copied (`Unshared.shift`) and
when a tree apart from it is written to one of its fields (`unshared_insert`).
-/

set_option autoImplicit false

namespace Chronicle

namespace Heap

/-- A value that is a tree: its parts are, and no two of them reach a cell in common. -/
inductive Unshared (h : Heap) : Value → Prop
  /-- A value that is no sequence and no record. -/
  | atom {v : Value} (hv : ∀ c, ¬ h.Reaches v c) : Unshared h v
  | sequence {a : Address} (hitems : ∀ v ∈ h.items a, Unshared h v)
    (hapart : (h.items a).Pairwise h.Apart) : Unshared h (.sequence a)
  | record {a : Address} (hnames : ((h.fields a).map Prod.fst).Nodup)
    (hfields : ∀ field ∈ h.fields a, Unshared h field.2)
    (hapart : (h.fields a).Pairwise fun f g => h.Apart f.2 g.2) : Unshared h (.record a)

/-- `u` is an element or the value of a field of `v`. -/
inductive Part (h : Heap) : Value → Value → Prop
  | item {a : Address} {u : Value} (hu : u ∈ h.items a) : Part h u (.sequence a)
  | field {a : Address} {field : String × Value} (hf : field ∈ h.fields a) :
    Part h field.2 (.record a)

variable {h h' below : Heap} {a : Address} {v u : Value} {c : Cell}

theorem Part.reaches (hu : h.Part u v) (hc : h.Reaches u c) : h.Reaches v c := by
  cases hu with
  | item hmem => exact .item hmem hc
  | @field a field hmem => exact .field hmem hc

/-- A value reaches its own cell and what its parts reach. -/
theorem reaches_cases (hc : h.Reaches v c) : v = c.value ∨ ∃ u, h.Part u v ∧ h.Reaches u c := by
  cases hc with
  | sequence a => exact .inl rfl
  | record a => exact .inl rfl
  | item hmem hc => exact .inr ⟨_, .item hmem, hc⟩
  | @field a name u c hmem hc => exact .inr ⟨u, @Part.field h a (name, u) hmem, hc⟩

theorem reaches_value (c : Cell) : h.Reaches c.value c := by
  cases c with
  | sequence a => exact .sequence a
  | record a => exact .record a

namespace Unshared

/-- Going from a tree to its parts comes to an end. -/
theorem acc (hv : h.Unshared v) : Acc h.Part v := by
  induction hv with
  | atom hv =>
    refine ⟨_, fun u hu => ?_⟩
    cases hu with
    | item => exact absurd (.sequence _) (hv _)
    | field => exact absurd (.record _) (hv _)
  | sequence _ _ ih =>
    refine ⟨_, fun u hu => ?_⟩
    cases hu with
    | item hmem => exact ih u hmem
  | record _ _ _ ih =>
    refine ⟨_, fun u hu => ?_⟩
    cases hu with
    | field hmem => exact ih _ hmem

/-- No part of a tree leads back to it. -/
theorem not_reaches_of_part (hv : h.Unshared v) (hu : h.Part u v) (hc : v = c.value) :
    ¬ h.Reaches u c := by
  have hacc := hv.acc
  clear hv
  induction hacc generalizing u c with
  | intro v _ ih =>
    intro hback
    subst hc
    rcases reaches_cases hback with rfl | ⟨w, hw, hwhole⟩
    · exact ih _ hu hu rfl (reaches_value c)
    · -- `w` leads back to the whole, and from there to `u` again
      obtain ⟨d, rfl⟩ : ∃ d : Cell, u = d.value := by
        cases hw with
        | @item a _ _ => exact ⟨.sequence a, rfl⟩
        | @field a _ _ => exact ⟨.record a, rfl⟩
      exact ih _ hu hw rfl (reaches_trans hwhole (hu.reaches (reaches_value d)))

/-- A tree is finite. -/
theorem same_self (hv : h.Unshared v) : h.Same h v v := by
  induction hv with
  | @atom v hv =>
    cases v with
    | number n => exact .number n
    | text s => exact .text s
    | boolean b => exact .boolean b
    | null => exact .null
    | undefined => exact .undefined
    | sequence a => exact absurd (.sequence a) (hv _)
    | record a => exact absurd (.record a) (hv _)
  | sequence _ _ ih =>
    refine .sequence rfl fun i u u' hu hu' => ?_
    obtain rfl := Option.some.inj (hu.symm.trans hu')
    exact ih u (List.mem_of_getElem? hu)
  | record _ _ _ ih =>
    refine .record rfl fun i f f' hf hf' => ?_
    obtain rfl := Option.some.inj (hf.symm.trans hf')
    exact ih f (List.mem_of_getElem? hf)

variable (hv : h.Unshared (.record a))
include hv

theorem names : ((h.fields a).map Prod.fst).Nodup := by
  cases hv with
  | atom hv => exact absurd (.record a) (hv _)
  | record hnames => exact hnames

theorem fields {field : String × Value} (hf : field ∈ h.fields a) : h.Unshared field.2 := by
  cases hv with
  | atom hv => exact absurd (.record a) (hv _)
  | record _ hfields => exact hfields _ hf

theorem pairwise : (h.fields a).Pairwise fun f g => h.Apart f.2 g.2 := by
  cases hv with
  | atom hv => exact absurd (.record a) (hv _)
  | record _ _ hapart => exact hapart

theorem apart {f g : String × Value} (hf : f ∈ h.fields a) (hg : g ∈ h.fields a)
    (hne : f.1 ≠ g.1) : h.Apart f.2 g.2 :=
  have _ : Std.Symm fun f g : String × Value => h.Apart f.2 g.2 := ⟨fun _ _ => Apart.symm⟩
  hv.pairwise.forall hf hg fun he => hne (congrArg Prod.fst he)

theorem not_reaches_self {field : String × Value} (hf : field ∈ h.fields a) :
    ¬ h.Reaches field.2 (.record a) :=
  hv.not_reaches_of_part (.field hf) rfl

end Unshared

/-! ## Trees in other heaps -/

theorem Spares.unshared (hs : h.Spares h' v) (hv : h.Unshared v) : h'.Unshared v := by
  induction hv with
  | atom hv => exact .atom fun c hc => hv c (hs.reaches_iff.1 hc)
  | sequence _ hapart ih =>
    refine .sequence (fun v hv => ?_) ?_
    · rw [hs.items_eq] at hv
      exact ih v hv (hs.item hv)
    · rw [hs.items_eq]
      exact hapart.imp_of_mem fun hu hv => ((hs.item hu).apart_iff (hs.item hv)).2
  | record hnames _ hapart ih =>
    refine .record (hs.fields_eq ▸ hnames) (fun field hf => ?_) ?_
    · rw [hs.fields_eq] at hf
      exact ih field hf (hs.field hf)
    · rw [hs.fields_eq]
      exact hapart.imp_of_mem fun hf hg => ((hs.field hf).apart_iff (hs.field hg)).2

/-- What a copy reaches are copies of what the value reaches. -/
theorem reaches_of_shift (hc : (below.append h).Reaches (below.shiftValue v) c) :
    ∃ d : Cell, h.Reaches v d ∧ c.value = below.shiftValue d.value := by
  obtain ⟨u, hu, hheld⟩ := Holds.of_shift below (reaches_iff_holds.1 hc)
  obtain ⟨d, rfl⟩ : ∃ d : Cell, u = d.value := by
    cases u with
    | sequence a => exact ⟨.sequence a, rfl⟩
    | record a => exact ⟨.record a, rfl⟩
    | _ => cases c <;> cases hu
  exact ⟨d, reaches_iff_holds.2 hheld, hu⟩

theorem shiftValue_cell_injective (below : Heap) {c d : Cell}
    (h : below.shiftValue c.value = below.shiftValue d.value) : c = d := by
  cases c <;> cases d <;> simp_all [Cell.value, shiftValue]

theorem Apart.shift (below : Heap) (ha : h.Apart v u) :
    (below.append h).Apart (below.shiftValue v) (below.shiftValue u) := by
  intro c hv hu
  obtain ⟨d, hd, he⟩ := reaches_of_shift hv
  obtain ⟨d', hd', he'⟩ := reaches_of_shift hu
  obtain rfl := below.shiftValue_cell_injective (he.symm.trans he')
  exact ha d hd hd'

/-- A copy of a tree is a tree. -/
theorem Unshared.shift (below : Heap) (hv : h.Unshared v) :
    (below.append h).Unshared (below.shiftValue v) := by
  have habove : Above below h (below.append h) := ⟨rfl, rfl⟩
  induction hv with
  | atom hv =>
    refine .atom fun c hc => ?_
    obtain ⟨d, hd, -⟩ := reaches_of_shift hc
    exact hv d hd
  | @sequence a _ hapart ih =>
    rw [shiftValue_sequence]
    refine .sequence (fun v hv => ?_) ?_
    · rw [habove.items_shift] at hv
      obtain ⟨u, hu, rfl⟩ := List.mem_map.1 hv
      exact ih u hu
    · rw [habove.items_shift]
      exact List.pairwise_map.2 (hapart.imp (.shift below))
  | @record a hnames _ hapart ih =>
    rw [shiftValue_record]
    refine .record ?_ (fun field hf => ?_) ?_
    · rw [habove.fields_shift, Fields.shift, List.map_map]
      exact hnames
    · rw [habove.fields_shift] at hf
      obtain ⟨g, hg, rfl⟩ := List.mem_map.1 hf
      exact ih g hg
    · rw [habove.fields_shift]
      exact List.pairwise_map.2 (hapart.imp (.shift below))

/-- The record at an address is a tree after a write to one of its fields: that of a tree which is
apart from the other fields, where these are spared. -/
theorem unshared_insert {key : String} (ha : h.Unshared (.record a))
    (hfields : h'.fields a = (h.fields a).insert key v)
    (hspared : ∀ field ∈ h.fields a, field.1 ≠ key → h.Spares h' field.2)
    (hv : h'.Unshared v)
    (hapart : ∀ field ∈ h.fields a, field.1 ≠ key → h'.Apart v field.2) :
    h'.Unshared (.record a) := by
  refine .record ?_ (fun field hf => ?_) ?_
  · rw [hfields]
    exact Fields.nodup_insert key v ha.names
  · rw [hfields] at hf
    rcases Fields.mem_insert_of_nodup ha.names hf with rfl | ⟨hf, hne⟩
    · exact hv
    · exact (hspared field hf hne).unshared (ha.fields hf)
  · rw [hfields]
    refine Fields.pairwise_insert (fun _ _ => Apart.symm) ha.names ?_ hapart
    refine ha.pairwise.imp_of_mem fun hf hg hfg hnef hneg => ?_
    exact ((hspared _ hf hnef).apart_iff (hspared _ hg hneg)).2 hfg

end Heap
end Chronicle
