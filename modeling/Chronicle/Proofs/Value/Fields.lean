import Chronicle.Value.Heap
import Mathlib.Data.List.Nodup

/-!
# Fields under writes

What `Fields.insert` does to the names of a record (`names_insert`), to the values under them
(`get?_insert`, `mem_insert`) and to a relation between its fields (`pairwise_insert`), and what
`Fields.update` makes of two records.
-/

set_option autoImplicit false

namespace Chronicle.Fields

/-! ## Lookups -/

theorem mem_of_get? {fields : Fields} {name : String} {v : Value}
    (h : fields.get? name = some v) : (name, v) ∈ fields := by
  unfold get? at h
  obtain ⟨l₁, l₂, rfl, -⟩ := List.lookup_eq_some_iff.1 h
  simp

theorem get?_of_mem {fields : Fields} (h : (fields.map Prod.fst).Nodup) {field : String × Value}
    (hf : field ∈ fields) : fields.get? field.1 = some field.2 := by
  induction fields with
  | nil => cases hf
  | cons first rest ih =>
    rw [List.map_cons, List.nodup_cons] at h
    unfold get? at ih ⊢
    rw [List.lookup_cons]
    rcases List.mem_cons.1 hf with rfl | hf
    · rw [beq_self_eq_true]
    · have hne : field.1 ≠ first.1 := fun he => h.1 (he ▸ List.mem_map_of_mem hf)
      rw [beq_false_of_ne hne]
      exact ih h.2 hf

/-! ## One write -/

/-- A write adds no value but its own. -/
theorem mem_insert {name : String} {v : Value} : ∀ {fields : Fields} {field : String × Value},
    field ∈ insert name v fields → field.2 = v ∨ field ∈ fields
  | [], field, h => by
    cases List.mem_singleton.1 h
    exact .inl rfl
  | (n, u) :: rest, field, h => by
    unfold insert at h
    split at h
    · rcases List.mem_cons.1 h with rfl | h
      · exact .inl rfl
      · exact .inr (List.mem_cons_of_mem _ h)
    · rcases List.mem_cons.1 h with rfl | h
      · exact .inr List.mem_cons_self
      · exact (mem_insert h).imp_right (List.mem_cons_of_mem _)

section
variable (name : String) (v : Value)

theorem get?_insert (other : String) : ∀ fields : Fields,
    (insert name v fields).get? other = if other = name then some v else fields.get? other
  | [] => by
    unfold insert get?
    rw [List.lookup_cons]
    by_cases ho : other = name
    · rw [if_pos ho, beq_iff_eq.2 ho]
    · rw [if_neg ho, beq_false_of_ne ho]
  | (n, u) :: rest => by
    have ih := get?_insert other rest
    unfold get? at ih ⊢
    unfold insert
    by_cases hn : n = name
    · subst hn
      rw [if_pos (beq_self_eq_true n), List.lookup_cons, List.lookup_cons]
      by_cases ho : other = n
      · rw [if_pos ho, beq_iff_eq.2 ho]
      · rw [if_neg ho, beq_false_of_ne ho]
    · rw [if_neg (by simpa using hn), List.lookup_cons, List.lookup_cons, ih]
      by_cases ho : other = n
      · subst ho
        rw [beq_self_eq_true]
        exact (if_neg hn).symm
      · rw [beq_false_of_ne ho]

/-- A field that is there keeps its place, a new one goes last. -/
theorem names_insert : ∀ fields : Fields,
    (insert name v fields).map Prod.fst =
      if name ∈ fields.map Prod.fst then fields.map Prod.fst
      else fields.map Prod.fst ++ [name]
  | [] => rfl
  | (n, u) :: rest => by
    unfold insert
    by_cases hn : n = name
    · simp [hn]
    · rw [if_neg (by simpa using hn), List.map_cons, names_insert rest]
      by_cases hrest : name ∈ rest.map Prod.fst
      · simp [hrest]
      · simp [hrest, Ne.symm hn]

theorem nodup_insert {fields : Fields} (h : (fields.map Prod.fst).Nodup) :
    ((insert name v fields).map Prod.fst).Nodup := by
  rw [names_insert]
  split
  · exact h
  · rename_i hname
    exact List.concat_eq_append ▸ h.concat hname

end

theorem insert_of_get? {name : String} {v : Value} : ∀ {fields : Fields},
    fields.get? name = some v → insert name v fields = fields
  | [], h => nomatch h
  | (n, u) :: rest, h => by
    unfold get? at h
    rw [List.lookup_cons] at h
    unfold insert
    by_cases hn : n = name
    · subst hn
      rw [beq_self_eq_true] at h
      rw [if_pos (beq_self_eq_true n), Option.some.inj h]
    · rw [beq_false_of_ne (Ne.symm hn)] at h
      rw [if_neg (by simpa using hn), insert_of_get? h]

theorem insert_of_not_mem {name : String} {v : Value} : ∀ {fields : Fields},
    name ∉ fields.map Prod.fst → insert name v fields = fields ++ [(name, v)]
  | [], _ => rfl
  | (n, u) :: rest, h => by
    rw [List.map_cons, List.mem_cons, not_or] at h
    rw [insert, if_neg (by simpa using Ne.symm h.1), insert_of_not_mem h.2, List.cons_append]

theorem insert_insert (name : String) (v u : Value) : ∀ fields : Fields,
    insert name u (insert name v fields) = insert name u fields
  | [] => by simp [insert]
  | (n, w) :: rest => by
    unfold insert
    by_cases hn : n = name
    · simp [hn, insert]
    · simp [hn, insert, insert_insert name v u rest]

/-- The fields after a write are the one written and those of other names. -/
theorem mem_insert_of_nodup {name : String} {v : Value} {fields : Fields}
    (h : (fields.map Prod.fst).Nodup) {field : String × Value} (hf : field ∈ insert name v fields) :
    field = (name, v) ∨ field ∈ fields ∧ field.1 ≠ name := by
  have hget := get?_of_mem (nodup_insert name v h) hf
  rw [get?_insert] at hget
  by_cases hname : field.1 = name
  · rw [if_pos hname, Option.some.injEq] at hget
    exact .inl (Prod.ext hname hget.symm)
  · rw [if_neg hname] at hget
    exact .inr ⟨mem_of_get? hget, hname⟩

/-- What holds between the fields of other names, and between these and the one written, holds
between all fields after the write. -/
theorem pairwise_insert {r : String × Value → String × Value → Prop} (hsymm : ∀ f g, r f g → r g f)
    {name : String} {v : Value} : ∀ {fields : Fields}, (fields.map Prod.fst).Nodup →
      fields.Pairwise (fun f g => f.1 ≠ name → g.1 ≠ name → r f g) →
      (∀ f ∈ fields, f.1 ≠ name → r (name, v) f) → (insert name v fields).Pairwise r
  | [], _, _, _ => List.pairwise_singleton r _
  | (n, u) :: rest, hnodup, hfields, hnew => by
    rw [List.map_cons, List.nodup_cons] at hnodup
    rw [List.pairwise_cons] at hfields
    unfold insert
    by_cases hn : n = name
    · subst hn
      have hne : ∀ f ∈ rest, f.1 ≠ n := fun f hf he => hnodup.1 (List.mem_map.2 ⟨f, hf, he⟩)
      rw [if_pos (beq_self_eq_true n), List.pairwise_cons]
      exact ⟨fun f hf => hnew f (List.mem_cons_of_mem _ hf) (hne f hf),
        hfields.2.imp_of_mem fun hf hg hr => hr (hne _ hf) (hne _ hg)⟩
    · rw [if_neg (by simpa using hn), List.pairwise_cons]
      have hrest := pairwise_insert hsymm hnodup.2 hfields.2 fun f hf hne =>
        hnew f (List.mem_cons_of_mem _ hf) hne
      refine ⟨fun f hf => ?_, hrest⟩
      rcases mem_insert_of_nodup hnodup.2 hf with rfl | ⟨hf, hne⟩
      · exact hsymm _ _ (hnew _ List.mem_cons_self hn)
      · exact hfields.1 f hf hn hne

/-! ## Updates -/

/-- An update adds no value but those of the other fields. -/
theorem mem_update : ∀ {others fields : Fields} {field : String × Value},
    field ∈ fields.update others → field ∈ fields ∨ ∃ other ∈ others, field.2 = other.2
  | [], _, _, h => .inl h
  | (name, v) :: others, fields, field, h => by
    have hrest : field ∈ (insert name v fields).update others := h
    rcases mem_update hrest with h | ⟨other, hother, he⟩
    · exact (mem_insert h).symm.imp_right fun he => ⟨_, List.mem_cons_self, he⟩
    · exact .inr ⟨other, List.mem_cons_of_mem _ hother, he⟩

/-- Fields of other names are taken over as they are. -/
theorem update_of_disjoint : ∀ {others fields : Fields},
    ((fields ++ others).map Prod.fst).Nodup → fields.update others = fields ++ others
  | [], fields, _ => (List.append_nil fields).symm
  | (name, v) :: others, fields, h => by
    have hname : name ∉ fields.map Prod.fst := by
      rw [List.map_append, List.nodup_append] at h
      intro hmem
      exact h.2.2 name hmem name List.mem_cons_self rfl
    have hstep : fields.update ((name, v) :: others) = (insert name v fields).update others := rfl
    rw [hstep, insert_of_not_mem hname, update_of_disjoint (by simpa using h), List.append_assoc]
    rfl

end Chronicle.Fields
