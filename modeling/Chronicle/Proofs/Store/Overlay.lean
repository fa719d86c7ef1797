import Chronicle.Proofs.Store.Operations

/-!
# Snapshots as overlays of changes

What all variables held at a step is what they held one step before, overlaid with what they were
given at the step.  A snapshot finds the former by halving the histories, the changes the latter by
going through them; the two agree because stamps never decrease (`Scopes.Ordered`), which every
operation keeps, whether it succeeds or not (`ordered_performAll`).
-/

set_option autoImplicit false

namespace Chronicle

/-- Every history has an entry, and its stamps never decrease. -/
def Scopes.Ordered (s : Scopes) : Prop :=
  ∀ {id name b}, s.own? id name = some b → b.Ordered ∧ b.history.toList ≠ []

namespace Scopes.Ordered

variable {s : Scopes} {id : ScopeId} {name : String}

theorem root : Scopes.root.Ordered := by
  intro id name b hb
  cases id <;> cases hb

theorem extend (h : s.Ordered) (id : ScopeId) : (s.extend id).2.Ordered := by
  intro i n b hb
  rw [own?_extend] at hb
  exact h hb

/-- Changing bindings in a way that keeps their histories ordered. -/
theorem modify (h : s.Ordered) {f : Binding → Binding}
    (hf : ∀ b, b.Ordered ∧ b.history.toList ≠ [] → (f b).Ordered ∧ (f b).history.toList ≠ []) :
    (s.modify id name f).Ordered := by
  intro i n b hb
  rw [own?_modify] at hb
  split at hb
  · obtain ⟨b', hb', rfl⟩ := Option.map_eq_some_iff.1 hb
    exact hf b' (h hb')
  · exact h hb

theorem add (h : s.Ordered) (hown : s.own? id name = none) {b : Binding}
    (hb : b.Ordered ∧ b.history.toList ≠ []) : (s.add id name b).Ordered := by
  intro i n b' hb'
  by_cases hid : id < s.all.size
  · rw [own?_add s hid hown] at hb'
    split at hb'
    · cases hb'
      exact hb
    · exact h hb'
  · rw [own?_add_of_not_lt s hid] at hb'
    exact h hb'

/-- Every write of a binding keeps histories ordered. -/
theorem kept : Scopes.Kept Scopes.Ordered where
  push h := h.modify fun b hb => ⟨hb.1.push .., by simp [Binding.history_push]⟩
  pushUnrendered h := h.modify fun b hb => by
    unfold Binding.pushUnrendered
    split <;> exact hb
  add hown h := by
    refine h.add hown ⟨Binding.Ordered.push ?_ .., by simp [Binding.history_push]⟩
    exact List.Pairwise.nil

end Scopes.Ordered

/-- Operations in any order keep histories ordered. -/
theorem ordered_performAll : ∀ {w : World} (ops : List Operation), w.scopes.Ordered →
    (w.performAll ops).scopes.Ordered
  | _, [], h => h
  | _, _ :: ops, h =>
    ordered_performAll ops (Scopes.Ordered.kept.perform (fun scope _ => h.extend scope) h)

/-- After any sequence of operations, the snapshot of a step is that of the step before, overlaid
with the changes of the step.  The changes list the names whose meaning has an entry stamped with
the step, with the text of the last of them; the snapshot lists those whose meaning has its first
entry by then.  Both go through all visible names in their order, each once. -/
theorem performAll_snapshots (ops : List Operation) (id : ScopeId) (t : Int) :
    let s := (World.performAll {} ops).scopes
    (∀ name, (s.snapshot id t).lookup name =
      ((s.changesAt id t).lookup name).or ((s.snapshot id (t - 1)).lookup name)) ∧
    (s.changesAt id t).map Prod.fst = (s.names id).filter (fun name =>
      (s.lookup? id name).any fun b => b.history.toList.any (·.step == t)) ∧
    (∀ name, (s.changesAt id t).lookup name = (s.lookup? id name).bind fun b =>
      (b.history.toList.filter (·.step == t)).getLast?.map HistoryEntry.text) ∧
    (s.snapshot id t).map Prod.fst = (s.names id).filter (fun name =>
      (s.lookup? id name).any fun b => b.history.toList.head?.any (·.step ≤ t)) ∧
    (s.names id).Nodup ∧
    ∀ name, name ∈ s.names id ↔ ∃ b, s.lookup? id name = some b ∧ b.history.toList ≠ [] := by
  intro s
  have hs : s.Ordered := ordered_performAll ops Scopes.Ordered.root
  have hordered : ∀ {name b}, s.lookup? id name = some b → b.Ordered ∧ b.history.toList ≠ [] := by
    intro name b hb
    obtain ⟨i, hi⟩ := Scopes.own?_of_lookup? hb
    exact hs hi
  refine ⟨fun name => ?_, ?_, fun name => ?_, ?_, s.nodup_names id, fun name => ?_⟩
  · rw [Scopes.lookup_snapshot, Scopes.lookup_changesAt, Scopes.lookup_snapshot]
    cases hb : s.lookup? id name with
    | none => rfl
    | some b => exact Binding.valueAt_overlay (hordered hb).1 t
  · refine (s.map_fst_view id (·.changeAt t)).trans (List.filter_congr fun name _ => ?_)
    cases s.lookup? id name with
    | none => rfl
    | some b => exact b.isSome_changeAt t
  · rw [Scopes.lookup_changesAt]
    cases s.lookup? id name with
    | none => rfl
    | some b => exact b.changeAt_eq t
  · refine (s.map_fst_view id (·.valueAt t)).trans (List.filter_congr fun name _ => ?_)
    cases hb : s.lookup? id name with
    | none => rfl
    | some b => exact Binding.isSome_valueAt (hordered hb).1 t
  · rw [Scopes.mem_names, Option.isSome_iff_exists]
    exact ⟨fun ⟨b, hb⟩ => ⟨b, hb, (hordered hb).2⟩, fun ⟨b, hb, _⟩ => ⟨b, hb⟩⟩

end Chronicle
