import Chronicle.Proofs.Store.History
import Chronicle.Proofs.Store.Scopes

/-!
# Bindings and histories after a write

What a scope owns after each of the four ways of writing a binding (`own?_write` and the like), and
what that adds to the history of every name (`historyOf_write` and the like): one entry to the name
written, when its value has a rendering, and nothing to any other.
-/

set_option autoImplicit false

namespace Chronicle.World

/-- The history of a scope's own binding; none for a name it does not own. -/
def historyOf (w : World) (id : ScopeId) (name : String) : List HistoryEntry :=
  match w.scopes.own? id name with
  | some b => b.history.toList
  | none => []

theorem historyOf_of_own? {w : World} {id : ScopeId} {name : String} {b : Binding}
    (h : w.scopes.own? id name = some b) : w.historyOf id name = b.history.toList := by
  unfold historyOf
  rw [h]

theorem historyOf_of_none {w : World} {id : ScopeId} {name : String}
    (h : w.scopes.own? id name = none) : w.historyOf id name = [] := by
  unfold historyOf
  rw [h]

section
variable (w : World) (id : ScopeId) (name : String) (v : Value) (text : String) (step : Int)
variable (i : ScopeId) (n : String)

/-! ## Bindings -/

theorem own?_write :
    (w.write id name v text step).scopes.own? i n =
      if i = id ∧ n = name then (w.scopes.own? i n).map (·.push v text step)
      else w.scopes.own? i n :=
  Scopes.own?_modify ..

theorem own?_writeUnrendered :
    (w.writeUnrendered id name v step).scopes.own? i n =
      if i = id ∧ n = name then (w.scopes.own? i n).map (·.pushUnrendered v step)
      else w.scopes.own? i n :=
  Scopes.own?_modify ..

theorem own?_add (spec : Option ParameterSpec) (hid : id < w.scopes.all.size)
    (hown : w.scopes.own? id name = none) :
    (w.add id name v text step spec).scopes.own? i n =
      if i = id ∧ n = name then some { value := v, spec, history := #[⟨step, text⟩] }
      else w.scopes.own? i n :=
  Scopes.own?_add _ hid hown ..

theorem isSome_own?_write :
    ((w.write id name v text step).scopes.own? i n).isSome = (w.scopes.own? i n).isSome := by
  rw [own?_write]
  split <;> simp

theorem isSome_own?_writeUnrendered :
    ((w.writeUnrendered id name v step).scopes.own? i n).isSome = (w.scopes.own? i n).isSome := by
  rw [own?_writeUnrendered]
  split <;> simp

@[simp] theorem size_write :
    (w.write id name v text step).scopes.all.size = w.scopes.all.size :=
  Scopes.size_modify ..

@[simp] theorem size_writeUnrendered :
    (w.writeUnrendered id name v step).scopes.all.size = w.scopes.all.size :=
  Scopes.size_modify ..

@[simp] theorem size_add (spec : Option ParameterSpec) :
    (w.add id name v text step spec).scopes.all.size = w.scopes.all.size :=
  Scopes.size_add ..

/-! ## Histories -/

theorem historyOf_write {id : ScopeId} {name : String} {b : Binding}
    (hb : w.scopes.own? id name = some b) :
    (w.write id name v text step).historyOf i n =
      w.historyOf i n ++ if i = id ∧ n = name then [⟨b.stamp step, text⟩] else [] := by
  by_cases hin : i = id ∧ n = name
  · obtain ⟨rfl, rfl⟩ := hin
    have hb' : (w.write i n v text step).scopes.own? i n = some (b.push v text step) := by
      rw [own?_write, if_pos ⟨rfl, rfl⟩, hb]
      rfl
    rw [historyOf_of_own? hb, historyOf_of_own? hb', Binding.history_push, if_pos ⟨rfl, rfl⟩]
  · unfold historyOf
    rw [own?_write, if_neg hin, if_neg hin, List.append_nil]

theorem historyOf_writeUnrendered :
    (w.writeUnrendered id name v step).historyOf i n = w.historyOf i n := by
  have hpush : ∀ b : Binding, (b.pushUnrendered v step).history = b.history := by
    intro b
    unfold Binding.pushUnrendered
    split <;> rfl
  unfold historyOf
  rw [own?_writeUnrendered]
  by_cases hin : i = id ∧ n = name
  · rw [if_pos hin]
    cases w.scopes.own? i n with
    | none => rfl
    | some b => simp only [Option.map_some, hpush]
  · rw [if_neg hin]

theorem historyOf_add (spec : Option ParameterSpec) (hid : id < w.scopes.all.size)
    (hown : w.scopes.own? id name = none) :
    (w.add id name v text step spec).historyOf i n =
      w.historyOf i n ++ if i = id ∧ n = name then [⟨step, text⟩] else [] := by
  by_cases hin : i = id ∧ n = name
  · obtain ⟨rfl, rfl⟩ := hin
    rw [historyOf_of_none hown, if_pos ⟨rfl, rfl⟩]
    unfold historyOf
    rw [own?_add _ _ _ _ _ _ _ _ _ hid hown, if_pos ⟨rfl, rfl⟩]
    rfl
  · unfold historyOf
    rw [own?_add _ _ _ _ _ _ _ _ _ hid hown, if_neg hin, if_neg hin, List.append_nil]

end

/-! ## Views -/

section
variable {w : World} {id : ScopeId}

/-- In a scope that none encloses, the view of a step shows the last entry stamped at most that
step. -/
theorem lookup_snapshot_eq (hid : w.scopes.chain id = [id])
    (ho : ∀ {name b}, w.scopes.own? id name = some b → b.Ordered) (t : Int) (name : String) :
    (w.scopes.snapshot id t).lookup name =
      ((w.historyOf id name).filter (·.step ≤ t)).getLast?.map HistoryEntry.text := by
  rw [Scopes.lookup_snapshot, Scopes.lookup?_of_chain hid]
  cases hb : w.scopes.own? id name with
  | none =>
    rw [historyOf_of_none hb]
    rfl
  | some b =>
    rw [historyOf_of_own? hb]
    exact Binding.valueAt_eq (ho hb) t

/-- The changes of a step show the last entry stamped with it. -/
theorem lookup_changesAt_eq (hid : w.scopes.chain id = [id]) (t : Int) (name : String) :
    (w.scopes.changesAt id t).lookup name =
      ((w.historyOf id name).filter (·.step == t)).getLast?.map HistoryEntry.text := by
  rw [Scopes.lookup_changesAt, Scopes.lookup?_of_chain hid]
  cases hb : w.scopes.own? id name with
  | none =>
    rw [historyOf_of_none hb]
    rfl
  | some b =>
    rw [historyOf_of_own? hb]
    exact b.changeAt_eq t

end

end Chronicle.World
