import Chronicle.Proofs.Evaluation.Lasting
import Chronicle.Proofs.Store.World

/-!
# Evaluation adds to histories

`World.AppendedAt step w₀ w`: every binding of `w₀` is in `w`, with its specification and its
history in front, and what was added stands where a write at `step` is kept; bindings that are new
have entries at `step` alone, and their names come after those that were bound.  All writes at
`step` keep this (`appended_lasting`), so evaluation at `step` leaves such a world however it ends
(`evaluate_appends`).
-/

set_option autoImplicit false

namespace Chronicle

/-! ## Bindings -/

/-- `b` comes from `b₀` by writes at `step`. -/
structure Binding.AppendedAt (step : Int) (b₀ b : Binding) : Prop where
  spec : b.spec = b₀.spec
  history : ∃ new, b.history.toList = b₀.history.toList ++ new ∧ ∀ e ∈ new, e.step = b₀.stamp step
  stamp : b.stamp step = b₀.stamp step

namespace Binding.AppendedAt

variable {step : Int} {b₀ b : Binding}

theorem refl (step : Int) (b : Binding) : b.AppendedAt step b :=
  ⟨rfl, ⟨[], by simp, nofun⟩, rfl⟩

/-- A write is kept where the one before it at the same step was. -/
theorem stamp_push (b : Binding) (v : Value) (text : String) (step : Int) :
    (b.push v text step).stamp step = b.stamp step := by
  have hlast : (b.push v text step).lastStep? = some (b.stamp step) := by
    rw [lastStep?_eq, history_push]
    simp
  have hle := b.le_stamp step
  generalize b.stamp step = s at hlast hle ⊢
  unfold Binding.stamp isLate
  rw [hlast]
  by_cases h : step < s
  · simp [h]
  · simp [h]; omega

theorem push (h : b₀.AppendedAt step b) (v : Value) (text : String) :
    b₀.AppendedAt step (b.push v text step) where
  spec := h.spec
  history := by
    obtain ⟨new, hnew, hstep⟩ := h.history
    refine ⟨new ++ [⟨b.stamp step, text⟩], ?_, fun e he => ?_⟩
    · rw [history_push, hnew, List.append_assoc]
    · rcases List.mem_append.1 he with he | he
      · exact hstep e he
      · rw [List.mem_singleton.1 he]
        exact h.stamp
  stamp := by rw [stamp_push, h.stamp]

/-- A value without rendering adds nothing. -/
theorem pushUnrendered (h : b₀.AppendedAt step b) (v : Value) :
    b₀.AppendedAt step (b.pushUnrendered v step) := by
  unfold Binding.pushUnrendered
  split
  · exact h
  · exact ⟨h.spec, h.history, h.stamp⟩

end Binding.AppendedAt

/-! ## Worlds -/

/-- `w` comes from `w₀` by writes at `step`: bindings were added to, and new ones were made. -/
structure World.AppendedAt (step : Int) (w₀ w : World) : Prop where
  kept : ∀ {i n b₀}, w₀.scopes.own? i n = some b₀ →
    ∃ b, w.scopes.own? i n = some b ∧ b₀.AppendedAt step b
  fresh : ∀ {i n b}, w₀.scopes.own? i n = none → w.scopes.own? i n = some b →
    ({ value := .undefined } : Binding).AppendedAt step b
  names : ∀ i, w₀.scopes.ownNames i <+: w.scopes.ownNames i
  chain : ∀ i, w.scopes.chain i = w₀.scopes.chain i

namespace World.AppendedAt

variable {step : Int} {w₀ w : World}

theorem refl (step : Int) (w : World) : w.AppendedAt step w where
  kept {_ _ b} hb := ⟨b, hb, .refl step b⟩
  fresh hn hb := by
    rw [hn] at hb
    cases hb
  names _ := List.prefix_refl _
  chain _ := rfl

/-- A change of a binding that adds at `step` only. -/
theorem modify {w' : World} {id : ScopeId} {name : String} {f : Binding → Binding}
    (h : w₀.AppendedAt step w) (hw' : w'.scopes = w.scopes.modify id name f)
    (hf : ∀ {b₀ b : Binding}, b₀.AppendedAt step b → b₀.AppendedAt step (f b)) :
    w₀.AppendedAt step w' where
  kept {i n _} hb₀ := by
    obtain ⟨b, hb, happ⟩ := h.kept hb₀
    rw [hw', Scopes.own?_modify, hb]
    by_cases hin : i = id ∧ n = name
    · exact ⟨f b, by rw [if_pos hin]; rfl, hf happ⟩
    · exact ⟨b, if_neg hin, happ⟩
  fresh {i n _} hn hb := by
    rw [hw', Scopes.own?_modify] at hb
    by_cases hin : i = id ∧ n = name
    · rw [if_pos hin] at hb
      obtain ⟨b', hb', rfl⟩ := Option.map_eq_some_iff.1 hb
      exact hf (h.fresh hn hb')
    · rw [if_neg hin] at hb
      exact h.fresh hn hb
  names i := by
    rw [hw', Scopes.ownNames_modify]
    exact h.names i
  chain i := by
    rw [hw', Scopes.chain_modify]
    exact h.chain i

/-- A new binding that was written at `step`. -/
theorem add {w' : World} {scope : ScopeId} {name : String} {b : Binding}
    (h : w₀.AppendedAt step w) (hown : w.scopes.own? scope name = none)
    (hb : ({ value := .undefined } : Binding).AppendedAt step b)
    (hw' : w'.scopes = w.scopes.add scope name b) : w₀.AppendedAt step w' := by
  have hcases : ∀ i n, w'.scopes.own? i n = w.scopes.own? i n ∨
      (i = scope ∧ n = name) ∧ w'.scopes.own? i n = some b := by
    intro i n
    rw [hw']
    by_cases hscope : scope < w.scopes.all.size
    · rw [Scopes.own?_add _ hscope hown]
      by_cases hin : i = scope ∧ n = name
      · exact .inr ⟨hin, if_pos hin⟩
      · exact .inl (if_neg hin)
    · exact .inl (Scopes.own?_add_of_not_lt _ hscope name b i n)
  refine ⟨fun {i n _} hb₀ => ?_, fun {i n _} hn hb' => ?_, fun i => ?_, fun i => ?_⟩
  · obtain ⟨b', hb', happ⟩ := h.kept hb₀
    rcases hcases i n with heq | ⟨⟨rfl, rfl⟩, -⟩
    · exact ⟨b', heq ▸ hb', happ⟩
    · rw [hown] at hb'
      cases hb'
  · rcases hcases i n with heq | ⟨-, heq⟩
    · exact h.fresh hn (heq ▸ hb')
    · rw [heq] at hb'
      cases hb'
      exact hb
  · rw [hw', Scopes.ownNames_add]
    exact (h.names i).trans (List.prefix_append ..)
  · rw [hw', Scopes.chain_add]
    exact h.chain i

/-- No name loses its meaning. -/
theorem isBound (h : w₀.AppendedAt step w) {i : ScopeId} {n : String}
    (hn : w₀.scopes.isBound i n) : w.scopes.isBound i n := by
  unfold Scopes.isBound Scopes.lookup? at hn ⊢
  rw [List.findSome?_isSome_iff] at hn ⊢
  obtain ⟨j, hj, hown⟩ := hn
  obtain ⟨b₀, hb₀⟩ := Option.isSome_iff_exists.1 hown
  obtain ⟨b, hb, -⟩ := h.kept hb₀
  exact ⟨j, h.chain i ▸ hj, Option.isSome_of_eq_some hb⟩

end World.AppendedAt

/-! ## Evaluation -/

/-- Writes at `step` are all that evaluation adds. -/
theorem appended_lasting (scope : ScopeId) (step : Int) (w₀ : World) :
    LastingOn (fun _ => True) scope step (w₀.AppendedAt step) (w₀.AppendedAt step) where
  stop h := h
  note _ h := { h with }
  store _ h := { h with }
  write _ _ _ h := h.modify rfl fun hb => hb.push _ _
  writeUnrendered _ _ h := h.modify rfl fun hb => hb.pushUnrendered _
  add _ hown _ h := h.add hown ((Binding.AppendedAt.refl _ _).push _ _) rfl
  addUnrendered _ _ h := { h with }

/-- However evaluation at `step` ends, with a value, an error of the run or a fault, it changes
bindings by extension only.  A binding keeps its specification, and its history stands in front of
what is added; if nothing was recorded in it after `step`, all that is added stands at `step`.  A
new binding has entries at `step` alone.  The names that a scope owns stay in front and in their
order, and no name becomes unbound. -/
theorem evaluate_appends (scope : ScopeId) (step : Int) (node : Node) (w : World) :
    let w' := stateAfter (evaluate scope step node w)
    (∀ i n b₀, w.scopes.own? i n = some b₀ → ∃ b new, w'.scopes.own? i n = some b ∧
      b.spec = b₀.spec ∧ b.history.toList = b₀.history.toList ++ new ∧
      ((∀ e ∈ b₀.history.toList, e.step ≤ step) → ∀ e ∈ new, e.step = step)) ∧
    (∀ i n b, w.scopes.own? i n = none → w'.scopes.own? i n = some b →
      ∀ e ∈ b.history.toList, e.step = step) ∧
    (∀ i, w.scopes.ownNames i <+: w'.scopes.ownNames i) ∧
    ∀ i n, w.scopes.isBound i n → w'.scopes.isBound i n := by
  intro w'
  have h : w.AppendedAt step w' :=
    (evaluate_keepsOn (appended_lasting scope step w) node node.writesOnly_true).stateAfter
      (.refl step w)
  refine ⟨fun i n b₀ hb₀ => ?_, fun i n b hn hb => ?_, h.names, fun i n => h.isBound⟩
  · obtain ⟨b, hb, happ⟩ := h.kept hb₀
    obtain ⟨new, hnew, hstamp⟩ := happ.history
    refine ⟨b, new, hb, happ.spec, hnew, fun hle e he => ?_⟩
    rw [hstamp e he]
    exact (Binding.stamp_of_le hle).2
  · obtain ⟨new, hnew, hstep⟩ := (h.fresh hn hb).history
    rw [hnew]
    exact hstep

end Chronicle
