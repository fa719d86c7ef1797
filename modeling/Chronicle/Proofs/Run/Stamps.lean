import Chronicle.Proofs.Run.Lasting
import Chronicle.Proofs.Store.World

/-!
# Stamps of a run

The writes of a condition and of an update are stamped one entry ahead of the trace, all others at
its length.  `Stamped t w`: the journal of `w` starts at step 0, never goes back and has reached at
most `t`; every history lists exactly the rendered writes that the journal has of its binding.

`Stamped` is steady with `t` the length of the trace, one more while a write is ahead and one more
when the run has stopped.  `execute_stamped` reads it off the end of a run.
-/

set_option autoImplicit false

namespace Chronicle

namespace World

/-- The steps that writes were asked for, in the order of the writes. -/
def stamps (w : World) : List Int :=
  w.journal.toList.map Write.step

/-- The rendered writes of a binding, each at the step it was asked for. -/
def written (w : World) (id : ScopeId) (name : String) : List HistoryEntry :=
  w.journal.toList.filterMap fun r =>
    if r.scope = id ∧ r.name = name then r.text.map fun text => ⟨r.step, text⟩ else none

end World

/-- The journal starts at step 0, never goes back and has reached at most `t`; histories and journal
say the same. -/
structure Stamped (t : Int) (w : World) : Prop where
  first : w.stamps.head? = some 0
  sorted : w.stamps.Pairwise (· ≤ ·)
  le : ∀ k ∈ w.stamps, k ≤ t
  timely : ∀ n ∈ w.log.toList, n.isLateWrite = false
  histories : ∀ id name, w.historyOf id name = w.written id name
  nonempty : ∀ {id name}, (w.scopes.own? id name).isSome → w.historyOf id name ≠ []
  root : 0 < w.scopes.all.size

/-! ## Journals -/

theorem World.step_of_written {w : World} {id : ScopeId} {name : String} {e : HistoryEntry}
    (h : e ∈ w.written id name) : e.step ∈ w.stamps := by
  unfold World.written at h
  obtain ⟨r, hr, he⟩ := List.mem_filterMap.1 h
  split at he
  · obtain ⟨text, -, rfl⟩ := Option.map_eq_some_iff.1 he
    exact List.mem_map.2 ⟨r, hr, rfl⟩
  · cases he

section
variable {w w' : World} {id : ScopeId} {name : String} {step : Int} {text : Option String}

theorem World.stamps_journalWith (h : w'.journal = w.journalWith id name step text) :
    w'.stamps = w.stamps ++ [step] := by
  simp [World.stamps, h, World.journalWith]

/-- A write adds what it renders to the entries of its binding, and to no other. -/
theorem World.written_journalWith (h : w'.journal = w.journalWith id name step text) (i : ScopeId)
    (n : String) :
    w'.written i n = w.written i n ++
      if i = id ∧ n = name then (text.map fun text => ⟨step, text⟩).toList else [] := by
  unfold World.written
  rw [h, World.journalWith, Array.toList_push, List.filterMap_append]
  congr 1
  by_cases hin : i = id ∧ n = name
  · rw [if_pos hin]
    cases text <;> simp [hin.1, hin.2]
  · have hni : ¬(id = i ∧ name = n) := fun hc => hin ⟨hc.1.symm, hc.2.symm⟩
    simp [hin, hni]

end

namespace Stamped

variable {t t' : Int} {w w' : World}

theorem weaken (h : Stamped t w) (ht : t ≤ t') : Stamped t' w :=
  { h with le := fun k hk => Int.le_trans (h.le k hk) ht }

/-- Stamps are never negative. -/
theorem nonneg (h : Stamped t w) {k : Int} (hk : k ∈ w.stamps) : 0 ≤ k := by
  have hf := h.first
  have hs := h.sorted
  cases hw : w.stamps with
  | nil => simp [hw] at hk
  | cons a l =>
    rw [hw] at hf hs hk
    cases hf
    rcases List.mem_cons.1 hk with rfl | hk
    · exact Int.le_refl _
    · exact List.rel_of_pairwise_cons hs hk

/-- The entries of a binding's history are stamped within the journal. -/
theorem step_mem_stamps (h : Stamped t w) {id : ScopeId} {name : String} {b : Binding}
    (hb : w.scopes.own? id name = some b) : ∀ e ∈ b.history.toList, e.step ∈ w.stamps := by
  intro e he
  have hh := h.histories id name
  rw [World.historyOf_of_own? hb] at hh
  exact World.step_of_written (hh ▸ he)

/-- A write at `t` that gives its binding the entry which it gives the journal. -/
theorem push (h : Stamped t w) {id : ScopeId} {name : String} {text : Option String}
    (hj : w'.journal = w.journalWith id name t text)
    (hl : ∀ n ∈ w'.log.toList, n.isLateWrite = false)
    (hh : ∀ i n, w'.historyOf i n = w.historyOf i n ++
      if i = id ∧ n = name then (text.map fun text => ⟨t, text⟩).toList else [])
    (hb : ∀ {i n}, (w'.scopes.own? i n).isSome →
      (w.scopes.own? i n).isSome ∨ (i = id ∧ n = name) ∧ text.isSome)
    (hr : 0 < w'.scopes.all.size) : Stamped t w' := by
  have hs := World.stamps_journalWith hj
  refine ⟨?_, ?_, ?_, hl, fun i n => ?_, fun {i n} hi => ?_, hr⟩
  · rw [hs, List.head?_append, h.first]
    rfl
  · rw [hs, List.pairwise_append]
    refine ⟨h.sorted, List.pairwise_singleton _ _, fun k hk j hj => ?_⟩
    rw [List.mem_singleton.1 hj]
    exact h.le k hk
  · intro k hk
    rw [hs, List.mem_append, List.mem_singleton] at hk
    rcases hk with hk | rfl
    · exact h.le k hk
    · exact Int.le_refl _
  · rw [hh, World.written_journalWith hj, h.histories]
  · rw [hh]
    rcases hb hi with hi | ⟨hin, htext⟩
    · exact List.append_ne_nil_of_left_ne_nil (h.nonempty hi) _
    · obtain ⟨x, rfl⟩ := Option.isSome_iff_exists.1 htext
      rw [if_pos hin]
      exact List.append_ne_nil_of_right_ne_nil _ (List.cons_ne_nil _ _)

/-! ## Single writes -/

theorem write (h : Stamped t w) {id : ScopeId} {name : String} {v : Value} {text : String}
    (hown : (w.scopes.own? id name).isSome) : Stamped t (w.write id name v text t) := by
  obtain ⟨b, hb⟩ := Option.isSome_iff_exists.1 hown
  have hle : ∀ e ∈ b.history.toList, e.step ≤ t := fun e he => h.le _ (h.step_mem_stamps hb e he)
  obtain ⟨hlate, hstamp⟩ := Binding.stamp_of_le hle
  have hlog : (w.write id name v text t).log = w.log := by
    simp [World.write, hb, Binding.lateNotice?, hlate]
  refine h.push rfl (hlog ▸ h.timely) (fun i n => ?_) (fun hi => ?_) ?_
  · rw [World.historyOf_write _ _ _ _ _ _ hb, hstamp]
    rfl
  · rw [World.isSome_own?_write] at hi
    exact .inl hi
  · rw [World.size_write]
    exact h.root

theorem writeUnrendered (h : Stamped t w) (id : ScopeId) (name : String) (v : Value) :
    Stamped t (w.writeUnrendered id name v t) := by
  refine h.push rfl h.timely (fun i n => ?_) (fun hi => ?_) ?_
  · rw [World.historyOf_writeUnrendered]
    simp
  · rw [World.isSome_own?_writeUnrendered] at hi
    exact .inl hi
  · rw [World.size_writeUnrendered]
    exact h.root

theorem add (h : Stamped t w) {name : String} (hown : w.scopes.own? 0 name = none) (v : Value)
    (text : String) (spec : Option ParameterSpec) : Stamped t (w.add 0 name v text t spec) := by
  refine h.push rfl h.timely (fun i n => ?_) (fun {i n} hi => ?_) ?_
  · rw [World.historyOf_add _ _ _ _ _ _ _ _ spec h.root hown]
    rfl
  · rw [World.own?_add _ _ _ _ _ _ _ _ spec h.root hown] at hi
    by_cases hin : i = 0 ∧ n = name
    · exact .inr ⟨hin, rfl⟩
    · rw [if_neg hin] at hi
      exact .inl hi
  · rw [World.size_add]
    exact h.root

theorem addUnrendered (h : Stamped t w) (id : ScopeId) (name : String) :
    Stamped t (w.addUnrendered id name t) :=
  h.push rfl h.timely (fun i n => by simp [World.historyOf, World.addUnrendered]) .inl h.root

end Stamped

/-! ## Runs -/

/-- Writes at `t` keep a journal that has reached at most `t`. -/
theorem stamped_lasting {t t' : Int} (ht : t ≤ t') : Lasting 0 t (Stamped t) (Stamped t') where
  stop h := h.weaken ht
  note hn h := { h with
    timely := fun m hm => by
      rw [Array.toList_push, List.mem_append, List.mem_singleton] at hm
      rcases hm with hm | rfl
      · exact h.timely m hm
      · exact hn }
  store _ h := { h with }
  write hown _ h := h.write hown
  writeUnrendered _ h := (h.writeUnrendered _ _ _).weaken ht
  add hown _ h := h.add hown _ _ _
  addUnrendered _ h := (h.addUnrendered _ _).weaken ht

theorem stamped_steady : Steady 0 (fun s => Stamped s.trace.size s.world)
    (fun s => Stamped (s.trace.size + 1) s.world)
    fun s => Stamped (s.trace.size + 1) s.world where
  ahead h := h.weaken (Int.le_add_one (Int.le_refl _))
  stop h := h
  now _ := stamped_lasting (Int.le_add_one (Int.le_refl _))
  later _ := stamped_lasting (Int.le_refl _)
  record h := by simpa [Trace.append] using h
  keep h := h

theorem stamped_start : Stamped 0 startWorld where
  first := rfl
  sorted := List.pairwise_singleton _ _
  le := by decide
  timely := by decide
  histories := fun id name => by
    have hj : startWorld.journal =
        World.journalWith { heap := (({} : Heap).newRecord []).2 } 0 thisName parameterStep
          (some "\x7b\x7d") := rfl
    unfold World.historyOf
    rw [World.written_journalWith hj, own?_startWorld]
    by_cases h : id = 0 ∧ name = thisName
    · rw [if_pos h, if_pos h]
      rfl
    · rw [if_neg h, if_neg h]
      rfl
  nonempty := fun {id name} hb => by
    unfold World.historyOf
    rw [own?_startWorld] at hb ⊢
    by_cases h : id = 0 ∧ name = thisName
    · rw [if_pos h]
      exact List.cons_ne_nil _ _
    · rw [if_neg h] at hb
      cases hb
  root := by decide

/-- However a run ends, its journal is stamped at most one entry ahead of its trace, and not ahead
when the run has completed. -/
theorem execute_stamped (t : TracedFunction) (limit : Option Int) :
    Stamped ((t.execute limit).1.steps + 1) (t.execute limit).1.world ∧
      ((t.execute limit).1.status = .completed →
        Stamped (t.execute limit).1.steps (t.execute limit).1.world) := by
  have h := run_keeps stamped_steady stamped_start t.located limit {} rfl
  cases hr : t.located.run limit {} with
  | ok u s =>
    rw [hr] at h
    rw [TracedFunction.execute_of_ok hr]
    exact ⟨stamped_steady.ahead h, fun _ => h⟩
  | error x s =>
    rw [hr] at h
    cases x with
    | error e =>
      rw [TracedFunction.execute_of_error hr]
      exact ⟨(stamped_lasting (Int.le_refl _)).note rfl h, nofun⟩
    | fault f =>
      rw [TracedFunction.execute_of_fault hr]
      exact ⟨h, nofun⟩

namespace Stamped

variable {t : Int} {w : World}

theorem ordered (h : Stamped t w) {id : ScopeId} {name : String} {b : Binding}
    (hb : w.scopes.own? id name = some b) : b.Ordered := by
  have hh := h.histories id name
  rw [World.historyOf_of_own? hb] at hh
  unfold Binding.Ordered
  rw [hh]
  unfold World.written
  rw [List.pairwise_filterMap]
  refine (List.pairwise_map.1 h.sorted).imp ?_
  intro r r' hle e he e' he'
  have hstep : ∀ {x : Write} {y : HistoryEntry},
      (if x.scope = id ∧ x.name = name then x.text.map fun text => ⟨x.step, text⟩ else none) =
        some y → y.step = x.step := by
    intro x y hy
    split at hy
    · obtain ⟨text, -, rfl⟩ := Option.map_eq_some_iff.1 hy
      rfl
    · cases hy
  rw [hstep he, hstep he']
  exact hle

/-- At `t` and later, a bound name holds the text of the last entry of its history. -/
theorem valueAt_eq_back (h : Stamped t w) {id : ScopeId} {name : String} {b : Binding}
    (hb : w.scopes.own? id name = some b) :
    ∃ e, b.history.back? = some e ∧ b.valueAt t = some e.text := by
  obtain ⟨e, he⟩ : ∃ e, b.history.toList.getLast? = some e :=
    ⟨_, List.getLast?_eq_some_getLast fun hnil => h.nonempty (Option.isSome_of_eq_some hb) <| by
      rw [World.historyOf_of_own? hb, hnil]⟩
  refine ⟨e, Array.getLast?_toList b.history ▸ he, ?_⟩
  rw [Binding.valueAt_of_le (h.ordered hb) fun f hf => h.le _ (h.step_mem_stamps hb f hf), he]
  rfl

end Stamped

/-- Step accounting of whole runs.  However a run ends, the steps that writes are asked for start at
0 and never go back, so no write is late and every history has each rendered write at the step it
was asked for.  No entry is stamped more than one step after the end of the trace, and none after it
when the run has completed: the view of the last step then shows the last entry of every name. -/
theorem execute_stamps (t : TracedFunction) (limit : Option Int) :
    let r := (t.execute limit).1
    (r.world.stamps.head? = some 0 ∧ r.world.stamps.Pairwise (· ≤ ·) ∧
      (∀ n ∈ r.world.log.toList, n.isLateWrite = false) ∧
      ∀ id name, r.world.historyOf id name = r.world.written id name) ∧
    (∀ id name, ∀ e ∈ r.world.historyOf id name, 0 ≤ e.step ∧ e.step ≤ r.steps + 1) ∧
    (r.status = .completed →
      (∀ id name, ∀ e ∈ r.world.historyOf id name, e.step ≤ r.steps) ∧
      ∀ name b, r.world.scopes.lookup? 0 name = some b → ∃ e, b.history.back? = some e ∧
        (r.world.scopes.snapshot 0 r.steps).lookup name = some e.text) := by
  intro r
  obtain ⟨h, hdone⟩ : Stamped (r.steps + 1) r.world ∧
      (r.status = .completed → Stamped r.steps r.world) := execute_stamped t limit
  have hmem : ∀ id name, ∀ e ∈ r.world.historyOf id name, e.step ∈ r.world.stamps := by
    intro id name e he
    rw [h.histories] at he
    exact World.step_of_written he
  refine ⟨⟨h.first, h.sorted, h.timely, h.histories⟩, fun id name e he => ?_, fun hc => ?_⟩
  · exact ⟨h.nonneg (hmem id name e he), h.le _ (hmem id name e he)⟩
  · refine ⟨fun id name e he => (hdone hc).le _ (hmem id name e he), fun name b hb => ?_⟩
    obtain ⟨i, hi⟩ := Scopes.own?_of_lookup? hb
    obtain ⟨e, he, hv⟩ := (hdone hc).valueAt_eq_back hi
    refine ⟨e, he, ?_⟩
    rw [Scopes.lookup_snapshot, hb]
    exact hv

end Chronicle
