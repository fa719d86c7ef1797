import Chronicle.Proofs.Run.ControlFlow
import Chronicle.Proofs.Run.Parallel
import Chronicle.Proofs.Store.World

/-!
# Tracing does not show

Histories, specifications, notices and traces record what a run does and do not change it.  In two
worlds that agree (`World.Agrees`: the same sequences and records, the same values under the same
names) an expression has the same value and a statement goes the same way, whatever their histories,
their specifications, the steps that writes are stamped with and the entries of their traces.

What both runs then record is the same but for the steps (`SameWrites`, `SameRun`): the same writes
in the same order, the same letters of the trace.  `tracing_transparent` says this of every
expression and every statement.
-/

set_option autoImplicit false

namespace Chronicle

/-! ## What is recorded -/

/-- A text that is kept in a history, without its step. -/
structure Entered where
  scope : ScopeId
  name : String
  text : String
  deriving DecidableEq, Repr

/-- The texts among them that a name of a scope was given. -/
def textsOf (i : ScopeId) (n : String) (entered : List Entered) : List String :=
  (entered.filter fun e => e.scope = i ∧ e.name = n).map Entered.text

/-- What a write enters, if its value has a rendering. -/
def Write.entered? (x : Write) : Option Entered :=
  x.text.map fun text => ⟨x.scope, x.name, text⟩

/-- `w` comes from `w₀` by these writes: the journal lists them in this order, and the history of
every name has grown by the texts that it was given. -/
structure World.GrownBy (w₀ w : World) (entered : List Entered) : Prop where
  journal : ∃ l, w.journal.toList = w₀.journal.toList ++ l ∧
    l.map Write.entered? = entered.map some
  history : ∀ i n, i < w.scopes.all.size →
    ∃ l, w.historyOf i n = w₀.historyOf i n ++ l ∧
      l.map HistoryEntry.text = textsOf i n entered

/-- `t` comes from `t₀` by entries with these letters. -/
def Trace.GrownBy (t₀ t : Trace) (letters : List Letter) : Prop :=
  ∃ l, t.toList = t₀.toList ++ l ∧ l.map TraceEntry.letter = letters

/-- Two worlds with the same sequences and records, and the same values under the same names of the
same scopes. -/
structure World.Agrees (w w' : World) : Prop where
  sequences : w'.heap.sequences = w.heap.sequences
  records : w'.heap.records = w.heap.records
  size : w'.scopes.all.size = w.scopes.all.size
  chain : ∀ i, w'.scopes.chain i = w.scopes.chain i
  value : ∀ i n, (w'.scopes.own? i n).map Binding.value = (w.scopes.own? i n).map Binding.value

/-- Two worlds that agree and have come from `w₀` and `w₀'` by the same writes. -/
structure SameWrites (w₀ w₀' w w' : World) : Prop where
  agrees : w.Agrees w'
  entered : ∃ l, w₀.GrownBy w l ∧ w₀'.GrownBy w' l

/-- Two runs whose worlds agree, that give back the same value, and that have come from `s₀` and
`s₀'` by the same writes and the same letters of the trace. -/
structure SameRun (s₀ s₀' s s' : RunState) : Prop where
  world : SameWrites s₀.world s₀'.world s.world s'.world
  returned : s'.returned = s.returned
  letters : ∃ l, s₀.trace.GrownBy s.trace l ∧ s₀'.trace.GrownBy s'.trace l

/-! ## Worlds that agree -/

theorem World.agrees_iff_alike {w w' : World} : w.Agrees w' ↔ w.Alike {} w' := by
  have hvalue : ∀ b : Option Binding,
      (b.map fun b => Heap.shiftValue {} b.value) = b.map Binding.value := by
    intro b
    cases b with
    | none => rfl
    | some b => exact congrArg some (shiftValue_empty b.value)
  constructor
  · intro h
    exact ⟨Heap.above_empty.2 ⟨h.sequences, h.records⟩, h.size, h.chain,
      fun i n => by rw [h.value, hvalue]⟩
  · intro h
    obtain ⟨hs, hr⟩ := Heap.above_empty.1 h.heap
    exact ⟨hs, hr, h.size, h.chain, fun i n => by rw [h.value, hvalue]⟩

section
variable {w w' : World} (h : w.Agrees w')
include h

theorem World.Agrees.isSome_own? (i : ScopeId) (n : String) :
    (w'.scopes.own? i n).isSome = (w.scopes.own? i n).isSome :=
  (World.agrees_iff_alike.1 h).isSome_own? i n

theorem World.Agrees.write (id : ScopeId) (name : String) (v : Value) (text : String)
    (step step' : Int) : (w.write id name v text step).Agrees (w'.write id name v text step') where
  sequences := h.sequences
  records := h.records
  size := by rw [World.size_write, World.size_write, h.size]
  chain i := by
    show (w'.scopes.modify id name _).chain i = (w.scopes.modify id name _).chain i
    rw [Scopes.chain_modify, Scopes.chain_modify, h.chain]
  value i n := by
    rw [World.own?_write, World.own?_write]
    have hv := h.value i n
    split
    · cases hb : w.scopes.own? i n with
      | none =>
        rw [hb, Option.map_none, Option.map_eq_none_iff] at hv
        rw [hv]
        rfl
      | some b =>
        rw [hb, Option.map_some, Option.map_eq_some_iff] at hv
        obtain ⟨b', hb', -⟩ := hv
        rw [hb']
        rfl
    · exact hv

theorem World.Agrees.add {scope : ScopeId} {name : String} (hown : w.scopes.own? scope name = none)
    (v : Value) (text : String) (step step' : Int) (spec : Option ParameterSpec) :
    (w.add scope name v text step spec).Agrees (w'.add scope name v text step' spec) where
  sequences := h.sequences
  records := h.records
  size := by rw [World.size_add, World.size_add, h.size]
  chain i := by
    show (w'.scopes.add scope name _).chain i = (w.scopes.add scope name _).chain i
    rw [Scopes.chain_add, Scopes.chain_add, h.chain]
  value i n := by
    have hown' : w'.scopes.own? scope name = none := by
      rw [← Option.not_isSome_iff_eq_none, h.isSome_own?, hown]
      exact Bool.false_ne_true
    by_cases hscope : scope < w.scopes.all.size
    · rw [World.own?_add _ _ _ _ _ _ _ _ spec hscope hown,
        World.own?_add _ _ _ _ _ _ _ _ spec (h.size ▸ hscope) hown']
      split
      · rfl
      · exact h.value i n
    · show ((w'.scopes.add scope name _).own? i n).map _ = ((w.scopes.add scope name _).own? i n).map _
      rw [Scopes.own?_add_of_not_lt _ hscope, Scopes.own?_add_of_not_lt _ (h.size ▸ hscope)]
      exact h.value i n

end

/-! ## Worlds that grow -/

theorem textsOf_append (i : ScopeId) (n : String) (l : List Entered) (e : Entered) :
    textsOf i n (l ++ [e]) =
      textsOf i n l ++ if i = e.scope ∧ n = e.name then [e.text] else [] := by
  unfold textsOf
  rw [List.filter_append, List.map_append]
  by_cases h : i = e.scope ∧ n = e.name
  · obtain ⟨rfl, rfl⟩ := h
    simp
  · have hne : ¬ (e.scope = i ∧ e.name = n) := fun he => h ⟨he.1.symm, he.2.symm⟩
    simp [h, hne]

namespace World.GrownBy

variable {w₀ w w' : World} {l : List Entered}

theorem refl (w : World) : w.GrownBy w [] where
  journal := ⟨[], by simp, rfl⟩
  history _ _ _ := ⟨[], by simp, rfl⟩

/-- One more write, which adds an entry to the history of its name and to no other. -/
theorem push (h : w₀.GrownBy w l) {x : Write} {e : Entered} (he : x.entered? = some e)
    (hj : w'.journal.toList = w.journal.toList ++ [x])
    (hsize : w'.scopes.all.size = w.scopes.all.size)
    (hh : ∀ i n, i < w.scopes.all.size → ∃ k, w'.historyOf i n = w.historyOf i n ++ k ∧
      k.map HistoryEntry.text = if i = e.scope ∧ n = e.name then [e.text] else []) :
    w₀.GrownBy w' (l ++ [e]) where
  journal := by
    obtain ⟨k, hk, hkl⟩ := h.journal
    refine ⟨k ++ [x], by rw [hj, hk, List.append_assoc], ?_⟩
    rw [List.map_append, List.map_append, hkl, List.map_singleton, List.map_singleton, he]
  history i n hi := by
    rw [hsize] at hi
    obtain ⟨k, hk, hkl⟩ := h.history i n hi
    obtain ⟨k', hk', hkl'⟩ := hh i n hi
    refine ⟨k ++ k', by rw [hk', hk, List.append_assoc], ?_⟩
    rw [List.map_append, hkl, hkl', textsOf_append]

theorem write {id : ScopeId} {name : String} (hown : (w.scopes.own? id name).isSome)
    (h : w₀.GrownBy w l) (v : Value) (text : String) (step : Int) :
    w₀.GrownBy (w.write id name v text step) (l ++ [⟨id, name, text⟩]) := by
  obtain ⟨b, hb⟩ := Option.isSome_iff_exists.1 hown
  refine h.push (x := ⟨id, name, step, some text, w.heap.stores.size⟩) rfl
    (by simp [World.write, World.journalWith]) (World.size_write ..) fun i n _ =>
      ⟨_, w.historyOf_write v text step i n hb, ?_⟩
  split <;> rfl

theorem add {scope : ScopeId} {name : String} (hown : w.scopes.own? scope name = none)
    (h : w₀.GrownBy w l) (v : Value) (text : String) (step : Int) (spec : Option ParameterSpec) :
    w₀.GrownBy (w.add scope name v text step spec) (l ++ [⟨scope, name, text⟩]) := by
  refine h.push (x := ⟨scope, name, step, some text, w.heap.stores.size⟩) rfl
    (by simp [World.add, World.journalWith]) (World.size_add ..) fun i n hi => ?_
  by_cases hscope : scope < w.scopes.all.size
  · refine ⟨_, w.historyOf_add scope name v text step i n spec hscope hown, ?_⟩
    split <;> rfl
  · have hsame : (w.add scope name v text step spec).scopes.own? i n = w.scopes.own? i n :=
      Scopes.own?_add_of_not_lt _ hscope ..
    have hi' : ¬ (i = scope ∧ n = name) := by
      rintro ⟨rfl, -⟩
      exact hscope hi
    refine ⟨[], ?_, by rw [if_neg hi']; rfl⟩
    unfold World.historyOf
    rw [hsame, List.append_nil]

end World.GrownBy

theorem Trace.GrownBy.append {t₀ t : Trace} {l : List Letter} (h : t₀.GrownBy t l) (line : Int)
    (kind : TraceKind) (outcome : Option Bool) :
    t₀.GrownBy (t.append line kind outcome) (l ++ [⟨line, kind, outcome⟩]) := by
  obtain ⟨k, hk, hkl⟩ := h
  refine ⟨k ++ [⟨t.size + 1, line, kind, outcome⟩], ?_, ?_⟩
  · rw [Trace.append, Array.toList_push, hk, List.append_assoc]
  · rw [List.map_append, hkl]
    rfl

/-! ## Both runs -/

theorem SameWrites.refl {w w' : World} (h : w.Agrees w') : SameWrites w w' w w' :=
  ⟨h, [], .refl w, .refl w'⟩

theorem sameWrites_parallel (scope : ScopeId) (step step' : Int) (w₀ w₀' : World) :
    Parallel {} scope step step' (SameWrites w₀ w₀') where
  alike h := World.agrees_iff_alike.1 h.agrees
  note _ h := by
    obtain ⟨l, hl, hl'⟩ := h.entered
    exact ⟨{ h.agrees with }, l, { hl with }, { hl' with }⟩
  store ha h := by
    obtain ⟨hs, hr⟩ := Heap.above_empty.1 ha
    obtain ⟨l, hl, hl'⟩ := h.entered
    exact ⟨{ h.agrees with sequences := hs, records := hr }, l, { hl with }, { hl' with }⟩
  write {w w' id name v text} hown h := by
    rw [shiftValue_empty]
    have hown' : (w'.scopes.own? id name).isSome := by rwa [h.agrees.isSome_own?]
    obtain ⟨l, hl, hl'⟩ := h.entered
    exact ⟨h.agrees.write id name v text step step', _, hl.write hown v text step,
      hl'.write hown' v text step'⟩
  add {w w' name v text spec} hown h := by
    rw [shiftValue_empty]
    have hown' : w'.scopes.own? scope name = none := by
      rw [← Option.not_isSome_iff_eq_none, h.agrees.isSome_own?, hown]
      exact Bool.false_ne_true
    obtain ⟨l, hl, hl'⟩ := h.entered
    exact ⟨h.agrees.add hown v text step step' spec, _, hl.add hown v text step spec,
      hl'.add hown' v text step' spec⟩

theorem sameRun_parallel (scope : ScopeId) (s₀ s₀' : RunState) :
    ParallelRuns {} scope none (SameRun s₀ s₀') where
  evaluate {s s'} ahead h := by
    have hp := sameWrites_parallel scope (s.trace.size + ahead) (s'.trace.size + ahead)
      s₀.world s₀'.world
    exact {
      alike := fun hw => hp.alike hw.world
      note := fun n hw => { hw with world := hp.note n hw.world }
      store := fun ha hw => { hw with world := hp.store ha hw.world }
      write := fun hown hw => { hw with world := hp.write hown hw.world }
      add := fun hown hw => { hw with world := hp.add hown hw.world } }
  record h := by
    obtain ⟨l, hl, hl'⟩ := h.letters
    exact ⟨h.world, h.returned, _, hl.append _ _ _, hl'.append _ _ _⟩
  full hm := nomatch hm
  keep {s s' v} h := { h with returned := shiftValue_empty v }

/-- With nothing below, every literal stays where it is. -/
theorem everywhere_settled (node : Node) : node.Everywhere (Node.Settled {}) :=
  Node.everywhere_of_forall (fun _ _ v _ _ => shiftValue_empty v) node

/-- Tracing does not show in what is computed.  In worlds that agree, whatever their histories,
specifications and notices, an expression ends in one as in the other at any two steps: with the
same value, with the same error, or with the same fault; and a statement without a limit so in two
runs, whatever their traces.  Unless both end with a fault, the worlds agree again, both give back
the same, and both have made the same writes in the same order and the same entries of the trace,
which differ in their steps only. -/
theorem tracing_transparent (scope : ScopeId) (node : Node) :
    (∀ (step step' : Int) (w w' : World), w.Agrees w' →
      EndsAlike (SameWrites w w') id (evaluate scope step node w)
        (evaluate scope step' node w')) ∧
    ∀ s s' : RunState, s.world.Agrees s'.world → s'.returned = s.returned →
      EndsAlike (SameRun s s') id (walk scope none node s) (walk scope none node s') := by
  constructor
  · intro step step' w w' h
    have hnode := evaluate_abreast (sameWrites_parallel scope step step' w w') node
      (everywhere_settled node) w w' (.refl h)
    rwa [funext shiftValue_empty] at hnode
  · intro s s' h hreturned
    refine walk_abreast (sameRun_parallel scope s s') node (everywhere_settled node) s s' ?_
    exact ⟨.refl h, hreturned, [], ⟨[], by simp, rfl⟩, [], by simp, rfl⟩

/-- A world whose only name has a past. -/
def worldWithPast (history : Array HistoryEntry) (spec : Option ParameterSpec) : World where
  scopes := ⟨#[{ bindings := [("x", { value := .boolean false, history, spec })] }]⟩

theorem worldWithPast_agrees (history history' : Array HistoryEntry)
    (spec spec' : Option ParameterSpec) :
    (worldWithPast history spec).Agrees (worldWithPast history' spec') where
  sequences := rfl
  records := rfl
  size := rfl
  chain i := by
    cases i <;> rfl
  value i n := by
    cases i with
    | zero =>
      simp only [worldWithPast, Scopes.own?, Scopes.scope, List.getElem?_toArray,
        List.getElem?_cons_zero, Option.getD_some, List.lookup_cons]
      cases n == "x" <;> rfl
    | succ i => rfl

/-- A variable is set at step three, with no past, and at step seven in a run that has a trace,
where the variable is a parameter last written at step nine. -/
theorem tracing_transparent_assignment :
    let setX := Node.assignment .unknown "=" (.identifier .unknown "x")
      (.literal .unknown (.boolean true) "true")
    let w := worldWithPast #[] none
    let w' := worldWithPast #[⟨9, "false"⟩] (some ⟨"x", .boolean, .boolean false, none, none, []⟩)
    let s' : RunState := { world := w', trace := #[⟨1, 4, .declaration, none⟩] }
    w.Agrees w' ∧ (∃ u, evaluate 0 3 setX w = .ok (.boolean true) u) ∧
      EndsAlike (SameWrites w w') id (evaluate 0 3 setX w) (evaluate 0 7 setX w') ∧
      EndsAlike (SameRun { world := w } s') id
        (walk 0 none (.expressionStatement .unknown setX) { world := w })
        (walk 0 none (.expressionStatement .unknown setX) s') := by
  intro setX w w' s'
  have hagrees : w.Agrees w' := worldWithPast_agrees _ _ _ _
  exact ⟨hagrees, ⟨_, rfl⟩, (tracing_transparent 0 setX).1 3 7 w w' hagrees,
    (tracing_transparent 0 (.expressionStatement .unknown setX)).2 _ s' hagrees rfl⟩

end Chronicle
