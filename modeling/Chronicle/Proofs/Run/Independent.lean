import Chronicle.Grammar.Program
import Chronicle.Proofs.Locate
import Chronicle.Proofs.Run.Parallel

/-!
# Runs are independent

A run starts from an empty world, so nothing that was run before shows in it.  That would be worth
little if values could be shared by two runs, or by a run and a specification.  They cannot: a run
that starts from a heap full of other sequences and records does the same as one that starts from an
empty heap, a bit further up (`World.Moved`, `run_moved`), and it leaves what lay below as it was
(`Above.getElem?_sequences`).  Parameters are copied, and literals are plain data.

`executions_independent` puts this together for the functions of a source, for every sequence of
runs of them, and for the two ways of tracing a source.
-/

set_option autoImplicit false

namespace Chronicle

open Walk

/-! ## Moved scopes -/

/-- A binding with its value moved; its history and its specification stay. -/
def Binding.shift (below : Heap) (b : Binding) : Binding :=
  { b with value := below.shiftValue b.value }

/-- A scope with all its values moved. -/
def Scope.shift (below : Heap) (s : Scope) : Scope :=
  { s with bindings := s.bindings.map fun (name, b) => (name, b.shift below) }

namespace Scopes

/-- Scopes with all their values moved. -/
def shift (below : Heap) (s : Scopes) : Scopes :=
  ⟨s.all.map (Scope.shift below)⟩

variable (below : Heap) (s : Scopes)

theorem scope_shift (id : ScopeId) : (s.shift below).scope id = (s.scope id).shift below := by
  unfold scope shift
  rw [Array.getElem?_map]
  cases s.all[id]? <;> rfl

theorem size_shift : (s.shift below).all.size = s.all.size :=
  Array.size_map

theorem chain_shift (id : ScopeId) : (s.shift below).chain id = s.chain id := by
  unfold chain
  rw [scope_shift]
  rfl

theorem lookup_shift (name : String) : ∀ l : List (String × Binding),
    (l.map fun (n, b) => (n, b.shift below)).lookup name = (l.lookup name).map (Binding.shift below)
  | [] => rfl
  | (n, b) :: rest => by
    rw [List.map_cons, List.lookup_cons, List.lookup_cons]
    cases name == n with
    | true => rfl
    | false => exact lookup_shift name rest

theorem own?_shift (id : ScopeId) (name : String) :
    (s.shift below).own? id name = (s.own? id name).map (Binding.shift below) := by
  unfold own?
  rw [scope_shift]
  exact lookup_shift below name _

theorem modifyIn_shift (name : String) {f g : Binding → Binding}
    (h : ∀ b, g (b.shift below) = (f b).shift below) : ∀ l : List (String × Binding),
      modifyIn name g (l.map fun (n, b) => (n, b.shift below)) =
        (modifyIn name f l).map fun (n, b) => (n, b.shift below)
  | [] => rfl
  | (n, b) :: rest => by
    rw [List.map_cons]
    unfold modifyIn
    cases n == name with
    | true => simp only [if_true, List.map_cons, h]
    | false =>
      simp only [Bool.false_eq_true, if_false, List.map_cons, modifyIn_shift name h rest]

/-- A change of one scope, before the move or after it. -/
theorem shift_modified (id : ScopeId) {f g : Scope → Scope}
    (h : ∀ c : Scope, g (c.shift below) = (f c).shift below) :
    (⟨(s.shift below).all.modify id g⟩ : Scopes) =
      Scopes.shift below ⟨s.all.modify id f⟩ := by
  unfold shift
  congr 1
  apply Array.ext_getElem?
  intro i
  rw [Array.getElem?_modify, Array.getElem?_map, Array.getElem?_map, Array.getElem?_modify]
  by_cases hi : id = i
  · rw [if_pos hi, if_pos hi, Option.map_map, Option.map_map]
    exact congrArg (Option.map · s.all[i]?) (funext h)
  · rw [if_neg hi, if_neg hi]

theorem modify_shift (id : ScopeId) (name : String) {f g : Binding → Binding}
    (h : ∀ b, g (b.shift below) = (f b).shift below) :
    (s.shift below).modify id name g = (s.modify id name f).shift below :=
  shift_modified below s id fun c => congrArg (Scope.mk c.outer) (modifyIn_shift below name h _)

theorem add_shift (id : ScopeId) (name : String) (b : Binding) :
    (s.shift below).add id name (b.shift below) = (s.add id name b).shift below :=
  shift_modified below s id fun c => by simp [Scope.shift]

end Scopes

/-! ## Moved runs -/

/-- The heap of `w'` lies above `below` as that of `w` lies above nothing; otherwise the two worlds
show the same: names, histories and reports. -/
structure World.Moved (below : Heap) (w w' : World) : Prop where
  heap : below.Above w.heap w'.heap
  scopes : w'.scopes = w.scopes.shift below
  log : w'.log = w.log

/-- Two runs with the same trace whose worlds show the same, and who give back the same value. -/
structure RunState.Moved (below : Heap) (s s' : RunState) : Prop where
  world : s.world.Moved below s'.world
  trace : s'.trace = s.trace
  returned : s'.returned = below.shiftValue s.returned

theorem World.Moved.alike {below : Heap} {w w' : World} (h : w.Moved below w') :
    w.Alike below w' where
  heap := h.heap
  size := by rw [h.scopes, Scopes.size_shift]
  chain i := by rw [h.scopes, Scopes.chain_shift]
  value i n := by
    rw [h.scopes, Scopes.own?_shift, Option.map_map]
    rfl

/-- Nothing lies above `below` in the heap `below` itself. -/
theorem World.moved_empty (below : Heap) : World.Moved below {} { heap := below } where
  heap := ⟨by simp [Heap.append], by simp [Heap.append]⟩
  scopes := by simp [Scopes.shift, Scopes.root, Scope.shift]
  log := rfl

/-- At the same steps, evaluation keeps worlds alike up to the move. -/
theorem moved_parallel (below : Heap) (scope : ScopeId) (step : Int) :
    Parallel below scope step step (World.Moved below) where
  alike h := h.alike
  note n h := { h with log := by rw [h.log] }
  store ha h := { h with heap := ha }
  write {w w' id name v text} _ h := by
    have hlate : (w'.scopes.own? id name).bind (·.lateNotice? text step) =
        (w.scopes.own? id name).bind (·.lateNotice? text step) := by
      rw [h.scopes, Scopes.own?_shift]
      cases w.scopes.own? id name <;> rfl
    refine ⟨h.heap, ?_, ?_⟩
    · simp only [World.write, h.scopes]
      exact Scopes.modify_shift below _ id name fun _ => rfl
    · simp only [World.write, hlate, h.log]
  add {w w' name v text spec} _ h := by
    refine ⟨h.heap, ?_, h.log⟩
    simp only [World.add, h.scopes]
    exact Scopes.add_shift below w.scopes scope name (Binding.push { value := v, spec } v text step)

theorem moved_parallelRuns (below : Heap) (scope : ScopeId) (limit : Option Int) :
    ParallelRuns below scope limit (RunState.Moved below) where
  evaluate {s s'} ahead h := by
    have hp := moved_parallel below scope (s.trace.size + ahead)
    rw [h.trace]
    exact {
      alike := fun hw => hp.alike hw.world
      note := fun n hw => { hw with world := hp.note n hw.world }
      store := fun ha hw => { hw with world := hp.store ha hw.world }
      write := fun hown hw => { hw with world := hp.write hown hw.world }
      add := fun hown hw => { hw with world := hp.add hown hw.world } }
  record h := { h with trace := by rw [h.trace] }
  full _ h := by rw [h.trace]
  keep h := { h with returned := rfl }

/-- A literal that is plain data stays where it is. -/
theorem Node.Regular.settled {n : Node} (h : n.Regular) (below : Heap) : n.Settled below := by
  rintro location value raw rfl
  cases value <;> first | rfl | cases h

/-- A located function does the same, however it ends, when its run starts from a heap that already
holds other sequences and records, and leaves these alone. -/
theorem run_moved {f : LocatedFunction} (hbody : Node.AllEverywhere Node.Regular f.function.body)
    (limit : Option Int) (below : Heap) :
    EndsAlike (RunState.Moved below) id (f.run limit {})
      (f.run limit { world := { heap := below } }) := by
  have hbind : Abreast (World.Moved below) id
      (do
        let receiver ← Effect.newRecord []
        Effect.define 0 thisName receiver parameterStep none
        bindParameters 0 f.function.params f.heap f.params parameterStep)
      (do
        let receiver ← Effect.newRecord []
        Effect.define 0 thisName receiver parameterStep none
        bindParameters 0 f.function.params f.heap f.params parameterStep) := by
    have hp := moved_parallel below 0 parameterStep
    exact (hp.newRecord_abreast []).bind fun receiver =>
      (hp.define_abreast thisName receiver none).bind fun _ => bindParameters_abreast hp _ _ _
  have hworlds := (hbind _ _ (World.moved_empty below)).mono fun w w' hw =>
    (⟨hw, rfl, rfl⟩ : RunState.Moved below { world := w } { world := w' })
  refine (ParallelRuns.act_endsAlike hworlds).bind (fun _ _ hs => hs) fun _ => ?_
  exact walkAll_abreast (moved_parallelRuns below 0 limit) _ (hbody.mono fun n hn => hn.settled below)

/-! ## Sequences of runs -/

namespace TracedFunction

/-- Functions after calls in order, each of which runs the one at a place under a limit. -/
def afterCalls (functions : List TracedFunction) (calls : List (Nat × Option Int)) :
    List TracedFunction :=
  calls.foldl (fun fs (i, limit) => fs.modify i fun t => (t.execute limit).1) functions

theorem execute_located (t : TracedFunction) (limit : Option Int) :
    (t.execute limit).1.located = t.located := by
  unfold execute
  split <;> rfl

/-- No call changes what was located. -/
theorem afterCalls_located (calls : List (Nat × Option Int)) (fs : List TracedFunction) :
    (afterCalls fs calls).map located = fs.map located := by
  induction calls generalizing fs with
  | nil => rfl
  | cons call rest ih =>
    refine (ih _).trans (List.ext_getElem? fun i => ?_)
    rw [List.getElem?_map, List.getElem?_map, List.getElem?_modify]
    cases fs[i]? with
    | none => rfl
    | some t =>
      by_cases hi : call.1 = i
      · simp [hi, execute_located]
      · simp [hi]

/-- A run depends on what was located, and on no earlier run. -/
theorem execute_of_located {t t' : TracedFunction} (h : t'.located = t.located)
    (limit : Option Int) :
    (t'.execute limit).2 = (t.execute limit).2 ∧
      ((∀ f, (t.execute limit).2 ≠ some (.fault f)) →
        (t'.execute limit).1 = (t.execute limit).1) := by
  unfold execute
  rw [h]
  cases t.located.run limit {} with
  | ok a s => simp
  | error x s =>
    cases x with
    | error e => simp
    | fault f => exact ⟨rfl, fun hf => absurd rfl (hf f)⟩

end TracedFunction

/-! ## Two ways of tracing -/

/-- Running several functions runs the first one first. -/
theorem runFunctions_cons {limit : Option Int} {t : TracedFunction} {ts fs : List TracedFunction}
    {log log' : Array Notice} (h : runFunctions limit (t :: ts) log = .ok fs log') :
    ∃ t' failure log₁ rest, runFunction t limit log = .ok (t', failure) log₁ ∧ fs = t' :: rest := by
  obtain ⟨⟨t', failure⟩, s, ht, h⟩ := ok_of_bind h
  obtain ⟨rest, s', hr, h⟩ := ok_of_bind h
  cases h
  exact ⟨t', failure, s, rest, ht, rfl⟩

/-- Where tracing a source goes through, tracing one function of it gives the first of its
functions, or fails because there is none. -/
theorem traceFunction_of_traceSource {parse : SourceParser} {source name : String}
    {limit : Option Int} {log log' : Array Notice} {functions : List TracedFunction} {stats : Statistics}
    (h : traceSource parse source name limit log = .ok (functions, stats) log') :
    (functions = [] ∧ ∃ log₁, traceFunction parse source name limit log =
        .error (.noAnnotatedFunction name) log₁) ∨
      ∃ t rest log₁, functions = t :: rest ∧
        traceFunction parse source name limit log = .ok t log₁ := by
  obtain ⟨stats', htrace⟩ := traceSource_eq parse source name limit log
  rw [h] at htrace
  obtain ⟨fs, s, hl, htrace⟩ := ok_of_bind htrace.symm
  obtain ⟨functions', s', hr, htrace⟩ := ok_of_bind htrace
  cases htrace
  unfold traceFunction
  rw [bind_of_ok hl]
  cases hn : named name fs with
  | nil =>
    rw [hn] at hr
    cases hr
    exact .inl ⟨rfl, _, rfl⟩
  | cons t ts =>
    rw [hn] at hr
    obtain ⟨t', failure, log₁, rest, ht, rfl⟩ := runFunctions_cons hr
    refine .inr ⟨t', rest, ?_⟩
    dsimp only
    rw [bind_of_ok ht]
    cases failure <;> exact ⟨_, rfl, rfl⟩

/-- Runs are independent of each other and can be repeated.  After any calls of the functions
located in a source, in any order and under any limits, everything that was located is as it was,
and each function runs as it would have run alone and first: it stops in the same way and, unless
that is a fault, leaves the same status, failure, returned value, trace and world.  Nor do values
pass from one run to another: from a heap that holds whatever other runs have left, a function does
the same, with its own values above them.

So, where tracing a source goes through, tracing one function of a name gives the first of those
traced, and fails for want of a function exactly when there is none. -/
theorem executions_independent (parse : SourceParser) (source : String) (log : Array Notice) :
    (∀ fs log', locateSource parse source log = .ok fs log' → ∀ calls : List (Nat × Option Int),
      (TracedFunction.afterCalls fs calls).map TracedFunction.located =
        fs.map TracedFunction.located ∧
      ∀ (i : Nat) (t t' : TracedFunction) (limit : Option Int), fs[i]? = some t →
        (TracedFunction.afterCalls fs calls)[i]? = some t' →
          (t'.execute limit).2 = (t.execute limit).2 ∧
          ((∀ f, (t.execute limit).2 ≠ some (.fault f)) →
            (t'.execute limit).1 = (t.execute limit).1) ∧
          ∀ below : Heap, EndsAlike (RunState.Moved below) id (t.located.run limit {})
            (t.located.run limit { world := { heap := below } })) ∧
    ∀ name limit functions stats log', traceSource parse source name limit log =
        .ok (functions, stats) log' →
      (functions = [] ↔ ∃ log₁, traceFunction parse source name limit log =
        .error (.noAnnotatedFunction name) log₁) ∧
      ∀ t, functions.head? = some t →
        ∃ log₁, traceFunction parse source name limit log = .ok t log₁ := by
  constructor
  · intro fs log' hfs calls
    have hlocated := TracedFunction.afterCalls_located calls fs
    refine ⟨hlocated, fun i t t' limit ht ht' => ?_⟩
    have hsame : t'.located = t.located := by
      have hi := congrArg (·[i]?) hlocated
      simpa [ht, ht'] using hi
    obtain ⟨hstop, hstate⟩ := TracedFunction.execute_of_located hsame limit
    have hfresh := fresh_of_located hfs t (List.mem_of_getElem? ht)
    exact ⟨hstop, hstate, run_moved hfresh.regular limit⟩
  · intro name limit functions stats log' h
    rcases traceFunction_of_traceSource h with ⟨rfl, log₁, hf⟩ | ⟨t, rest, log₁, rfl, hf⟩
    · exact ⟨⟨fun _ => ⟨log₁, hf⟩, fun _ => rfl⟩, fun t ht => by cases ht⟩
    · constructor
      · refine ⟨fun he => absurd he (List.cons_ne_nil t rest), fun ⟨log₂, hf'⟩ => ?_⟩
        rw [hf] at hf'
        cases hf'
      · intro u hu
        exact ⟨log₁, Option.some.inj hu ▸ hf⟩

/-- A function that adds to the array it is given. -/
def pushingSource : String :=
  "/**\n * @param \x7bArray\x7d a = [true]\n */\n" ++
    "function f(a) \x7b\n  a.push(false);\n  return a;\n\x7d\n"

/-- It gives the same array in every run, the first one or, after two others, the third. -/
theorem executions_independent_pushing :
    (∃ fs log' t t', locateSource Tree.ofSource pushingSource #[] = .ok fs log' ∧ fs[0]? = some t ∧
      (TracedFunction.afterCalls fs [(0, some 10), (0, some 1)])[0]? = some t' ∧
      (t.execute (some 10)).2 = none ∧ (t'.execute (some 10)).1 = (t.execute (some 10)).1) ∧
    ∃ t rest stats log',
      traceSource Tree.ofSource pushingSource "" (some 10) #[] = .ok (t :: rest, stats) log' ∧
      ∃ log₁, traceFunction Tree.ofSource pushingSource "" (some 10) #[] = .ok t log₁ := by
  have hindependent := executions_independent Tree.ofSource pushingSource #[]
  have hrun : (((locateSource Tree.ofSource pushingSource).run' #[]).bind List.head?).any
      (fun t => (t.execute (some 10)).2.isNone) = true := by decide +kernel
  have htrace : (((traceSource Tree.ofSource pushingSource "" (some 10)).run' #[]).bind
      fun r => r.1.head?).isSome = true := by decide +kernel
  constructor
  · obtain ⟨t, ht, hcompleted⟩ := (Option.any_eq_true _ _).1 hrun
    obtain ⟨fs, hfs, ht⟩ := Option.bind_eq_some_iff.1 ht
    obtain ⟨log', hl⟩ := ok_of_run' hfs
    obtain ⟨rest, rfl⟩ := List.head?_eq_some_iff.1 ht
    rw [Option.isNone_iff_eq_none] at hcompleted
    obtain ⟨hlocated, hsame⟩ := hindependent.1 _ _ hl [(0, some 10), (0, some 1)]
    generalize hafter : TracedFunction.afterCalls (t :: rest) _ = fs' at hlocated hsame
    cases fs' with
    | nil => cases hlocated
    | cons t' rest' =>
      refine ⟨t :: rest, log', t, t', hl, rfl, by rw [hafter]; rfl, hcompleted, ?_⟩
      exact (hsame 0 t t' (some 10) rfl rfl).2.1 fun f => by simp [hcompleted]
  · obtain ⟨t, ht⟩ := Option.isSome_iff_exists.1 htrace
    obtain ⟨⟨functions, stats⟩, hfs, ht⟩ := Option.bind_eq_some_iff.1 ht
    obtain ⟨log', h⟩ := ok_of_run' hfs
    obtain ⟨rest, rfl⟩ := List.head?_eq_some_iff.1 ht
    exact ⟨t, rest, stats, log', h, (hindependent.2 _ _ _ _ _ h).2 t rfl⟩

end Chronicle
