import Chronicle.Proofs.Evaluation.Parallel
import Chronicle.Proofs.Run.Statement
import Chronicle.Run.Execute

/-!
# Statements in two runs

`ParallelRuns below scope limit S`: the relation `S` between states of two runs is kept by what
evaluation does to their worlds (`Parallel`), each at its own step, by an entry in both traces, and
by a value that both give back.  Without a limit the traces may have any lengths.

`walk_abreast` carries `S` through every statement.
-/

set_option autoImplicit false

namespace Chronicle

open Walk

/-- A relation between states of two runs that is kept by all that a statement does to both. -/
structure ParallelRuns (below : Heap) (scope : ScopeId) (limit : Option Int)
    (S : RunState → RunState → Prop) : Prop where
  evaluate : ∀ {s s'} (ahead : Int), S s s' →
    Parallel below scope (s.trace.size + ahead) (s'.trace.size + ahead)
      fun w w' => S { s with world := w } { s' with world := w' }
  record : ∀ {s s' line kind outcome}, S s s' →
    S { s with trace := s.trace.append line kind outcome }
      { s' with trace := s'.trace.append line kind outcome }
  full : ∀ {s s' m}, limit = some m → S s s' → s'.trace.size = s.trace.size
  keep : ∀ {s s' v}, S s s' →
    S { s with returned := v } { s' with returned := below.shiftValue v }

namespace ParallelRuns

/-- Effects that go abreast in the worlds of two runs. -/
theorem act_endsAlike {α : Type} {S : RunState → RunState → Prop} {g : α → α} {e e' : Effect α}
    {s s' : RunState}
    (h : EndsAlike (fun w w' => S { s with world := w } { s' with world := w' }) g (e s.world)
      (e' s'.world)) : EndsAlike S g (act e s) (act e' s') := by
  unfold act
  generalize e s.world = r at h
  generalize e' s'.world = r' at h
  cases h with
  | ok a h => exact .ok a h
  | error x h => exact .error x h
  | fault f => exact .fault f

variable {below : Heap} {scope : ScopeId} {limit : Option Int} {S : RunState → RunState → Prop}
variable (h : ParallelRuns below scope limit S)
include h

theorem record_abreast (location : Location) (kind : TraceKind) (outcome : Option Bool) :
    Abreast S id (Walk.record limit location kind outcome)
      (Walk.record limit location kind outcome) := by
  intro s s' hs
  rcases record_cases limit location kind outcome s with ⟨m, hm, hle, he⟩ | ⟨hlt, he⟩ <;>
    rcases record_cases limit location kind outcome s' with ⟨m', hm', hle', he'⟩ | ⟨hlt', he'⟩
  · rw [he, he']
    rw [hm] at hm'
    cases hm'
    exact .error _ hs
  · have := h.full hm hs
    have := hlt' m hm
    omega
  · have := h.full hm' hs
    have := hlt m' hm'
    omega
  · rw [he, he']
    exact .ok () (h.record hs)

theorem keep_abreast (v : Value) : Abreast S id (Walk.keep v) (Walk.keep (below.shiftValue v)) :=
  fun _ _ hs => .ok () (h.keep hs)

theorem evaluate_endsAlike {node : Node} (hn : node.Everywhere (Node.Settled below)) (ahead : Int)
    {s s' : RunState} (hs : S s s') :
    EndsAlike S below.shiftValue (act (Chronicle.evaluate scope (s.trace.size + ahead) node) s)
      (act (Chronicle.evaluate scope (s'.trace.size + ahead) node) s') :=
  act_endsAlike (evaluate_abreast (h.evaluate ahead hs) node hn _ _ hs)

theorem test_abreast (ahead : Int) (condition : Option Node)
    (hn : ∀ n, condition = some n → n.Everywhere (Node.Settled below)) :
    Abreast S id (test scope ahead condition) (test scope ahead condition) := by
  cases condition with
  | none => exact .pure true rfl
  | some node =>
    intro s s' hs
    exact (h.evaluate_endsAlike (hn node rfl) ahead hs).bind (fun _ _ ht => ht) fun v =>
      Abreast.pure v.isTruthy (isTruthy_shiftValue below v)

theorem evaluateAhead_abreast (ahead : Int) (node : Option Node)
    (hn : ∀ n, node = some n → n.Everywhere (Node.Settled below)) :
    Abreast S id (evaluateAhead scope ahead node) (evaluateAhead scope ahead node) := by
  cases node with
  | none => exact .pure () rfl
  | some node =>
    intro s s' hs
    exact (h.evaluate_endsAlike (hn node rfl) ahead hs).bind (fun _ _ ht => ht) fun _ =>
      Abreast.pure () rfl

theorem declare_abreast (declarators : List Node)
    (hn : Node.AllEverywhere (Node.Settled below) declarators) :
    Abreast S id (declare scope declarators) (declare scope declarators) :=
  .forM fun d hd => h.evaluateAhead_abreast 0 (some d) fun n he => by
    cases he
    exact hn d hd

theorem enter_abreast (init : Option Node)
    (hn : ∀ n, init = some n → n.Everywhere (Node.Settled below)) :
    Abreast S id (enter scope init) (enter scope init) := by
  unfold enter
  split
  · exact h.declare_abreast _ (hn _ rfl).children
  · exact h.evaluateAhead_abreast 0 _ hn

/-- A variable that is given back is written once more, at the step of its evaluation. -/
theorem giveBack_abreast (argument : Option Node)
    (hn : ∀ n, argument = some n → n.Everywhere (Node.Settled below)) :
    Abreast S id (giveBack scope argument) (giveBack scope argument) := by
  cases argument with
  | none => exact h.keep_abreast .undefined
  | some node =>
    intro s s' hs
    have hworlds := h.evaluate 0 hs
    rw [Int.add_zero, Int.add_zero] at hworlds
    -- evaluation leaves the traces, and so the steps, as they are
    have hvalue : EndsAlike (fun t t' => S t t' ∧ t.trace = s.trace ∧ t'.trace = s'.trace)
        below.shiftValue (act (Chronicle.evaluate scope s.trace.size node) s)
        (act (Chronicle.evaluate scope s'.trace.size node) s') :=
      act_endsAlike ((evaluate_abreast hworlds node (hn node rfl) _ _ hs).mono
        fun _ _ ht => ⟨ht, rfl, rfl⟩)
    refine hvalue.bind (fun _ _ ht => ht.1) fun v t t' ⟨ht, htrace, htrace'⟩ => ?_
    cases node.name? with
    | none => exact h.keep_abreast v t t' ht
    | some name =>
      have hassign := act_endsAlike ((h.evaluate 0 ht).assign_abreast name v none _ _ ht)
      rw [Int.add_zero, Int.add_zero, htrace, htrace'] at hassign
      exact hassign.bind (fun _ _ hu => hu) fun _ => h.keep_abreast v

variable {location : Location}

theorem whileRound_abreast {condition body : Node}
    (hcondition : condition.Everywhere (Node.Settled below))
    (hbody : Abreast S id (walk scope limit body) (walk scope limit body)) :
    Abreast S id (whileRound scope limit location condition body)
      (whileRound scope limit location condition body) := by
  refine (h.test_abreast 1 (some condition) fun n he => ?_).bind fun outcome => ?_
  · cases he
    exact hcondition
  · exact (h.record_abreast _ _ _).bind fun _ =>
      .ite (hbody.returning outcome) (.pure outcome rfl)

theorem forRound_abreast {condition update : Option Node} {body : Node}
    (hcondition : ∀ n, condition = some n → n.Everywhere (Node.Settled below))
    (hupdate : ∀ n, update = some n → n.Everywhere (Node.Settled below))
    (hbody : Abreast S id (walk scope limit body) (walk scope limit body)) :
    Abreast S id (forRound scope limit location condition update body)
      (forRound scope limit location condition update body) := by
  refine (h.test_abreast 0 condition hcondition).bind fun outcome => .ite ?_ (.pure outcome rfl)
  exact hbody.bind fun _ => (h.evaluateAhead_abreast 1 update hupdate).bind fun _ =>
    (h.record_abreast _ _ _).returning outcome

end ParallelRuns

/-! ## Parameters -/

section
variable {below : Heap} {scope : ScopeId} {step step' : Int} {W : World → World → Prop}

theorem bindParameter_abreast (h : Parallel below scope step step' W) (source : Heap)
    (spec : ParameterSpec) :
    Abreast W id (bindParameter scope source step spec) (bindParameter scope source step' spec) := by
  refine Abreast.bind (g := below.shiftValue) ?_ fun v => h.define_abreast spec.name v (some spec)
  intro w w' hw
  obtain ⟨hv, ha⟩ := (h.alike hw).heap.copyValue source spec.initial
  have hend := EndsAlike.ok (g := below.shiftValue) (w.heap.copyValue source spec.initial).1
    (h.store ha hw)
  rw [← hv] at hend
  exact hend

theorem bindParameters_abreast (h : Parallel below scope step step' W) (declared : List Node)
    (source : Heap) (specs : List ParameterSpec) :
    Abreast W id (bindParameters scope declared source specs step)
      (bindParameters scope declared source specs step') := by
  unfold bindParameters
  cases checkParameters declared specs with
  | error e => exact .throw _
  | ok _ => exact .forM fun spec _ => bindParameter_abreast h source spec

end

/-! ## Statements -/

section
variable {below : Heap} {scope : ScopeId} {limit : Option Int} {S : RunState → RunState → Prop}

mutual

/-- A statement goes the same way in both runs. -/
theorem walk_abreast (h : ParallelRuns below scope limit S) :
    ∀ node : Node, node.Everywhere (Node.Settled below) →
      Abreast S id (walk scope limit node) (walk scope limit node)
  | .declaration location _ declarators, hn =>
    (h.record_abreast _ _ _).bind fun _ => h.declare_abreast declarators hn.children
  | .ifStatement location condition consequent alternate, hn => by
    have hconsequent := walk_abreast h consequent (hn.child (by simp [Node.children]))
    have halternate := walkOption_abreast h alternate fun n he =>
      hn.child (by simp [Node.children, he])
    refine (h.test_abreast 1 (some condition) fun n he => hn.child ?_).bind fun outcome => ?_
    · simp [Node.children, Option.some.inj he]
    · exact (h.record_abreast _ _ _).bind fun _ => .ite hconsequent halternate
  | .whileStatement location condition body, hn => by
    rw [walk_while]
    have hbody := walk_abreast h body (hn.child (by simp [Node.children]))
    exact abreast_rounds (h.whileRound_abreast (hn.child (by simp [Node.children])) hbody) _
  | .forStatement location init condition update body, hn => by
    rw [walk_for]
    have hbody := walk_abreast h body (hn.child (by simp [Node.children]))
    have hround : Abreast S id (forRound scope limit location condition update body)
        (forRound scope limit location condition update body) :=
      h.forRound_abreast (fun n he => hn.child (by simp [Node.children, he]))
        (fun n he => hn.child (by simp [Node.children, he])) hbody
    refine (h.record_abreast _ _ _).bind fun _ => ?_
    exact (h.enter_abreast init fun n he => hn.child (by simp [Node.children, he])).bind fun _ =>
      abreast_rounds hround _
  | .expressionStatement location expression, hn =>
    (h.record_abreast _ _ _).bind fun _ => h.evaluateAhead_abreast 0 (some expression) fun n he =>
      hn.child (by simp [Node.children, Option.some.inj he])
  | .returnStatement location argument, hn => by
    rw [walk_return]
    exact (h.record_abreast _ _ _).bind fun _ =>
      h.giveBack_abreast argument fun n he => hn.child (by simp [Node.children, he])
  | .continueStatement .., _ => h.record_abreast _ _ _
  | .block _ body, hn => walkAll_abreast h body hn.children
  | .program .., _ | .functionDeclaration .., _ | .declarator .., _ | .identifier .., _
  | .thisValue .., _ | .literal .., _ | .array .., _ | .property .., _ | .object .., _ | .new .., _
  | .update .., _ | .unary .., _ | .binary .., _ | .assignment .., _ | .member .., _ | .call .., _
  | .functionExpression .., _ | .arrowFunction .., _ | .unsupported .., _ => .throw _

theorem walkOption_abreast (h : ParallelRuns below scope limit S) :
    ∀ node : Option Node, (∀ n, node = some n → n.Everywhere (Node.Settled below)) →
      Abreast S id (walkOption scope limit node) (walkOption scope limit node)
  | none, _ => .pure () rfl
  | some node, hn => walk_abreast h node (hn node rfl)

theorem walkAll_abreast (h : ParallelRuns below scope limit S) :
    ∀ nodes : List Node, Node.AllEverywhere (Node.Settled below) nodes →
      Abreast S id (walkAll scope limit nodes) (walkAll scope limit nodes)
  | [], _ => .pure () rfl
  | node :: rest, hn =>
    (walk_abreast h node hn.head).bind fun _ => walkAll_abreast h rest hn.tail

end

end

end Chronicle
