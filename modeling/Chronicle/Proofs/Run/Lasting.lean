import Chronicle.Proofs.Evaluation.Lasting
import Chronicle.Proofs.Run.Statement
import Chronicle.Run.Execute

/-!
# What a run keeps

`SteadyOn names scope A B E`: the condition `A` on runs holds between statements, `B` while the
writes of a condition or an update are one entry ahead of the trace, and `E` when the run has
stopped.  Evaluation at the current step keeps `A`, evaluation one step ahead keeps `B`, and an
entry leads from `B` back to `A`, as long as only variables of `names` are written.
`Steady scope A B E` is the case of all names.

`walk_keepsOn` carries such a condition through every statement; `walk_keeps` and `run_keeps` carry
one of all names through statements and whole runs.
-/

set_option autoImplicit false

namespace Chronicle

open Walk

/-- A condition between statements, one while writes are an entry ahead, and one for a stopped
run, when all variables that are written are among `names`. -/
structure SteadyOn (names : String → Prop) (scope : ScopeId) (A B E : RunState → Prop) : Prop where
  ahead : ∀ {s}, A s → B s
  stop : ∀ {s}, B s → E s
  now : ∀ {s}, A s → LastingOn names scope s.trace.size (fun w => A { s with world := w })
    fun w => E { s with world := w }
  later : ∀ {s}, A s → LastingOn names scope (s.trace.size + 1) (fun w => B { s with world := w })
    fun w => E { s with world := w }
  record : ∀ {s line kind outcome}, B s → A { s with trace := s.trace.append line kind outcome }
  keep : ∀ {s v}, A s → A { s with returned := v }

/-- A condition between statements, one while writes are an entry ahead, and one for a stopped
run. -/
structure Steady (scope : ScopeId) (A B E : RunState → Prop) : Prop where
  ahead : ∀ {s}, A s → B s
  stop : ∀ {s}, B s → E s
  now : ∀ {s}, A s → Lasting scope s.trace.size (fun w => A { s with world := w })
    fun w => E { s with world := w }
  later : ∀ {s}, A s → Lasting scope (s.trace.size + 1) (fun w => B { s with world := w })
    fun w => E { s with world := w }
  record : ∀ {s line kind outcome}, B s → A { s with trace := s.trace.append line kind outcome }
  keep : ∀ {s v}, A s → A { s with returned := v }

/-- A condition on worlds alone, whatever the step. -/
theorem LastingOn.steady {names : String → Prop} {scope : ScopeId} {P E : World → Prop}
    (h : ∀ step, LastingOn names scope step P E) :
    SteadyOn names scope (fun s => P s.world) (fun s => P s.world) fun s => E s.world where
  ahead hs := hs
  stop hs := (h 0).stop hs
  now _ := h _
  later _ := h _
  record hs := hs
  keep hs := hs

theorem Lasting.steady {scope : ScopeId} {P E : World → Prop}
    (h : ∀ step, Lasting scope step P E) :
    Steady scope (fun s => P s.world) (fun s => P s.world) fun s => E s.world where
  ahead hs := hs
  stop hs := (h 0).stop hs
  now _ := h _
  later _ := h _
  record hs := hs
  keep hs := hs

/-- A condition on traces alone that one more entry keeps. -/
theorem Steady.ofTrace (scope : ScopeId) {P : Trace → Prop}
    (h : ∀ {t line kind outcome}, P t → P (t.append line kind outcome)) :
    Steady scope (fun s => P s.trace) (fun s => P s.trace) fun s => P s.trace := by
  have hlasting : ∀ {s : RunState} {step : Int}, P s.trace →
      Lasting scope step (fun _ => P s.trace) fun _ => P s.trace := by
    intro s step hs
    exact ⟨fun _ => hs, fun _ _ => hs, fun _ _ => hs, fun _ _ _ => hs, fun _ _ => hs,
      fun _ _ _ => hs, fun _ _ => hs⟩
  exact ⟨fun hs => hs, fun hs => hs, hlasting, hlasting, h, fun hs => hs⟩

/-- What is steady whatever is written is steady when only some names are. -/
theorem Steady.on {scope : ScopeId} {A B E : RunState → Prop} (h : Steady scope A B E)
    (names : String → Prop) : SteadyOn names scope A B E where
  ahead := h.ahead
  stop := h.stop
  now hs := (h.now hs).on names
  later hs := (h.later hs).on names
  record := h.record
  keep := h.keep

/-! ## Parts of statements -/

namespace SteadyOn

variable {names : String → Prop} {scope : ScopeId} {A B E : RunState → Prop}
variable (h : SteadyOn names scope A B E)
include h

theorem stop_now (s : RunState) (hs : A s) : E s :=
  h.stop (h.ahead hs)

/-- An effect at the current step. -/
theorem triple_effect {α : Type} {e : Effect α} {k : Int}
    (he : ∀ P Q, LastingOn names scope k P Q → Keeps P Q e) :
    Triple (fun s => k = s.trace.size ∧ A s) (act e) (fun _ s => k = s.trace.size ∧ A s)
      fun _ => E := by
  refine triple_act fun s hs => ?_
  obtain ⟨rfl, hs⟩ := hs
  refine (he _ _ (h.now hs)).weaken (fun w hw => ?_) (fun _ _ hw => ⟨rfl, hw⟩) fun _ _ hw => hw
  rw [hw]
  exact hs

/-- An effect one step ahead. -/
theorem triple_effect_ahead {α : Type} {e : Effect α} {k : Int}
    (he : ∀ P Q, LastingOn names scope (k + 1) P Q → Keeps P Q e) :
    Triple (fun s => k = s.trace.size ∧ A s) (act e) (fun _ => B) fun _ => E := by
  refine triple_act fun s hs => ?_
  obtain ⟨rfl, hs⟩ := hs
  refine (he _ _ (h.later hs)).weaken (fun w hw => ?_) (fun _ _ hw => hw) fun _ _ hw => hw
  rw [hw]
  exact h.ahead hs

omit h in
theorem triple_steps : Triple A steps (fun k s => k = s.trace.size ∧ A s) fun _ => E :=
  fun _ hs => ⟨rfl, hs⟩

theorem triple_evaluate (k : Int) {node : Node} (hn : node.Everywhere (·.WritesOnly names)) :
    Triple (fun s => k = s.trace.size ∧ A s) (act (evaluate scope (k + 0) node)) (fun _ => A)
      fun _ => E := by
  rw [Int.add_zero]
  exact (h.triple_effect fun _ _ hP => evaluate_keepsOn hP node hn).weaken (fun _ hs => hs)
    (fun _ _ hs => hs.2) fun _ _ hs => hs

theorem keeps_test {condition : Option Node}
    (hn : Node.AllEverywhere (·.WritesOnly names) condition.toList) :
    Keeps A E (test scope 0 condition) := by
  cases condition with
  | none => exact keeps_pure _
  | some node =>
    exact triple_steps.bind fun k => (h.triple_evaluate k hn.head).bind fun _ => keeps_pure _

theorem triple_test_ahead (condition : Option Node)
    (hn : Node.AllEverywhere (·.WritesOnly names) condition.toList) :
    Triple A (test scope 1 condition) (fun _ => B) fun _ => E := by
  cases condition with
  | none => exact fun _ hs => h.ahead hs
  | some node =>
    exact triple_steps.bind fun _ =>
      (h.triple_effect_ahead fun _ _ hP => evaluate_keepsOn hP node hn.head).bind fun _ =>
        keeps_pure _

theorem keeps_evaluateAhead {node : Option Node}
    (hn : Node.AllEverywhere (·.WritesOnly names) node.toList) :
    Keeps A E (evaluateAhead scope 0 node) := by
  cases node with
  | none => exact keeps_pure _
  | some node =>
    exact triple_steps.bind fun k => (h.triple_evaluate k hn.head).bind fun _ => keeps_pure _

theorem triple_evaluateAhead {node : Option Node}
    (hn : Node.AllEverywhere (·.WritesOnly names) node.toList) :
    Triple A (evaluateAhead scope 1 node) (fun _ => B) fun _ => E := by
  cases node with
  | none => exact fun _ hs => h.ahead hs
  | some node =>
    exact triple_steps.bind fun _ =>
      (h.triple_effect_ahead fun _ _ hP => evaluate_keepsOn hP node hn.head).bind fun _ =>
        keeps_pure _

theorem keeps_declare {declarators : List Node}
    (hn : Node.AllEverywhere (·.WritesOnly names) declarators) :
    Keeps A E (declare scope declarators) :=
  keeps_forM fun d hd => h.keeps_evaluateAhead (.toList fun _ he => by cases he; exact hn d hd)

theorem triple_record (limit : Option Int) (location : Location) (kind : TraceKind)
    (outcome : Option Bool) :
    Triple B (Walk.record limit location kind outcome) (fun _ => A) fun _ => E := by
  intro s hs
  rcases record_cases limit location kind outcome s with ⟨m, -, -, he⟩ | ⟨-, he⟩
  · rw [he]
    exact h.stop hs
  · rw [he]
    exact h.record hs

theorem keeps_record (limit : Option Int) (location : Location) (kind : TraceKind)
    (outcome : Option Bool) : Keeps A E (Walk.record limit location kind outcome) :=
  (h.triple_record limit location kind outcome).weaken (fun _ => h.ahead) (fun _ _ hs => hs)
    fun _ _ hs => hs

theorem keeps_keep (v : Value) : Keeps A E (Walk.keep v) :=
  fun _ hs => h.keep hs

theorem keeps_enter {init : Option Node}
    (hn : Node.AllEverywhere (·.WritesOnly names) init.toList) : Keeps A E (enter scope init) := by
  unfold enter
  split
  · exact h.keeps_declare hn.head.children
  · exact h.keeps_evaluateAhead hn

theorem keeps_giveBack (location : Location) {argument : Option Node}
    (hn : (Node.returnStatement location argument).Everywhere (·.WritesOnly names)) :
    Keeps A E (giveBack scope argument) := by
  cases argument with
  | none => exact h.keeps_keep _
  | some node =>
    refine triple_steps.bind fun k => (h.triple_effect fun _ _ hP =>
      evaluate_keepsOn hP node (hn.child (by simp [Node.children]))).bind fun v => ?_
    have hkeep : Triple (fun s => k = s.trace.size ∧ A s) (Walk.keep v) (fun _ => A) fun _ => E :=
      (h.keeps_keep v).weaken (fun _ hs => hs.2) (fun _ _ hs => hs) fun _ _ hs => hs
    dsimp only
    cases hname : node.name? with
    | some name =>
      have hwrites : names name := hn.here name hname
      exact (h.triple_effect fun _ _ hP => hP.keeps_assign hwrites v none).bind fun _ => hkeep
    | none => exact hkeep

section
variable {limit : Option Int} {location : Location} {body : Node}

theorem keeps_whileRound {condition : Node}
    (hn : condition.Everywhere (·.WritesOnly names)) (hbody : Keeps A E (walk scope limit body)) :
    Keeps A E (whileRound scope limit location condition body) :=
  (h.triple_test_ahead (some condition) (.cons hn .nil)).bind fun _ =>
    (h.triple_record _ _ _ _).bind fun _ =>
      keeps_ite (keeps_bind hbody fun _ => keeps_pure _) (keeps_pure _)

theorem keeps_forRound {condition update : Option Node}
    (hcondition : Node.AllEverywhere (·.WritesOnly names) condition.toList)
    (hupdate : Node.AllEverywhere (·.WritesOnly names) update.toList)
    (hbody : Keeps A E (walk scope limit body)) :
    Keeps A E (forRound scope limit location condition update body) :=
  keeps_bind (h.keeps_test hcondition) fun _ => keeps_ite
    (keeps_bind hbody fun _ => (h.triple_evaluateAhead hupdate).bind fun _ =>
      (h.triple_record _ _ _ _).bind fun _ => keeps_pure _)
    (keeps_pure _)

end

end SteadyOn

/-! ## Statements -/

section
variable {names : String → Prop} {scope : ScopeId} {A B E : RunState → Prop}

mutual

/-- Walking a statement that writes `names` only keeps every condition steady on them. -/
theorem walk_keepsOn (h : SteadyOn names scope A B E) (limit : Option Int) :
    ∀ node : Node, node.Everywhere (·.WritesOnly names) → Keeps A E (walk scope limit node)
  | .declaration .., hn =>
    keeps_bind (h.keeps_record _ _ _ _) fun _ => h.keeps_declare hn.children
  | .ifStatement _ condition consequent alternate, hn => by
    have hcondition := hn.child (c := condition) (by simp [Node.children])
    have hconsequent := walk_keepsOn h limit consequent (hn.child (by simp [Node.children]))
    have halternate := walkOption_keepsOn h limit alternate fun c hc =>
      hn.child (by simp [Node.children, hc])
    exact (h.triple_test_ahead (some condition) (.cons hcondition .nil)).bind fun _ =>
      (h.triple_record _ _ _ _).bind fun _ => keeps_ite hconsequent halternate
  | .whileStatement _ condition body, hn => by
    have hcondition := hn.child (c := condition) (by simp [Node.children])
    have hbody := walk_keepsOn h limit body (hn.child (by simp [Node.children]))
    exact keeps_rounds h.stop_now (h.keeps_whileRound hcondition hbody) _
  | .forStatement location init condition update body, hn => by
    have hbody := walk_keepsOn h limit body (hn.child (by simp [Node.children]))
    have hparts := hn.children
    simp only [Node.children] at hparts
    have hinit : Node.AllEverywhere (·.WritesOnly names) init.toList :=
      fun c hc => hparts c (by simp [hc])
    have hcondition : Node.AllEverywhere (·.WritesOnly names) condition.toList :=
      fun c hc => hparts c (by simp [hc])
    have hupdate : Node.AllEverywhere (·.WritesOnly names) update.toList :=
      fun c hc => hparts c (by simp [hc])
    rw [walk_for]
    exact keeps_bind (h.keeps_record _ _ _ _) fun _ => keeps_bind (h.keeps_enter hinit) fun _ =>
      keeps_rounds h.stop_now (h.keeps_forRound hcondition hupdate hbody) _
  | .expressionStatement .., hn =>
    keeps_bind (h.keeps_record _ _ _ _) fun _ => h.keeps_evaluateAhead hn.children
  | .returnStatement _ argument, hn => by
    rw [walk_return]
    exact keeps_bind (h.keeps_record _ _ _ _) fun _ => h.keeps_giveBack _ hn
  | .continueStatement .., _ => h.keeps_record _ _ _ _
  | .block _ body, hn => walkAll_keepsOn h limit body hn.children
  | .program .., _ | .functionDeclaration .., _ | .declarator .., _ | .identifier .., _
  | .thisValue .., _ | .literal .., _ | .array .., _ | .property .., _ | .object .., _ | .new .., _
  | .update .., _ | .unary .., _ | .binary .., _ | .assignment .., _ | .member .., _ | .call .., _
  | .functionExpression .., _ | .arrowFunction .., _ | .unsupported .., _ =>
    keeps_throw h.stop_now _

theorem walkOption_keepsOn (h : SteadyOn names scope A B E) (limit : Option Int) :
    ∀ node : Option Node, (∀ n, node = some n → n.Everywhere (·.WritesOnly names)) →
      Keeps A E (walkOption scope limit node)
  | none, _ => keeps_pure _
  | some node, hn => walk_keepsOn h limit node (hn node rfl)

theorem walkAll_keepsOn (h : SteadyOn names scope A B E) (limit : Option Int) :
    ∀ nodes : List Node, Node.AllEverywhere (·.WritesOnly names) nodes →
      Keeps A E (walkAll scope limit nodes)
  | [], _ => keeps_pure _
  | node :: rest, hn =>
    keeps_bind (walk_keepsOn h limit node hn.head) fun _ => walkAll_keepsOn h limit rest hn.tail

end

end

/-! ## All names -/

namespace Steady

variable {scope : ScopeId} {A B E : RunState → Prop} (h : Steady scope A B E)
include h

/-- An effect at the current step. -/
theorem triple_effect {α : Type} {e : Effect α} {k : Int}
    (he : ∀ P Q, Lasting scope k P Q → Keeps P Q e) :
    Triple (fun s => k = s.trace.size ∧ A s) (act e) (fun _ s => k = s.trace.size ∧ A s)
      fun _ => E := by
  refine triple_act fun s hs => ?_
  obtain ⟨rfl, hs⟩ := hs
  refine (he _ _ (h.now hs)).weaken (fun w hw => ?_) (fun _ _ hw => ⟨rfl, hw⟩) fun _ _ hw => hw
  rw [hw]
  exact hs

theorem keeps_test (condition : Option Node) : Keeps A E (test scope 0 condition) :=
  (h.on fun _ => True).keeps_test fun n _ => n.writesOnly_true

theorem triple_test_ahead (condition : Option Node) :
    Triple A (test scope 1 condition) (fun _ => B) fun _ => E :=
  (h.on fun _ => True).triple_test_ahead condition fun n _ => n.writesOnly_true

theorem keeps_evaluateAhead (node : Option Node) : Keeps A E (evaluateAhead scope 0 node) :=
  (h.on fun _ => True).keeps_evaluateAhead fun n _ => n.writesOnly_true

theorem triple_evaluateAhead (node : Option Node) :
    Triple A (evaluateAhead scope 1 node) (fun _ => B) fun _ => E :=
  (h.on fun _ => True).triple_evaluateAhead fun n _ => n.writesOnly_true

theorem keeps_declare (declarators : List Node) : Keeps A E (declare scope declarators) :=
  (h.on fun _ => True).keeps_declare fun n _ => n.writesOnly_true

theorem keeps_record (limit : Option Int) (location : Location) (kind : TraceKind)
    (outcome : Option Bool) : Keeps A E (Walk.record limit location kind outcome) :=
  (h.on fun _ => True).keeps_record limit location kind outcome

theorem keeps_enter (init : Option Node) : Keeps A E (enter scope init) :=
  (h.on fun _ => True).keeps_enter fun n _ => n.writesOnly_true

theorem keeps_giveBack (argument : Option Node) : Keeps A E (giveBack scope argument) :=
  (h.on fun _ => True).keeps_giveBack .unknown (Node.writesOnly_true _)

end Steady

/-- Walking keeps every steady condition. -/
theorem walk_keeps {scope : ScopeId} {A B E : RunState → Prop} (h : Steady scope A B E)
    (limit : Option Int) (node : Node) : Keeps A E (walk scope limit node) :=
  walk_keepsOn (h.on fun _ => True) limit node node.writesOnly_true

/-! ## Runs -/

/-- Binding parameters keeps every condition that lasts whatever is written. -/
theorem bindParameters_keeps {scope : ScopeId} {step : Int} {P E : World → Prop}
    (hP : Lasting scope step P E) (declared : List Node) (source : Heap)
    (specs : List ParameterSpec) :
    Keeps P E (bindParameters scope declared source specs step) := by
  unfold bindParameters
  split
  · exact keeps_throw (fun _ => hP.stop) _
  · refine keeps_forM fun spec _ => ?_
    unfold bindParameter
    refine keeps_bind (fun w hw => ?_) fun v => hP.keeps_define spec.name v _
    exact hP.store (w.heap.evolves_append source) hw

/-- The world of a run whose receiver is bound. -/
def startWorld : World :=
  World.add { heap := (({} : Heap).newRecord []).2 } 0 thisName (.record 0) "\x7b\x7d" parameterStep
    none

theorem own?_startWorld (i : ScopeId) (n : String) :
    startWorld.scopes.own? i n =
      if i = 0 ∧ n = thisName then
        some { value := .record 0, history := #[⟨parameterStep, "\x7b\x7d"⟩] }
      else none := by
  have hroot : ∀ j m, Scopes.root.own? j m = none := by
    intro j m
    cases j <;> simp [Scopes.own?, Scopes.scope, Scopes.root]
  unfold startWorld World.add
  dsimp only
  rw [Scopes.own?_add _ (by decide) (hroot 0 thisName), hroot]
  rfl

/-- A run binds its receiver, which never fails, then the parameters, and walks the body. -/
theorem run_eq (f : LocatedFunction) (limit : Option Int) :
    f.run limit {} = (do
      act (bindParameters 0 f.function.params f.heap f.params parameterStep)
      walkAll 0 limit f.function.body) { world := startWorld } := rfl

/-- A run keeps every steady condition that holds once its receiver is bound. -/
theorem run_keeps {A B E : RunState → Prop} (h : Steady 0 A B E) (h0 : A { world := startWorld })
    (f : LocatedFunction) (limit : Option Int) :
    Triple (fun s => s = {}) (f.run limit) (fun _ => A) fun _ => E := by
  intro s hs
  rw [hs, run_eq]
  have hbind : Triple (fun s => parameterStep = s.trace.size ∧ A s)
      (act (bindParameters 0 f.function.params f.heap f.params parameterStep))
      (fun _ s => parameterStep = s.trace.size ∧ A s) fun _ => E :=
    h.triple_effect fun _ _ hP => bindParameters_keeps hP _ _ _
  have hbody := walkAll_keepsOn (h.on fun _ => True) limit f.function.body
    fun n _ => n.writesOnly_true
  exact hbind.bind (fun _ => hbody.weaken (fun _ hs => hs.2) (fun _ _ hs => hs) fun _ _ hs => hs)
    { world := startWorld } ⟨rfl, h0⟩

/-! ## The function after a run -/

namespace TracedFunction

variable {t : TracedFunction} {limit : Option Int} {s : RunState}

theorem execute_of_ok (h : t.located.run limit {} = .ok () s) :
    t.execute limit = ({ t with
      status := .completed, failure := none, world := s.world, trace := s.trace
      returned := ⟨s.world.heap, s.returned⟩ }, none) := by
  unfold execute
  rw [h]

theorem execute_of_error {e : RunError} (h : t.located.run limit {} = .error (.error e) s) :
    t.execute limit = ({ t with
      status := .failed, failure := some e, trace := s.trace
      world := { s.world with log := s.world.log.push (.failedRun t.located.name s.trace.size e) }
      returned := ⟨s.world.heap, s.returned⟩ }, some (.error e)) := by
  unfold execute
  rw [h]

theorem execute_of_fault {f : Fault} (h : t.located.run limit {} = .error (.fault f) s) :
    t.execute limit = ({ t with
      status := .pending, failure := none, world := s.world, trace := s.trace },
      some (.fault f)) := by
  unfold execute
  rw [h]

/-- A run that has completed gave a result. -/
theorem run_of_completed (h : (t.execute limit).1.status = .completed) :
    ∃ s, t.located.run limit {} = .ok () s := by
  cases hr : t.located.run limit {} with
  | ok u s => exact ⟨s, rfl⟩
  | error x s =>
    cases x with
    | error e =>
      rw [execute_of_error hr] at h
      cases h
    | fault f =>
      rw [execute_of_fault hr] at h
      cases h

/-- However a run ends, its trace and its bindings are those of the state it ends in. -/
theorem execute_state (t : TracedFunction) (limit : Option Int) :
    (t.execute limit).1.trace = (stateAfter (t.located.run limit {})).trace ∧
      (t.execute limit).1.world.scopes = (stateAfter (t.located.run limit {})).world.scopes := by
  cases hr : t.located.run limit {} with
  | ok u s =>
    rw [execute_of_ok hr]
    exact ⟨rfl, rfl⟩
  | error x s =>
    cases x with
    | error e =>
      rw [execute_of_error hr]
      exact ⟨rfl, rfl⟩
    | fault f =>
      rw [execute_of_fault hr]
      exact ⟨rfl, rfl⟩

end TracedFunction

/-- A run stays in its root scope. -/
theorem execute_chain (t : TracedFunction) (limit : Option Int) :
    (t.execute limit).1.world.scopes.chain 0 = [0] := by
  have hlasting : ∀ step, Lasting 0 step (fun w => w.scopes.chain 0 = [0])
      fun w => w.scopes.chain 0 = [0] := by
    intro step
    refine ⟨fun h => h, fun _ h => h, fun _ h => h, fun _ _ h => ?_, fun _ h => ?_,
      fun _ _ h => ?_, fun _ h => h⟩
    · simpa only [World.write, Scopes.chain_modify] using h
    · simpa only [World.writeUnrendered, Scopes.chain_modify] using h
    · simpa only [World.add, Scopes.chain_add] using h
  have h := run_keeps (Lasting.steady hlasting) (by decide) t.located limit {} rfl
  rw [(t.execute_state limit).2]
  cases hr : t.located.run limit {} with
  | ok u s =>
    rw [hr] at h
    exact h
  | error x s =>
    rw [hr] at h
    exact h

end Chronicle
