import Chronicle.Proofs.Evaluation.Watched
import Chronicle.Proofs.Run.Statement
import Chronicle.Run.Execute

/-!
# Watched runs

Statements, the binding of parameters and whole runs, watched (`LocatedFunction.watch`).  A watched
run ends as the run does (`watch_shows`), and it has seen all states and values that the run went
through.
-/

set_option autoImplicit false

namespace Chronicle

/-- The copy of a value of another heap. -/
def copied (source : Heap) (v : Value) : Effect Value :=
  modifyGet fun w => ((w.heap.copyValue source v).1, { w with heap := (w.heap.copyValue source v).2 })

namespace Watch

/-! ## Parts of statements -/

/-- Whether a condition holds. -/
def test (scope : ScopeId) (ahead : Int) : Option Node → Watch Bool
  | none => pure true
  | some node => do
    let step ← look Walk.steps
    let v ← evaluate scope (step + ahead) node
    return v.isTruthy

/-- Evaluates an expression that may be missing. -/
def evaluateAhead (scope : ScopeId) (ahead : Int) : Option Node → Watch Unit
  | none => pure ()
  | some node => do
    let step ← look Walk.steps
    let _ ← evaluate scope (step + ahead) node

/-- Evaluates declarators at the current step. -/
def declare (scope : ScopeId) (declarators : List Node) : Watch Unit :=
  declarators.forM fun d => evaluateAhead scope 0 (some d)

/-- What a `for` starts with. -/
def enter (scope : ScopeId) : Option Node → Watch Unit
  | some (.declaration _ _ declarators) => declare scope declarators
  | init => evaluateAhead scope 0 init

/-- What a `return` gives back. -/
def giveBack (scope : ScopeId) : Option Node → Watch Unit
  | none => look (Walk.keep .undefined)
  | some node => do
    let step ← look Walk.steps
    let v ← evaluate scope step node
    match node.name? with
    | some name => effect (Effect.assign scope name v step none)
    | none => pure ()
    look (Walk.keep v)

/-- Rounds of a loop. -/
def rounds (round : Watch Bool) : Nat → Watch Unit
  | 0 => throw (.fault .endlessRun)
  | fuel + 1 => do
    if ← round then rounds round fuel

/-! ## Statements -/

mutual

/-- Walks a statement. -/
def walk (scope : ScopeId) (limit : Option Int) : Node → Watch Unit
  | .declaration location _ declarators => do
    look (Walk.record limit location .declaration none)
    declare scope declarators
  | .ifStatement location condition consequent alternate => do
    let outcome ← test scope 1 (some condition)
    look (Walk.record limit location .ifStatement (some outcome))
    if outcome then walk scope limit consequent else walkOption scope limit alternate
  | .whileStatement location condition body =>
    rounds (do
      let outcome ← test scope 1 (some condition)
      look (Walk.record limit location .whileStatement (some outcome))
      if outcome then walk scope limit body
      return outcome) (Walk.roundLimit limit)
  | .forStatement location init condition update body => do
    look (Walk.record limit location .forStatement none)
    enter scope init
    rounds (do
      let outcome ← test scope 0 condition
      if outcome then
        walk scope limit body
        evaluateAhead scope 1 update
        look (Walk.record limit location .forStatement none)
      return outcome) (Walk.roundLimit limit)
  | .expressionStatement location expression => do
    look (Walk.record limit location .expressionStatement none)
    evaluateAhead scope 0 (some expression)
  | .returnStatement location argument => do
    look (Walk.record limit location .returnStatement none)
    giveBack scope argument
  | .continueStatement location _ => look (Walk.record limit location .continueStatement none)
  | .block _ body => walkAll scope limit body
  | other => throw (.because (.unsupportedStatement other.form) (some other.location))
termination_by structural node => node

/-- Walks a statement that may be missing. -/
def walkOption (scope : ScopeId) (limit : Option Int) : Option Node → Watch Unit
  | none => pure ()
  | some node => walk scope limit node

/-- Walks statements in order. -/
def walkAll (scope : ScopeId) (limit : Option Int) : List Node → Watch Unit
  | [] => pure ()
  | node :: rest => do
    walk scope limit node
    walkAll scope limit rest

end

/-! ## Runs -/

/-- Binds a parameter to a copy of the value it starts with. -/
def bindParameter (scope : ScopeId) (source : Heap) (step : Int) (spec : ParameterSpec) :
    Watch Unit := do
  let v ← effect (copied source spec.initial)
  effect (Effect.define scope spec.name v step (some spec))

/-- Binds the parameters of a function. -/
def bindParameters (scope : ScopeId) (declared : List Node) (source : Heap)
    (specs : List ParameterSpec) (step : Int) : Watch Unit := do
  match checkParameters declared specs with
  | .error e => throw (.error e)
  | .ok () => specs.forM (bindParameter scope source step)

end Watch

/-- A watched run of a located function. -/
def LocatedFunction.watch (f : LocatedFunction) (limit : Option Int) : Watch Unit := do
  let receiver ← Watch.effect (Effect.newRecord [])
  Watch.effect (Effect.define 0 thisName receiver parameterStep none)
  Watch.bindParameters 0 f.function.params f.heap f.params parameterStep
  Watch.walkAll 0 limit f.function.body

/-! ## Watching changes nothing -/

namespace Shows

variable (scope : ScopeId) (limit : Option Int) (location : Location)

theorem test (ahead : Int) (condition : Option Node) :
    Shows (Watch.test scope ahead condition) (Walk.test scope ahead condition) := by
  cases condition with
  | none => exact pure true
  | some node => exact (look _).bind fun k => (evaluate_shows scope _ node).bind fun v => pure _

theorem evaluateAhead (ahead : Int) (node : Option Node) :
    Shows (Watch.evaluateAhead scope ahead node) (Walk.evaluateAhead scope ahead node) := by
  cases node with
  | none => exact pure ()
  | some node => exact (look _).bind fun k => (evaluate_shows scope _ node).bind fun v => pure _

theorem declare (declarators : List Node) :
    Shows (Watch.declare scope declarators) (Walk.declare scope declarators) :=
  forM (fun d => evaluateAhead scope 0 (some d)) declarators

theorem enter (init : Option Node) : Shows (Watch.enter scope init) (Chronicle.enter scope init) := by
  unfold Watch.enter
  split
  · exact declare scope _
  · rename_i hother
    rw [Chronicle.enter.eq_2 _ _ hother]
    exact evaluateAhead scope 0 _

theorem giveBack (argument : Option Node) :
    Shows (Watch.giveBack scope argument) (Chronicle.giveBack scope argument) := by
  cases argument with
  | none => exact look (Walk.keep .undefined)
  | some node =>
    refine (look _).bind fun step => (evaluate_shows scope step node).bind fun v => ?_
    dsimp only
    cases node.name? with
    | some name => exact (effect _).bind fun _ => look _
    | none => exact look _

theorem rounds {round' : Watch Bool} {round : Walk Bool} (h : Shows round' round) :
    ∀ fuel, Shows (Watch.rounds round' fuel) (Walk.rounds round fuel)
  | 0 => throw _
  | fuel + 1 => by
    unfold Watch.rounds Walk.rounds
    exact h.bind fun again => ite (rounds h fuel) (pure _)

end Shows

section
variable (scope : ScopeId) (limit : Option Int)

mutual

/-- A watched statement does what the statement does. -/
theorem walk_shows : ∀ node : Node, Shows (Watch.walk scope limit node) (walk scope limit node)
  | .declaration _ _ declarators => (Shows.look _).bind fun _ => .declare scope declarators
  | .ifStatement _ condition consequent alternate =>
    (Shows.test scope 1 (some condition)).bind fun outcome => (Shows.look _).bind fun _ =>
      .ite (walk_shows consequent) (walkOption_shows alternate)
  | .whileStatement _ condition body =>
    .rounds ((Shows.test scope 1 (some condition)).bind fun outcome => (Shows.look _).bind fun _ =>
      .ite ((walk_shows body).bind fun _ => .pure _) (.pure _)) _
  | .forStatement _ init condition update body => by
    rw [walk_for]
    exact (Shows.look _).bind fun _ => (Shows.enter scope init).bind fun _ =>
      .rounds ((Shows.test scope 0 condition).bind fun outcome => .ite
        ((walk_shows body).bind fun _ => (Shows.evaluateAhead scope 1 update).bind fun _ =>
          (Shows.look _).bind fun _ => .pure _) (.pure _)) _
  | .expressionStatement _ expression =>
    (Shows.look _).bind fun _ => .evaluateAhead scope 0 (some expression)
  | .returnStatement _ argument => by
    rw [walk_return]
    exact (Shows.look _).bind fun _ => .giveBack scope argument
  | .continueStatement .. => .look _
  | .block _ body => walkAll_shows body
  | .program .. | .functionDeclaration .. | .declarator .. | .identifier .. | .thisValue ..
  | .literal .. | .array .. | .property .. | .object .. | .new .. | .update .. | .unary ..
  | .binary .. | .assignment .. | .member .. | .call .. | .functionExpression ..
  | .arrowFunction .. | .unsupported .. => .throw _

theorem walkOption_shows : ∀ node : Option Node,
    Shows (Watch.walkOption scope limit node) (walkOption scope limit node)
  | none => .pure _
  | some node => walk_shows node

theorem walkAll_shows : ∀ nodes : List Node,
    Shows (Watch.walkAll scope limit nodes) (walkAll scope limit nodes)
  | [] => .pure _
  | node :: rest => (walk_shows node).bind fun _ => walkAll_shows rest

end

end

theorem bindParameters_shows (scope : ScopeId) (declared : List Node) (source : Heap)
    (specs : List ParameterSpec) (step : Int) :
    Shows (Watch.bindParameters scope declared source specs step)
      (Walk.act (bindParameters scope declared source specs step)) := by
  have hall : ∀ specs : List ParameterSpec,
      Shows (specs.forM (Watch.bindParameter scope source step))
        (Walk.act (specs.forM (bindParameter scope source step))) := by
    intro specs
    induction specs with
    | nil => exact .result _
    | cons spec specs ih =>
      exact .andThen (.andThen (.effect (copied source spec.initial)) fun v => .effect _) fun _ => ih
  unfold Watch.bindParameters bindParameters
  cases checkParameters declared specs with
  | error e => exact .throw _
  | ok u => exact hall specs

/-- A watched run ends as the run does. -/
theorem watch_shows (f : LocatedFunction) (limit : Option Int) :
    Shows (f.watch limit) (f.run limit) := by
  have hstart : Shows
      (do
        let receiver ← Watch.effect (Effect.newRecord [])
        Watch.effect (Effect.define 0 thisName receiver parameterStep none)
        Watch.bindParameters 0 f.function.params f.heap f.params parameterStep)
      (Walk.act do
        let receiver ← Effect.newRecord []
        Effect.define 0 thisName receiver parameterStep none
        bindParameters 0 f.function.params f.heap f.params parameterStep) :=
    .andThen (.effect _) fun receiver => .andThen (.effect _) fun _ =>
      bindParameters_shows 0 _ _ _ _
  have hrun := hstart.bind fun _ => walkAll_shows 0 limit f.function.body
  simp only [bind_assoc] at hrun
  exact hrun

end Chronicle
