import Chronicle.Evaluation.Expression
import Chronicle.Run.Trace

/-!
# Walking statements

`walk` replays statements and records the points it visits.  Writes of a statement are stamped with
the length of the trace when they happen; those of a condition of `if` and `while`, and of the
update of `for`, look one entry ahead.

A loop records an entry in every round, so under a limit of `m` entries it ends within `m + 1`
rounds; without a limit the number of rounds is bounded beyond what can be run.
-/

set_option autoImplicit false

namespace Chronicle

-- powers of naturals and integers are repeated products
attribute [local instance (high)] instPowNat

/-- The state of a run: the world, the trace so far and the value returned last. -/
structure RunState where
  world : World := {}
  trace : Trace := #[]
  returned : Value := .undefined

/-- A computation on a run that may stop, leaving its state as it is then. -/
abbrev Walk (α : Type) := EStateM Stop RunState α

namespace Walk

/-- An effect on the world of a run. -/
def act {α : Type} (effect : Effect α) : Walk α := fun s =>
  match effect s.world with
  | .ok a world => .ok a { s with world }
  | .error e world => .error e { s with world }

/-- The length of the trace. -/
def steps : Walk Int := do
  return (← get).trace.size

/-- Records a visit, unless the trace has reached its limit. -/
def record (limit : Option Int) (location : Location) (kind : TraceKind)
    (outcome : Option Bool) : Walk Unit := do
  let s ← get
  let full : Bool := match limit with
    | some m => m ≤ s.trace.size
    | none => false
  if full then throw (.because (.stepLimit (limit.getD 0)) (some location))
  else set { s with trace := s.trace.append location.startLine kind outcome }

/-- Whether a condition holds, with its writes `ahead` entries ahead; a missing one holds. -/
def test (scope : ScopeId) (ahead : Int) : Option Node → Walk Bool
  | none => pure true
  | some node => do
    let v ← act (evaluate scope ((← steps) + ahead) node)
    return v.isTruthy

/-- Evaluates an expression that may be missing, with its writes `ahead` entries ahead. -/
def evaluateAhead (scope : ScopeId) (ahead : Int) : Option Node → Walk Unit
  | none => pure ()
  | some node => do
    let _ ← act (evaluate scope ((← steps) + ahead) node)

/-- Evaluates declarators at the current step. -/
def declare (scope : ScopeId) (declarators : List Node) : Walk Unit := do
  declarators.forM fun d => evaluateAhead scope 0 (some d)

/-- How many rounds a loop may take under a limit. -/
def roundLimit : Option Int → Nat
  | some m => m.toNat + 1
  | none => 2 ^ (62 : Nat)

/-- Rounds of a loop, as long as each one asks for another. -/
def rounds (round : Walk Bool) : Nat → Walk Unit
  | 0 => throw (.fault .endlessRun)
  | fuel + 1 => do
    if ← round then rounds round fuel

/-- Keeps the value that a run returns. -/
def keep (v : Value) : Walk Unit :=
  modify fun s => { s with returned := v }

end Walk

open Walk

mutual

/-- Walks a statement. -/
def walk (scope : ScopeId) (limit : Option Int) : Node → Walk Unit
  | .declaration location _ declarators => do
    record limit location .declaration none
    declare scope declarators
  | .ifStatement location condition consequent alternate => do
    let outcome ← test scope 1 (some condition)
    record limit location .ifStatement (some outcome)
    if outcome then walk scope limit consequent else walkOption scope limit alternate
  | .whileStatement location condition body =>
    rounds (do
      let outcome ← test scope 1 (some condition)
      record limit location .whileStatement (some outcome)
      if outcome then walk scope limit body
      return outcome) (roundLimit limit)
  | .forStatement location init condition update body => do
    record limit location .forStatement none
    match init with
    | some (.declaration _ _ declarators) => declare scope declarators
    | init => evaluateAhead scope 0 init
    rounds (do
      let outcome ← test scope 0 condition
      if outcome then
        walk scope limit body
        evaluateAhead scope 1 update
        record limit location .forStatement none
      return outcome) (roundLimit limit)
  | .expressionStatement location expression => do
    record limit location .expressionStatement none
    evaluateAhead scope 0 (some expression)
  | .returnStatement location argument => do
    record limit location .returnStatement none
    match argument with
    | none => keep .undefined
    | some node => do
      let step ← steps
      let v ← act (evaluate scope step node)
      match node.name? with
      | some name => act (Effect.assign scope name v step none)
      | none => pure ()
      keep v
  | .continueStatement location _ => record limit location .continueStatement none
  | .block _ body => walkAll scope limit body
  | other => throw (.because (.unsupportedStatement other.form) (some other.location))
termination_by structural node => node

/-- Walks a statement that may be missing. -/
def walkOption (scope : ScopeId) (limit : Option Int) : Option Node → Walk Unit
  | none => pure ()
  | some node => walk scope limit node

/-- Walks statements in order. -/
def walkAll (scope : ScopeId) (limit : Option Int) : List Node → Walk Unit
  | [] => pure ()
  | node :: rest => do
    walk scope limit node
    walkAll scope limit rest

end

end Chronicle
