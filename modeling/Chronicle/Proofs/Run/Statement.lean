import Chronicle.Proofs.Triple

/-!
# Parts of statements

The rounds of loops, what a `for` starts with and what a `return` ends with, as computations of
their own, and each statement as a sequence of them (`walk_while`, `walk_for`, `walk_return`).  Only
`record` touches the trace: `Leaves` says so of everything else, and `record_cases` says all that
`record` can do.
-/

set_option autoImplicit false

namespace Chronicle

open Walk

/-- One round of a `while`: the condition, its entry, and the body where it holds. -/
def whileRound (scope : ScopeId) (limit : Option Int) (location : Location)
    (condition body : Node) : Walk Bool := do
  let outcome ← test scope 1 (some condition)
  record limit location .whileStatement (some outcome)
  if outcome then walk scope limit body
  return outcome

/-- One round of a `for`: the condition and, where it holds, the body, the update and its entry. -/
def forRound (scope : ScopeId) (limit : Option Int) (location : Location)
    (condition update : Option Node) (body : Node) : Walk Bool := do
  let outcome ← test scope 0 condition
  if outcome then
    walk scope limit body
    evaluateAhead scope 1 update
    record limit location .forStatement none
  return outcome

/-- What a `for` starts with: declarations or an expression. -/
def enter (scope : ScopeId) : Option Node → Walk Unit
  | some (.declaration _ _ declarators) => declare scope declarators
  | init => evaluateAhead scope 0 init

/-- What a `return` gives back; a variable is written once more. -/
def giveBack (scope : ScopeId) : Option Node → Walk Unit
  | none => keep .undefined
  | some node => do
    let step ← steps
    let v ← act (evaluate scope step node)
    match node.name? with
    | some name => act (Effect.assign scope name v step none)
    | none => pure ()
    keep v

section
variable (scope : ScopeId) (limit : Option Int) (location : Location)

theorem walk_if (condition consequent : Node) (alternate : Option Node) :
    walk scope limit (.ifStatement location condition consequent alternate) = (do
      let outcome ← test scope 1 (some condition)
      record limit location .ifStatement (some outcome)
      if outcome then walk scope limit consequent else walkOption scope limit alternate) := rfl

theorem walk_while (condition body : Node) :
    walk scope limit (.whileStatement location condition body) =
      rounds (whileRound scope limit location condition body) (roundLimit limit) := rfl

theorem walk_for (init condition update : Option Node) (body : Node) :
    walk scope limit (.forStatement location init condition update body) = (do
      record limit location .forStatement none
      enter scope init
      rounds (forRound scope limit location condition update body) (roundLimit limit)) := by
  cases init with
  | none => rfl
  | some node => cases node <;> rfl

theorem walk_return (argument : Option Node) :
    walk scope limit (.returnStatement location argument) = (do
      record limit location .returnStatement none
      giveBack scope argument) := by
  unfold walk giveBack
  cases argument <;> rfl

end

/-! ## Entries -/

/-- An entry is recorded unless the trace has reached its limit. -/
theorem record_cases (limit : Option Int) (location : Location) (kind : TraceKind)
    (outcome : Option Bool) (s : RunState) :
    (∃ m, limit = some m ∧ m ≤ s.trace.size ∧ Walk.record limit location kind outcome s =
        .error (.because (.stepLimit m) (some location)) s) ∨
      (∀ m, limit = some m → s.trace.size < m) ∧ Walk.record limit location kind outcome s =
        .ok () { s with trace := s.trace.append location.startLine kind outcome } := by
  unfold Walk.record
  rw [get_bind]
  cases limit with
  | none => exact .inr ⟨by simp, rfl⟩
  | some m =>
    by_cases hm : m ≤ s.trace.size
    · refine .inl ⟨m, rfl, hm, ?_⟩
      simp only [hm, decide_true, if_true]
      rfl
    · refine .inr ⟨fun k hk => by cases hk; omega, ?_⟩
      simp only [hm, decide_false]
      rfl

/-- A computation that leaves the trace as it is, however it ends: all that is said of the trace
stays true. -/
def Leaves {α : Type} (e : Walk α) : Prop :=
  ∀ P : Trace → Prop, Keeps (fun s => P s.trace) (fun s => P s.trace) e

namespace Leaves

theorem act {α : Type} (e : Effect α) : Leaves (Walk.act e) := by
  intro P s hs
  unfold Walk.act
  cases e s.world with
  | ok a w => exact hs
  | error x w => exact hs

theorem pure {α : Type} (a : α) : Leaves (Pure.pure a : Walk α) := fun _ => keeps_pure a

theorem bind {α β : Type} {e : Walk α} {f : α → Walk β} (he : Leaves e) (hf : ∀ a, Leaves (f a)) :
    Leaves (e >>= f) :=
  fun P => keeps_bind (he P) fun a => hf a P

theorem steps : Leaves Walk.steps := fun _ => keeps_bind keeps_get fun _ => keeps_pure _

theorem keep (v : Value) : Leaves (Walk.keep v) := fun _ _ hs => hs

variable (scope : ScopeId)

theorem test (ahead : Int) (condition : Option Node) :
    Leaves (Walk.test scope ahead condition) := by
  cases condition with
  | none => exact pure true
  | some node => exact steps.bind fun _ => (act _).bind fun _ => pure _

theorem evaluateAhead (ahead : Int) (node : Option Node) :
    Leaves (Walk.evaluateAhead scope ahead node) := by
  cases node with
  | none => exact pure ()
  | some node => exact steps.bind fun _ => (act _).bind fun _ => pure _

theorem declare (declarators : List Node) : Leaves (Walk.declare scope declarators) :=
  fun P => keeps_forM fun d _ => evaluateAhead scope 0 (some d) P

theorem enter (init : Option Node) : Leaves (Chronicle.enter scope init) := by
  unfold Chronicle.enter
  split
  · exact declare scope _
  · exact evaluateAhead scope 0 _

theorem giveBack (argument : Option Node) : Leaves (Chronicle.giveBack scope argument) := by
  cases argument with
  | none => exact keep .undefined
  | some node =>
    refine steps.bind fun _ => (act _).bind fun v => ?_
    dsimp only
    split
    · exact (act _).bind fun _ => keep v
    · exact keep v

end Leaves

end Chronicle
