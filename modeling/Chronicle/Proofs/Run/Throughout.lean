import Chronicle.Proofs.Evaluation.Throughout
import Chronicle.Proofs.Run.Lasting
import Chronicle.Proofs.Run.Watched

/-!
# What holds throughout a run

`Carries scope A B E now later`: statements carry the condition `A` on watched runs along, given that
evaluation keeps what is true once the step of the next entry is known (`now`), or while writes are
an entry ahead of the trace (`later`, and `B` after the last of them).  `E` is what is left at a
stop.  `walkAll_carried` goes through all forms of statements once for all such conditions.

A condition that is steady holds between statements at the end of a walk (`walk_keepsOn`), and what
is left of it when the walk stops holds of every state that the walk passes through
(`seen_throughout`): also in the midst of an expression, and while writes are an entry ahead of the
trace.
-/

set_option autoImplicit false

namespace Chronicle

/-- The start of a watched run in a state. -/
def Watched.from (s : RunState) : Watched := ⟨s, #[{ state := s }], rfl⟩

/-- A condition on watched runs between statements, those that it gives rise to within a statement,
and the one for a stopped run. -/
structure Carries (scope : ScopeId) (A B E : Watched → Prop) (now later : Int → Watched → Prop) :
    Prop where
  steps : Triple A (Watch.look Walk.steps) now fun _ => E
  admits : ∀ k, Admits scope k (now k) E
  admitsAhead : ∀ k, Admits scope (k + 1) (later k) E
  between : ∀ k w, now k w → A w
  turn : ∀ k w, now k w → later k w
  owed : ∀ k w, later k w → B w
  ahead : ∀ w, A w → B w
  stop : ∀ w, B w → E w
  record : ∀ limit location kind outcome,
    Triple B (Watch.look (Walk.record limit location kind outcome)) (fun _ => A) fun _ => E
  keep : ∀ v, Keeps A E (Watch.look (Walk.keep v))

namespace Carries

variable {scope : ScopeId} {A B E : Watched → Prop} {now later : Int → Watched → Prop}
variable (h : Carries scope A B E now later)
include h

theorem stop_now (w : Watched) (hw : A w) : E w :=
  h.stop w (h.ahead w hw)

/-! ## Parts of statements -/

theorem evaluate_now (k : Int) (node : Node) :
    Triple (now k) (Watch.evaluate scope k node) (fun _ => A) fun _ => E :=
  (evaluate_admitted (h.admits k) node).weaken (fun _ hw => hw) (fun _ => h.between k) fun _ _ hw => hw

theorem evaluate_later (k : Int) (node : Node) :
    Triple (now k) (Watch.evaluate scope (k + 1) node) (fun _ => B) fun _ => E :=
  (evaluate_admitted (h.admitsAhead k) node).weaken (h.turn k) (fun _ => h.owed k) fun _ _ hw => hw

theorem test (condition : Option Node) : Keeps A E (Watch.test scope 0 condition) := by
  cases condition with
  | none => exact keeps_pure _
  | some node =>
    refine h.steps.bind fun k => ?_
    rw [Int.add_zero]
    exact (h.evaluate_now k node).bind fun _ => keeps_pure _

theorem test_ahead (condition : Option Node) :
    Triple A (Watch.test scope 1 condition) (fun _ => B) fun _ => E := by
  cases condition with
  | none => exact h.ahead
  | some node =>
    exact h.steps.bind fun k => (h.evaluate_later k node).bind fun _ => keeps_pure _

theorem evaluateAhead (node : Option Node) : Keeps A E (Watch.evaluateAhead scope 0 node) := by
  cases node with
  | none => exact keeps_pure _
  | some node =>
    refine h.steps.bind fun k => ?_
    rw [Int.add_zero]
    exact (h.evaluate_now k node).bind fun _ => keeps_pure _

theorem evaluateAhead_later (node : Option Node) :
    Triple A (Watch.evaluateAhead scope 1 node) (fun _ => B) fun _ => E := by
  cases node with
  | none => exact h.ahead
  | some node =>
    exact h.steps.bind fun k => (h.evaluate_later k node).bind fun _ => keeps_pure _

theorem declare (declarators : List Node) : Keeps A E (Watch.declare scope declarators) :=
  keeps_forM fun d _ => h.evaluateAhead (some d)

theorem record_now (limit : Option Int) (location : Location) (kind : TraceKind)
    (outcome : Option Bool) :
    Keeps A E (Watch.look (Walk.record limit location kind outcome)) :=
  (h.record limit location kind outcome).weaken h.ahead (fun _ _ hw => hw) fun _ _ hw => hw

theorem enter (init : Option Node) : Keeps A E (Watch.enter scope init) := by
  unfold Watch.enter
  split
  · exact h.declare _
  · exact h.evaluateAhead _

theorem giveBack (argument : Option Node) : Keeps A E (Watch.giveBack scope argument) := by
  cases argument with
  | none => exact h.keep _
  | some node =>
    refine h.steps.bind fun k => Triple.bind (evaluate_admitted (h.admits k) node) fun v => ?_
    have hkeep : Triple (now k) (Watch.look (Walk.keep v)) (fun _ => A) fun _ => E :=
      (h.keep v).weaken (h.between k) (fun _ _ hw => hw) fun _ _ hw => hw
    dsimp only
    cases node.name? with
    | some name => exact Triple.bind ((h.admits k).assign name v none) fun _ => hkeep
    | none => exact hkeep

omit h in
/-- Rounds keep what one round keeps. -/
theorem rounds (hE : ∀ w, A w → E w) {round : Watch Bool} (hr : Keeps A E round) :
    ∀ fuel, Keeps A E (Watch.rounds round fuel)
  | 0 => keeps_throw hE _
  | fuel + 1 => by
    unfold Watch.rounds
    exact keeps_bind hr fun again => keeps_ite (rounds hE hr fuel) (keeps_pure _)

end Carries

/-! ## Statements -/

section
variable {scope : ScopeId} {A B E : Watched → Prop} {now later : Int → Watched → Prop}

mutual

/-- A statement carries a condition along that its parts do. -/
theorem walk_carried (h : Carries scope A B E now later) (limit : Option Int) :
    ∀ node : Node, Keeps A E (Watch.walk scope limit node)
  | .declaration _ _ declarators =>
    keeps_bind (h.record_now _ _ _ _) fun _ => h.declare declarators
  | .ifStatement _ condition consequent alternate =>
    (h.test_ahead (some condition)).bind fun _ => (h.record _ _ _ _).bind fun _ =>
      keeps_ite (walk_carried h limit consequent) (walkOption_carried h limit alternate)
  | .whileStatement _ condition body =>
    Carries.rounds h.stop_now
      ((h.test_ahead (some condition)).bind fun _ => (h.record _ _ _ _).bind fun _ =>
        keeps_ite (keeps_bind (walk_carried h limit body) fun _ => keeps_pure _) (keeps_pure _)) _
  | .forStatement _ init condition update body =>
    keeps_bind (h.record_now _ _ _ _) fun _ => keeps_bind (h.enter init) fun _ =>
      Carries.rounds h.stop_now
        (keeps_bind (h.test condition) fun _ => keeps_ite
          (keeps_bind (walk_carried h limit body) fun _ =>
            (h.evaluateAhead_later update).bind fun _ =>
              (h.record _ _ _ _).bind fun _ => keeps_pure _)
          (keeps_pure _)) _
  | .expressionStatement _ expression =>
    keeps_bind (h.record_now _ _ _ _) fun _ => h.evaluateAhead (some expression)
  | .returnStatement _ argument =>
    keeps_bind (h.record_now _ _ _ _) fun _ => h.giveBack argument
  | .continueStatement .. => h.record_now _ _ _ _
  | .block _ body => walkAll_carried h limit body
  | .program .. | .functionDeclaration .. | .declarator .. | .identifier .. | .thisValue ..
  | .literal .. | .array .. | .property .. | .object .. | .new .. | .update .. | .unary ..
  | .binary .. | .assignment .. | .member .. | .call .. | .functionExpression ..
  | .arrowFunction .. | .unsupported .. => keeps_throw h.stop_now _

theorem walkOption_carried (h : Carries scope A B E now later) (limit : Option Int) :
    ∀ node : Option Node, Keeps A E (Watch.walkOption scope limit node)
  | none => keeps_pure _
  | some node => walk_carried h limit node

theorem walkAll_carried (h : Carries scope A B E now later) (limit : Option Int) :
    ∀ nodes : List Node, Keeps A E (Watch.walkAll scope limit nodes)
  | [] => keeps_pure _
  | node :: rest =>
    keeps_bind (walk_carried h limit node) fun _ => walkAll_carried h limit rest

end

end

/-! ## Steady conditions -/

section
variable {scope : ScopeId} {A B E : RunState → Prop}

namespace SteadyOn

variable (h : SteadyOn (fun _ => True) scope A B E)
include h

/-- Evaluation at the current step. -/
theorem admits (k : Int) :
    Admits scope k (Watched.Throughout (fun s => k = s.trace.size ∧ A s) E)
      (Watched.Throughout E E) :=
  admits_throughout (fun s hs => h.stop_now s hs.2) h.triple_effect

/-- Evaluation one step ahead: the trace is still that of a state with `A`. -/
theorem admits_ahead (k : Int) :
    Admits scope (k + 1)
      (Watched.Throughout (fun s => ∃ w, k = s.trace.size ∧ A { s with world := w } ∧ B s) E)
      (Watched.Throughout E E) := by
  refine admits_throughout (fun s hs => ?_) fun he => triple_act fun s hs => ?_
  · obtain ⟨w, -, -, hB⟩ := hs
    exact h.stop hB
  · obtain ⟨w₀, rfl, hA, hB⟩ := hs
    have hlater := he _ _ (h.later (s := { s with world := w₀ }) hA)
    refine hlater.weaken (fun w hw => ?_) (fun _ w hw => ⟨w₀, rfl, hA, hw⟩) fun _ _ hw => hw
    rw [hw]
    exact hB

/-- Statements carry a steady condition along, and what is left of it at a stop holds of all that is
seen. -/
theorem carries :
    Carries scope (Watched.Throughout A E) (Watched.Throughout B E) (Watched.Throughout E E)
      (fun k => Watched.Throughout (fun s => k = s.trace.size ∧ A s) E)
      (fun k => Watched.Throughout
        (fun s => ∃ w, k = s.trace.size ∧ A { s with world := w } ∧ B s) E) where
  steps := triple_look triple_steps fun _ s hs => h.stop_now s hs.2
  admits := h.admits
  admitsAhead := h.admits_ahead
  between _ _ hw := hw.mono fun _ hs => hs.2
  turn _ _ hw := hw.mono fun s hs => ⟨s.world, hs.1, hs.2, h.ahead hs.2⟩
  owed _ _ hw := hw.mono fun _ ⟨_, _, _, hB⟩ => hB
  ahead _ hw := hw.mono fun _ => h.ahead
  stop _ hw := hw.mono fun _ => h.stop
  record limit location kind outcome :=
    triple_look (h.triple_record limit location kind outcome) fun _ => h.stop_now
  keep v := triple_look (h.keeps_keep v) fun _ => h.stop_now

end SteadyOn

/-- What is left of a steady condition holds of all states that a walk is seen in, when the
condition holds at its start. -/
theorem seen_throughout (h : SteadyOn (fun _ => True) scope A B E) (limit : Option Int)
    (body : List Node) {s : RunState} (hs : A s) :
    (stateAfter (Watch.walkAll scope limit body (.from s))).Throughout E E := by
  have hstart : (Watched.from s).Throughout A E := by
    refine ⟨hs, fun x hx => ?_⟩
    rw [Watched.from, List.mem_toArray, List.mem_singleton] at hx
    subst hx
    exact h.stop_now s hs
  have hk := walkAll_carried h.carries limit body _ hstart
  cases hr : Watch.walkAll scope limit body (.from s) with
  | ok _ w =>
    rw [hr] at hk
    exact hk.mono h.stop_now
  | error _ w =>
    rw [hr] at hk
    exact hk

end

end Chronicle
