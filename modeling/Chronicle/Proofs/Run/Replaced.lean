import Chronicle.Proofs.Evaluation.Replaced
import Chronicle.Proofs.Run.Lasting

/-!
# Constructs that are not interpreted, in runs

A statement goes as its replacement does, unless it is turned away (`walk_covers`), and so does a
run whose parameters are the same.  A construct that is not interpreted thus matters only when a run
reaches it: a run that completes, or fails for another reason, does not show what stands in its
place.
-/

set_option autoImplicit false

namespace Chronicle

open Walk

/-! ## Parts of statements -/

theorem covers_act {α : Type} {e e' : Effect α} (h : Covers e e') : Covers (act e) (act e') := by
  intro s
  unfold act
  rcases h s.world with h | h
  · cases hr : e s.world with
    | ok a w =>
      rw [hr] at h
      exact h.elim
    | error x w =>
      rw [hr] at h
      exact .inl h
  · rw [h]
    exact .inr rfl

/-- Rounds are covered like one round. -/
theorem covers_rounds {round round' : Walk Bool} (h : Covers round round') :
    ∀ fuel, Covers (rounds round fuel) (rounds round' fuel)
  | 0 => .refl _
  | fuel + 1 => by
    unfold rounds
    exact h.bind fun again => .ite (covers_rounds h fuel) (.refl _)

section
variable {scope : ScopeId} {limit : Option Int} {location : Location}

theorem covers_test {ahead : Int} {n n' : Option Node} (h : Node.ReplacedOption n n') :
    Covers (test scope ahead n) (test scope ahead n') := by
  cases h with
  | none => exact .refl _
  | some h => exact .after _ fun _ => (covers_act (evaluate_covers _ _ h)).before _

theorem covers_evaluateAhead {ahead : Int} {n n' : Option Node} (h : Node.ReplacedOption n n') :
    Covers (evaluateAhead scope ahead n) (evaluateAhead scope ahead n') := by
  cases h with
  | none => exact .refl _
  | some h => exact .after _ fun _ => (covers_act (evaluate_covers _ _ h)).before _

theorem covers_declare {l l' : List Node} (h : Node.ReplacedAll l l') :
    Covers (declare scope l) (declare scope l') := by
  unfold declare
  induction l generalizing l' with
  | nil =>
    cases h
    exact .refl _
  | cons node rest ih =>
    cases h with
    | cons h hrest => exact (covers_evaluateAhead (.some h)).bind fun _ => ih hrest

/-- A loop that starts with declarations keeps starting with them. -/
theorem covers_enter {init init' : Option Node} (h : Node.ReplacedOption init init') :
    Covers (enter scope init) (enter scope init') := by
  cases h with
  | none => exact .refl _
  | @some node node' h =>
    have hevaluate : Covers (evaluateAhead scope 0 (some node)) (evaluateAhead scope 0 (some node')) :=
      covers_evaluateAhead (.some h)
    cases h with
    | unsupported => exact fun _ => .inl rfl
    | same => exact .refl _
    | declaration hdeclarators => exact covers_declare hdeclarators
    | _ => exact hevaluate

/-- A variable that is given back is written once more, in both or in neither. -/
theorem covers_giveBack {argument argument' : Option Node}
    (h : Node.ReplacedOption argument argument') :
    Covers (giveBack scope argument) (giveBack scope argument') := by
  cases h with
  | none => exact .refl _
  | @some node node' h =>
    by_cases hn : node.isUnsupported = true
    · obtain ⟨l, form, text, rfl⟩ := Node.isUnsupported_iff.1 hn
      exact fun _ => .inl rfl
    · rw [Bool.not_eq_true] at hn
      simp only [giveBack, h.name?_eq hn]
      exact .after _ fun _ => (covers_act (evaluate_covers _ _ h)).before _

theorem covers_whileRound {condition condition' body body' : Node}
    (hcondition : condition.Replaced condition')
    (hbody : Covers (walk scope limit body) (walk scope limit body')) :
    Covers (whileRound scope limit location condition body)
      (whileRound scope limit location condition' body') :=
  (covers_test (.some hcondition)).bind fun _ => .after _ fun _ => .ite (hbody.before _) (.refl _)

theorem covers_forRound {condition condition' update update' : Option Node} {body body' : Node}
    (hcondition : Node.ReplacedOption condition condition')
    (hupdate : Node.ReplacedOption update update')
    (hbody : Covers (walk scope limit body) (walk scope limit body')) :
    Covers (forRound scope limit location condition update body)
      (forRound scope limit location condition' update' body') :=
  (covers_test hcondition).bind fun _ =>
    .ite (hbody.bind fun _ => (covers_evaluateAhead hupdate).before _) (.refl _)

end

/-! ## Statements -/

section
variable {scope : ScopeId} {limit : Option Int}

mutual

/-- A statement goes as its replacement does, unless it is turned away. -/
theorem walk_covers :
    ∀ n n' : Node, n.Replaced n' → Covers (walk scope limit n) (walk scope limit n')
  | .declaration .., _, h => by
    cases h with
    | same => exact .refl _
    | declaration hdeclarators => exact .after _ fun _ => covers_declare hdeclarators
  | .ifStatement _ _ consequent alternate, _, h => by
    cases h with
    | same => exact .refl _
    | ifStatement htest hconsequent halternate =>
      exact (covers_test (.some htest)).bind fun _ => .after _ fun _ =>
        .ite (walk_covers _ _ hconsequent) (walkOption_covers _ _ halternate)
  | .whileStatement _ _ body, _, h => by
    cases h with
    | same => exact .refl _
    | whileStatement htest hbody =>
      rw [walk_while, walk_while]
      exact covers_rounds (covers_whileRound htest (walk_covers _ _ hbody)) _
  | .forStatement _ _ _ _ body, _, h => by
    cases h with
    | same => exact .refl _
    | forStatement hinit htest hupdate hbody =>
      rw [walk_for, walk_for]
      exact .after _ fun _ => (covers_enter hinit).bind fun _ =>
        covers_rounds (covers_forRound htest hupdate (walk_covers _ _ hbody)) _
  | .expressionStatement .., _, h => by
    cases h with
    | same => exact .refl _
    | expressionStatement hexpression =>
      exact .after _ fun _ => covers_evaluateAhead (.some hexpression)
  | .returnStatement .., _, h => by
    cases h with
    | same => exact .refl _
    | returnStatement hargument =>
      rw [walk_return, walk_return]
      exact .after _ fun _ => covers_giveBack hargument
  | .continueStatement .., _, h => by
    cases h
    exact .refl _
  | .block _ body, _, h => by
    cases h with
    | same => exact .refl _
    | block hbody => exact walkAll_covers _ _ hbody
  | .program .., _, _ | .functionDeclaration .., _, _ | .declarator .., _, _ | .identifier .., _, _
  | .thisValue .., _, _ | .literal .., _, _ | .array .., _, _ | .property .., _, _
  | .object .., _, _ | .new .., _, _ | .update .., _, _ | .unary .., _, _ | .binary .., _, _
  | .assignment .., _, _ | .member .., _, _ | .call .., _, _ | .functionExpression .., _, _
  | .arrowFunction .., _, _ | .unsupported .., _, _ => .throw rfl _

theorem walkOption_covers :
    ∀ n n' : Option Node, Node.ReplacedOption n n' →
      Covers (walkOption scope limit n) (walkOption scope limit n')
  | none, _, h => by
    cases h
    exact .refl _
  | some node, _, h => by
    cases h with
    | some h => exact walk_covers _ _ h

theorem walkAll_covers :
    ∀ l l' : List Node, Node.ReplacedAll l l' →
      Covers (walkAll scope limit l) (walkAll scope limit l')
  | [], _, h => by
    cases h
    exact .refl _
  | node :: rest, _, h => by
    cases h with
    | cons h hrest => exact (walk_covers _ _ h).bind fun _ => walkAll_covers _ _ hrest

end

end

/-! ## Runs -/

/-- The located function with other statements for its body. -/
def LocatedFunction.withBody (f : LocatedFunction) (body : List Node) : LocatedFunction :=
  { f with function := { f.function with body } }

theorem run_covers (f : LocatedFunction) {body : List Node}
    (h : Node.ReplacedAll f.function.body body) (limit : Option Int) :
    Covers (f.run limit) ((f.withBody body).run limit) :=
  .after _ fun _ => walkAll_covers _ _ h

/-- A construct that is not interpreted matters only when a run reaches it.  Of two functions that
differ in what stands in the place of such constructs, the first may complete, or fail otherwise
than at a construct that is not interpreted; then the second ends in the same way, with the same
returned value, trace, values and histories. -/
theorem execute_replaced (t t' : TracedFunction) {body : List Node} {limit : Option Int}
    (h : Node.ReplacedAll t.located.function.body body) (ht' : t'.located = t.located.withBody body)
    (hend : (t.execute limit).1.status = .completed ∨
      ∃ e, (t.execute limit).1.failure = some e ∧ e.cause.isUnsupported = false) :
    let r := t.execute limit
    let r' := t'.execute limit
    r'.2 = r.2 ∧ r'.1.status = r.1.status ∧ r'.1.failure = r.1.failure ∧
      r'.1.returned = r.1.returned ∧ r'.1.trace = r.1.trace ∧ r'.1.world = r.1.world := by
  intro r r'
  have hcovers := run_covers t.located h limit {}
  rw [← ht'] at hcovers
  have hname : t'.located.name = t.located.name := by rw [ht']; rfl
  cases hr : t.located.run limit {} with
  | ok u s =>
    rw [hr] at hcovers
    have hr' := hcovers.resolve_left id
    simp only [r, r', TracedFunction.execute_of_ok hr, TracedFunction.execute_of_ok hr', and_self]
  | error x s =>
    cases x with
    | error e =>
      rw [hr] at hcovers
      have hsupported : e.cause.isUnsupported = false := by
        rw [TracedFunction.execute_of_error hr] at hend
        rcases hend with hc | ⟨e', he', hsupported⟩
        · cases hc
        · cases he'
          exact hsupported
      have hr' := hcovers.resolve_left fun hc => by
        rw [TurnedAway, Stop.turnsAway, hsupported] at hc
        cases hc
      simp only [r, r', TracedFunction.execute_of_error hr, TracedFunction.execute_of_error hr',
        hname, and_self]
    | fault f =>
      rw [TracedFunction.execute_of_fault hr] at hend
      rcases hend with hc | ⟨e', he', -⟩
      · cases hc
      · cases he'

/-- `if (false) …; let a = true;`, where `…` is the statement given. -/
def guarded (statement : Node) : TracedFunction where
  located := {
    name := "f"
    heap := {}
    params := []
    function := {
      location := .unknown
      id := none
      params := []
      bodyLocation := .unknown
      body := [
        .ifStatement ⟨1, 0, 1, 0⟩ (.literal .unknown (.boolean false) "false") statement none,
        .declaration ⟨2, 0, 2, 0⟩ "let" [.declarator .unknown (.identifier .unknown "a")
          (some (.literal .unknown (.boolean true) "true"))]] } }

/-- A loop that would never end may stand where a construct that is not interpreted is not
reached. -/
theorem execute_replaced_guarded :
    let unread := Node.unsupported .unknown "debugger_statement" "debugger;"
    let endless := Node.whileStatement .unknown (.literal .unknown (.boolean true) "true")
      (.block .unknown [])
    ((guarded unread).execute none).1.status = .completed ∧
      ((guarded endless).execute none).1.status = .completed ∧
      ((guarded endless).execute none).1.trace = ((guarded unread).execute none).1.trace := by
  intro unread endless
  have hcompleted : ((guarded unread).execute none).1.status = .completed := rfl
  have hbody : Node.ReplacedAll (guarded unread).located.function.body
      (guarded endless).located.function.body :=
    .cons (.ifStatement (.same _) (.unsupported _ _ _ _) .none) (.cons (.same _) .nil)
  obtain ⟨-, hstatus, -, -, htrace, -⟩ :=
    execute_replaced (guarded unread) (guarded endless) hbody rfl (.inl hcompleted)
  exact ⟨hcompleted, hstatus.trans hcompleted, htrace⟩

end Chronicle
