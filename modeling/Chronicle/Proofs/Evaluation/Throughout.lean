import Chronicle.Proofs.Evaluation.Lasting
import Chronicle.Proofs.Evaluation.Watched

/-!
# What holds throughout evaluation

`Admits scope step A E`: the condition `A` on watched runs survives each single thing that evaluation
in `scope` does at `step`, and `E` is what is left of it at a stop.  A call and the write that shows
it count as one, and so do an assignment to a property and the write of its receiver's variable: `A`
need not hold between the two.  Evaluation of an expression keeps such a condition
(`evaluate_admitted`).

`Watched.Throughout A E w`: the condition `A` holds of the run now, and `E` of all states that it has
been seen in.  When single effects keep `A`, and leave `E` when they stop, evaluation keeps `A`
throughout `E` (`admits_throughout`): so a condition that lasts over single writes holds of every
state that evaluation passes through, not of its end alone.
-/

set_option autoImplicit false

namespace Chronicle

/-! ## Conditions on watched runs -/

/-- A condition on watched runs that evaluation in a scope at a step keeps, and what is left of it at
a stop. -/
structure Admits (scope : ScopeId) (step : Int) (A E : Watched → Prop) : Prop where
  stop : ∀ w, A w → E w
  given : ∀ w v, A w → A (Watch.see w w.state (some v))
  calm : ∀ {α : Type} {e : Effect α}, (∀ P Q, Calm P Q → Keeps P Q e) → Keeps A E (Watch.effect e)
  define : ∀ name v, Keeps A E (Watch.effect (Effect.define scope name v step none))
  assign : ∀ name v location, Keeps A E (Watch.effect (Effect.assign scope name v step location))
  update : ∀ name operator leading location,
    Keeps A E (Watch.effect (updateVariable scope name operator leading step location))
  callMethod : ∀ object receiver method args location,
    Keeps A E (Watch.callMethod scope step object receiver method args location)
  writeMember : ∀ {object : Node} {owner : String}, object.receiverName? = some owner →
    ∀ receiver key v location,
      Keeps A E (Watch.writeMember scope step object owner receiver key v location)

namespace Admits

variable {scope : ScopeId} {step : Int} {A E : Watched → Prop} (h : Admits scope step A E)
include h

/-- The value of an expression is seen in the state that the expression leaves. -/
theorem giving {e : Watch Value} (he : Keeps A E e) : Keeps A E (Watch.giving e) := by
  intro w hw
  have hr := he w hw
  unfold Watch.giving
  cases hew : e w with
  | ok v w' =>
    rw [hew] at hr
    exact h.given w' v hr
  | error x w' =>
    rw [hew] at hr
    exact hr

theorem fail {α : Type} (cause : Cause) (location : Option Location) :
    Keeps A E (Watch.effect (Effect.fail cause location : Effect α)) :=
  h.calm fun _ _ hP => hP.keeps_fail cause location

/-! ## Parts of expressions -/

theorem keyOf (computed : Bool) {key : Watch Value} (hk : Keeps A E key) (property : Node) :
    Keeps A E (Watch.keyOf computed key property) :=
  keeps_ite hk (h.calm fun _ _ hP => hP.keeps_keyOf (keeps_pure _) property)

theorem compound (operator : String) (current : Value) {right : Watch Value}
    (hr : Keeps A E right) (location : Location) :
    Keeps A E (Watch.compound operator current right location) :=
  keeps_ite hr <| keeps_ite (keeps_pure _) <|
    keeps_bind hr fun _ => h.calm fun _ _ hP => hP.keeps_applyBinary _ _ _ _

theorem fieldName (computed : Bool) {value : Watch Value} (hv : Keeps A E value) (key : Node) :
    Keeps A E (Watch.fieldName computed value key) :=
  keeps_ite (keeps_bind hv fun _ => h.calm fun _ _ hP => hP.keeps_read _)
    (h.calm fun _ _ hP => hP.keeps_fieldName (keeps_pure _) key)

theorem callOn (object : Node) (method : String) (location : Location) {receiver : Watch Value}
    {args : Watch (List Value)} (hr : Keeps A E receiver) (ha : Keeps A E args) :
    Keeps A E (Watch.callOn scope step object method location receiver args) := by
  refine keeps_bind (h.calm fun _ _ _ => keeps_globalReceiver? object) fun name? => ?_
  cases name? with
  | some name => exact keeps_bind ha fun _ => h.calm fun _ _ hP => hP.keeps_callGlobal _ _ _ _
  | none =>
    exact keeps_bind hr fun r => keeps_bind ha fun vs => h.callMethod object r method vs location

end Admits

/-! ## Expressions -/

section
variable {scope : ScopeId} {step : Int} {A E : Watched → Prop}

mutual

/-- Evaluation of an expression keeps what its single effects keep. -/
theorem evaluate_admitted (h : Admits scope step A E) :
    ∀ node : Node, Keeps A E (Watch.evaluate scope step node)
  | .declarator _ target init => by
    cases target with
    | identifier _ name =>
      exact h.giving <| keeps_bind (evaluateOption_admitted h init) fun v =>
        keeps_bind (h.define name v) fun _ => keeps_pure _
    | _ => exact h.giving (h.fail _ _)
  | .array _ elements =>
    h.giving <| keeps_bind (evaluateElements_admitted h elements) fun vs =>
      h.calm fun _ _ hP => hP.keeps_newSequence vs
  | .object _ properties =>
    h.giving <| keeps_bind (evaluateProperties_admitted h properties []) fun fields =>
      h.calm fun _ _ hP => hP.keeps_newRecord fields
  | .new _ callee [] => h.giving (h.calm fun _ _ hP => hP.keeps_newRecord _)
  | .new _ callee [argument] => by
    refine h.giving (keeps_ite ?_ (h.fail _ _))
    refine keeps_bind (evaluate_admitted h argument) fun size => ?_
    refine keeps_bind (h.calm fun _ _ hP => hP.keeps_read _) fun length => ?_
    cases length with
    | some n => exact h.calm fun _ _ hP => hP.keeps_newSequence _
    | none => exact h.fail _ _
  | .new _ callee (_ :: _ :: _) => h.giving (h.fail _ _)
  | .unary location operator argument =>
    h.giving <|
      keeps_bind (h.calm fun _ _ _ => keeps_asksUnbound operator argument) fun _ =>
        keeps_ite (keeps_pure _) <| keeps_bind (evaluate_admitted h argument) fun v =>
          h.calm fun _ _ hP => hP.keeps_applyUnary operator v location
  | .binary location operator left right =>
    h.giving <| keeps_bind (evaluate_admitted h left) fun a =>
      keeps_ite (keeps_pure _) <| keeps_bind (evaluate_admitted h right) fun b =>
        h.calm fun _ _ hP => hP.keeps_applyBinary operator a b location
  | .assignment location operator left right => by
    cases left with
    | identifier targetLocation name =>
      refine h.giving (keeps_bind (h.calm fun _ _ hP =>
        keeps_currentOf operator (hP.keeps_valueOf name _)) fun current => ?_)
      refine keeps_bind (h.compound operator current (evaluate_admitted h right) location)
        fun v => ?_
      exact keeps_bind (h.assign name v _) fun _ => keeps_pure v
    | member targetLocation object property computed =>
      refine h.giving ?_
      cases howner : object.receiverName? with
      | none => exact h.fail _ _
      | some owner =>
        refine keeps_bind (h.calm fun _ _ hP => hP.keeps_valueOf owner _) fun held => ?_
        refine keeps_bind (h.calm fun _ _ hP => hP.keeps_receiverOf held) fun receiver => ?_
        refine keeps_bind (h.keyOf computed (evaluate_admitted h property) property) fun key => ?_
        refine keeps_bind (h.calm fun _ _ hP => keeps_currentOf operator
          (hP.keeps_readProperty receiver key targetLocation)) fun current => ?_
        exact keeps_bind (h.compound operator current (evaluate_admitted h right) location)
          fun v => h.writeMember howner receiver key v targetLocation
    | _ => exact h.giving (h.fail _ _)
  | .member location object property computed =>
    h.giving <| keeps_bind (evaluate_admitted h object) fun receiver =>
      keeps_bind (h.keyOf computed (evaluate_admitted h property) property) fun key =>
        h.calm fun _ _ hP => hP.keeps_readProperty receiver key location
  | .call location callee arguments => by
    cases callee with
    | member calleeLocation object property computed =>
      cases computed with
      | true => exact h.giving (h.fail _ _)
      | false =>
        refine h.giving (keeps_bind (h.calm fun _ _ hP =>
          hP.keeps_propertyName property) fun method => keeps_ite ?_ ?_)
        · exact h.fail _ _
        · exact h.callOn object method location (evaluate_admitted h object)
            (evaluateAll_admitted h arguments)
    | _ => exact h.giving (h.fail _ _)
  | .literal .. => h.giving (h.calm fun _ _ _ => keeps_pure _)
  | .identifier .. | .thisValue .. => h.giving (h.calm fun _ _ hP => hP.keeps_valueOf _ _)
  | .update location operator leading argument => by
    cases argument with
    | identifier _ name => exact h.giving (h.update name operator leading location)
    | _ => exact h.giving (h.fail _ _)
  | .program .. | .block .. | .functionDeclaration .. | .declaration .. | .ifStatement ..
  | .whileStatement .. | .forStatement .. | .expressionStatement .. | .returnStatement ..
  | .continueStatement .. | .property .. | .functionExpression .. | .arrowFunction ..
  | .unsupported .. => h.giving (h.fail _ _)

theorem evaluateOption_admitted (h : Admits scope step A E) :
    ∀ node : Option Node, Keeps A E (Watch.evaluateOption scope step node)
  | none => keeps_pure _
  | some node => evaluate_admitted h node

theorem evaluateAll_admitted (h : Admits scope step A E) :
    ∀ nodes : List Node, Keeps A E (Watch.evaluateAll scope step nodes)
  | [] => keeps_pure _
  | node :: rest =>
    keeps_bind (evaluate_admitted h node) fun _ =>
      keeps_bind (evaluateAll_admitted h rest) fun _ => keeps_pure _

theorem evaluateElements_admitted (h : Admits scope step A E) :
    ∀ elements : List (Option Node),
      Keeps A E (Watch.evaluateElements scope step elements)
  | [] => keeps_pure _
  | element :: rest =>
    keeps_bind (evaluateOption_admitted h element) fun _ =>
      keeps_bind (evaluateElements_admitted h rest) fun _ => keeps_pure _

theorem evaluateProperties_admitted (h : Admits scope step A E) :
    ∀ (properties : List Node) (fields : Fields),
      Keeps A E (Watch.evaluateProperties scope step fields properties)
  | [], _ => keeps_pure _
  | node :: rest, fields => by
    by_cases hfield : ∃ l key value computed shorthand,
        node = .property l key (some value) "init" computed shorthand
    · obtain ⟨l, key, value, computed, shorthand, rfl⟩ := hfield
      exact keeps_bind (evaluate_admitted h value) fun v =>
        keeps_bind (h.fieldName computed (evaluate_admitted h key) key) fun name =>
          evaluateProperties_admitted h rest _
    · have hskip : ∀ l key value computed shorthand,
          node ≠ .property l key (some value) "init" computed shorthand :=
        fun l k v c s he => hfield ⟨l, k, v, c, s, he⟩
      rw [Watch.evaluateProperties_skip _ _ _ _ hskip]
      exact evaluateProperties_admitted h rest fields

end

end

/-! ## Conditions on all states seen -/

/-- `A` holds of a watched run now, and `E` of all states that it has been seen in. -/
structure Watched.Throughout (A E : RunState → Prop) (w : Watched) : Prop where
  now : A w.state
  seen : ∀ x ∈ w.seen, E x.state

/-- A watched computation keeps `A` throughout `E`. -/
abbrev KeepsThroughout {α : Type} (A E : RunState → Prop) (e : Watch α) : Prop :=
  Keeps (Watched.Throughout A E) (Watched.Throughout E E) e

section
variable {α : Type} {A E : RunState → Prop}

theorem Watched.Throughout.mono {B : RunState → Prop} {w : Watched} (h : w.Throughout A E)
    (hAB : ∀ s, A s → B s) : w.Throughout B E :=
  ⟨hAB _ h.now, h.seen⟩

theorem Watched.Throughout.see {B : RunState → Prop} {w : Watched} (h : w.Throughout A E)
    {s : RunState} (hB : B s) (hE : E s) (value? : Option Value) (change? : Option Change) :
    (Watch.see w s value? change?).Throughout B E where
  now := hB
  seen x hx := by
    rcases Array.mem_push.1 hx with hx | rfl
    · exact h.seen x hx
    · exact hE

/-- A single step shows the state that it leaves. -/
theorem triple_look {Q : α → RunState → Prop} {e : Walk α} (he : Triple A e Q fun _ => E)
    (hE : ∀ a s, Q a s → E s) (change? : Option Change := none) :
    Triple (Watched.Throughout A E) (Watch.look e change?)
      (fun a => Watched.Throughout (Q a) E) fun _ => Watched.Throughout E E := by
  intro w hw
  have h := he w.state hw.now
  unfold Watch.look
  cases hr : e w.state with
  | ok a s =>
    rw [hr] at h
    exact hw.see h (hE a s h) none change?
  | error x s =>
    rw [hr] at h
    exact hw.see h h none none

/-- What single effects keep, and leave at a stop, evaluation keeps throughout. -/
theorem admits_throughout {scope : ScopeId} {step : Int} (hstop : ∀ s, A s → E s)
    (hact : ∀ {α : Type} {e : Effect α},
      (∀ P Q, LastingOn (fun _ => True) scope step P Q → Keeps P Q e) → Keeps A E (Walk.act e)) :
    Admits scope step (Watched.Throughout A E) (Watched.Throughout E E) := by
  have heffect : ∀ {α : Type} {e : Effect α},
      (∀ P Q, LastingOn (fun _ => True) scope step P Q → Keeps P Q e) →
      KeepsThroughout A E (Watch.effect e) :=
    fun he => triple_look (hact he) fun _ => hstop
  have hchange : ∀ {α : Type} (receiver : Node) {e : Effect α},
      (∀ P Q, LastingOn (fun _ => True) scope step P Q → Keeps P Q e) →
      KeepsThroughout A E (Watch.change receiver e) :=
    fun receiver _ he w => triple_look (hact he) (fun _ => hstop) _ w
  exact {
    stop := fun _ hw => hw.mono hstop
    given := fun w v hw => hw.see hw.now (hstop _ hw.now) (some v) none
    calm := fun he => heffect fun P Q hP => he P Q hP.calm
    define := fun name v => heffect fun _ _ hP => hP.keeps_define trivial v
    assign := fun name v location => heffect fun _ _ hP => hP.keeps_assign trivial v location
    update := fun name operator leading location =>
      heffect fun _ _ hP => hP.keeps_updateVariable trivial operator leading location
    callMethod := fun object receiver method args location => by
      refine keeps_bind (hchange object fun _ _ hP => hP.keeps_set_of_lift
        (fun _ _ he => (grows_call he).evolves) fun _ => keeps_pure _) fun v => ?_
      refine keeps_bind (heffect fun _ _ hP => ?_) fun _ => keeps_pure v
      exact keeps_ite (hP.keeps_showChange fun _ _ => trivial) (keeps_pure ())
    writeMember := fun {object owner} _ receiver key v location => by
      refine keeps_bind (hchange object fun _ _ hP =>
        hP.keeps_writeProperty receiver key v location) fun _ => ?_
      exact keeps_bind (heffect fun _ _ hP => hP.keeps_assign trivial receiver _)
        fun _ => keeps_pure v }

end

end Chronicle
