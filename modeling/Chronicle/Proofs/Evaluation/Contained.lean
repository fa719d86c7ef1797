import Chronicle.Proofs.Evaluation.Faults
import Chronicle.Proofs.Evaluation.Parts
import Chronicle.Proofs.Reading.Regular
import Chronicle.Proofs.Triple

/-!
# Stops of expressions

`Contained P e`: from a state with `P`, the computation `e` gives a result and keeps `P`, or stops
with an error of the run or a fault that no handler covers.  An expression with regular nodes does
so in every world (`evaluate_contained`): the missing names and wrong forms that could stop it
otherwise are not in a program that was read from a source.
-/

set_option autoImplicit false

namespace Chronicle

open Effect

/-- From a state with `P`, `e` keeps `P` or stops in a way that is allowed. -/
def Contained {σ α : Type} (P : σ → Prop) (e : EStateM Stop σ α) : Prop :=
  Triple P e (fun _ => P) fun x _ => x.Allowed

/-- An effect that stops, in whatever world, in no way that is not allowed. -/
abbrev Safe {α : Type} (e : Effect α) : Prop :=
  Contained (fun _ => True) e

section
variable {σ α β : Type} {P : σ → Prop}

namespace Contained

theorem pure (a : α) : Contained P (Pure.pure a) := fun _ hs => hs

theorem throw {x : Stop} (h : x.Allowed) : Contained P (MonadExcept.throw x : EStateM Stop σ α) :=
  fun _ _ => h

theorem bind {e : EStateM Stop σ α} {f : α → EStateM Stop σ β} (he : Contained P e)
    (hf : ∀ a, Contained P (f a)) : Contained P (e >>= f) :=
  Triple.bind he hf

theorem ite {c : Prop} [Decidable c] {e f : EStateM Stop σ α} (he : Contained P e)
    (hf : Contained P f) : Contained P (if c then e else f) := by
  by_cases h : c
  · rw [if_pos h]
    exact he
  · rw [if_neg h]
    exact hf

theorem forM {γ : Type} {f : γ → EStateM Stop σ PUnit} :
    ∀ {l : List γ}, (∀ x ∈ l, Contained P (f x)) → Contained P (l.forM f)
  | [], _ => pure _
  | x :: _, h =>
    bind (h x List.mem_cons_self) fun _ => forM fun y hy => h y (List.mem_cons_of_mem x hy)

end Contained

end

namespace Safe

/-! ## Reading and storing -/

theorem get_bind {α : Type} {f : World → Effect α} (hf : ∀ w, Safe (f w)) : Safe (get >>= f) :=
  fun w _ => hf w w trivial

theorem fail {α : Type} (cause : Cause) (location : Option Location) :
    Safe (Effect.fail cause location : Effect α) :=
  .throw trivial

theorem lift {α : Type} {e : Except Stop α} (he : Raises Stop.Allowed e) :
    Safe (Effect.lift e) := by
  cases e with
  | ok a => exact .pure a
  | error x => exact .throw (he x rfl)

theorem read {α : Type} {f : Heap → Except Fault α}
    (hf : ∀ h, Raises (fun x => x.isUnhandled = true) (f h)) : Safe (Effect.read f) := by
  refine get_bind fun w => ?_
  have he := hf w.heap
  cases hr : f w.heap with
  | ok a => exact .pure a
  | error x => exact .throw (he x hr)

theorem readText (v : Value) : Safe (Effect.read (·.text v)) :=
  read fun h => (h.text_raises v).mono fun _ hf => hf.isUnhandled

theorem note (n : Notice) : Safe (Effect.note n) := fun _ _ => trivial

theorem newSequence (items : List Value) : Safe (Effect.newSequence items) := fun _ _ => trivial

theorem newRecord (fields : Fields) : Safe (Effect.newRecord fields) := fun _ _ => trivial

/-! ## Variables -/

theorem writeOwn (id : ScopeId) (name : String) (v : Value) (step : Int) :
    Safe (Effect.writeOwn id name v step) := by
  refine get_bind fun w => ?_
  have hformat := w.heap.format_raises v
  cases hf : w.heap.format v with
  | ok text => exact fun _ _ => trivial
  | error f => exact fun _ _ => (hformat f hf).isUnhandled

theorem define (id : ScopeId) (name : String) (v : Value) (step : Int)
    (spec : Option ParameterSpec) : Safe (Effect.define id name v step spec) := by
  refine get_bind fun w => .ite (writeOwn id name v step) ?_
  have hformat := w.heap.format_raises v
  cases hf : w.heap.format v with
  | ok text => exact fun _ _ => trivial
  | error f => exact fun _ _ => (hformat f hf).isUnhandled

theorem assign (id : ScopeId) (name : String) (v : Value) (step : Int)
    (location : Option Location) : Safe (Effect.assign id name v step location) := by
  refine get_bind fun w => ?_
  cases w.scopes.owner? id name with
  | some i => exact writeOwn i name v step
  | none => exact .ite (define id name v step none) (fail _ _)

theorem valueOf (id : ScopeId) (name : String) (location : Option Location) :
    Safe (Effect.valueOf id name location) := by
  refine get_bind fun w => ?_
  cases w.scopes.lookup? id name with
  | some b => exact .pure b.value
  | none => exact fail _ _

theorem isBound (id : ScopeId) (name : String) : Safe (Effect.isBound id name) :=
  get_bind fun _ => .pure _

/-! ## Single steps -/

theorem recoverOperator (location : Location) {e : Except Stop Value}
    (he : Raises Stop.Allowed e) : Safe (Chronicle.recoverOperator location e) := by
  cases e with
  | ok v => exact .pure v
  | error x =>
    cases x with
    | error x => exact (note _).bind fun _ => .pure _
    | fault f => exact .throw (he _ rfl)

theorem applyBinary (symbol : String) (a b : Value) (location : Location) :
    Safe (Chronicle.applyBinary symbol a b location) :=
  get_bind fun w => recoverOperator location (w.heap.binary_raises symbol a b)

theorem applyUnary (symbol : String) (v : Value) (location : Location) :
    Safe (Chronicle.applyUnary symbol v location) :=
  get_bind fun w => recoverOperator location (w.heap.unary_raises symbol v)

theorem readProperty (receiver key : Value) (location : Location) :
    Safe (Chronicle.readProperty receiver key location) :=
  get_bind fun w => lift (w.heap.getProperty_raises receiver key _)

theorem writeProperty (receiver key v : Value) (location : Location) :
    Safe (Chronicle.writeProperty receiver key v location) :=
  get_bind fun w => (lift (w.heap.setProperty_raises receiver key v _)).bind fun _ _ _ => trivial

theorem updateVariable (scope : ScopeId) (name operator : String) (leading : Bool) (step : Int)
    (location : Location) :
    Safe (Chronicle.updateVariable scope name operator leading step location) := by
  refine (valueOf scope name _).bind fun v => ?_
  refine (read fun h => (h.toNumber_raises v).mono fun _ hf => hf.isUnhandled).bind fun old => ?_
  exact (read fun _ => stepNumber_raises operator old).bind fun new =>
    (assign scope name _ step _).bind fun _ => .pure _

theorem callGlobal (object method : String) (args : List Value) (location : Location) :
    Safe (Chronicle.callGlobal object method args location) := by
  refine get_bind fun w => (lift (Method.callGlobal_raises w.heap args object method _)).bind
    fun r => ?_
  cases r with
  | value v => exact .pure v
  | logged line => exact (note _).bind fun _ => .pure _

theorem showChange (scope : ScopeId) (step : Int) (object : Node) :
    Safe (Chronicle.showChange scope step object) := by
  unfold Chronicle.showChange
  cases object.sequenceOwner? with
  | none => exact .pure ()
  | some owner =>
    refine (isBound scope owner).bind fun bound => .ite ?_ (.pure ())
    exact (valueOf scope owner none).bind fun v => assign scope owner v step none

theorem callMethod (scope : ScopeId) (object : Node) (receiver : Value) (method : String)
    (args : List Value) (step : Int) (location : Location) :
    Safe (Chronicle.callMethod scope object receiver method args step location) := by
  rw [callMethod_eq]
  refine get_bind fun w => (lift (Method.call_raises w.heap args receiver method _)).bind
    fun r => ?_
  refine Contained.bind (fun _ _ => trivial) fun _ => ?_
  exact Contained.bind (.ite (showChange scope step object) (.pure ())) fun _ => .pure _

theorem compound (operator : String) (current : Value) {right : Effect Value} (hr : Safe right)
    (location : Location) : Safe (Chronicle.compound operator current right location) :=
  .ite hr (.ite (.pure _) (hr.bind fun v => applyBinary _ current v location))

/-! ## Parts of expressions -/

theorem propertyName {property : Node} (h : property.name?.isSome = true) :
    Safe (Chronicle.propertyName property) := by
  unfold Chronicle.propertyName
  obtain ⟨name, hname⟩ := Option.isSome_iff_exists.1 h
  rw [hname]
  exact .pure name

theorem keyOf {computed : Bool} {key : Effect Value} {property : Node} (hk : Safe key)
    (hp : computed = false → property.name?.isSome = true) :
    Safe (Chronicle.keyOf computed key property) := by
  cases computed with
  | true => exact hk
  | false => exact (propertyName (hp rfl)).bind fun _ => .pure _

theorem currentOf (operator : String) {current : Effect Value} (hc : Safe current) :
    Safe (Chronicle.currentOf operator current) :=
  .ite (.pure _) hc

theorem receiverOf (held : Value) : Safe (Chronicle.receiverOf held) :=
  .ite (newRecord []) (.pure held)

theorem asksUnbound (scope : ScopeId) (operator : String) (argument : Node) :
    Safe (Chronicle.asksUnbound scope operator argument) := by
  unfold Chronicle.asksUnbound
  cases argument.name? with
  | none => exact .pure _
  | some name => exact .ite ((isBound scope name).bind fun _ => .pure _) (.pure _)

theorem globalReceiver? (scope : ScopeId) (object : Node) :
    Safe (Chronicle.globalReceiver? scope object) := by
  unfold Chronicle.globalReceiver?
  cases object.name? with
  | none => exact .pure _
  | some name => exact (isBound scope name).bind fun _ => .ite (.pure _) (.pure _)

theorem fieldName {computed : Bool} {value : Effect Value} (hv : Safe value) (key : Node) :
    Safe (Chronicle.fieldName computed value key) := by
  refine .ite (hv.bind fun v => readText v) ?_
  cases key with
  | identifier _ name => exact .pure name
  | literal _ k _ => exact readText k
  | _ => exact fail _ _

theorem callOn (scope : ScopeId) (step : Int) (object : Node) (method : String)
    (location : Location) {receiver : Effect Value} {args : Effect (List Value)}
    (hr : Safe receiver) (ha : Safe args) :
    Safe (Chronicle.callOn scope step object method location receiver args) := by
  refine (globalReceiver? scope object).bind fun name? => ?_
  cases name? with
  | some name => exact ha.bind fun vs => callGlobal name method vs location
  | none => exact hr.bind fun r => ha.bind fun vs => callMethod scope object r method vs step _

end Safe

/-! ## Expressions -/

section
variable (scope : ScopeId) (step : Int)

mutual

/-- An expression with regular nodes stops, if it stops, in a way that is allowed. -/
theorem evaluate_contained :
    ∀ node : Node, node.Everywhere Node.Regular → Safe (evaluate scope step node)
  | .literal _ value _, _ => .pure value
  | .identifier location name, _ => Safe.valueOf scope name (some location)
  | .thisValue location, _ => Safe.valueOf scope thisName (some location)
  | .declarator _ target init, hn => by
    cases target with
    | identifier location name =>
      refine (evaluateOption_contained init fun c hc => hn.child ?_).bind fun v =>
        (Safe.define scope name v step none).bind fun _ => .pure _
      exact List.mem_cons_of_mem _ (Option.mem_toList.2 hc)
    | _ => exact Safe.fail _ _
  | .array _ elements, hn =>
    (evaluateElements_contained elements hn.children).bind fun vs => Safe.newSequence vs
  | .object _ properties, hn =>
    (evaluateProperties_contained properties hn.children []).bind fun fields =>
      Safe.newRecord fields
  | .new _ callee [], _ => Safe.newRecord []
  | .new _ callee [argument], hn => by
    simp only [evaluate]
    split
    · refine (evaluate_contained argument (hn.child (by simp [Node.children]))).bind fun size =>
        (Safe.read fun _ => sequenceLength?_raises size).bind fun length => ?_
      cases length with
      | none => exact Safe.fail _ _
      | some n => exact Safe.newSequence _
    · exact Safe.fail _ _
  | .new _ callee (_ :: _ :: _), _ => Safe.fail _ _
  | .update location operator leading argument, _ => by
    cases argument with
    | identifier _ name => exact Safe.updateVariable scope name operator leading step location
    | _ => exact Safe.fail _ _
  | .unary location operator argument, hn => by
    rw [evaluate_unary]
    refine (Safe.asksUnbound scope operator argument).bind fun unbound => ?_
    cases unbound with
    | true => exact .pure _
    | false =>
      exact (evaluate_contained argument (hn.child (by simp [Node.children]))).bind fun v =>
        Safe.applyUnary operator v location
  | .binary location operator left right, hn => by
    have hleft := evaluate_contained left (hn.child (by simp [Node.children]))
    have hright := evaluate_contained right (hn.child (by simp [Node.children]))
    exact hleft.bind fun a => .ite (.pure a)
      (hright.bind fun b => Safe.applyBinary operator a b location)
  | .assignment location operator left right, hn => by
    have hright := evaluate_contained right (hn.child (by simp [Node.children]))
    cases left with
    | identifier targetLocation name =>
      rw [evaluate_assign_name]
      refine (Safe.currentOf operator (Safe.valueOf scope name _)).bind fun current => ?_
      exact (Safe.compound operator current hright location).bind fun v =>
        (Safe.assign scope name v step _).bind fun _ => .pure v
    | member targetLocation object property computed =>
      cases howner : object.receiverName? with
      | none =>
        simp only [evaluate, howner]
        exact Safe.fail _ _
      | some owner =>
        have hmember := hn.child (c := .member targetLocation object property computed)
          (by simp [Node.children])
        have hkey := evaluate_contained property (hmember.child (by simp [Node.children]))
        have hname : computed = false → property.name?.isSome = true := by
          rintro rfl
          exact hmember.here
        rw [evaluate_assign_member _ _ _ _ _ _ _ _ _ howner]
        refine (Safe.valueOf scope owner _).bind fun held => ?_
        refine (Safe.receiverOf held).bind fun receiver => ?_
        refine (Safe.keyOf hkey hname).bind fun key => ?_
        refine (Safe.currentOf operator (Safe.readProperty receiver key _)).bind fun current => ?_
        refine (Safe.compound operator current hright location).bind fun v => ?_
        exact (Safe.writeProperty receiver key v _).bind fun _ =>
          (Safe.assign scope owner receiver step _).bind fun _ => .pure v
    | _ => exact Safe.fail _ _
  | .member location object property computed, hn => by
    have hobject := evaluate_contained object (hn.child (by simp [Node.children]))
    have hproperty := evaluate_contained property (hn.child (by simp [Node.children]))
    have hname : computed = false → property.name?.isSome = true := by
      rintro rfl
      exact hn.here
    rw [evaluate_member]
    exact hobject.bind fun receiver => (Safe.keyOf hproperty hname).bind fun key =>
      Safe.readProperty receiver key location
  | .call location callee arguments, hn => by
    cases callee with
    | member calleeLocation object property computed =>
      cases computed with
      | true => exact Safe.fail _ _
      | false =>
        have hmember := hn.child (c := .member calleeLocation object property false)
          (by simp [Node.children])
        have hobject := evaluate_contained object (hmember.child (by simp [Node.children]))
        have harguments := evaluateAll_contained arguments fun c hc =>
          hn.child (List.mem_cons_of_mem _ hc)
        rw [evaluate_call]
        exact (Safe.propertyName hmember.here).bind fun method =>
          .ite (Safe.fail _ _) (Safe.callOn scope step object method location hobject harguments)
    | _ => exact Safe.fail _ _
  | .program .., _ | .block .., _ | .functionDeclaration .., _ | .declaration .., _
  | .ifStatement .., _ | .whileStatement .., _ | .forStatement .., _
  | .expressionStatement .., _ | .returnStatement .., _ | .continueStatement .., _
  | .property .., _ | .functionExpression .., _ | .arrowFunction .., _ | .unsupported .., _ =>
    Safe.fail _ _

theorem evaluateOption_contained :
    ∀ node : Option Node, (∀ n, node = some n → n.Everywhere Node.Regular) →
      Safe (evaluateOption scope step node)
  | none, _ => .pure _
  | some node, hn => evaluate_contained node (hn node rfl)

theorem evaluateAll_contained :
    ∀ nodes : List Node, Node.AllEverywhere Node.Regular nodes →
      Safe (evaluateAll scope step nodes)
  | [], _ => .pure []
  | node :: rest, hn =>
    (evaluate_contained node hn.head).bind fun v =>
      (evaluateAll_contained rest hn.tail).bind fun vs => .pure (v :: vs)

theorem evaluateElements_contained :
    ∀ elements : List (Option Node),
      Node.AllEverywhere Node.Regular (elements.flatMap Option.toList) →
      Safe (evaluateElements scope step elements)
  | [], _ => .pure []
  | element :: rest, hn => by
    rw [List.flatMap_cons] at hn
    have helement := evaluateOption_contained element fun n he =>
      hn n (List.mem_append_left _ (Option.mem_toList.2 he))
    have hrest := evaluateElements_contained rest fun n he => hn n (List.mem_append_right _ he)
    exact helement.bind fun v => hrest.bind fun vs => .pure (v :: vs)

theorem evaluateProperties_contained :
    ∀ properties : List Node, Node.AllEverywhere Node.Regular properties →
      ∀ fields : Fields, Safe (evaluateProperties scope step fields properties)
  | [], _, fields => .pure fields
  | node :: rest, hn, fields => by
    have hrest := evaluateProperties_contained rest hn.tail
    by_cases hfield : ∃ l key value computed shorthand,
        node = .property l key (some value) "init" computed shorthand
    · obtain ⟨l, key, value, computed, shorthand, rfl⟩ := hfield
      have hvalue := evaluate_contained value (hn.head.child (by simp [Node.children]))
      have hkey := evaluate_contained key (hn.head.child (by simp [Node.children]))
      rw [evaluateProperties_cons]
      exact hvalue.bind fun v => (Safe.fieldName hkey key).bind fun name => hrest _
    · have hskip : ∀ l key value computed shorthand,
          node ≠ .property l key (some value) "init" computed shorthand :=
        fun l k v c s he => hfield ⟨l, k, v, c, s, he⟩
      rw [evaluateProperties_skip _ _ _ _ hskip]
      exact hrest fields

end

end

end Chronicle
