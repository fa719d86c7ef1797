import Chronicle.Proofs.Evaluation.Parts
import Chronicle.Proofs.Triple

/-!
# Watched evaluation

What a run passes through does not show in its end.  A watched run (`Watch`) carries along all that
has been seen of it (`Sight`): its state after every single step, every value that an expression has
given, and every change that a call or an assignment to a property has made, with the receiver as it
is written.  `look` makes a step of one computation, `giving` marks the value of an expression and
`change` a change; everything else is put together from these.

`Shows e' e`: apart from what is seen, `e'` is `e`.  There is one rule for each way of putting
computations together, and `evaluate_shows` goes by them through all forms of expressions.
-/

set_option autoImplicit false

namespace Chronicle

/-- What a call or an assignment has just done to the heap: the expression that its receiver is
given by, and the heap before. -/
structure Change where
  receiver : Node
  before : Heap

/-- What is seen at one point: the state of the run, the value that an expression gives there, and
the change that led there. -/
structure Sight where
  state : RunState
  value? : Option Value := none
  change? : Option Change := none

/-- A run and what has been seen of it, in order: its state has been seen last. -/
structure Watched where
  state : RunState
  seen : Array Sight
  current : seen.back?.map Sight.state = some state

/-- The start of a watched run. -/
def Watched.start : Watched := ⟨{}, #[{ state := {} }], rfl⟩

/-- A computation on a watched run. -/
abbrev Watch (α : Type) := EStateM Stop Watched α

namespace Watch

/-- The run goes on to a state, which is seen. -/
def see (w : Watched) (s : RunState) (value? : Option Value := none)
    (change? : Option Change := none) : Watched :=
  ⟨s, w.seen.push ⟨s, value?, change?⟩, by rw [Array.back?_push]; rfl⟩

/-- A single step, with the change that it is if it gives a result. -/
def look {α : Type} (e : Walk α) (change? : Option Change := none) : Watch α := fun w =>
  match e w.state with
  | .ok a s => .ok a (see w s none change?)
  | .error x s => .error x (see w s)

/-- A single step on the world of the run. -/
def effect {α : Type} (e : Effect α) : Watch α :=
  look (Walk.act e)

/-- A single step that may change sequences and records through a receiver. -/
def change {α : Type} (receiver : Node) (e : Effect α) : Watch α := fun w =>
  look (Walk.act e) (some ⟨receiver, w.state.world.heap⟩) w

/-- The value of an expression, which is seen. -/
def giving (e : Watch Value) : Watch Value := fun w =>
  match e w with
  | .ok v w' => .ok v (see w' w'.state (some v))
  | .error x w' => .error x w'

end Watch

/-! ## Forgetting what was seen -/

/-- The end of a watched run without what was seen. -/
def Watched.forget {α : Type} : EStateM.Result Stop Watched α → EStateM.Result Stop RunState α
  | .ok a w => .ok a w.state
  | .error x w => .error x w.state

/-- Apart from what is seen, `e'` is `e`. -/
def Shows {α : Type} (e' : Watch α) (e : Walk α) : Prop :=
  ∀ w, Watched.forget (e' w) = e w.state

namespace Shows

variable {α β : Type}

theorem look (e : Walk α) (change? : Option Change := none) : Shows (Watch.look e change?) e := by
  intro w
  unfold Watch.look
  cases e w.state <;> rfl

theorem effect (e : Effect α) : Shows (Watch.effect e) (Walk.act e) := look _

theorem change (receiver : Node) (e : Effect α) : Shows (Watch.change receiver e) (Walk.act e) :=
  fun w => look (Walk.act e) _ w

theorem pure (a : α) : Shows (Pure.pure a) (Pure.pure a) := fun _ => rfl

theorem throw (x : Stop) : Shows (MonadExcept.throw x : Watch α) (MonadExcept.throw x) :=
  fun _ => rfl

theorem bind {e' : Watch α} {e : Walk α} {f' : α → Watch β} {f : α → Walk β} (he : Shows e' e)
    (hf : ∀ a, Shows (f' a) (f a)) : Shows (e' >>= f') (e >>= f) := by
  intro w
  have h := he w
  cases hr : e' w with
  | ok a w' =>
    rw [hr] at h
    rw [bind_of_ok hr, bind_of_ok h.symm]
    exact hf a w'
  | error x w' =>
    rw [hr] at h
    rw [bind_of_error hr, bind_of_error h.symm]
    rfl

theorem ite {c : Prop} [Decidable c] {e' f' : Watch α} {e f : Walk α} (he : Shows e' e)
    (hf : Shows f' f) : Shows (if c then e' else f') (if c then e else f) := by
  by_cases h : c
  · rw [if_pos h, if_pos h]
    exact he
  · rw [if_neg h, if_neg h]
    exact hf

theorem forM {γ : Type} {f' : γ → Watch PUnit} {f : γ → Walk PUnit} (h : ∀ x, Shows (f' x) (f x)) :
    ∀ l : List γ, Shows (l.forM f') (l.forM f)
  | [] => pure _
  | x :: l => (h x).bind fun _ => forM h l

theorem giving {e' : Watch Value} {e : Walk Value} (he : Shows e' e) :
    Shows (Watch.giving e') e := by
  intro w
  rw [← he w]
  unfold Watch.giving
  cases e' w <;> rfl

/-! ## Effects in order -/

theorem act_bind (e : Effect α) (f : α → Effect β) :
    Walk.act (e >>= f) = Walk.act e >>= fun a => Walk.act (f a) := by
  funext s
  show Walk.act (EStateM.bind e f) s = EStateM.bind (Walk.act e) (fun a => Walk.act (f a)) s
  unfold Walk.act EStateM.bind
  dsimp only
  cases e s.world <;> rfl

/-- Two effects one after the other. -/
theorem andThen {e' : Watch α} {e : Effect α} {f' : α → Watch β} {f : α → Effect β}
    (he : Shows e' (Walk.act e)) (hf : ∀ a, Shows (f' a) (Walk.act (f a))) :
    Shows (e' >>= f') (Walk.act (e >>= f)) := by
  rw [act_bind]
  exact he.bind hf

theorem result (a : α) : Shows (Pure.pure a) (Walk.act (Pure.pure a)) := pure a

theorem iteAct {c : Prop} [Decidable c] {e' f' : Watch α} {e f : Effect α}
    (he : Shows e' (Walk.act e)) (hf : Shows f' (Walk.act f)) :
    Shows (if c then e' else f') (Walk.act (if c then e else f)) := by
  by_cases h : c
  · rw [if_pos h, if_pos h]
    exact he
  · rw [if_neg h, if_neg h]
    exact hf

end Shows

/-! ## Parts of expressions -/

/-- The call of a method alone. -/
def invoke (receiver : Value) (method : String) (args : List Value) (location : Location) :
    Effect Value := do
  let w ← get
  let r ← Effect.lift (Method.call w.heap receiver method args (some location))
  set { w with heap := r.2 }
  return r.1

/-- The history of a sequence that a method was called on. -/
def showCall (scope : ScopeId) (step : Int) (object : Node) (receiver : Value) : Effect Unit :=
  if receiver.kind == .sequence then showChange scope step object else pure ()

/-- A method is called, then the change is shown. -/
theorem callMethod_eq_invoke (scope : ScopeId) (step : Int) (location : Location) (object : Node)
    (receiver : Value) (method : String) (args : List Value) :
    callMethod scope object receiver method args step location = (do
      let v ← invoke receiver method args location
      showCall scope step object receiver
      return v) := by
  rw [callMethod_eq]
  simp only [invoke, showCall, bind_assoc, pure_bind]

namespace Watch

open Effect

/-- The key of a property. -/
def keyOf (computed : Bool) (key : Watch Value) (property : Node) : Watch Value :=
  if computed then key else effect (Chronicle.keyOf false (pure .undefined) property)

/-- The value that an assignment writes. -/
def compound (operator : String) (current : Value) (right : Watch Value) (location : Location) :
    Watch Value :=
  if operator == "=" then right
  else
    let symbol := String.ofList operator.toList.dropLast
    if shortCircuits symbol current then pure current
    else do
      let v ← right
      effect (applyBinary symbol current v location)

/-- The name of a field. -/
def fieldName (computed : Bool) (value : Watch Value) (key : Node) : Watch String :=
  if computed then do
    let v ← value
    effect (read (·.text v))
  else effect (Chronicle.fieldName false (pure .undefined) key)

/-- Calls a method, then shows the change in the history of the receiver's variable. -/
def callMethod (scope : ScopeId) (step : Int) (object : Node) (receiver : Value) (method : String)
    (args : List Value) (location : Location) : Watch Value := do
  let v ← change object (invoke receiver method args location)
  effect (showCall scope step object receiver)
  return v

/-- Writes a property, then the variable that the receiver is read from. -/
def writeMember (scope : ScopeId) (step : Int) (object : Node) (owner : String)
    (receiver key v : Value) (location : Location) : Watch Value := do
  change object (writeProperty receiver key v location)
  effect (assign scope owner receiver step (some location))
  return v

/-- A call on an object with evaluated parts. -/
def callOn (scope : ScopeId) (step : Int) (object : Node) (method : String) (location : Location)
    (receiver : Watch Value) (args : Watch (List Value)) : Watch Value := do
  match ← effect (globalReceiver? scope object) with
  | some name => do
    let vs ← args
    effect (callGlobal name method vs location)
  | none => do
    let r ← receiver
    let vs ← args
    callMethod scope step object r method vs location

/-! ## Expressions -/

mutual

/-- The value of an expression.  A form without parts to evaluate is a single step. -/
def evaluate (scope : ScopeId) (step : Int) (node : Node) : Watch Value :=
  giving <| match node with
  | .declarator _ (.identifier _ name) init => do
    let v ← evaluateOption scope step init
    effect (define scope name v step none)
    return .undefined
  | .array _ elements => do
    let vs ← evaluateElements scope step elements
    effect (newSequence vs)
  | .object _ properties => do
    let fields ← evaluateProperties scope step [] properties
    effect (newRecord fields)
  | .new location callee [argument] =>
    if callee.name? = some "Array" then do
      let size ← evaluate scope step argument
      match ← effect (read fun _ => sequenceLength? size) with
      | some length => effect (newSequence (List.replicate length .undefined))
      | none => effect (fail (constructorError callee 1) (some location))
    else effect (fail (constructorError callee 1) (some location))
  | .unary location operator argument => do
    let unbound ← effect (asksUnbound scope operator argument)
    if unbound then return .text "undefined"
    let v ← evaluate scope step argument
    effect (applyUnary operator v location)
  | .binary location operator left right => do
    let a ← evaluate scope step left
    if shortCircuits operator a then return a
    let b ← evaluate scope step right
    effect (applyBinary operator a b location)
  | .assignment location operator (.identifier targetLocation name) right => do
    let current ← effect (currentOf operator (valueOf scope name (some targetLocation)))
    let v ← compound operator current (evaluate scope step right) location
    effect (assign scope name v step (some targetLocation))
    return v
  | .assignment location operator (.member targetLocation object property computed) right =>
    match object.receiverName? with
    | none =>
      effect (fail (.unsupportedExpression ("assignment through nested " ++ object.form))
        (some object.location))
    | some owner => do
      let held ← effect (valueOf scope owner (some object.location))
      let receiver ← effect (receiverOf held)
      let key ← keyOf computed (evaluate scope step property) property
      let current ← effect (currentOf operator (readProperty receiver key targetLocation))
      let v ← compound operator current (evaluate scope step right) location
      writeMember scope step object owner receiver key v targetLocation
  | .member location object property computed => do
    let receiver ← evaluate scope step object
    let key ← keyOf computed (evaluate scope step property) property
    effect (readProperty receiver key location)
  | .call location (.member _ object property false) arguments => do
    let method ← effect (propertyName property)
    if arguments.length > 1 then
      effect (fail (tooManyArguments method arguments.length) (some location))
    else
      callOn scope step object method location (evaluate scope step object)
        (evaluateAll scope step arguments)
  | other => effect (Chronicle.evaluate scope step other)
termination_by structural node

/-- The value of an expression that may be missing. -/
def evaluateOption (scope : ScopeId) (step : Int) : Option Node → Watch Value
  | none => pure .undefined
  | some node => evaluate scope step node

/-- The values of expressions, in order. -/
def evaluateAll (scope : ScopeId) (step : Int) : List Node → Watch (List Value)
  | [] => pure []
  | node :: rest => do
    let v ← evaluate scope step node
    let vs ← evaluateAll scope step rest
    return v :: vs

/-- The values of elements, in order. -/
def evaluateElements (scope : ScopeId) (step : Int) : List (Option Node) → Watch (List Value)
  | [] => pure []
  | element :: rest => do
    let v ← evaluateOption scope step element
    let vs ← evaluateElements scope step rest
    return v :: vs

/-- The fields that properties give, added to those before them. -/
def evaluateProperties (scope : ScopeId) (step : Int) (fields : Fields) :
    List Node → Watch Fields
  | [] => pure fields
  | .property _ key (some value) "init" computed _ :: rest => do
    let v ← evaluate scope step value
    let name ← fieldName computed (evaluate scope step key) key
    evaluateProperties scope step (fields.insert name v) rest
  | _ :: rest => evaluateProperties scope step fields rest

end

/-- A member that is no plain property with a value takes no part. -/
theorem evaluateProperties_skip (scope : ScopeId) (step : Int) {node : Node} (rest : List Node)
    (fields : Fields)
    (h : ∀ l key value computed shorthand,
      node ≠ .property l key (some value) "init" computed shorthand) :
    evaluateProperties scope step fields (node :: rest) =
      evaluateProperties scope step fields rest := by
  conv => lhs; unfold evaluateProperties
  split
  · rename_i heq
    cases heq
  · rename_i heq
    cases heq
    exact (h _ _ _ _ _ rfl).elim
  · rename_i heq
    cases heq
    rfl

end Watch

/-! ## Watching changes nothing -/

namespace Shows

theorem keyOf (computed : Bool) {key' : Watch Value} {key : Effect Value}
    (hk : Shows key' (Walk.act key)) (property : Node) :
    Shows (Watch.keyOf computed key' property) (Walk.act (Chronicle.keyOf computed key property)) := by
  cases computed with
  | true => exact hk
  | false => exact effect _

theorem compound (operator : String) (current : Value) {right' : Watch Value} {right : Effect Value}
    (hr : Shows right' (Walk.act right)) (location : Location) :
    Shows (Watch.compound operator current right' location)
      (Walk.act (Chronicle.compound operator current right location)) :=
  iteAct hr (iteAct (result _) (andThen hr fun _ => effect _))

theorem fieldName (computed : Bool) {value' : Watch Value} {value : Effect Value}
    (hv : Shows value' (Walk.act value)) (key : Node) :
    Shows (Watch.fieldName computed value' key)
      (Walk.act (Chronicle.fieldName computed value key)) := by
  cases computed with
  | true => exact andThen hv fun _ => effect _
  | false => exact effect _

theorem callMethod (scope : ScopeId) (step : Int) (object : Node) (receiver : Value)
    (method : String) (args : List Value) (location : Location) :
    Shows (Watch.callMethod scope step object receiver method args location)
      (Walk.act (Chronicle.callMethod scope object receiver method args step location)) := by
  rw [callMethod_eq_invoke]
  exact andThen (change _ _) fun v => andThen (effect _) fun _ => result v

theorem callOn (scope : ScopeId) (step : Int) (object : Node) (method : String)
    (location : Location) {receiver' : Watch Value} {receiver : Effect Value}
    {args' : Watch (List Value)} {args : Effect (List Value)}
    (hr : Shows receiver' (Walk.act receiver)) (ha : Shows args' (Walk.act args)) :
    Shows (Watch.callOn scope step object method location receiver' args')
      (Walk.act (Chronicle.callOn scope step object method location receiver args)) := by
  refine andThen (effect _) fun name? => ?_
  cases name? with
  | some name => exact andThen ha fun _ => effect _
  | none =>
    refine andThen hr fun r => andThen ha fun vs => ?_
    exact callMethod scope step object r method vs location

end Shows

section
variable (scope : ScopeId) (step : Int)

mutual

/-- A watched expression gives what the expression gives. -/
theorem evaluate_shows :
    ∀ node : Node, Shows (Watch.evaluate scope step node) (Walk.act (evaluate scope step node))
  | .declarator _ target init => by
    cases target with
    | identifier location name =>
      exact .giving (.andThen (evaluateOption_shows init) fun v =>
        .andThen (.effect _) fun _ => .result _)
    | _ => exact .giving (.effect _)
  | .array _ elements =>
    .giving (.andThen (evaluateElements_shows elements) fun _ => .effect _)
  | .object _ properties =>
    .giving (.andThen (evaluateProperties_shows properties []) fun _ => .effect _)
  | .new _ callee [] => .giving (.effect _)
  | .new _ callee [argument] => by
    rw [evaluate_new]
    refine .giving (.iteAct ?_ (.effect _))
    refine .andThen (evaluate_shows argument) fun size => .andThen (.effect _) fun length => ?_
    cases length <;> exact .effect _
  | .new _ callee (_ :: _ :: _) => .giving (.effect _)
  | .unary _ operator argument => by
    rw [evaluate_unary]
    refine .giving (.andThen (.effect _) fun unbound => ?_)
    cases unbound with
    | true => exact .result _
    | false => exact .andThen (evaluate_shows argument) fun _ => .effect _
  | .binary _ operator left right =>
    .giving (.andThen (evaluate_shows left) fun a => .iteAct (.result a)
      (.andThen (evaluate_shows right) fun _ => .effect _))
  | .assignment location operator left right => by
    cases left with
    | identifier targetLocation name =>
      rw [evaluate_assign_name]
      exact .giving (.andThen (.effect _) fun current =>
        .andThen (.compound operator current (evaluate_shows right) location) fun v =>
          .andThen (.effect _) fun _ => .result v)
    | member targetLocation object property computed =>
      refine .giving ?_
      cases howner : object.receiverName? with
      | none =>
        simp only [evaluate, howner]
        exact .effect _
      | some owner =>
        rw [evaluate_assign_member _ _ _ _ _ _ _ _ _ howner]
        simp only
        exact .andThen (.effect _) fun held => .andThen (.effect _) fun receiver =>
          .andThen (.keyOf computed (evaluate_shows property) property) fun key =>
            .andThen (.effect _) fun current =>
              .andThen (.compound operator current (evaluate_shows right) location) fun v =>
                .andThen (.change object _) fun _ => .andThen (.effect _) fun _ => .result v
    | _ => exact .giving (.effect _)
  | .member _ object property computed => by
    rw [evaluate_member]
    exact .giving (.andThen (evaluate_shows object) fun receiver =>
      .andThen (.keyOf computed (evaluate_shows property) property) fun _ => .effect _)
  | .call location callee arguments => by
    cases callee with
    | member calleeLocation object property computed =>
      cases computed with
      | true => exact .giving (.effect _)
      | false =>
        rw [evaluate_call]
        exact .giving (.andThen (.effect _) fun method => .iteAct (.effect _)
          (.callOn scope step object method location (evaluate_shows object)
            (evaluateAll_shows arguments)))
    | _ => exact .giving (.effect _)
  | .literal .. | .identifier .. | .thisValue .. | .update .. | .program .. | .block ..
  | .functionDeclaration .. | .declaration .. | .ifStatement .. | .whileStatement ..
  | .forStatement .. | .expressionStatement .. | .returnStatement .. | .continueStatement ..
  | .property .. | .functionExpression .. | .arrowFunction .. | .unsupported .. =>
    .giving (.effect _)

theorem evaluateOption_shows : ∀ node : Option Node,
    Shows (Watch.evaluateOption scope step node) (Walk.act (evaluateOption scope step node))
  | none => .result _
  | some node => evaluate_shows node

theorem evaluateAll_shows : ∀ nodes : List Node,
    Shows (Watch.evaluateAll scope step nodes) (Walk.act (evaluateAll scope step nodes))
  | [] => .result _
  | node :: rest =>
    .andThen (evaluate_shows node) fun v => .andThen (evaluateAll_shows rest) fun vs =>
      .result (v :: vs)

theorem evaluateElements_shows : ∀ elements : List (Option Node),
    Shows (Watch.evaluateElements scope step elements)
      (Walk.act (evaluateElements scope step elements))
  | [] => .result _
  | element :: rest =>
    .andThen (evaluateOption_shows element) fun v => .andThen (evaluateElements_shows rest) fun vs =>
      .result (v :: vs)

theorem evaluateProperties_shows : ∀ (properties : List Node) (fields : Fields),
    Shows (Watch.evaluateProperties scope step fields properties)
      (Walk.act (evaluateProperties scope step fields properties))
  | [], fields => .result fields
  | node :: rest, fields => by
    by_cases hfield : ∃ l key value computed shorthand,
        node = .property l key (some value) "init" computed shorthand
    · obtain ⟨l, key, value, computed, shorthand, rfl⟩ := hfield
      rw [evaluateProperties_cons]
      exact .andThen (evaluate_shows value) fun v =>
        .andThen (.fieldName computed (evaluate_shows key) key) fun name =>
          evaluateProperties_shows rest _
    · have hskip : ∀ l key value computed shorthand,
          node ≠ .property l key (some value) "init" computed shorthand :=
        fun l k v c s he => hfield ⟨l, k, v, c, s, he⟩
      rw [evaluateProperties_skip _ _ _ _ hskip, Watch.evaluateProperties_skip _ _ _ _ hskip]
      exact evaluateProperties_shows rest fields

end

end

end Chronicle
