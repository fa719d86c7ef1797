import Chronicle.Evaluation.Expression

/-!
# Parts of expressions

The key of a property, the receiver and the current value of an assignment, the name of a field and
the other small computations that an expression is made of, and each larger form of expression as a
sequence of them (`evaluate_unary`, `evaluate_assign_member`, `evaluate_call` and the like).
-/

set_option autoImplicit false

namespace Chronicle

open Effect

/-- The key of a property: computed, or the name after a point. -/
def keyOf (computed : Bool) (key : Effect Value) (property : Node) : Effect Value :=
  if computed then key else do return .text (← propertyName property)

/-- The value that an assignment starts from; a plain one starts from none. -/
def currentOf (operator : String) (current : Effect Value) : Effect Value :=
  if operator == "=" then pure .undefined else current

/-- The receiver of an assignment to a property: a new record where there is none. -/
def receiverOf (held : Value) : Effect Value :=
  if held.isNullish then newRecord [] else pure held

/-- Whether an operator asks for the type of a name that is not bound. -/
def asksUnbound (scope : ScopeId) (operator : String) (argument : Node) : Effect Bool :=
  match argument.name? with
  | some name => if operator = "typeof" then do return !(← isBound scope name) else pure false
  | none => pure false

/-- The global object that a receiver is, if it is one that no variable hides. -/
def globalReceiver? (scope : ScopeId) (object : Node) : Effect (Option String) :=
  match object.name? with
  | some name => do
    if Method.isGlobal name && !(← isBound scope name) then return some name else return none
  | none => pure none

/-- The name of a field: the text of a computed key, a name, or the text of a literal. -/
def fieldName (computed : Bool) (value : Effect Value) (key : Node) : Effect String :=
  if computed then do read (·.text (← value))
  else match key with
    | .identifier _ name => pure name
    | .literal _ k _ => read (·.text k)
    | other => fail (.unsupportedExpression other.form) (some other.location)

/-- A call on an object with evaluated parts: of a global function, or of a method. -/
def callOn (scope : ScopeId) (step : Int) (object : Node) (method : String) (location : Location)
    (receiver : Effect Value) (args : Effect (List Value)) : Effect Value := do
  match ← globalReceiver? scope object with
  | some name => do
    let vs ← args
    callGlobal name method vs location
  | none => do
    let r ← receiver
    let vs ← args
    callMethod scope object r method vs step location

/-- Writes the variable once more whose history shows a change of the sequence that a node gives. -/
def showChange (scope : ScopeId) (step : Int) (object : Node) : Effect Unit :=
  match object.sequenceOwner? with
  | some owner => do
    let bound ← isBound scope owner
    if bound then valueOf scope owner none >>= fun v => assign scope owner v step none
    else pure ()
  | none => pure ()

/-- The error of a call with too many arguments. -/
def tooManyArguments (method : String) (count : Nat) : Cause :=
  .unsupportedCall ("Unsupported call: " ++ method ++ "() with " ++ Number.intText count ++
    " arguments")

section
variable (scope : ScopeId) (step : Int) (location : Location)

theorem callMethod_eq (object : Node) (receiver : Value) (method : String) (args : List Value) :
    callMethod scope object receiver method args step location = (do
      let w ← get
      let r ← lift (Method.call w.heap receiver method args (some location))
      set { w with heap := r.2 }
      (if receiver.kind == .sequence then showChange scope step object else pure ()) >>=
        fun _ => pure r.1) := by
  unfold callMethod showChange
  refine bind_congr fun w => bind_congr fun r => bind_congr fun _ => ?_
  cases receiver.kind == .sequence with
  | false => rfl
  | true =>
    cases object.sequenceOwner? with
    | none => rfl
    | some owner =>
      simp only [if_true, bind_assoc]
      refine bind_congr fun bound => ?_
      cases bound with
      | false => rfl
      | true => simp only [if_true, bind_assoc]

theorem evaluate_new (callee argument : Node) :
    evaluate scope step (.new location callee [argument]) =
      (if callee.name? = some "Array" then do
        let size ← evaluate scope step argument
        match ← read fun _ => sequenceLength? size with
        | some length => newSequence (List.replicate length .undefined)
        | none => fail (constructorError callee 1) (some location)
      else fail (constructorError callee 1) (some location)) := by
  simp only [evaluate]
  split
  · rename_i hname
    exact (if_pos hname).symm
  · rename_i hname
    exact (if_neg hname).symm

theorem evaluate_unary (operator : String) (argument : Node) :
    evaluate scope step (.unary location operator argument) = (do
      let unbound ← asksUnbound scope operator argument
      if unbound then return .text "undefined"
      let v ← evaluate scope step argument
      applyUnary operator v location) := by
  simp only [evaluate, asksUnbound]
  cases hname : argument.name? with
  | none => simp only
  | some name =>
    by_cases ho : operator = "typeof"
    · subst ho
      simp only [bind_assoc, if_true]
    · simp only [if_neg ho]
      split
      · exact absurd rfl ho
      · rfl

theorem evaluate_member (object property : Node) (computed : Bool) :
    evaluate scope step (.member location object property computed) = (do
      let receiver ← evaluate scope step object
      let key ← keyOf computed (evaluate scope step property) property
      readProperty receiver key location) := by
  simp only [evaluate, keyOf]
  cases computed <;> simp only [bind_assoc, if_true, Bool.false_eq_true, if_false]

theorem evaluate_assign_name (operator : String) (targetLocation : Location) (name : String)
    (right : Node) :
    evaluate scope step (.assignment location operator (.identifier targetLocation name) right) =
      (do
        let current ← currentOf operator (valueOf scope name (some targetLocation))
        let v ← compound operator current (evaluate scope step right) location
        assign scope name v step (some targetLocation)
        return v) := by
  simp only [evaluate, currentOf]
  split <;> rfl

theorem evaluate_assign_member (operator : String) (targetLocation : Location)
    (object property : Node) (computed : Bool) (right : Node) {owner : String}
    (ho : object.receiverName? = some owner) :
    evaluate scope step
        (.assignment location operator (.member targetLocation object property computed) right) =
      (do
        let held ← valueOf scope owner (some object.location)
        let receiver ← receiverOf held
        let key ← keyOf computed (evaluate scope step property) property
        let current ← currentOf operator (readProperty receiver key targetLocation)
        let v ← compound operator current (evaluate scope step right) location
        writeProperty receiver key v targetLocation
        assign scope owner receiver step (some targetLocation)
        return v) := by
  simp only [evaluate, ho]
  congr 1
  funext held
  unfold receiverOf currentOf keyOf
  cases held.isNullish <;> cases computed <;> cases operator == "=" <;>
    simp only [bind_assoc, if_true, Bool.false_eq_true, if_false]

theorem evaluate_call (calleeLocation : Location) (object property : Node)
    (arguments : List Node) :
    evaluate scope step
        (.call location (.member calleeLocation object property false) arguments) =
      (do
        let method ← propertyName property
        if arguments.length > 1 then
          fail (tooManyArguments method arguments.length) (some location)
        else
          callOn scope step object method location (evaluate scope step object)
            (evaluateAll scope step arguments)) := by
  simp only [evaluate, callOn, globalReceiver?, tooManyArguments]
  congr 1
  funext method
  by_cases hlength : arguments.length > 1
  · rw [if_pos hlength, if_pos hlength]
    rfl
  · rw [if_neg hlength, if_neg hlength]
    cases object.name? with
    | none => rfl
    | some name =>
      simp only [bind_assoc]
      congr 1
      funext bound
      split <;> rfl

theorem evaluateProperties_cons (propertyLocation : Location) (key value : Node)
    (computed shorthand : Bool) (rest : List Node) (fields : Fields) :
    evaluateProperties scope step fields
        (.property propertyLocation key (some value) "init" computed shorthand :: rest) = (do
      let v ← evaluate scope step value
      let name ← fieldName computed (evaluate scope step key) key
      evaluateProperties scope step (fields.insert name v) rest) := by
  simp only [evaluateProperties, fieldName]
  congr 1
  funext v
  cases computed with
  | true => simp only [if_true, bind_assoc]
  | false => cases key <;> rfl

/-- A member that is no plain property with a value takes no part. -/
theorem evaluateProperties_skip {node : Node} (rest : List Node) (fields : Fields)
    (h : ∀ l key value computed shorthand,
      node ≠ .property l key (some value) "init" computed shorthand) :
    evaluateProperties scope step fields (node :: rest) =
      evaluateProperties scope step fields rest := by
  conv => lhs; unfold evaluateProperties
  split
  · rename_i heq
    cases heq
  · rename_i heq
    cases heq
    exact (h _ _ _ _ _ rfl).elim
  · rename_i heq
    cases heq
    rfl

end

end Chronicle
