import Chronicle.Evaluation.Property
import Chronicle.Method.Call
import Chronicle.Method.Global
import Chronicle.Node
import Chronicle.Operator.Unary
import Chronicle.Store.World

/-!
# Evaluating expressions

`evaluate` computes the value of an expression in a scope.  Every write it makes is stamped with the
step it is given.  An operator that does not apply to its operands is reported in the log and gives
`undefined`; every other error stops the run.
-/

set_option autoImplicit false

namespace Chronicle

open Effect

/-- The name under which a function sees its receiver. -/
def thisName : String := "this"

/-! ## Parts of nodes -/

/-- The variable that an assignment through a node changes, if there is one. -/
def Node.receiverName? : Node → Option String
  | .thisValue _ => some thisName
  | .identifier _ name => some name
  | _ => none

/-- The variable whose history shows a change of the sequence that a node gives: the variable
itself, or the one whose property it is. -/
def Node.sequenceOwner? : Node → Option String
  | .identifier _ name => some name
  | .thisValue _ => some thisName
  | .member _ receiver _ _ => receiver.receiverName?
  | _ => none

/-- The name of a property that is written after a point. -/
def propertyName (property : Node) : Effect String :=
  match property.name? with
  | some name => pure name
  | none => throw (.fault .noProperty)

/-- Whether a logical operator's result is its left operand. -/
def shortCircuits (symbol : String) (left : Value) : Bool :=
  if symbol == "&&" then !left.isTruthy
  else if symbol == "||" then left.isTruthy
  else if symbol == "??" then !left.isNullish
  else false

/-! ## Single steps -/

/-- The result of an operator; one that does not apply is reported and gives `undefined`. -/
def recoverOperator (location : Location) : Except Stop Value → Effect Value
  | .ok v => pure v
  | .error (.error e) => do
    note (.operator e location)
    return .undefined
  | .error stop => throw stop

/-- A binary operator on two values. -/
def applyBinary (symbol : String) (left right : Value) (location : Location) : Effect Value := do
  recoverOperator location ((← get).heap.binary symbol left right)

/-- A unary operator on a value. -/
def applyUnary (symbol : String) (v : Value) (location : Location) : Effect Value := do
  recoverOperator location ((← get).heap.unary symbol v)

/-- The value of a property. -/
def readProperty (receiver key : Value) (location : Location) : Effect Value := do
  lift ((← get).heap.getProperty receiver key (some location))

/-- Writes a property. -/
def writeProperty (receiver key v : Value) (location : Location) : Effect Unit := do
  let w ← get
  let heap ← lift (w.heap.setProperty receiver key v (some location))
  set { w with heap }

/-- The number after an increment or decrement, and the number before it. -/
def stepNumber (operator : String) (old : Number) : Except Fault Number := do
  let new ← if operator == "++" then old.add (.int 1) else old.subtract (.int 1)
  return new.normalize

/-- Increments or decrements a variable. -/
def updateVariable (scope : ScopeId) (name operator : String) (leading : Bool) (step : Int)
    (location : Location) : Effect Value := do
  let v ← valueOf scope name (some location)
  let old ← read (·.toNumber v)
  let new ← read fun _ => stepNumber operator old
  assign scope name (.number new) step (some location)
  return .number (if leading then new else old)

/-- The length that a value gives a new sequence, if it can. -/
def sequenceLength? : Value → Except Fault (Option Nat)
  | .number n => do
    let _ ← n.toFloat
    if n.isIntegral && !n.isNegative then
      let length := (← n.truncate).toNat
      if Heap.lengthLimit ≤ length then .error .indexSize else return some length
    else return none
  | _ => .ok none

/-- The error of a construction that is not interpreted. -/
def constructorError (callee : Node) (arguments : Nat) : Cause :=
  let name := match callee with
    | .identifier _ "" => callee.form
    | .identifier _ name => name
    | _ => callee.form
  .unsupportedConstructor ("Unsupported constructor: new " ++ name ++ " with " ++
    Number.intText arguments ++ " argument(s)")

/-- Calls a function of a global object. -/
def callGlobal (object method : String) (args : List Value) (location : Location) :
    Effect Value := do
  match ← lift (Method.callGlobal (← get).heap object method args (some location)) with
  | .value v => return v
  | .logged line => do
    note (.console line)
    return .undefined

/-- Calls a method, and records the change of a sequence in the history of its variable. -/
def callMethod (scope : ScopeId) (object : Node) (receiver : Value) (method : String)
    (args : List Value) (step : Int) (location : Location) : Effect Value := do
  let w ← get
  let (result, heap) ← lift (Method.call w.heap receiver method args (some location))
  set { w with heap }
  if receiver.kind == .sequence then
    match object.sequenceOwner? with
    | some owner =>
      if ← isBound scope owner then
        assign scope owner (← valueOf scope owner none) step none
    | none => pure ()
  return result

/-- The value that an assignment writes: the right side, or what its operator makes of the current
value and the right side.  The right side is computed only when it is needed. -/
def compound (operator : String) (current : Value) (right : Effect Value) (location : Location) :
    Effect Value := do
  if operator == "=" then right
  else
    let symbol := String.ofList operator.toList.dropLast
    if shortCircuits symbol current then return current
    let v ← right
    applyBinary symbol current v location

/-! ## Expressions -/

mutual

/-- The value of an expression in a scope, with writes stamped `step`. -/
def evaluate (scope : ScopeId) (step : Int) : Node → Effect Value
  | .literal _ value _ => pure value
  | .identifier location name => valueOf scope name (some location)
  | .thisValue location => valueOf scope thisName (some location)
  | .declarator _ id init => do
    match id with
    | .identifier _ name => do
      let v ← evaluateOption scope step init
      define scope name v step none
      return .undefined
    | other => fail (.unsupportedExpression other.form) (some other.location)
  | .array _ elements => do newSequence (← evaluateElements scope step elements)
  | .object _ properties => do newRecord (← evaluateProperties scope step [] properties)
  | .new location callee arguments =>
    match arguments with
    | [] => newRecord []
    | [argument] =>
      match callee.name? with
      | some "Array" => do
        let size ← evaluate scope step argument
        match ← read fun _ => sequenceLength? size with
        | some length => newSequence (List.replicate length .undefined)
        | none => fail (constructorError callee 1) (some location)
      | _ => fail (constructorError callee 1) (some location)
    | _ => fail (constructorError callee arguments.length) (some location)
  | .update location operator leading argument =>
    match argument with
    | .identifier _ name => updateVariable scope name operator leading step location
    | other =>
      fail (.unsupportedExpression ("UpdateExpression on " ++ other.form)) (some location)
  | .unary location operator argument => do
    let unbound : Bool ← match operator, argument.name? with
      | "typeof", some name => do pure !(← isBound scope name)
      | _, _ => pure false
    if unbound then return .text "undefined"
    let v ← evaluate scope step argument
    applyUnary operator v location
  | .binary location operator left right => do
    let a ← evaluate scope step left
    if shortCircuits operator a then return a
    let b ← evaluate scope step right
    applyBinary operator a b location
  | .assignment location operator left right =>
    match left with
    | .identifier targetLocation name => do
      let current ←
        if operator == "=" then pure .undefined else valueOf scope name (some targetLocation)
      let v ← compound operator current (evaluate scope step right) location
      assign scope name v step (some targetLocation)
      return v
    | .member targetLocation object property computed => do
      match object.receiverName? with
      | none =>
        fail (.unsupportedExpression ("assignment through nested " ++ object.form))
          (some object.location)
      | some owner => do
        let held ← valueOf scope owner (some object.location)
        let receiver ← if held.isNullish then newRecord [] else pure held
        let key ←
          if computed then evaluate scope step property
          else do pure (.text (← propertyName property))
        let current ←
          if operator == "=" then pure .undefined else readProperty receiver key targetLocation
        let v ← compound operator current (evaluate scope step right) location
        writeProperty receiver key v targetLocation
        assign scope owner receiver step (some targetLocation)
        return v
    | other =>
      fail (.unsupportedExpression ("assignment to " ++ other.form)) (some other.location)
  | .member location object property computed => do
    let receiver ← evaluate scope step object
    let key ←
      if computed then evaluate scope step property
      else do pure (.text (← propertyName property))
    readProperty receiver key location
  | .call location callee arguments =>
    match callee with
    | .member _ object property false => do
      let method ← propertyName property
      if arguments.length > 1 then
        fail (.unsupportedCall ("Unsupported call: " ++ method ++ "() with " ++
          Number.intText arguments.length ++ " arguments")) (some location)
      let globalName : Option String ← match object.name? with
        | some name => do
          if Method.isGlobal name && !(← isBound scope name) then pure (some name) else pure none
        | none => pure none
      match globalName with
      | some name => do
        let args ← evaluateAll scope step arguments
        callGlobal name method args location
      | none => do
        let receiver ← evaluate scope step object
        let args ← evaluateAll scope step arguments
        callMethod scope object receiver method args step location
    | other =>
      fail (.unsupportedCall
        ("Unsupported call: callee must be a named method, got " ++ other.form)) (some location)
  | other => fail (.unsupportedExpression other.form) (some other.location)
termination_by structural node => node

/-- The value of an expression that may be missing. -/
def evaluateOption (scope : ScopeId) (step : Int) : Option Node → Effect Value
  | none => pure .undefined
  | some node => evaluate scope step node

/-- The values of expressions, in order. -/
def evaluateAll (scope : ScopeId) (step : Int) : List Node → Effect (List Value)
  | [] => pure []
  | node :: rest => do
    let v ← evaluate scope step node
    let vs ← evaluateAll scope step rest
    return v :: vs

/-- The values of elements, in order; a hole is `undefined`. -/
def evaluateElements (scope : ScopeId) (step : Int) : List (Option Node) → Effect (List Value)
  | [] => pure []
  | element :: rest => do
    let v ← evaluateOption scope step element
    let vs ← evaluateElements scope step rest
    return v :: vs

/-- The fields that properties give, added to those before them.  Only plain properties with a value
take part; the value of one is computed before its key. -/
def evaluateProperties (scope : ScopeId) (step : Int) (fields : Fields) :
    List Node → Effect Fields
  | [] => pure fields
  | .property _ key (some value) "init" computed _ :: rest => do
    let v ← evaluate scope step value
    let name ←
      if computed then do
        let k ← evaluate scope step key
        read (·.text k)
      else match key with
        | .identifier _ name => pure name
        | .literal _ k _ => read (·.text k)
        | other => fail (.unsupportedExpression other.form) (some other.location)
    evaluateProperties scope step (fields.insert name v) rest
  | _ :: rest => evaluateProperties scope step fields rest

end

end Chronicle
