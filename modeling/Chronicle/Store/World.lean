import Chronicle.Store.Scope

/-!
# The state of a running program

`World` is all that evaluation reads and changes: the heap, the scopes, the log and the journal of
writes.  An `Effect` may stop; what it changed before it stopped stays changed.  The two ways of
writing a variable are `define`, which writes the scope's own binding, and `assign`, which writes
the nearest one.  The journal lists all writes of all variables in the order in which they were
made, each with the step it was asked for.
-/

set_option autoImplicit false

namespace Chronicle

/-- A write of a scope's own binding: the step it is asked for, the rendering of the value, if it
has one, and how many stores the heap had seen. -/
structure Write where
  scope : ScopeId
  name : String
  step : Int
  text : Option String
  stores : Nat
  deriving DecidableEq, Repr

/-- All that evaluation reads and changes. -/
structure World where
  heap : Heap := {}
  scopes : Scopes := .root
  log : Array Notice := #[]
  journal : Array Write := #[]

instance : Inhabited World := ⟨{}⟩

namespace World

/-- The journal with one more write. -/
def journalWith (w : World) (id : ScopeId) (name : String) (step : Int) (text : Option String) :
    Array Write :=
  w.journal.push ⟨id, name, step, text, w.heap.stores.size⟩

/-- The world after a write of a scope's own binding, which is there.  A late one is reported. -/
def write (w : World) (id : ScopeId) (name : String) (v : Value) (text : String) (step : Int) :
    World :=
  { w with
    scopes := w.scopes.modify id name (·.push v text step)
    log := match (w.scopes.own? id name).bind (·.lateNotice? text step) with
      | some n => w.log.push n
      | none => w.log
    journal := w.journalWith id name step (some text) }

/-- The world after a write of a scope's own binding whose value has no rendering. -/
def writeUnrendered (w : World) (id : ScopeId) (name : String) (v : Value) (step : Int) : World :=
  { w with
    scopes := w.scopes.modify id name (·.pushUnrendered v step)
    journal := w.journalWith id name step none }

/-- The world with a binding added to a scope. -/
def add (w : World) (id : ScopeId) (name : String) (v : Value) (text : String) (step : Int)
    (spec : Option ParameterSpec) : World :=
  let b : Binding := { value := v, spec }
  { w with
    scopes := w.scopes.add id name (b.push v text step)
    journal := w.journalWith id name step (some text) }

/-- The world after a binding could not be added, its value having no rendering. -/
def addUnrendered (w : World) (id : ScopeId) (name : String) (step : Int) : World :=
  { w with journal := w.journalWith id name step none }

end World

/-- A computation on the world that may stop, leaving the world as it is then. -/
abbrev Effect (α : Type) := EStateM Stop World α

namespace Effect

/-- Stops because of a cause. -/
def fail {α : Type} (cause : Cause) (location : Option Location) : Effect α :=
  throw (.because cause location)

/-- Adds a report to the log. -/
def note (n : Notice) : Effect Unit :=
  modify fun w => { w with log := w.log.push n }

/-- A result that may have stopped. -/
def lift {α : Type} : Except Stop α → Effect α
  | .ok x => pure x
  | .error e => throw e

/-- What can be read off the heap, where a fault stops. -/
def read {α : Type} (f : Heap → Except Fault α) : Effect α := do
  match f (← get).heap with
  | .ok x => pure x
  | .error e => throw (.fault e)

/-- A new sequence. -/
def newSequence (items : List Value) : Effect Value :=
  modifyGet fun w =>
    let (v, heap) := w.heap.newSequence items
    (v, { w with heap })

/-- A new record. -/
def newRecord (fields : Fields) : Effect Value :=
  modifyGet fun w =>
    let (v, heap) := w.heap.newRecord fields
    (v, { w with heap })

/-! ## Variables -/

/-- Writes a scope's own binding of a name, which is there. -/
def writeOwn (id : ScopeId) (name : String) (v : Value) (step : Int) : Effect Unit := do
  let w ← get
  match w.heap.format v with
  | .ok text => set (w.write id name v text step)
  | .error f =>
    set (w.writeUnrendered id name v step)
    throw (.fault f)

/-- Defines a name in a scope: writes its own binding, or adds one with a specification. -/
def define (id : ScopeId) (name : String) (v : Value) (step : Int)
    (spec : Option ParameterSpec) : Effect Unit := do
  let w ← get
  if (w.scopes.own? id name).isSome then writeOwn id name v step
  else
    match w.heap.format v with
    | .ok text => set (w.add id name v text step spec)
    | .error f =>
      set (w.addUnrendered id name step)
      throw (.fault f)

/-- Assigns to a name: writes the nearest binding of it.  An unbound name is defined in the root
scope and an error in any other. -/
def assign (id : ScopeId) (name : String) (v : Value) (step : Int)
    (location : Option Location) : Effect Unit := do
  let w ← get
  match w.scopes.owner? id name with
  | some i => writeOwn i name v step
  | none =>
    if w.scopes.isRoot id then define id name v step none
    else fail (.undefinedVariable name) location

/-- The value of a name. -/
def valueOf (id : ScopeId) (name : String) (location : Option Location) : Effect Value := do
  match (← get).scopes.lookup? id name with
  | some b => pure b.value
  | none => fail (.undefinedVariable name) location

/-- Whether a name is bound. -/
def isBound (id : ScopeId) (name : String) : Effect Bool := do
  return (← get).scopes.isBound id name

end Effect

end Chronicle
