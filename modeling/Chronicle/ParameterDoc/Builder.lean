import Chronicle.ParameterDoc.Path
import Chronicle.Failure
import Chronicle.Value.Coercion

/-!
# Building specifications

The lines of one comment are taken in order.  Each makes a specification of its own, except that
lines of kind `Object` with a common base are merged into one: a line for the base itself adds
fields, a line for a path below it writes there.
-/

set_option autoImplicit false

namespace Chronicle

/-- The specifications so far and the heap of their values. -/
structure Draft where
  heap : Heap := {}
  params : List ParameterSpec := []

/-- A step in building specifications; what it did before it failed stays done. -/
abbrev Drafting (α : Type) := EStateM Failure Draft α

namespace Draft

/-- What can be read off the heap, where a fault fails. -/
def read {α : Type} (f : Heap → Except Fault α) : Drafting α := do
  match f (← get).heap with
  | .ok x => pure x
  | .error e => throw (.fault e)

/-- The refusal of a value of the wrong kind. -/
def refuse {α : Type} (name expected : String) (v : Value) : Drafting α := do
  throw (.doc (.wrongKind name expected (← read (·.text v))))

/-- The number of a candidate: of a number, a text or a truth value. -/
def number (v : Value) (name : String) : Drafting Number :=
  match v with
  | .number _ | .text _ | .boolean _ => read (·.toNumber v)
  | _ => refuse name "a number" v

/-- Adds a specification after the others. -/
def add (spec : ParameterSpec) : Drafting Unit :=
  modify fun d => { d with params := d.params ++ [spec] }

/-- A number with its range: the second and third candidates are its bounds. -/
def addNumber (name : String) (first : Value) (rest : List Value) : Drafting Unit := do
  let bounds ← (rest.take 2).mapM (number · name)
  let initial ← number first name
  let spec : ParameterSpec :=
    { name, kind := .number, initial := .number initial, alternatives := rest.drop 2 }
  match spec.withRange bounds[0]? bounds[1]? with
  | .ok spec => add spec
  | .error e => throw (.spec e)

/-- Specifications with the first one of a name changed. -/
def modifyFirst (name : String) (f : ParameterSpec → ParameterSpec) :
    List ParameterSpec → List ParameterSpec
  | [] => []
  | p :: ps => if p.name == name then f p :: ps else p :: modifyFirst name f ps

/-- The value that an object parameter starts with; a new parameter starts with an empty record. -/
def objectBase (base : String) : Drafting Value := do
  match (← get).params.find? (·.name == base) with
  | some spec => return spec.initial
  | none => do
    let initial ← modifyGet fun d =>
      let (v, heap) := d.heap.newRecord []
      (v, { d with heap })
    add { name := base, kind := .object, initial }
    return initial

/-- Adds the fields of a record to an object parameter. -/
def mergeFields (name : String) (target v : Value) : Drafting Unit :=
  match v with
  | .record source =>
    match target with
    | .record a => modify fun d =>
      { d with heap := d.heap.setFields a ((d.heap.fields a).update (d.heap.fields source)) }
    | _ => throw (.fault .noProperty)
  | v => refuse name "an object" v

/-- Writes a value at a path below an object parameter.  A parameter that is no record has neither
fields to write nor parts to go down. -/
def writePath (target : Value) (keys : List String) (v : Value) : Drafting Unit :=
  match target with
  | .record a => modify fun d => { d with heap := d.heap.setNested a keys v }
  | _ => throw (.fault (if keys.length == 1 then .wrongForm else .noProperty))

/-- A line of kind `Object`. -/
def addObject (name : String) (candidates : List Value) : Drafting Unit := do
  match Path.split name, candidates with
  | [], _ => throw (.doc (.emptyPath name))
  | _ :: _, [] => throw (.doc (.noValues name))
  | base :: keys, v :: rest => do
    let target ← objectBase base
    if keys.isEmpty then mergeFields name target v else writePath target keys v
    let extend (p : ParameterSpec) : ParameterSpec :=
      { p with alternatives := p.alternatives ++ rest }
    modify fun d => { d with params := modifyFirst base extend d.params }

/-- Takes a line: a kind, a name and candidate values of the heap. -/
def addLine (kind : ParameterKind) (name : String) (candidates : List Value) : Drafting Unit := do
  match kind, candidates with
  | .object, candidates => addObject name candidates
  | _, [] => throw (.doc (.noValues name))
  | .number, first :: rest => addNumber name first rest
  | .boolean, first :: rest =>
    add { name, kind := .boolean, initial := .boolean first.isTruthy, alternatives := rest }
  | .string, first :: rest => do
    let text ← read (·.text first)
    add { name, kind := .string, initial := .text text, alternatives := rest }
  | .array, first :: rest =>
    match first with
    | .sequence _ => add { name, kind := .array, initial := first, alternatives := rest }
    | v => refuse name "an array" v

/-- Takes a line whose candidates are values of another heap. -/
def addLineFrom (source : Heap) (kind : ParameterKind) (name : String)
    (candidates : List Value) : Drafting Unit := do
  let below := (← get).heap
  modify fun d => { d with heap := below.append source }
  addLine kind name (candidates.map (Heap.shiftValue below))

end Draft

end Chronicle
