import Chronicle.Value.Basic

/-!
# The heap

Sequences and records live in a heap and are named by their address, so that two names can share one
of them.  An address that was never given out reads as empty.  Fields of a record are kept in the
order in which they were first written.  The heap remembers its stores: which sequence or record was
given contents, when it was made and whenever it was changed.
-/

set_option autoImplicit false

namespace Chronicle

/-- The fields of a record in the order of their first writing, each name once. -/
abbrev Fields := List (String × Value)

namespace Fields

/-- The value of a field. -/
def get? (fields : Fields) (name : String) : Option Value :=
  fields.lookup name

/-- The fields after a write: a field that is there keeps its place, a new one goes last. -/
def insert (name : String) (value : Value) : Fields → Fields
  | [] => [(name, value)]
  | (n, v) :: rest => if n == name then (n, value) :: rest else (n, v) :: insert name value rest

/-- The fields after writing all fields of another record, in order. -/
def update (fields others : Fields) : Fields :=
  others.foldl (fun fields (name, value) => insert name value fields) fields

end Fields

/-- A sequence or a record, by its address. -/
inductive Cell where
  | sequence (address : Address)
  | record (address : Address)
  deriving DecidableEq, Repr

/-- The sequences and records of a running program, and the cells stored to so far, in order. -/
structure Heap where
  sequences : Array (List Value) := #[]
  records : Array Fields := #[]
  stores : Array Cell := #[]

namespace Heap

instance : Inhabited Heap := ⟨{}⟩

/-- The heap without sequences and records. -/
def empty : Heap := {}

/-- The elements of a sequence. -/
def items (h : Heap) (a : Address) : List Value :=
  h.sequences[a]?.getD []

/-- The fields of a record. -/
def fields (h : Heap) (a : Address) : Fields :=
  h.records[a]?.getD []

/-- The heap with a new sequence, and its value. -/
def newSequence (h : Heap) (items : List Value) : Value × Heap :=
  (.sequence h.sequences.size, { h with
    sequences := h.sequences.push items
    stores := h.stores.push (.sequence h.sequences.size) })

/-- The heap with a new record, and its value. -/
def newRecord (h : Heap) (fields : Fields) : Value × Heap :=
  (.record h.records.size, { h with
    records := h.records.push fields
    stores := h.stores.push (.record h.records.size) })

/-- The heap with other elements in a sequence. -/
def setItems (h : Heap) (a : Address) (items : List Value) : Heap :=
  { h with
    sequences := h.sequences.setIfInBounds a items
    stores := h.stores.push (.sequence a) }

/-- The heap with other fields in a record. -/
def setFields (h : Heap) (a : Address) (fields : Fields) : Heap :=
  { h with
    records := h.records.setIfInBounds a fields
    stores := h.stores.push (.record a) }

/-- A bound on how deep values that do not contain themselves are nested. -/
def depth (h : Heap) : Nat :=
  h.sequences.size + h.records.size + 1

/-! ## Copies -/

/-- A value as it reads in a heap that holds `below` in front of its own. -/
def shiftValue (below : Heap) : Value → Value
  | .sequence a => .sequence (below.sequences.size + a)
  | .record a => .record (below.records.size + a)
  | v => v

/-- The heap `below` with all sequences and records of `h` after its own. -/
def append (below h : Heap) : Heap where
  sequences := below.sequences ++ h.sequences.map fun items => items.map (shiftValue below)
  records := below.records ++
    h.records.map fun fields => fields.map fun (name, v) => (name, shiftValue below v)
  stores := below.stores ++
    (Array.range h.sequences.size).map (fun a => .sequence (below.sequences.size + a)) ++
    (Array.range h.records.size).map fun a => .record (below.records.size + a)

/-- A deep copy of a value of the heap `source` into `target`.  What is shared inside the value is
shared inside the copy, and nothing is shared between the two. -/
def copyValue (target source : Heap) (v : Value) : Value × Heap :=
  (shiftValue target v, target.append source)

end Heap

end Chronicle
