import Chronicle.Log
import Chronicle.Parameter
import Chronicle.Value.Coercion

/-!
# Bindings with their history

A binding holds the current value of a variable and the rendering of every value it has held, each
stamped with a step.  Stamps never decrease: a write at an earlier step is kept at the last recorded
one.  `valueAt` finds what a variable held at a step by binary search.
-/

set_option autoImplicit false

namespace Chronicle

/-- A value that a variable has held, from a step on. -/
structure HistoryEntry where
  step : Int
  text : String
  deriving DecidableEq, Repr, Inhabited

/-- The current value of a variable and its history.  Variables that an annotation declares carry
its specification. -/
structure Binding where
  value : Value
  history : Array HistoryEntry := #[]
  spec : Option ParameterSpec := none

namespace Binding

/-- Whether the variable is a declared parameter. -/
def isParameter (b : Binding) : Bool :=
  b.spec.isSome

/-- The step of the last entry. -/
def lastStep? (b : Binding) : Option Int :=
  b.history.back?.map HistoryEntry.step

/-- Whether a write at a step comes before the last recorded one. -/
def isLate (b : Binding) (step : Int) : Bool :=
  match b.lastStep? with
  | some last => step < last
  | none => false

/-- The step at which a write is kept. -/
def stamp (b : Binding) (step : Int) : Int :=
  if b.isLate step then b.lastStep?.getD step else step

/-- The report of a write, if it comes late. -/
def lateNotice? (b : Binding) (text : String) (step : Int) : Option Notice :=
  if b.isLate step then some (.lateWrite text step (b.stamp step)) else none

/-- The binding after a write whose rendering is known. -/
def push (b : Binding) (v : Value) (text : String) (step : Int) : Binding :=
  { b with value := v, history := b.history.push ⟨b.stamp step, text⟩ }

/-- The binding after a write whose value has no rendering: the value is taken, unless the write
comes late, and the history stays. -/
def pushUnrendered (b : Binding) (v : Value) (step : Int) : Binding :=
  if b.isLate step then b else { b with value := v }

/-- The number of entries before position `hi`, from `lo` on, that are stamped at most `t`, found by
halving. -/
def bisect (history : Array HistoryEntry) (t : Int) (lo hi : Nat) : Nat :=
  if lo < hi then
    let mid := (lo + hi) / 2
    match history[mid]? with
    | some e => if t < e.step then bisect history t lo mid else bisect history t (mid + 1) hi
    | none => lo
  else lo
termination_by hi - lo

/-- What the variable held at a step: its last entry stamped at most `t`. -/
def valueAt (b : Binding) (t : Int) : Option String :=
  let i := bisect b.history t 0 b.history.size
  if i == 0 then none else (b.history[i - 1]?).map HistoryEntry.text

/-- The last value written at exactly a step. -/
def changeAt (b : Binding) (t : Int) : Option String :=
  (b.history.findRev? (·.step == t)).map HistoryEntry.text

end Binding

end Chronicle
