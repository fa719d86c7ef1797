import Chronicle.Evaluation.Expression
import Chronicle.Source

/-!
# Candidate values

The values of an annotated parameter are expressions with commas between them.  They are read as the
elements of an array and evaluated where no name is bound.
-/

set_option autoImplicit false

namespace Chronicle

/-- The reading of annotations: it may fail, and what it reported before stays reported. -/
abbrev Annotating (α : Type) := EStateM Failure (Array Notice) α

namespace Annotating

/-- Adds a report. -/
def note (n : Notice) : Annotating Unit :=
  modify (·.push n)

/-- A result that may have failed. -/
def lift {α : Type} : Except Failure α → Annotating α
  | .ok a => pure a
  | .error e => throw e

end Annotating

/-- Values and the heap they belong to. -/
structure Candidates where
  heap : Heap := {}
  values : List Value := []

namespace Candidates

/-- The array that candidates are read as, if they are expressions with commas between them. -/
def array (parse : SourceParser) (text : String) : Except Failure Node :=
  match readProgram parse ("[" ++ text ++ "];") with
  | .ok program =>
    match program.body with
    | [.expressionStatement _ (.array location elements)] => .ok (.array location elements)
    | _ => .error (.doc (.noList text))
  | .error (.malformed what location) => .error (.doc (.malformed text what location))
  | .error e => .error e

/-- The candidates that a text lists. -/
def read (parse : SourceParser) (text : String) : Annotating Candidates := do
  let node ← Annotating.lift (array parse text)
  match evaluate 0 0 node {} with
  | .ok (.sequence address) w => do
    modify (· ++ w.log)
    return ⟨w.heap, w.heap.items address⟩
  | .ok _ w => do
    modify (· ++ w.log)
    return ⟨w.heap, []⟩
  | .error stop w => do
    modify (· ++ w.log)
    match stop with
    | .error e => throw (.doc (.notLiterals text e))
    | .fault f => throw (.fault f)

end Candidates

end Chronicle
