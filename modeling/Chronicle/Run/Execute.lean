import Chronicle.Locate
import Chronicle.Run.Parameters
import Chronicle.Run.Statement

/-!
# Running located functions

A run starts from an empty world: it binds the receiver to a new record, then the parameters, and
walks the body.  When it fails, the trace and the histories stay as they were at the failure.
-/

set_option autoImplicit false

namespace Chronicle

/-- How far a function has been run. -/
inductive RunStatus where
  | pending
  | completed
  | failed
  deriving DecidableEq, Repr

/-- The name of a status. -/
def RunStatus.name : RunStatus → String
  | .pending => "pending"
  | .completed => "completed"
  | .failed => "failed"

/-- A value together with the heap it belongs to. -/
structure Image where
  heap : Heap := {}
  value : Value := .undefined

/-- A located function and the state of its last run. -/
structure TracedFunction where
  located : LocatedFunction
  status : RunStatus := .pending
  failure : Option RunError := none
  returned : Image := {}
  world : World := {}
  trace : Trace := #[]

/-- The step at which parameters are bound. -/
def parameterStep : Int := 0

/-- A run of a located function: the receiver, the parameters, the body. -/
def LocatedFunction.run (f : LocatedFunction) (limit : Option Int) : Walk Unit := do
  Walk.act do
    let receiver ← Effect.newRecord []
    Effect.define 0 thisName receiver parameterStep none
    bindParameters 0 f.function.params f.heap f.params parameterStep
  walkAll 0 limit f.function.body

namespace TracedFunction

/-- The function after a run from an empty world, and what stopped the run, if something did.  A
fault leaves the status pending and the returned value as it was. -/
def execute (t : TracedFunction) (limit : Option Int) : TracedFunction × Option Stop :=
  match t.located.run limit {} with
  | .ok () s =>
    ({ t with
        status := .completed, failure := none, world := s.world, trace := s.trace
        returned := ⟨s.world.heap, s.returned⟩ }, none)
  | .error (.error e) s =>
    let notice := Notice.failedRun t.located.name s.trace.size e
    ({ t with
        status := .failed, failure := some e, trace := s.trace
        world := { s.world with log := s.world.log.push notice }
        returned := ⟨s.world.heap, s.returned⟩ }, some (.error e))
  | .error (.fault f) s =>
    ({ t with status := .pending, failure := none, world := s.world, trace := s.trace },
      some (.fault f))

/-- The length of the trace. -/
def steps (t : TracedFunction) : Nat :=
  t.trace.size

end TracedFunction

end Chronicle
