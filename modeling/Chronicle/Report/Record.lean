import Chronicle.Report.Json
import Chronicle.Run.Execute

/-!
# A run as data

A run with its trace and the histories of its variables as structured data.
-/

set_option autoImplicit false

namespace Chronicle

/-- A visited point as data. -/
def TraceEntry.json (e : TraceEntry) : Json :=
  .object [("step", .integer e.step), ("line", .integer e.line), ("kind", .text e.kind.name),
    ("outcome", match e.outcome with
      | some b => .boolean b
      | none => .null)]

/-- A variable as data. -/
def Binding.json (b : Binding) : Json :=
  .object [("parameter", .boolean b.isParameter),
    ("history", .list (b.history.toList.map fun e =>
      .object [("step", .integer e.step), ("value", .text e.text)]))]

/-- A run as data. -/
def TracedFunction.json (t : TracedFunction) : Except Fault Json := do
  let returned ← t.returned.heap.format t.returned.value
  return .object [
    ("name", .text t.located.name),
    ("line", .integer t.located.line),
    ("status", .text t.status.name),
    ("failure", match t.failure with
      | some e => .text e.message
      | none => .null),
    ("return_value", .text returned),
    ("trace", .list (t.trace.toList.map TraceEntry.json)),
    ("environment", .object ((t.world.scopes.visible 0).map fun (name, b) => (name, b.json)))]

end Chronicle
