import Chronicle.Node

/-!
# Traces

A trace lists the control-flow points that a run visits.  An entry's step is its place in the trace,
counted from one.
-/

set_option autoImplicit false

namespace Chronicle

/-- The statements that leave an entry in the trace. -/
inductive TraceKind where
  | declaration | ifStatement | whileStatement | forStatement | expressionStatement
  | returnStatement | continueStatement
  deriving DecidableEq, Repr

/-- The name of a statement in traces. -/
def TraceKind.name : TraceKind → String
  | .declaration => "VariableDeclaration"
  | .ifStatement => "IfStatement"
  | .whileStatement => "WhileStatement"
  | .forStatement => "ForStatement"
  | .expressionStatement => "ExpressionStatement"
  | .returnStatement => "ReturnStatement"
  | .continueStatement => "ContinueStatement"

/-- One visited point: its place, its source line, its statement, and for a condition whether it
held. -/
structure TraceEntry where
  step : Nat
  line : Int
  kind : TraceKind
  outcome : Option Bool := none
  deriving DecidableEq, Repr

/-- The visited points in order. -/
abbrev Trace := Array TraceEntry

/-- The trace with one more point. -/
def Trace.append (trace : Trace) (line : Int) (kind : TraceKind) (outcome : Option Bool) : Trace :=
  trace.push ⟨trace.size + 1, line, kind, outcome⟩

/-- The source lines of a trace. -/
def Trace.lines (trace : Trace) : List Int :=
  trace.toList.map TraceEntry.line

end Chronicle
