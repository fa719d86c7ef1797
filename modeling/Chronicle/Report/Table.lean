import Chronicle.Run.Execute

/-!
# A run as a table

One row per visited point with the writes stamped there, between a heading and the outcome.
-/

set_option autoImplicit false

namespace Chronicle.TracedFunction

/-- Writes as `name = value`. -/
def changesText (changes : List (String × String)) : String :=
  Text.join ", " (changes.map fun (name, text) => name ++ " = " ++ text)

/-- The row of a visited point. -/
def row (t : TracedFunction) (e : TraceEntry) : String :=
  let outcome := match e.outcome with
    | none => ""
    | some true => "true"
    | some false => "false"
  "  step " ++ Text.padLeft 3 (Number.intText e.step) ++
    "  line " ++ Text.padLeft 4 (Number.intText e.line) ++
    "  " ++ Text.padRight 20 e.kind.name ++ " " ++ Text.padRight 5 outcome ++ "  " ++
    changesText (t.world.scopes.changesAt 0 e.step)

/-- The last row: the error, or the value returned. -/
def outcomeRow (t : TracedFunction) : Except Fault String :=
  match t.failure with
  | some e => .ok ("  failed: " ++ e.message)
  | none => return "  returned: " ++ (← t.returned.heap.format t.returned.value)

/-- The table of a run. -/
def table (t : TracedFunction) : Except Fault String := do
  let heading := "═══ " ++ t.located.name ++ " (" ++ t.status.name ++ ") ═══"
  let params := t.world.scopes.changesAt 0 parameterStep
  let start := if params.isEmpty then [] else ["  step   0            " ++ changesText params]
  let last ← t.outcomeRow
  let rows := heading :: start ++ t.trace.toList.map t.row ++ [last]
  return Text.join "\n" (rows.map Text.trimRight)

end Chronicle.TracedFunction
