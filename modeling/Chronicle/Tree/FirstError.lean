import Chronicle.Failure
import Chronicle.Tree

/-!
# Malformed pieces

A tree of malformed source marks the pieces that could not be read and the tokens that are missing.
The search for the first of them goes down only where something could not be read.
-/

set_option autoImplicit false

namespace Chronicle.Tree

/-- Whether a node is a piece that could not be read or a token that is missing. -/
def isBad (t : Tree) : Bool :=
  t.label.kind == "ERROR" || t.label.isMissing

mutual

/-- The first bad node of a tree; a node with an error that none of its children accounts for is
taken itself. -/
def firstError? : Tree → Option Tree
  | node l cs =>
    if (node l cs).isBad then some (node l cs)
    else if !l.hasError then none
    else some ((firstErrorIn? cs).getD (node l cs))

/-- The first bad node of some trees. -/
def firstErrorIn? : List Tree → Option Tree
  | [] => none
  | t :: ts =>
    match firstError? t with
    | some found => some found
    | none => firstErrorIn? ts

end

/-- A tree without bad nodes; otherwise the failure that names the first. -/
def wellFormed (t : Tree) : Except Failure Tree :=
  match t.firstError? with
  | none => .ok t
  | some bad =>
    let what := if bad.label.isMissing then "missing " ++ bad.label.kind else "syntax error"
    .error (.malformed what bad.label.location)

end Chronicle.Tree
