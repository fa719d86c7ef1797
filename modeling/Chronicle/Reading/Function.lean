import Chronicle.Reading.Basic

/-!
# Functions

The name, the parameters and the body of a function.  A parameter with a default is read as its name
alone; other patterns are not interpreted.
-/

set_option autoImplicit false

namespace Chronicle.Reading

/-- One parameter. -/
def parameter (source : ByteArray) (r : Reading) : Except Fault Node :=
  match r.label.kind with
  | "identifier" => identifier source r.label
  | "assignment_pattern" => do
    let left ← byField "left" r.children
    if left.label.kind == "identifier" then identifier source left.label
    else unsupported source r.label
  | _ => unsupported source r.label

/-- The parameters that a piece lists; a name alone is one parameter. -/
def parameters (source : ByteArray) : Option Reading → Except Fault (List Node)
  | none => .ok []
  | some r =>
    if r.label.kind == "identifier" then do return [← identifier source r.label]
    else (constructs r.children).mapM (parameter source)

/-- The name of a function, if it has one. -/
def functionName (source : ByteArray) (pieces : List Reading) :
    Except Fault (Option Identifier) :=
  match byField? "name" pieces with
  | some r => do return some (← named source r.label)
  | none => .ok none

/-- The parts of a function with a block: name, parameters, and the body with its place. -/
def functionParts (source : ByteArray) (pieces : List Reading) :
    Except Fault (Option Identifier × List Node × Location × List Node) := do
  let id ← functionName source pieces
  let params ← parameters source (byField? "parameters" pieces)
  let body ← byField "body" pieces
  return (id, params, body.label.location, ← statements body.children)

/-- A function that is a statement. -/
def functionDeclaration (source : ByteArray) (l : Tree.Label) (pieces : List Reading) :
    Except Fault Node := do
  let (id, params, place, body) ← functionParts source pieces
  return .functionDeclaration l.location id params place body

/-- A function that is a value. -/
def functionExpression (source : ByteArray) (l : Tree.Label) (pieces : List Reading) :
    Except Fault Node := do
  let (id, params, place, body) ← functionParts source pieces
  return .functionExpression l.location id params place body

/-- An arrow function; its body is a block or an expression. -/
def arrowFunction (source : ByteArray) (l : Tree.Label) (pieces : List Reading) :
    Except Fault Node := do
  let params := (byField? "parameter" pieces).or (byField? "parameters" pieces)
  let body ← byField "body" pieces
  if body.label.kind == "statement_block" then
    let block := Node.block body.label.location (← statements body.children)
    return .arrowFunction l.location (← parameters source params) block false
  else
    let value ← body.expression
    return .arrowFunction l.location (← parameters source params) value true

end Chronicle.Reading
