import Chronicle.Node
import Chronicle.Tree

/-!
# Readings

What a piece of a concrete tree means depends on where it stands: the same node can be asked for as
an expression or as a statement.  A `Reading` is a concrete tree in which every node carries both
answers.  The rules for the kinds of constructs (`Reading.Expression`, `Reading.Statement`) then
look at the readings of the pieces and need no recursion of their own, and a fault in a piece
surfaces only where a rule asks for that piece.
-/

set_option autoImplicit false

namespace Chronicle

/-- A concrete tree whose nodes carry what they are as an expression and as a statement. -/
inductive Reading where
  | mk (label : Tree.Label) (expression statement : Except Fault Node) (children : List Reading)

namespace Reading

/-- The label of a reading's node. -/
def label : Reading → Tree.Label
  | mk l _ _ _ => l

/-- What the node is as an expression. -/
def expression : Reading → Except Fault Node
  | mk _ e _ _ => e

/-- What the node is as a statement. -/
def statement : Reading → Except Fault Node
  | mk _ _ s _ => s

/-- The readings of the pieces. -/
def children : Reading → List Reading
  | mk _ _ _ cs => cs

/-- The first piece that plays a role. -/
def byField? (field : String) (pieces : List Reading) : Option Reading :=
  pieces.find? (·.label.field == some field)

/-- The first piece that plays a role, where there has to be one. -/
def byField (field : String) (pieces : List Reading) : Except Fault Reading :=
  match byField? field pieces with
  | some r => .ok r
  | none => .error .noProperty

/-- The pieces that are constructs of the language. -/
def constructs (pieces : List Reading) : List Reading :=
  pieces.filter (·.label.isConstruct)

/-- The first construct among the pieces, where there has to be one. -/
def firstConstruct (pieces : List Reading) : Except Fault Reading :=
  match constructs pieces with
  | r :: _ => .ok r
  | [] => .error .noElement

/-- The node of a construct that is not interpreted. -/
def unsupported (source : ByteArray) (l : Tree.Label) : Except Fault Node := do
  return .unsupported l.location l.kind (← l.text source)

/-- The node of a name; the name `undefined` is the value. -/
def identifier (source : ByteArray) (l : Tree.Label) : Except Fault Node := do
  let name ← l.text source
  if name == "undefined" then return .literal l.location .undefined "undefined"
  else return .identifier l.location name

/-- The name that a node is, with its place. -/
def named (source : ByteArray) (l : Tree.Label) : Except Fault Identifier := do
  return ⟨← l.text source, l.location⟩

/-- Whether a piece is left out of the statements it stands among. -/
def isNoise (l : Tree.Label) : Bool :=
  l.kind == "empty_statement" || l.kind == "\n"

/-- The statements among the pieces. -/
def statements (pieces : List Reading) : Except Fault (List Node) :=
  ((constructs pieces).filter (fun r => !isNoise r.label)).mapM statement

end Reading

end Chronicle
