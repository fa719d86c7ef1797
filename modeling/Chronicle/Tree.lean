import Chronicle.Fault
import Chronicle.Location

/-!
# Concrete trees

The concrete tree of a source text: every token is a leaf and every construct a node over the pieces
it is made of, comments included.  Each node says what kind of construct it is, from where to where
it extends, and the role (field) it plays in its parent.  A node keeps positions only; its text is
cut from the bytes of the source.
-/

set_option autoImplicit false

namespace Chronicle

/-- A position in a source: bytes from its start, and row and column, both from zero, the column in
bytes too. -/
structure Point where
  byte : Nat := 0
  row : Nat := 0
  column : Nat := 0
  deriving DecidableEq, Repr, Inhabited

namespace Tree

/-- What a node of a concrete tree says about itself. -/
structure Label where
  kind : String
  isNamed : Bool := true
  start : Point := {}
  stop : Point := {}
  field : Option String := none
  /-- Whether the node stands for a token that the source lacks. -/
  isMissing : Bool := false
  /-- Whether something in the node could not be read. -/
  hasError : Bool := false
  deriving DecidableEq, Repr, Inhabited

namespace Label

/-- The location of a node. -/
def location (l : Label) : Location :=
  { startLine := l.start.row + 1, startColumn := l.start.column,
    endLine := l.stop.row + 1, endColumn := l.stop.column }

/-- Whether a node is a comment. -/
def isComment (l : Label) : Bool :=
  l.kind == "comment"

/-- Whether a node is a construct of the language: neither a token nor a comment. -/
def isConstruct (l : Label) : Bool :=
  l.isNamed && !l.isComment

/-- Whether a node can stand between any two tokens: a comment, or a line left out by a mark of an
HTML comment. -/
def isAside (l : Label) : Bool :=
  l.isComment || l.kind == "html_comment"

end Label

end Tree

/-- A concrete tree. -/
inductive Tree where
  | node (label : Tree.Label) (children : List Tree)

/-- The text of a range of bytes. -/
def sourceText (source : ByteArray) (start stop : Nat) : Except Fault String :=
  (Utf8.decode (source.extract start stop)).mapError .undecodable

/-- The text of a node. -/
def Tree.Label.text (source : ByteArray) (l : Tree.Label) : Except Fault String :=
  sourceText source l.start.byte l.stop.byte

namespace Tree

instance : Inhabited Tree := ⟨.node default []⟩

/-- The label of a tree's root. -/
def label : Tree → Label
  | node l _ => l

/-- The subtrees below a tree's root. -/
def children : Tree → List Tree
  | node _ cs => cs

/-- The first child that plays a role. -/
def childByField? (t : Tree) (field : String) : Option Tree :=
  t.children.find? (·.label.field == some field)

mutual

/-- The number of nodes of a tree. -/
def size : Tree → Nat
  | node _ cs => sizeAll cs + 1

/-- The number of nodes of some trees. -/
def sizeAll : List Tree → Nat
  | [] => 0
  | t :: ts => t.size + sizeAll ts

end

mutual

/-- The nodes of a tree, each before those below it. -/
def preorder : Tree → List Tree
  | node l cs => node l cs :: preorderAll cs

/-- The nodes of some trees, each before those below it. -/
def preorderAll : List Tree → List Tree
  | [] => []
  | t :: ts => t.preorder ++ preorderAll ts

end

theorem sizeAll_append (ts us : List Tree) : sizeAll (ts ++ us) = sizeAll ts + sizeAll us := by
  induction ts with
  | nil => simp [sizeAll]
  | cons t ts ih => simp [sizeAll, ih, Nat.add_assoc]

end Tree

end Chronicle
