import Chronicle.Reading.Expression
import Chronicle.Reading.Statement
import Chronicle.Tree.Comments

/-!
# Programs

The readings of a whole tree from the leaves up, and the program that a tree is.
-/

set_option autoImplicit false

namespace Chronicle

mutual

/-- The reading of a tree: the rules applied to the readings of its pieces. -/
def Tree.reading (source : ByteArray) : Tree → Reading
  | .node l cs =>
    let pieces := Tree.readings source cs
    .mk l (Reading.asExpression source l pieces) (Reading.asStatement source l pieces) pieces

/-- The readings of some trees. -/
def Tree.readings (source : ByteArray) : List Tree → List Reading
  | [] => []
  | t :: ts => t.reading source :: Tree.readings source ts

end

/-- The program of a tree over the bytes of its source. -/
def Tree.program (source : ByteArray) (t : Tree) : Except Fault Node := do
  let body ← Reading.statements (t.reading source).children
  let comments ← t.comments source
  return .program t.label.location body comments

end Chronicle
