import Chronicle.Node
import Chronicle.Tree

/-!
# Comments of a tree

All comments of a concrete tree in the order of the source, wherever they stand.
-/

set_option autoImplicit false

namespace Chronicle

/-- A comment without its delimiters.  A comment that does not open as a block is a line. -/
def Comment.ofText (text : String) (location : Location) : Comment :=
  match text.toList with
  | '/' :: '*' :: body =>
    let closed := ['*', '/'].isSuffixOf body
    ⟨.block, String.ofList (if closed then body.take (body.length - 2) else body), location⟩
  | cs => ⟨.line, String.ofList (cs.drop 2), location⟩

namespace Tree

/-- The comments of the trees still to visit. -/
def commentsFrom (source : ByteArray) (stack : List Tree) : Except Fault (List Comment) :=
  match stack with
  | [] => .ok []
  | .node l cs :: rest =>
    if l.isComment then do
      let text ← l.text source
      return Comment.ofText text l.location :: (← commentsFrom source rest)
    else commentsFrom source (cs ++ rest)
termination_by sizeAll stack
decreasing_by
  all_goals simp only [sizeAll, size, sizeAll_append]; omega

/-- The comments of a tree. -/
def comments (source : ByteArray) (t : Tree) : Except Fault (List Comment) :=
  commentsFrom source [t]

end Tree

end Chronicle
