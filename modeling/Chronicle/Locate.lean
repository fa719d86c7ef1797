import Chronicle.Failure
import Chronicle.Function
import Chronicle.Node.Children

/-!
# Locating annotated functions

A function is annotated when a comment with parameter specifications ends on the line above it.  The
search goes down the whole program, except below functions it has found, and gives them in the order
of their position.
-/

set_option autoImplicit false

namespace Chronicle

/-- An annotated function: its name, its one shape, and its specifications with their heap. -/
structure LocatedFunction where
  name : String
  function : Function
  heap : Heap
  params : List ParameterSpec

/-- The line of a located function. -/
def LocatedFunction.line (f : LocatedFunction) : Int :=
  f.function.location.startLine

/-- The name of a function without one. -/
def anonymousName : String := "<anonymous>"

/-- The name that a target of assignment gives a function. -/
def Node.targetName : Node → String
  | .identifier _ name => name
  | .thisValue _ => "this"
  | .member _ owner part computed =>
    let last := (part.name?).getD "?"
    if computed then owner.targetName ++ "[" ++ last ++ "]" else owner.targetName ++ "." ++ last
  | _ => anonymousName

/-- The name and the function that a node introduces, if it introduces one: a declaration, or a
function that a variable or a target is set to. -/
def Node.introduces? : Node → Option (String × Node)
  | node@(.functionDeclaration _ id ..) =>
    some ((id.map Identifier.name).getD anonymousName, node)
  | .declarator _ id (some init) =>
    if init.isFunction then some (id.targetName, init) else none
  | .assignment _ _ left right =>
    if right.isFunction then some (left.targetName, right) else none
  | _ => none

/-- The name, function and annotation of a node that introduces an annotated function. -/
def Node.annotated? (annotations : List ParameterDoc) (node : Node) :
    Option (String × Node × ParameterDoc) := do
  let (name, fn) ← node.introduces?
  let doc ← ParameterDoc.findAbove? annotations node.location.startLine
  return (name, fn, doc)

/-- The annotated functions of the nodes still to visit, after those already found. -/
def locateFrom (annotations : List ParameterDoc) (stack : List Node)
    (found : List LocatedFunction) : Except Failure (List LocatedFunction) :=
  match stack with
  | [] => .ok found
  | node :: rest =>
    match node.annotated? annotations with
    | some (name, fn, doc) =>
      match Function.ofNode? fn with
      | some function =>
        locateFrom annotations rest
          (found ++ [⟨name, function, doc.heap, doc.params⟩])
      | none => .error .noBlock
    | none => locateFrom annotations (node.children ++ rest) found
termination_by Node.sizeAll stack
decreasing_by
  all_goals simp only [Node.sizeAll, Node.sizeAll_append, Node.size_eq node]; omega

/-- Whether a function starts no later than another. -/
def LocatedFunction.startsBefore (a b : LocatedFunction) : Bool :=
  let l := a.function.location
  let m := b.function.location
  l.startLine < m.startLine || (l.startLine == m.startLine && l.startColumn ≤ m.startColumn)

/-- The annotated functions of a program in the order of their position. -/
def locateFunctions (program : Node) (annotations : List ParameterDoc) :
    Except Failure (List LocatedFunction) := do
  let found ← locateFrom annotations [program] []
  return found.mergeSort LocatedFunction.startsBefore

end Chronicle
