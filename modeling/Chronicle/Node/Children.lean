import Chronicle.Node

/-!
# The tree of a program

The children of a node in source order of its parts, and the number of nodes of a tree, which is one
more than that of all children together.
-/

set_option autoImplicit false

namespace Chronicle.Node

/-- The nodes right below a node. -/
def children : Node → List Node
  | program _ body _ => body
  | block _ body => body
  | functionDeclaration _ id params bodyLocation body =>
    (id.map ofIdentifier).toList ++ params ++ [block bodyLocation body]
  | declarator _ id init => id :: init.toList
  | declaration _ _ declarators => declarators
  | ifStatement _ test consequent alternate => test :: consequent :: alternate.toList
  | whileStatement _ test body => [test, body]
  | forStatement _ init test next body =>
    init.toList ++ test.toList ++ next.toList ++ [body]
  | expressionStatement _ expression => [expression]
  | returnStatement _ argument => argument.toList
  | continueStatement .. => []
  | identifier .. => []
  | thisValue _ => []
  | literal .. => []
  | array _ elements => elements.flatMap Option.toList
  | property _ key value _ _ _ => key :: value.toList
  | object _ properties => properties
  | new _ callee arguments => callee :: arguments
  | update _ _ _ argument => [argument]
  | unary _ _ argument => [argument]
  | binary _ _ left right => [left, right]
  | assignment _ _ left right => [left, right]
  | member _ receiver name _ => [receiver, name]
  | call _ callee arguments => callee :: arguments
  | functionExpression _ id params bodyLocation body =>
    (id.map ofIdentifier).toList ++ params ++ [block bodyLocation body]
  | arrowFunction _ params body _ => params ++ [body]
  | unsupported .. => []

mutual

/-- The number of nodes of a tree. -/
def size : Node → Nat
  | program _ body _ => sizeAll body + 1
  | block _ body => sizeAll body + 1
  | functionDeclaration _ id params _ body =>
    id.toList.length + sizeAll params + (sizeAll body + 1) + 1
  | declarator _ id init => id.size + sizeOption init + 1
  | declaration _ _ declarators => sizeAll declarators + 1
  | ifStatement _ test consequent alternate =>
    test.size + (consequent.size + sizeOption alternate) + 1
  | whileStatement _ test body => test.size + body.size + 1
  | forStatement _ init test next body =>
    sizeOption init + sizeOption test + sizeOption next + body.size + 1
  | expressionStatement _ expression => expression.size + 1
  | returnStatement _ argument => sizeOption argument + 1
  | continueStatement .. => 1
  | identifier .. => 1
  | thisValue _ => 1
  | literal .. => 1
  | array _ elements => sizeElements elements + 1
  | property _ key value _ _ _ => key.size + sizeOption value + 1
  | object _ properties => sizeAll properties + 1
  | new _ callee arguments => callee.size + sizeAll arguments + 1
  | update _ _ _ argument => argument.size + 1
  | unary _ _ argument => argument.size + 1
  | binary _ _ left right => left.size + right.size + 1
  | assignment _ _ left right => left.size + right.size + 1
  | member _ receiver name _ => receiver.size + name.size + 1
  | call _ callee arguments => callee.size + sizeAll arguments + 1
  | functionExpression _ id params _ body =>
    id.toList.length + sizeAll params + (sizeAll body + 1) + 1
  | arrowFunction _ params body _ => sizeAll params + body.size + 1
  | unsupported .. => 1

/-- The number of nodes of a tree that may be missing. -/
def sizeOption : Option Node → Nat
  | none => 0
  | some n => n.size

/-- The number of nodes of trees. -/
def sizeAll : List Node → Nat
  | [] => 0
  | n :: rest => n.size + sizeAll rest

/-- The number of nodes of trees with holes between them. -/
def sizeElements : List (Option Node) → Nat
  | [] => 0
  | n :: rest => sizeOption n + sizeElements rest

end

@[simp]
theorem sizeAll_append (xs ys : List Node) : sizeAll (xs ++ ys) = sizeAll xs + sizeAll ys := by
  induction xs with
  | nil => simp [sizeAll]
  | cons n rest ih => simp [sizeAll, ih]; omega

@[simp]
theorem sizeAll_toList (n : Option Node) : sizeAll n.toList = sizeOption n := by
  cases n <;> simp [sizeAll, sizeOption]

@[simp]
theorem sizeAll_flatMap_toList (elements : List (Option Node)) :
    sizeAll (elements.flatMap Option.toList) = sizeElements elements := by
  induction elements with
  | nil => rfl
  | cons n rest ih => rw [List.flatMap_cons, sizeAll_append, sizeAll_toList, ih, sizeElements]

@[simp]
theorem sizeOption_identifier (i : Option Identifier) :
    sizeOption (i.map ofIdentifier) = i.toList.length := by
  cases i <;> simp [sizeOption, size, ofIdentifier]

/-- A tree has one node more than its children together. -/
theorem size_eq (n : Node) : n.size = sizeAll n.children + 1 := by
  cases n <;> simp [size, children, sizeAll, Nat.add_assoc]

end Chronicle.Node
