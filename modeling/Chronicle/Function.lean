import Chronicle.Node

/-!
# Functions

A function of a program in one shape, whatever form it was written in: a block of statements for its
body.  An arrow function whose body is an expression returns it.
-/

set_option autoImplicit false

namespace Chronicle

/-- A function with a block for its body. -/
structure Function where
  location : Location
  id : Option Identifier
  params : List Node
  bodyLocation : Location
  body : List Node

/-- The function as a declaration. -/
def Function.toNode (f : Function) : Node :=
  .functionDeclaration f.location f.id f.params f.bodyLocation f.body

/-- Whether a node is a function. -/
def Node.isFunction : Node → Bool
  | .functionDeclaration .. | .functionExpression .. | .arrowFunction .. => true
  | _ => false

/-- A function node in one shape; `none` for a node that is no function, or whose body should be a
block and is none. -/
def Function.ofNode? : Node → Option Function
  | .functionDeclaration location id params bodyLocation body
  | .functionExpression location id params bodyLocation body =>
    some ⟨location, id, params, bodyLocation, body⟩
  | .arrowFunction location params body isExpression =>
    if isExpression then
      some ⟨location, none, params, body.location, [.returnStatement body.location (some body)]⟩
    else match body with
      | .block bodyLocation statements => some ⟨location, none, params, bodyLocation, statements⟩
      | _ => none
  | _ => none

end Chronicle
