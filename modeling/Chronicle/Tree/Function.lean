import Chronicle.Tree

/-!
# Functions of a tree

The search for a function by its name: a function that is written with a name, or one that a
variable or a target of assignment is set to.
-/

set_option autoImplicit false

namespace Chronicle.Tree

/-- Whether a node is a function. -/
def isFunction (t : Tree) : Bool :=
  ["function_declaration", "function_expression", "function", "arrow_function"].contains
    t.label.kind

/-- The roles of the name and the value in a node that binds a name. -/
def bindingFields? (t : Tree) : Option (String × String) :=
  match t.label.kind with
  | "variable_declarator" => some ("name", "value")
  | "assignment_expression" => some ("left", "right")
  | _ => none

/-- The name under which a node introduces a function; empty if it introduces none. -/
def functionName (source : ByteArray) (t : Tree) : Except Fault String :=
  match t.bindingFields? with
  | some (nameField, valueField) =>
    match t.childByField? valueField, t.childByField? nameField with
    | some value, some name => if value.isFunction then name.label.text source else .ok ""
    | _, _ => .ok ""
  | none =>
    match t.isFunction, t.childByField? "name" with
    | true, some name => name.label.text source
    | _, _ => .ok ""

mutual

/-- The first node that introduces a function of a name. -/
def findFunction? (source : ByteArray) (name : String) : Tree → Except Fault (Option Tree)
  | node l cs => do
    if (← functionName source (node l cs)) == name then return some (node l cs)
    else findFunctionIn? source name cs

/-- The first node of some trees that introduces a function of a name. -/
def findFunctionIn? (source : ByteArray) (name : String) : List Tree → Except Fault (Option Tree)
  | [] => .ok none
  | t :: ts => do
    match ← findFunction? source name t with
    | some found => return some found
    | none => findFunctionIn? source name ts

end

end Chronicle.Tree
