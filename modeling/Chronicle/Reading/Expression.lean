import Chronicle.Reading.Function
import Chronicle.Reading.Literal

/-!
# Expressions

What each kind of construct is as an expression.  Kinds without a rule are not interpreted.
-/

set_option autoImplicit false

namespace Chronicle.Reading

/-- A parenthesized expression is the expression in it. -/
def parenthesized (source : ByteArray) (l : Tree.Label) (pieces : List Reading) :
    Except Fault Node :=
  match constructs pieces with
  | [inner] => inner.expression
  | _ => unsupported source l

/-- The elements of an array, given the one read since the last comma.  A comma ends an element,
present or not; after the last comma only a present one counts. -/
def elements (current : Option Node) : List Reading → Except Fault (List (Option Node))
  | [] => .ok (match current with | some node => [some node] | none => [])
  | r :: rest =>
    if r.label.kind == "," then do return current :: (← elements none rest)
    else if r.label.isConstruct then do elements (some (← r.expression)) rest
    else elements current rest

/-- An array. -/
def array (l : Tree.Label) (pieces : List Reading) : Except Fault Node := do
  return .array l.location (← elements none pieces)

/-- The key of a property, and whether it is computed. -/
def propertyKey (source : ByteArray) (r : Reading) : Except Fault (Node × Bool) :=
  match r.label.kind with
  | "computed_property_name" => do
    let inner ← firstConstruct r.children
    return (← inner.expression, true)
  | "property_identifier" | "identifier" => do
    return (.ofIdentifier (← named source r.label), false)
  | _ => do return (← r.expression, false)

/-- A member of an object. -/
def property (source : ByteArray) (r : Reading) : Except Fault Node :=
  let place := r.label.location
  match r.label.kind with
  | "pair" => do
    let (key, computed) ← propertyKey source (← byField "key" r.children)
    let value ← (← byField "value" r.children).expression
    return .property place key (some value) "init" computed false
  | "shorthand_property_identifier" => do
    let name := Node.ofIdentifier (← named source r.label)
    return .property place name (some name) "init" false true
  | "method_definition" => do
    let (key, computed) ← propertyKey source (← byField "name" r.children)
    return .property place key none "method" computed false
  | kind => do return .property place (← unsupported source r.label) none kind false false

/-- An object. -/
def object (source : ByteArray) (l : Tree.Label) (pieces : List Reading) : Except Fault Node := do
  return .object l.location (← (constructs pieces).mapM (property source))

/-- The text of the operator between two operands: the piece of that role, or the first token after
the left operand. -/
def operatorText (source : ByteArray) (pieces : List Reading) : Except Fault String :=
  match byField? "operator" pieces with
  | some r => r.label.text source
  | none =>
    match pieces.filter (fun r => !r.label.isNamed) with
    | [] => .error .noElement
    | tokens => do
      let left ← byField "left" pieces
      match tokens.find? fun r => left.label.stop.byte ≤ r.label.start.byte with
      | some r => r.label.text source
      | none => throw .noElement

/-- A binary operation. -/
def binary (source : ByteArray) (l : Tree.Label) (pieces : List Reading) : Except Fault Node := do
  let operator ← operatorText source pieces
  let left ← (← byField "left" pieces).expression
  let right ← (← byField "right" pieces).expression
  return .binary l.location operator left right

/-- A unary operation; its operator is the first piece. -/
def unary (source : ByteArray) (l : Tree.Label) (pieces : List Reading) : Except Fault Node := do
  match pieces with
  | [] => throw .noElement
  | first :: _ =>
    let operator ← first.label.text source
    return .unary l.location operator (← (← byField "argument" pieces).expression)

/-- An increment or decrement. -/
def update (source : ByteArray) (l : Tree.Label) (pieces : List Reading) : Except Fault Node := do
  match pieces.find? fun r => r.label.kind == "++" || r.label.kind == "--" with
  | none => throw .noElement
  | some mark =>
    let operator ← mark.label.text source
    let argument ← byField "argument" pieces
    let leading := decide (mark.label.start.byte < argument.label.start.byte)
    return .update l.location operator leading (← argument.expression)

/-- An assignment by an operator. -/
def assignment (l : Tree.Label) (operator : String) (pieces : List Reading) :
    Except Fault Node := do
  let left ← (← byField "left" pieces).expression
  let right ← (← byField "right" pieces).expression
  return .assignment l.location operator left right

/-- A property by its name. -/
def member (source : ByteArray) (l : Tree.Label) (pieces : List Reading) : Except Fault Node := do
  let owner ← (← byField "object" pieces).expression
  let name ← named source (← byField "property" pieces).label
  return .member l.location owner (.ofIdentifier name) false

/-- A property by the value of an expression. -/
def subscript (l : Tree.Label) (pieces : List Reading) : Except Fault Node := do
  let owner ← (← byField "object" pieces).expression
  let index ← (← byField "index" pieces).expression
  return .member l.location owner index true

/-- The arguments that a piece lists. -/
def arguments : Option Reading → Except Fault (List Node)
  | none => .ok []
  | some r => (constructs r.children).mapM expression

/-- A call; one whose argument is a template is not interpreted. -/
def call (source : ByteArray) (l : Tree.Label) (pieces : List Reading) : Except Fault Node := do
  let args := byField? "arguments" pieces
  if args.any (·.label.kind != "arguments") then unsupported source l
  else
    let callee ← (← byField "function" pieces).expression
    return .call l.location callee (← arguments args)

/-- A construction. -/
def construction (l : Tree.Label) (pieces : List Reading) : Except Fault Node := do
  let callee ← (← byField "constructor" pieces).expression
  return .new l.location callee (← arguments (byField? "arguments" pieces))

/-- What a construct with these pieces is as an expression. -/
def asExpression (source : ByteArray) (l : Tree.Label) (pieces : List Reading) :
    Except Fault Node :=
  match l.kind with
  | "identifier" => identifier source l
  | "undefined" => .ok (.literal l.location .undefined "undefined")
  | "number" => number source l
  | "string" => quoted source l
  | "template_string" => template source l pieces
  | "true" | "false" | "null" => keyword source l
  | "this" => .ok (.thisValue l.location)
  | "parenthesized_expression" => parenthesized source l pieces
  | "array" => array l pieces
  | "object" => object source l pieces
  | "binary_expression" => binary source l pieces
  | "unary_expression" => unary source l pieces
  | "update_expression" => update source l pieces
  | "assignment_expression" => assignment l "=" pieces
  | "augmented_assignment_expression" => do
    assignment l (← operatorText source pieces) pieces
  | "member_expression" => member source l pieces
  | "subscript_expression" => subscript l pieces
  | "call_expression" => call source l pieces
  | "new_expression" => construction l pieces
  | "function" | "function_expression" => functionExpression source l pieces
  | "arrow_function" => arrowFunction source l pieces
  | _ => unsupported source l

end Chronicle.Reading
