import Chronicle.Reading.Function

/-!
# Statements

What each kind of construct is as a statement.  Kinds without a rule are not interpreted.
-/

set_option autoImplicit false

namespace Chronicle.Reading

/-- An expression that is a statement. -/
def expressionStatement (source : ByteArray) (l : Tree.Label) (pieces : List Reading) :
    Except Fault Node :=
  match constructs pieces with
  | [inner] => do return .expressionStatement l.location (← inner.expression)
  | _ => unsupported source l

/-- A variable of a declaration. -/
def declarator (source : ByteArray) (r : Reading) : Except Fault Node := do
  let target ← byField "name" r.children
  let id ←
    if target.label.kind == "identifier" then identifier source target.label
    else unsupported source target.label
  match byField? "value" r.children with
  | some value => return .declarator r.label.location id (some (← value.expression))
  | none => return .declarator r.label.location id none

/-- A declaration of variables; its kind is the first piece. -/
def declaration (source : ByteArray) (l : Tree.Label) (pieces : List Reading) :
    Except Fault Node := do
  let declarators ←
    (pieces.filter (·.label.kind == "variable_declarator")).mapM (declarator source)
  match pieces with
  | [] => throw .noElement
  | first :: _ => return .declaration l.location (← first.label.text source) declarators

/-- A branch; the `else` around an alternative is passed over. -/
def alternative (r : Reading) : Except Fault Node := do
  if r.label.kind == "else_clause" then (← firstConstruct r.children).statement
  else r.statement

/-- A conditional. -/
def conditional (l : Tree.Label) (pieces : List Reading) : Except Fault Node := do
  let alternate ← (byField? "alternative" pieces).mapM alternative
  let test ← (← byField "condition" pieces).expression
  let consequent ← (← byField "consequence" pieces).statement
  return .ifStatement l.location test consequent alternate

/-- A loop with a condition only. -/
def whileLoop (l : Tree.Label) (pieces : List Reading) : Except Fault Node := do
  let test ← (← byField "condition" pieces).expression
  return .whileStatement l.location test (← (← byField "body" pieces).statement)

/-- The initializer or the condition of a loop: a declaration, an expression, or nothing. -/
def clause : Option Reading → Except Fault (Option Node)
  | none => .ok none
  | some r =>
    if !r.label.isNamed then .ok none
    else match r.label.kind with
      | "empty_statement" => .ok none
      | "lexical_declaration" | "variable_declaration" => do return some (← r.statement)
      | "expression_statement" => (constructs r.children).head?.mapM expression
      | _ => do return some (← r.expression)

/-- A loop with an initializer, a condition and an update. -/
def forLoop (l : Tree.Label) (pieces : List Reading) : Except Fault Node := do
  let init ← clause (byField? "initializer" pieces)
  let test ← clause (byField? "condition" pieces)
  let update ← ((byField? "increment" pieces).or (byField? "update" pieces)).mapM expression
  return .forStatement l.location init test update (← (← byField "body" pieces).statement)

/-- What a construct with these pieces is as a statement. -/
def asStatement (source : ByteArray) (l : Tree.Label) (pieces : List Reading) :
    Except Fault Node :=
  match l.kind with
  | "expression_statement" => expressionStatement source l pieces
  | "lexical_declaration" | "variable_declaration" => declaration source l pieces
  | "if_statement" => conditional l pieces
  | "while_statement" => whileLoop l pieces
  | "for_statement" => forLoop l pieces
  | "return_statement" => do
    return .returnStatement l.location (← (constructs pieces).head?.mapM expression)
  | "continue_statement" => do
    return .continueStatement l.location
      (← (byField? "label" pieces).mapM (·.label.text source))
  | "statement_block" => do return .block l.location (← statements pieces)
  | "function_declaration" => functionDeclaration source l pieces
  | _ => unsupported source l

end Chronicle.Reading
