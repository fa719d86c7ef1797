import Chronicle.Grammar.Operand

/-!
# Operations

Operators between operands, by how tightly they bind.  Operators of one level group from the left,
except `**`, which groups from the right.  The conditional and `??` are of one level, the loosest.
-/

set_option autoImplicit false

namespace Chronicle.Grammar

/-- The loosest level, of `??` and the conditional. -/
def loosest : Nat := 1

/-- The level of an operator. -/
def levelOf? (operator : String) : Option Nat :=
  match operator with
  | "??" => some loosest
  | "||" => some 2
  | "&&" => some 3
  | "|" => some 4
  | "^" => some 5
  | "&" => some 6
  | "==" | "!=" | "===" | "!==" => some 7
  | "<" | ">" | "<=" | ">=" | "in" | "instanceof" => some relational
  | "<<" | ">>" | ">>>" => some 9
  | "+" | "-" => some 10
  | "*" | "/" | "%" => some 11
  | "**" => some 12
  | _ => none

/-- The level that the right operand of an operator has at least. -/
def rightLevel (operator : String) (level : Nat) : Nat :=
  if operator == "**" then level else level + 1

/-- The operator that a token is. -/
def operatorOf? : Lexeme → Option String
  | .punctuator p => some p
  | .word "in" => some "in"
  | .word "instanceof" => some "instanceof"
  | _ => none

/-- The operation that pieces are the left operand of, if its operator binds tightly enough. -/
def operationOf (rules : Rules) (ends : Bool) (level : Nat) (pieces : Pieces) :
    Parser (Option Pieces) := do
  if ← stopsHere ends then return none
  match operatorOf? (← peek) with
  | none => return none
  | some "?" =>
    if level ≤ loosest then
      let mark ← punctuator "?"
      let consequence ← rules (.expression false)
      let colon ← punctuator ":"
      let alternative ← rules (.operation ends loosest)
      return some (construct "ternary_expression"
        (inRole "condition" pieces ++ mark ++ inRole "consequence" consequence ++ colon ++
          inRole "alternative" alternative))
    else return none
  | some operator =>
    match levelOf? operator with
    | none => return none
    | some found =>
      if found < level then return none
      else
        let mark ← token operator false operator.length
        let right ← rules (.operation ends (rightLevel operator found))
        return some (construct "binary_expression"
          (inRole "left" pieces ++ inRole "operator" mark ++ inRole "right" right))

/-- Expressions with commas between them, the first of which begins with given pieces. -/
def expressionsFrom (rules : Rules) (ends : Bool) (pieces : Pieces) : Parser Pieces := do
  let operand ← operandAfter rules ends true pieces
  expressionsAfter rules ends (← grow (operationOf rules ends loosest) operand)

/-- The first expression between brackets that could be those of a pattern. -/
def leadingExpression (rules : Rules) : Parser Pieces := do
  if ← nextIsWord "await" then
    grow (operationOf rules false loosest) (← awaiting rules false true true)
  else rules (.expression false)

/-- An expression whose operators bind at least as tightly as a level. -/
def operation (rules : Rules) (ends : Bool) (level : Nat) : Parser Pieces := do
  grow (operationOf rules ends level) (← rules (.operand ends true))

end Chronicle.Grammar
