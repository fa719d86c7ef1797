import Chronicle.Grammar.Markup
import Chronicle.Grammar.Member

/-!
# Operands

What operators work on: literals, names, functions and expressions in brackets, with the accesses,
calls and assignments that follow them and the operators that stand before them.  An assignment is
an operand too, since the target on its left cannot be anything else: `a + b = c` adds an
assignment.
-/

set_option autoImplicit false

namespace Chronicle.Grammar

/-- Whether the statement ends here, where it may end at all. -/
def stopsHere (ends : Bool) : Parser Bool := do
  if ends then atEnd false else return false

/-- The words that are literals or other operands of their own. -/
def operandWords : List String := ["this", "super", "true", "false", "null", "undefined"]

/-- What begins with the word `import` in an expression: `import.meta`, or that word before a call
or `?.`. -/
def imported : Parser Pieces := do
  let word ← token "import" true "import".length
  if (← nextIs "(") || (← nextIs "?.") then return word
  else
    let dot ← punctuator "."
    return construct "meta_property" (asKeyword "import" word ++ dot ++ (← keyword "meta"))

/-- The test whether an object has the private member with a name of a length.  Only here a private
name stands alone, so that the test is an operand. -/
def membership (rules : Rules) (ends : Bool) (length : Nat) : Parser Pieces := do
  let id ← token "private_property_identifier" true length
  let word ← keyword "in"
  let right ← rules (.operation ends (relational + 1))
  return construct "binary_expression"
    (inRole "left" id ++ inRole "operator" word ++ inRole "right" right)

/-- An operand without what stands before or after it. -/
def primary (rules : Rules) (ends : Bool) : Parser Pieces := do
  match ← peek with
  | .numeral n => token "number" true n
  | .quote _ => quoted
  | .backquote => template rules
  | .privateName n => membership rules ends n
  | .punctuator "(" => parenthesized rules ends
  | .punctuator "[" => array rules
  | .punctuator "\x7b" => object rules
  | .punctuator "/" | .punctuator "/=" => search
  | .punctuator "<" => rules .markup
  | .punctuator "@" => do classTail rules (← decorators rules) false false
  | .word "function" => function rules [] false false
  | .word "class" => classTail rules [] false false
  | .word "new" => rules (.construction ends)
  | .word "import" => imported
  | .word "async" => asynchronous rules ends
  | .word text =>
    if operandWords.contains text then nameOrArrow rules ends text text.length
    else
      ensure (isName text && text != "yield")
      nameOrArrow rules ends "identifier" text.length
  | _ => failure

/-! ## What follows an operand -/

/-- An index in brackets. -/
def indexTail (rules : Rules) (before : Pieces) : Parser Pieces := do
  let opening ← punctuator "["
  let inner ← expressions rules false
  return construct "subscript_expression"
    (before ++ opening ++ inRole "index" inner ++ (← punctuator "]"))

/-- The name of a property after a point. -/
def propertyTail (before : Pieces) : Parser Pieces := do
  match ← peek with
  | .word text =>
    let id ← token "property_identifier" true text.length
    return construct "member_expression" (before ++ inRole "property" id)
  | .privateName n =>
    let id ← token "private_property_identifier" true n
    return construct "member_expression" (before ++ inRole "property" id)
  | _ => failure

/-- The arguments of a call. -/
def callTail (rules : Rules) (before : Pieces) : Parser Pieces := do
  return construct "call_expression" (before ++ inRole "arguments" (← arguments rules))

/-- Whether pieces are a construct that a template cannot follow: an update, markup, or a function
with an arrow and a block. -/
def refusesTemplate (pieces : Pieces) : Bool :=
  ["update_expression", "jsx_element", "jsx_self_closing_element"].contains pieces.kind
    || pieces.main?.any fun t => t.label.kind == "arrow_function"
      && (t.childByField? "body").any (·.label.kind == "statement_block")

/-- The access that comes next: a property, an index, or a template. -/
def access (rules : Rules) (pieces : Pieces) : Parser (Option Pieces) := do
  match ← peek with
  | .punctuator "." =>
    let dot ← punctuator "."
    return some (← propertyTail (inRole "object" pieces ++ dot))
  | .punctuator "[" => return some (← indexTail rules (inRole "object" pieces))
  | .punctuator "?." =>
    let chain ← token "optional_chain" true 2
    match ← peek with
    | .punctuator "[" => return some (← indexTail rules (inRole "object" pieces ++ chain))
    | .punctuator "(" => return some (← callTail rules (inRole "function" pieces ++ chain))
    | _ => return some (← propertyTail (inRole "object" pieces ++ chain))
  | .backquote =>
    ensure !(refusesTemplate pieces)
    let text ← template rules
    return some (construct "call_expression"
      (inRole "function" pieces ++ inRole "arguments" text))
  | _ => return none

/-- What follows an operand and belongs to it: an access, a call, or `++` and `--`. -/
def follower (rules : Rules) (ends updates : Bool) (pieces : Pieces) :
    Parser (Option Pieces) := do
  if ← stopsHere ends then return none
  match ← peek with
  | .punctuator "(" => return some (← callTail rules (inRole "function" pieces))
  | .punctuator "++" | .punctuator "--" =>
    if updates then
      let mark ← punctuator "++" <|> punctuator "--"
      return some (construct "update_expression"
        (inRole "argument" pieces ++ inRole "operator" mark))
    else return none
  | _ => access rules pieces

/-- A function marked with the word `async`, or that name. -/
def asynchronousOrName (rules : Rules) (ends : Bool) : Parser Pieces := do
  let id ← token "identifier" true "async".length
  if (← nextIsWord "function") && !(← stopsHere ends) then
    function rules (asKeyword "async" id) false false
  else return id

/-- Whether a property of the operand before comes next, after a point. -/
def nextIsProperty : Parser Bool := do
  return (← nextIs ".") || (← nextIs "?.")

/-- The word `yield` without a value, before something that begins no value there. -/
def bareYield (follows : Parser Bool) : Parser Pieces := do
  let word ← keyword "yield"
  ensure (← follows)
  return construct "yield_expression" word

/-- The kinds of operands that are constructed only with a call or an access after them. -/
def looseKinds : List String := ["arrow_function", "jsx_element", "jsx_self_closing_element"]

/-- What is constructed, without accesses that can be left out. -/
def constructed (rules : Rules) (ends : Bool) : Parser Pieces := do
  match ← peek with
  | .word "async" => asynchronousOrName rules ends
  | .word "yield" => bareYield nextIsProperty
  | .word "import" =>
    let id ← imported
    if id.kind == "import" && (← nextIs "(") then callTail rules (inRole "function" id)
    else return id
  | .privateName _ => failure
  | _ =>
    let pieces ← primary rules ends
    if looseKinds.contains pieces.kind then
      match ← follower rules ends false pieces with
      | some pieces => return pieces
      | none => failure
    else return pieces

/-- A construction by `new`: what is constructed, with accesses but no calls, and the arguments.
What follows a construction inside it belongs to the outer one. -/
def construction (rules : Rules) (ends : Bool) : Parser Pieces := do
  let word ← keyword "new"
  if ← nextIs "." then
    let dot ← punctuator "."
    return construct "meta_property" (word ++ dot ++ (← keyword "target"))
  else
    let callee ← constructed rules ends
    let callee ← grow (fun pieces => do
      if (← stopsHere ends) || (pieces.kind == "new_expression" && (← peek) != .backquote) then
        return none
      else access rules pieces) callee
    let before := word ++ inRole "constructor" callee
    if (← nextIs "(") && !(← stopsHere ends) then
      return construct "new_expression" (before ++ inRole "arguments" (← arguments rules))
    else return construct "new_expression" before

/-! ## Assignments -/

/-- The operators that assign after an operation. -/
def assigningOperators : List String := [
  "+=", "-=", "*=", "/=", "%=", "^=", "&=", "|=", ">>=", ">>>=", "<<=", "**=", "&&=", "||=", "??="]

/-- The target that pieces are, if they can stand before `=`. -/
def targetOf? (pieces : Pieces) : Option Pieces :=
  if pieces.kind == "parenthesized_expression" then some pieces
  else do
    let target ← pattern? .target (← pieces.main?)
    return pieces.dropLast ++ [target]

/-- Whether pieces can stand before an operator that assigns after an operation. -/
def isUpdatable (pieces : Pieces) : Bool :=
  ["identifier", "member_expression", "subscript_expression", "parenthesized_expression"].contains
    pieces.kind

/-- The assignment that pieces are the target of, if they are; else the pieces. -/
def assignmentOf (rules : Rules) (ends : Bool) (pieces : Pieces) : Parser Pieces := do
  if ← stopsHere ends then return pieces
  match ← peek with
  | .punctuator "=" =>
    match targetOf? pieces with
    | none => return pieces
    | some target =>
      let mark ← punctuator "="
      let value ← rules (.expression ends)
      return construct "assignment_expression"
        (inRole "left" target ++ mark ++ inRole "right" value)
  | .punctuator p =>
    if assigningOperators.contains p && isUpdatable pieces then
      let mark ← punctuator p
      let value ← rules (.expression ends)
      return construct "augmented_assignment_expression"
        (inRole "left" pieces ++ inRole "operator" mark ++ inRole "right" value)
    else return pieces
  | _ => return pieces

/-- An operand that begins with given pieces, with what follows them and belongs to it. -/
def operandAfter (rules : Rules) (ends updates : Bool) (pieces : Pieces) : Parser Pieces := do
  assignmentOf rules ends (← grow (follower rules ends updates) pieces)

/-! ## Operators before an operand -/

/-- Whether an expression begins with the next token. -/
def nextBeginsExpression : Parser Bool := do
  match ← peek with
  | .word text => return text != "in" && text != "instanceof"
  | .privateName _ | .numeral _ | .quote _ | .backquote => return true
  | .punctuator p =>
    return ["(", "[", "\x7b", "/", "/=", "<", "@", "+", "-", "!", "~", "++", "--"].contains p
  | .nothing => return false

/-- An operation by an operator before its operand. -/
def prefixed (rules : Rules) (ends : Bool) (mark : Pieces) : Parser Pieces := do
  let argument ← rules (.operand ends true)
  return construct "unary_expression" (inRole "operator" mark ++ inRole "argument" argument)

/-- An expression by the word `yield`, with or without a value. -/
def yielding (rules : Rules) (ends updates : Bool) : Parser Pieces := do
  let word ← keyword "yield"
  if ← nextIs "*" then
    let star ← punctuator "*"
    return construct "yield_expression" (word ++ star ++ (← rules (.expression ends)))
  else if !(← stopsHere ends) && (← nextBeginsExpression) then
    return construct "yield_expression" (word ++ (← rules (.expression ends)))
  else operandAfter rules ends updates (construct "yield_expression" word)

/-- An expression that waits for its operand, after the word `await`. -/
def waiting (rules : Rules) (ends : Bool) (word : Pieces) : Parser Pieces := do
  ensure (← nextBeginsExpression)
  let operand ← rules (.operand ends true)
  match ← peek with
  | .numeral _ | .quote _ => ensure (← stopsHere ends)
  | _ => pure ()
  return construct "await_expression" (word ++ operand)

/-- Brackets or a template after the name `await`, as an operand and as an access or a call of that
name; each is left out if it is none. -/
def groupAfter (rules : Rules) (ends : Bool) (id : Pieces) :
    Parser (Option Pieces × Option Pieces) := do
  match ← peek with
  | .punctuator "(" =>
    let list ← parentheses rules (.expression false)
    if ← nextIs "=>" then
      return (← arrowTail rules ends (inRole "parameters" (← list.parameters?)), none)
    else
      return (list.expression?, construct "call_expression"
        (inRole "function" id ++ inRole "arguments" (list.whole "arguments")))
  | .punctuator "[" =>
    let list ← bracketed rules "[" "]" (.expression false)
    return (list.whole "array", list.expressions?.map fun inner =>
      construct "subscript_expression"
        (inRole "object" id ++ list.opening ++ inRole "index" inner ++ list.closing))
  | .backquote =>
    let text ← template rules
    return (text, construct "call_expression" (inRole "function" id ++ inRole "arguments" text))
  | _ => failure

/-- What begins with the word `await` before brackets or a template.  It is that name if more
follows the group, or if nothing does up to the end of the source; else it waits for the group.
Where it is `leading`, it also waits for what could be assigned to. -/
def awaitingGroup (rules : Rules) (ends updates leading : Bool) (id : Pieces) :
    Parser Pieces := do
  let (operand, named) ← groupAfter rules ends id
  let start ← get
  let wait (operand : Pieces) : Parser Pieces := do
    let operand ← operandAfter rules ends true operand
    return construct "await_expression" (asKeyword "await" id ++ operand)
  match named, operand with
  | none, none => failure
  | none, some operand => wait operand
  | some named, none => operandAfter rules ends updates named
  | some named, some operand =>
    let grown ← operandAfter rules ends updates named
    let isWhole := (← get).point == start.point && !(ends && start.isLast)
    let isTarget := ["member_expression", "subscript_expression"].contains grown.kind
    if isWhole || (leading && isTarget) then
      set start
      wait operand
    else return grown

/-- What begins with the word `await`: an expression that waits for its operand, or that name. -/
def awaiting (rules : Rules) (ends updates leading : Bool) : Parser Pieces := do
  let id ← nameOrArrow rules ends "identifier" "await".length
  if (← stopsHere ends) || id.kind != "identifier" then operandAfter rules ends updates id
  else match ← peek with
  | .punctuator "(" | .punctuator "[" | .backquote => awaitingGroup rules ends updates leading id
  | .punctuator "/=" => operandAfter rules ends updates id
  | _ => waiting rules ends (asKeyword "await" id) <|> operandAfter rules ends updates id

/-- An operand with everything that belongs to it. -/
def operand (rules : Rules) (ends updates : Bool) : Parser Pieces := do
  match ← peek with
  | .punctuator "+" | .punctuator "-" | .punctuator "!" | .punctuator "~" =>
    prefixed rules ends
      (← punctuator "+" <|> punctuator "-" <|> punctuator "!" <|> punctuator "~")
  | .word "typeof" => prefixed rules ends (← keyword "typeof")
  | .word "void" => prefixed rules ends (← keyword "void")
  | .word "delete" => prefixed rules ends (← keyword "delete")
  | .word "await" => awaiting rules ends updates false
  | .word "yield" => yielding rules ends updates
  | .punctuator "++" | .punctuator "--" =>
    let mark ← unfinished (punctuator "++" <|> punctuator "--")
    let argument ← rules (.operand ends false)
    grow (follower rules ends updates)
      (construct "update_expression" (inRole "operator" mark ++ inRole "argument" argument))
  | _ => operandAfter rules ends updates (← primary rules ends)

end Chronicle.Grammar
