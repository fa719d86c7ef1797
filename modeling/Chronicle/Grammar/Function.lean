import Chronicle.Grammar.Pattern
import Chronicle.Grammar.Rule

/-!
# Functions

Functions in their forms, and expressions in parentheses: what stands in the parentheses is read as
a list of expressions, which are parameters if an arrow follows.
-/

set_option autoImplicit false

namespace Chronicle.Grammar

/-- Whether trees are constructs with single commas between them, a comma after the last one
included if `trailing`.  With `due`, a construct comes next. -/
def alternates (trailing : Bool) : Bool → List Tree → Bool
  | due, [] => !due || trailing
  | due, t :: ts =>
    if t.label.isAside then alternates trailing due ts
    else if t.label.kind == "," then !due && alternates trailing true ts
    else due && alternates trailing false ts

/-- Whether nothing but comments stands among trees. -/
def isBare (pieces : Pieces) : Bool :=
  pieces.all isComment

/-- A list in brackets, as its opening, its inside and its closing. -/
structure Bracketed where
  opening : Pieces
  inside : Pieces
  closing : Pieces

/-- A list in brackets, whose first element is read by a rule. -/
def bracketed (rules : Rules) (opening closing : String) (first : Rule) : Parser Bracketed := do
  let left ← punctuator opening
  let inside ← elements rules closing first
  return ⟨left, inside, ← punctuator closing⟩

/-- A list in parentheses, whose first element is read by a rule. -/
def parentheses (rules : Rules) (first : Rule) : Parser Bracketed :=
  bracketed rules "(" ")" first

namespace Bracketed

/-- The list with its brackets, as a construct. -/
def whole (b : Bracketed) (kind : String) : Pieces :=
  construct kind (b.opening ++ b.inside ++ b.closing)

/-- The list as parameters. -/
def parameters? (b : Bracketed) : Option Pieces := do
  guard (isBare b.inside || alternates true true b.inside)
  let inside ← patterns? (fun _ => .element) b.inside
  return construct "formal_parameters" (b.opening ++ inside ++ b.closing)

/-- The inside of the list as expressions with commas between them. -/
def expressions? (b : Bracketed) : Option Pieces := do
  guard (alternates false true b.inside && b.inside.all (·.label.kind != "spread_element"))
  return if b.inside.any (·.label.kind == ",") then construct "sequence_expression" b.inside
    else b.inside

/-- The list as an expression in parentheses. -/
def expression? (b : Bracketed) : Option Pieces := do
  return construct "parenthesized_expression" (b.opening ++ (← b.expressions?) ++ b.closing)

end Bracketed

/-- The parameters of a function in parentheses. -/
def parameters (rules : Rules) : Parser Pieces := do
  (← parentheses rules (.expression false)).parameters?

/-- The parameters and the body of a function with a block. -/
def functionTail (rules : Rules) (closed : Bool) : Parser Pieces := do
  let params ← unfinished (parameters rules)
  return inRole "parameters" params ++ inRole "body" (← block rules .listed closed)

/-- A function by the word `function`; `marked` is what stands before the word.  As a declaration it
has a name, and is of another kind. -/
def function (rules : Rules) (marked : Pieces) (declared closed : Bool) : Parser Pieces := do
  let word ← keyword "function"
  let star ← optional (punctuator "*")
  let id ← unfinished
    (if declared then name "identifier" else optional (name "identifier"))
  let tail ← functionTail rules closed
  let kind :=
    match declared, star with
    | true, [] => "function_declaration"
    | true, _ => "generator_function_declaration"
    | false, [] => "function_expression"
    | false, _ => "generator_function"
  return construct kind (marked ++ word ++ star ++ inRole "name" id ++ tail)

/-- Whether the parentheses that a text begins with are followed by a brace, as the parameters of a
method are.  `depth` counts the parentheses that are open. -/
def braceFollows : Nat → List Char → Bool
  | _, [] => false
  | depth, '(' :: rest => braceFollows (depth + 1) rest
  | 1, ')' :: rest => (rest.dropWhile isGap).head? == some '\x7b'
  | depth, ')' :: rest => braceFollows (depth - 1) rest
  | depth, _ :: rest => braceFollows depth rest

/-- The reserved words that begin neither a statement nor an expression.  After a brace that could
be that of an object they are names. -/
def inertWords : List String :=
  ["case", "catch", "default", "else", "extends", "finally", "in", "instanceof"]

/-- Whether a word after a brace begins a statement there, so that it is no key of an object. -/
def beginsStatement (word : String) : Bool :=
  (!isName word && !inertWords.contains word) || ["undefined", "using", "yield"].contains word

/-- Whether the braces that come next begin with a member that only an object has: a key before a
colon, a method, `...`, or none before a comma.  What only might begin one counts as well. -/
def beginsObject : Parser Bool := do
  let opening ← optional (punctuator "\x7b")
  if opening.isEmpty then return false
  match ← peek with
  | .punctuator "," | .punctuator "..." | .punctuator "[" | .punctuator "*" | .punctuator "@"
  | .quote _ | .numeral _ | .privateName _ => return true
  | .word text =>
    if beginsStatement text then return false
    let _ ← token "" true text.length
    if ← atEnd false then return false
    match ← peek with
    | .punctuator ":" => return true
    | .punctuator "(" => return braceFollows 0 (← get).rest
    | .word _ | .privateName _ | .quote _ | .numeral _ | .punctuator "[" | .punctuator "*" =>
      return ["get", "set", "async", "static"].contains text
    | _ => return false
  | _ => return false

/-- Braces with nothing between them. -/
def emptyBraces : Parser Pieces := do
  let opening ← punctuator "\x7b"
  return opening ++ (← punctuator "\x7d")

/-- Whether empty braces come next that are assigned to, or called with a template: only an object
is. -/
def nextIsEmptyObject : Parser Bool :=
  lookAhead do
    let braces ← optional emptyBraces
    return !braces.isEmpty && ((← nextIs "=") || (← peek) == .backquote)

/-- The arrow and the body of a function; `before` holds its parameters. -/
def arrowTail (rules : Rules) (ends : Bool) (before : Pieces) : Parser Pieces := do
  let arrow ← punctuator "=>"
  let body : Parser Pieces := do
    if ← nextIs "\x7b" then
      if ← lookAhead beginsObject then
        rules (.expression ends) <|> block rules .opening false
      else if ← nextIsEmptyObject then rules (.expression ends)
      else block rules .opening false
    else rules (.expression ends)
  return construct "arrow_function" (before ++ arrow ++ inRole "body" (← body))

/-- What begins with a parenthesis: an arrow function or an expression. -/
def parenthesized (rules : Rules) (ends : Bool) : Parser Pieces := do
  let list ← parentheses rules .leading
  if ← nextIs "=>" then arrowTail rules ends (inRole "parameters" (← list.parameters?))
  else list.expression?

/-- A name, or an arrow function with one parameter. -/
def nameOrArrow (rules : Rules) (ends : Bool) (kind : String) (length : Nat) : Parser Pieces := do
  let id ← token kind true length
  if (← nextIs "=>") && kind == "identifier" then arrowTail rules ends (inRole "parameter" id)
  else return id

/-- A name as the token of a word. -/
def asKeyword (word : String) (id : Pieces) : Pieces :=
  id.map fun
    | .node l cs => if isComment (.node l cs) then .node l cs
      else .node { l with kind := word, isNamed := false } cs

/-- A call of the name `async`, or an arrow function marked with that word. -/
def asynchronousList (rules : Rules) (ends : Bool) (id word : Pieces) : Parser Pieces := do
  let list ← parentheses rules (.expression false)
  if ← nextIs "=>" then
    arrowTail rules ends (word ++ inRole "parameters" (← list.parameters?))
  else
    return construct "call_expression"
      (inRole "function" id ++ inRole "arguments" (list.whole "arguments"))

/-- What begins with the word `async`: a function marked with it, a call of that name, or the
name. -/
def asynchronous (rules : Rules) (ends : Bool) : Parser Pieces := do
  let id ← token "identifier" true "async".length
  let word := asKeyword "async" id
  if ends && (← atEnd false) then return id
  match ← peek with
  | .word "function" => function rules word false false
  | .punctuator "(" => asynchronousList rules ends id word
  | .punctuator "=>" => arrowTail rules ends (inRole "parameter" id)
  | .word text =>
    let parameter : Parser Pieces := do
      ensure (isName text)
      let id ← token "identifier" true text.length
      ensure (← nextIs "=>")
      return id
    if (← lookAhead (optional parameter)).isEmpty then return id
    else arrowTail rules ends (word ++ inRole "parameter" (← parameter))
  | _ => return id

/-- Whether a function with a name comes next, or a class with one. -/
def nextIsNamed (word : String) : Parser Bool :=
  lookAhead do
    let mark ← optional (keyword word)
    let _ ← optional (punctuator "*")
    let id ← optional (name "identifier")
    return !mark.isEmpty && !id.isEmpty

end Chronicle.Grammar
