import Chronicle.Grammar.Function
import Chronicle.Grammar.Literal

/-!
# Objects and classes

The members of objects and classes: pairs, methods, fields, and names that stand for themselves.
-/

set_option autoImplicit false

namespace Chronicle.Grammar

/-- The name of a member; one that is computed is read by a rule. -/
def memberName (rules : Rules) (rule : Rule) : Parser Pieces := do
  match ← peek with
  | .word text => token "property_identifier" true text.length
  | .privateName n => token "private_property_identifier" true n
  | .quote _ => quoted
  | .numeral n => token "number" true n
  | .punctuator "[" =>
    let opening ← punctuator "["
    let inner ← rules rule
    return construct "computed_property_name" (opening ++ inner ++ (← punctuator "]"))
  | _ => failure

/-- Whether the name of a member comes next. -/
def nextIsMemberName : Parser Bool := do
  match ← peek with
  | .word _ | .privateName _ | .quote _ | .numeral _ | .punctuator "[" => return true
  | _ => return false

/-- A word that says something about the member after it, if a member does come after it.  Where the
word could be a member that `ends` with its line, the other one comes on the same line. -/
def modifier (ends : Bool) (word : String) (starred : Bool) : Parser Pieces := do
  let mark ← keyword word
  ensure !(ends && (← atEnd true))
  ensure ((← nextIsMemberName) || (starred && (← nextIs "*")))
  return mark

/-- The words before the name of a member: those before any member, and those before a method.
`ends` says that members can end with their lines. -/
def modifiers (ends : Bool) : Parser (Pieces × Pieces) := do
  let fixed ← optional (modifier ends "static" true)
  let delayed ← optional (modifier ends "async" true)
  let ends := ends && delayed.isEmpty
  let access ← optional (modifier ends "get" false <|> modifier ends "set" false <|> punctuator "*")
  return (fixed, delayed ++ access)

/-- A method after the words and the name before its parameters. -/
def methodTail (rules : Rules) (before : Pieces) : Parser Pieces := do
  return construct "method_definition" (before ++ (← functionTail rules true))

/-- Names with points between them, and the call of what they name if arguments follow. -/
def decoration (rules : Rules) : Parser Pieces := do
  let path ← grow (fun pieces => do
    if ← nextIs "." then
      let dot ← punctuator "."
      let part ← name "property_identifier"
      return some (construct "member_expression"
        (inRole "object" pieces ++ dot ++ inRole "property" part))
    else return none) (← name "identifier")
  if ← nextIs "(" then
    return construct "call_expression"
      (inRole "function" path ++ inRole "arguments" (← arguments rules))
  else return path

/-- A decorator, with or without parentheses. -/
def decorator (rules : Rules) : Parser Pieces := do
  let mark ← punctuator "@"
  if ← nextIs "(" then
    let opening ← punctuator "("
    let inner ← decoration rules
    let whole := construct "parenthesized_expression" (opening ++ inner ++ (← punctuator ")"))
    return construct "decorator" (mark ++ whole)
  else return construct "decorator" (mark ++ (← decoration rules))

/-- The decorators that come next. -/
def decorators (rules : Rules) : Parser Pieces :=
  repeatUntil (do return !(← nextIs "@")) do
    return inRole "decorator" (← decorator rules)

/-- A member of an object, whose value is read by a rule. -/
def member (rules : Rules) (rule : Rule) : Parser Pieces := do
  if ← nextIs "..." then element rules rule
  else
    let shorthand : Option Nat :=
      match ← peek with
      | .word text => some text.length
      | _ => none
    let start ← get
    let marked ← decorators rules
    let (fixed, method) ← modifiers false
    let marks := marked ++ fixed ++ method
    let id ← unfinished (memberName rules rule)
    match ← peek with
    | .punctuator "(" => methodTail rules (marks ++ inRole "name" id)
    | .punctuator ":" =>
      ensure marks.isEmpty
      let colon ← punctuator ":"
      let value ← rules rule
      return construct "pair" (inRole "key" id ++ colon ++ inRole "value" value)
    | next =>
      match shorthand with
      | none => failure
      | some length =>
        ensure marks.isEmpty
        set start
        if next == .punctuator "=" then
          let id ← unfinished (token "shorthand_property_identifier_pattern" true length)
          let mark ← punctuator "="
          let value ← rules (.expression false)
          return construct "object_assignment_pattern"
            (inRole "left" id ++ mark ++ inRole "right" value)
        else unfinished (token "shorthand_property_identifier" true length)

/-- An object. -/
def object (rules : Rules) : Parser Pieces := do
  let opening ← punctuator "\x7b"
  let inner ← listed "\x7d" (member rules .leading) (member rules (.expression false))
  return construct "object" (opening ++ inner ++ (← punctuator "\x7d"))

/-- A member of a class. -/
def classMember (rules : Rules) : Parser Pieces := do
  if ← nextIs ";" then punctuator ";"
  else
    let staticBlock : Parser Pieces := do
      let word ← keyword "static"
      ensure !(← atEnd true)
      return construct "class_static_block" (word ++ inRole "body" (← block rules .listed true))
    let other : Parser Pieces := do
      let marked ← decorators rules
      let (fixed, method) ← modifiers true
      let marks := marked ++ fixed ++ method
      let id ← memberName rules (.expression false)
      if (← nextIs "(") && !(method.isEmpty && (← atEnd true)) then
        return inRole "member" (← methodTail rules (marks ++ inRole "name" id))
      else
        let value ← optional (do
          let mark ← punctuator "="
          return mark ++ inRole "value" (← rules (.expression true)))
        ensure method.isEmpty
        let field := construct "field_definition" (marks ++ inRole "property" id ++ value)
        return inRole "member" field ++ (← statementEnd value.isEmpty)
    staticBlock <|> other

/-- A class after the decorators before it.  As a declaration it has a name, and ends like a block;
`closed` is said of a declaration that no operator can follow. -/
def classTail (rules : Rules) (marks : Pieces) (declared closed : Bool) : Parser Pieces := do
  let word ← keyword "class"
  let id ← unfinished
    (if declared then name "identifier" else optional (name "identifier"))
  let heritage ← optional (do
    let mark ← keyword "extends"
    let base ← (do
      if ← nextAre "await" (.punctuator "\x7b") then token "identifier" true "await".length
      else rules (.expression false))
    return construct "class_heritage" (mark ++ base))
  let opening ← punctuator "\x7b"
  let members ← repeatUntil (nextIs "\x7d") (classMember rules)
  let body := construct "class_body" (opening ++ members ++ (← punctuator "\x7d"))
  let passed ← (do
    if declared then blockEnd closed else return [])
  return construct (if declared then "class_declaration" else "class")
    (marks ++ word ++ inRole "name" id ++ heritage ++ inRole "body" body ++ passed)

end Chronicle.Grammar
