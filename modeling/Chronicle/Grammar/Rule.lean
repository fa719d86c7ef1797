import Chronicle.Grammar.Parser

/-!
# Rules

The rules of the grammar that contain each other.  Every other construct is read by a parser that is
given the parsers of these rules; `Grammar.Program` closes the circle.

Several rules are told whether the statement they stand in may end with them: inside brackets a line
break means nothing, outside it can end the statement.
-/

set_option autoImplicit false

namespace Chronicle.Grammar

/-- Where a statement stands. -/
inductive Place where
  /-- Among other statements. -/
  | listed
  /-- Before the word `while` that closes a loop. -/
  | tested
  /-- First between braces that could be those of an object. -/
  | opening
  deriving DecidableEq

/-- The place of a statement that ends another one. -/
def Place.last : Place → Place
  | .tested => .tested
  | _ => .listed

/-- The rules that contain each other. -/
inductive Rule where
  /-- An expression without commas. -/
  | expression (ends : Bool)
  /-- The first expression between brackets that could be those of a pattern. -/
  | leading
  /-- An expression whose operators bind at least as tightly as a level. -/
  | operation (ends : Bool) (level : Nat)
  /-- An operand with the operators before it; `updates` says whether `++` or `--` may follow it. -/
  | operand (ends : Bool) (updates : Bool)
  /-- A construction by `new`. -/
  | construction (ends : Bool)
  /-- An element of markup. -/
  | markup
  | statement (place : Place)

/-- The level of comparisons and of `in`. -/
def relational : Nat := 8

/-- A parser for each rule. -/
abbrev Rules := Rule → Parser Pieces

/-- Expressions with commas between them, after the first one. -/
def expressionsAfter (rules : Rules) (ends : Bool) (first : Pieces) : Parser Pieces := do
  if ← nextIs "," then
    let rest ← grow (fun pieces => do
      if ← nextIs "," then
        let comma ← punctuator ","
        return some (pieces ++ comma ++ (← rules (.expression ends)))
      else return none) []
    return construct "sequence_expression" (first ++ rest)
  else return first

/-- Expressions with commas between them. -/
def expressions (rules : Rules) (ends : Bool) : Parser Pieces := do
  expressionsAfter rules ends (← rules (.expression ends))

/-- Statements between braces, the first of them at a place.  `closed` says that no operator can
follow the block, so that a comment that ends its line is no part of it. -/
def block (rules : Rules) (place : Place) (closed : Bool) : Parser Pieces := do
  let opening ← punctuator "\x7b"
  let first ← (do
    if ← nextIs "\x7d" then return [] else rules (.statement place))
  let body ← repeatUntil (nextIs "\x7d") (rules (.statement .listed))
  let closing ← punctuator "\x7d"
  return construct "statement_block" (opening ++ first ++ body ++ closing ++ (← blockEnd closed))

/-- An expression between parentheses, where nothing else can stand. -/
def condition (rules : Rules) : Parser Pieces := do
  let opening ← punctuator "("
  let inner ← expressions rules false
  return construct "parenthesized_expression" (opening ++ inner ++ (← punctuator ")"))

/-- An expression by a rule, or all elements of such a value after `...`. -/
def element (rules : Rules) (rule : Rule) : Parser Pieces := do
  if ← nextIs "..." then
    let dots ← punctuator "..."
    return construct "spread_element" (dots ++ (← rules rule))
  else rules rule

/-- One item of a list up to a closing mark, or a comma. -/
def itemOrComma (close : String) (item : Parser Pieces) : Parser Pieces := do
  if ← nextIs "," then punctuator ","
  else
    let pieces ← item
    ensure ((← nextIs ",") || (← nextIs close))
    return pieces

/-- What parsers read, one for the first item and one for the others, with commas between; between
two commas there may be nothing. -/
def listed (close : String) (first other : Parser Pieces) : Parser Pieces := do
  let head ← (do
    if ← nextIs close then return [] else itemOrComma close first)
  return head ++ (← repeatUntil (nextIs close) (itemOrComma close other))

/-- Elements up to a closing mark, the first of them by a rule. -/
def elements (rules : Rules) (close : String) (first : Rule) : Parser Pieces :=
  listed close (element rules first) (element rules (.expression false))

/-- The arguments of a call. -/
def arguments (rules : Rules) : Parser Pieces := do
  let opening ← punctuator "("
  let inner ← elements rules ")" (.expression false)
  return construct "arguments" (opening ++ inner ++ (← punctuator ")"))

/-- An array. -/
def array (rules : Rules) : Parser Pieces := do
  let opening ← punctuator "["
  let inner ← elements rules "]" .leading
  return construct "array" (opening ++ inner ++ (← punctuator "]"))

end Chronicle.Grammar
