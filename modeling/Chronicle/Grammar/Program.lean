import Chronicle.Grammar.Statement

/-!
# Source text

The concrete tree of a source text.  The rules are applied to a bounded depth, which grows with the
length of the text, so that reading always ends; text that does not fit the rules is one piece that
could not be read.
-/

set_option autoImplicit false

namespace Chronicle.Grammar

/-- One application of a rule, given the parsers of the rules below it. -/
def parserOf (rules : Rules) : Rule → Parser Pieces
  | .expression ends => rules (.operation ends loosest)
  | .leading => leadingExpression rules
  | .operation ends level => operation rules ends level
  | .operand ends updates => operand rules ends updates
  | .construction ends => construction rules ends
  | .markup => markup rules
  | .statement place => statement rules place

/-- The parser of a rule that nests at most `depth` rules. -/
def parse : Nat → Rules
  | 0, _ => failure
  | depth + 1, rule => parserOf (parse depth) rule

/-- A line at the start of a script that names its interpreter. -/
def interpreterLine : Parser Pieces := do
  let before ← comments
  let c ← get
  ensure (['#', '!'].isPrefixOf c.rest)
  let length := (c.rest.takeWhile (· != '\n')).length
  return before ++ (← unfinished (take "hash_bang_line" true length))

/-- Statements up to the end of the source.  A null character stands nowhere in it, not even in a
comment. -/
def program (rules : Rules) : Parser Pieces := do
  ensure !((← get).rest.contains '\x00')
  let line ← optional interpreterLine
  let body ← repeatUntil (lookAhead do
    let _ ← comments
    return (← get).rest.isEmpty) (rules (.statement .listed))
  return line ++ body ++ (← comments)

/-- The depth to which the rules for a source can nest: each nesting takes a character at least, and
between two characters only few rules follow each other. -/
def depthOf (source : String) : Nat :=
  16 * (source.length + 4)

end Chronicle.Grammar

namespace Chronicle

/-- The concrete tree of a source text.  Text that is not well-formed is a single piece that could
not be read. -/
def Tree.ofSource (source : String) : Tree :=
  let start := Grammar.Cursor.ofSource source
  let stop := (start.advance source.length).point
  match Grammar.program (Grammar.parse (Grammar.depthOf source)) start with
  | some (pieces, _) =>
    if Grammar.areDecided pieces then .node { kind := "program", stop } pieces
    else .node { kind := "ERROR", stop, hasError := true } []
  | none => .node { kind := "ERROR", stop, hasError := true } []

end Chronicle
