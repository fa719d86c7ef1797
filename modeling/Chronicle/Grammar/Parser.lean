import Chronicle.Grammar.StatementEnd

/-!
# Parsers

A parser reads pieces of a tree from a position on, or refuses.  What it reads is a list of trees:
the comments before a construct are not part of it and stand in front of it in the list.
-/

set_option autoImplicit false

namespace Chronicle.Grammar

/-- A reader of source text; alternatives start from the same position. -/
abbrev Parser := StateT Cursor Option

/-- Trees that follow each other. -/
abbrev Pieces := List Tree

/-! ## Pieces -/

/-- Whether a tree is a comment. -/
def isComment (t : Tree) : Bool :=
  t.label.isAside

/-- The last of some pieces, which is the construct they were read for. -/
def Pieces.main? (pieces : Pieces) : Option Tree :=
  pieces.getLast?

/-- The kind of the construct that pieces were read for. -/
def Pieces.kind (pieces : Pieces) : String :=
  (pieces.main?.map (·.label.kind)).getD ""

/-- The pieces as one construct.  Comments before its first token stay in front of it. -/
def construct (kind : String) (pieces : Pieces) : Pieces :=
  let inner := pieces.dropWhile isComment
  match inner.head?, inner.getLast? with
  | some first, some last =>
    pieces.takeWhile isComment ++
      [.node { kind, start := first.label.start, stop := last.label.stop } inner]
  | _, _ => pieces

/-- The tree in a role. -/
def withRole (field : String) : Tree → Tree
  | .node l cs => .node { l with field := some field } cs

/-- The pieces with their construct in a role. -/
def inRole (field : String) (pieces : Pieces) : Pieces :=
  match pieces.getLast? with
  | some t => pieces.dropLast ++ [withRole field t]
  | none => []

/-! ## Tokens -/

/-- Refuses unless a condition holds. -/
def ensure (condition : Bool) : Parser Unit :=
  if condition then pure () else failure

/-- The comments before the next token. -/
def comments : Parser Pieces := fun c => some c.comments

/-- The next token, without reading it. -/
def peek : Parser Lexeme := fun c =>
  let (_, next) := c.comments
  some (lexeme next.rest, c)

/-- The result of a parser, without reading anything. -/
def lookAhead {α : Type} (p : Parser α) : Parser α := fun c =>
  (p c).map fun (a, _) => (a, c)

/-- The tokens without meaning of their own that can end an operand or a statement. -/
def closingTokens : List String := [
  ")", "]", "\x7d", "\x60", "++", "--", "/>", "async", "await", "break", "continue", "debugger",
  "export", "get", "let", "meta", "return", "set", "static", "target", "yield"]

/-- The next characters as a leaf. -/
def take (kind : String) (isNamed : Bool) (length : Nat) : Parser Pieces := fun c =>
  let isOpen := !isNamed && !closingTokens.contains kind
  some ([c.leaf kind isNamed length], { c.advance length with isOpen })

/-- The next token, as a leaf of a kind, after the comments before it. -/
def token (kind : String) (isNamed : Bool) (length : Nat) : Parser Pieces := do
  return (← comments) ++ (← take kind isNamed length)

/-- What a parser reads, given whether neither an operand nor a statement can end with it. -/
def leaving (isOpen : Bool) (p : Parser Pieces) : Parser Pieces := do
  let pieces ← p
  modify ({ · with isOpen })
  return pieces

/-- What a parser reads, where neither an operand nor a statement can end with it. -/
def unfinished (p : Parser Pieces) : Parser Pieces :=
  leaving true p

/-- Whether the next token is a given punctuator. -/
def nextIs (mark : String) : Parser Bool := do
  return (← peek) == .punctuator mark

/-- Whether the next token is a given word. -/
def nextIsWord (word : String) : Parser Bool := do
  return (← peek) == .word word

/-- A given punctuator. -/
def punctuator (mark : String) : Parser Pieces := do
  ensure (← nextIs mark)
  token mark false mark.length

/-- A given word as a token. -/
def keyword (word : String) : Parser Pieces := do
  ensure (← nextIsWord word)
  token word false word.length

/-- Whether a given word comes next, and a given token after it. -/
def nextAre (word : String) (second : Lexeme) : Parser Bool :=
  lookAhead do
    if ← nextIsWord word then
      let _ ← keyword word
      return (← peek) == second
    else return false

/-- The words that name nothing. -/
def reservedWords : List String := [
  "break", "case", "catch", "class", "const", "continue", "debugger", "default", "delete", "do",
  "else", "export", "extends", "false", "finally", "for", "function", "if", "import", "in",
  "instanceof", "new", "null", "return", "super", "switch", "this", "throw", "true", "try",
  "typeof", "var", "void", "while", "with"]

/-- Whether a word names something in an expression.  There `export` can be a name. -/
def isName (word : String) : Bool :=
  !reservedWords.contains word || word == "export"

/-- A name, as a leaf of a kind. -/
def name (kind : String) : Parser Pieces := do
  match ← peek with
  | .word text =>
    ensure (!reservedWords.contains text)
    token kind true text.length
  | _ => failure

/-- What a parser reads, or nothing. -/
def optional (p : Parser Pieces) : Parser Pieces :=
  p <|> pure []

/-! ## Repetition -/

/-- What a parser reads over and over until a condition holds, at most `fuel` times. -/
def repeatUntilFrom (stop : Parser Bool) (p : Parser Pieces) : Nat → Parser Pieces
  | 0 => failure
  | fuel + 1 => do
    if ← stop then return []
    else
      let first ← p
      return first ++ (← repeatUntilFrom stop p fuel)

/-- What a parser reads over and over until a condition holds.  Every round has to read something.
-/
def repeatUntil (stop : Parser Bool) (p : Parser Pieces) : Parser Pieces := fun c =>
  repeatUntilFrom stop p (c.rest.length + 2) c

/-- Pieces grown step by step until a step declines, at most `fuel` times. -/
def growFrom (step : Pieces → Parser (Option Pieces)) : Nat → Pieces → Parser Pieces
  | 0, _ => failure
  | fuel + 1, pieces => do
    match ← step pieces with
    | none => return pieces
    | some pieces => growFrom step fuel pieces

/-- Pieces grown step by step until a step declines.  Every step has to read something. -/
def grow (step : Pieces → Parser (Option Pieces)) (pieces : Pieces) : Parser Pieces := fun c =>
  growFrom step (c.rest.length + 2) pieces c

/-! ## Statement ends -/

/-- Whether the statement, complete so far, ends here without a semicolon. -/
def atEnd (afterWord : Bool) : Parser Bool := fun c =>
  some ((c.end? afterWord).isSome, c)

/-- The end of a statement: a semicolon, or none where it may be left out. -/
def statementEnd (afterWord : Bool) : Parser Pieces := fun c =>
  match c.end? afterWord with
  | some (passed, c) => some (passed, c)
  | none => punctuator ";" c

/-- The end of a block: the comments up to a place where a statement may end without a semicolon.
Where it may not, the block ends with its brace. -/
def blockEnd (afterWord : Bool) : Parser Pieces := fun c =>
  some ((c.end? afterWord).getD ([], c))

end Chronicle.Grammar
