import Chronicle.Grammar.Lexeme
import Chronicle.Tree

/-!
# Reading positions

How far a source has been read: what is left of it, and the point reached.  Blanks and comments can
stand between any two tokens; a comment is a leaf of the tree like a token.  Where an operand or a
statement is to come, a line can also be left out by a mark that opens or closes a comment of HTML.
-/

set_option autoImplicit false

namespace Chronicle

/-- The point after a character. -/
def Point.after (p : Point) (c : Char) : Point :=
  if c == '\n' then ⟨p.byte + 1, p.row + 1, 0⟩
  else ⟨p.byte + c.utf8Size, p.row, p.column + c.utf8Size⟩

namespace Grammar

/-- A position in a source. -/
structure Cursor where
  rest : List Char
  point : Point := {}
  /-- Whether neither an operand nor a statement can end here. -/
  isOpen : Bool := true

namespace Cursor

/-- The position before a source. -/
def ofSource (source : String) : Cursor :=
  { rest := source.toList }

/-- The position after some more characters. -/
def advance : Nat → Cursor → Cursor
  | 0, c => c
  | n + 1, c =>
    match c.rest with
    | [] => c
    | ch :: rest => advance n { c with rest, point := c.point.after ch }

/-- The leaf made of the next characters. -/
def leaf (c : Cursor) (kind : String) (isNamed : Bool) (length : Nat) : Tree :=
  .node { kind, isNamed, start := c.point, stop := (c.advance length).point } []

/-- The number of characters up to the end of a line. -/
def lineLength (cs : List Char) : Nat :=
  (cs.takeWhile fun c => !endsLine c && c != '\r').length

/-- The number of characters of a block comment after its opening; zero if it does not end. -/
def blockLength : List Char → Nat
  | [] => 0
  | '*' :: '/' :: _ => 2
  | _ :: rest =>
    match blockLength rest with
    | 0 => 0
    | n => n + 1

/-- The number of characters of the comment that a text begins with; zero if it begins with none. -/
def commentLength : List Char → Nat
  | '/' :: '/' :: rest => lineLength rest + 2
  | '/' :: '*' :: rest =>
    match blockLength rest with
    | 0 => 0
    | n => n + 2
  | _ => 0

/-- The number of characters of a line that a mark of an HTML comment leaves out; zero if the text
begins with no such mark. -/
def remarkLength : List Char → Nat
  | '<' :: '!' :: '-' :: '-' :: rest => (rest.takeWhile (!endsLine ·)).length + 4
  | '-' :: '-' :: '>' :: rest => (rest.takeWhile (!endsLine ·)).length + 3
  | _ => 0

/-- The position after blanks. -/
def skipBlanks (c : Cursor) : Cursor :=
  c.advance (c.rest.takeWhile isGap).length

/-- The line that a mark of an HTML comment leaves out, if it comes next, and the position after
it. -/
def remark? (c : Cursor) : Option (Tree × Cursor) :=
  let next := c.advance (c.rest.takeWhile isBreakingSpace).length
  match c.isOpen, remarkLength next.rest with
  | false, _ | _, 0 => none
  | true, n => some (next.leaf "html_comment" true n, next.advance n)

/-- The comment after blanks, if one comes next, and the position after it. -/
def comment? (c : Cursor) : Option (Tree × Cursor) :=
  c.remark? <|>
    let c := c.skipBlanks
    match commentLength c.rest with
    | 0 => none
    | n => some (c.leaf "comment" true n, c.advance n)

/-- The comments before the next token and the position of that token, after at most `fuel`
comments. -/
def commentsFrom : Nat → Cursor → List Tree × Cursor
  | 0, c => ([], c.skipBlanks)
  | fuel + 1, c =>
    match c.comment? with
    | none => ([], c.skipBlanks)
    | some (t, c) =>
      let (ts, c) := commentsFrom fuel c
      (t :: ts, c)

/-- The comments before the next token and the position of that token. -/
def comments (c : Cursor) : List Tree × Cursor :=
  commentsFrom c.rest.length c

end Cursor

end Grammar

end Chronicle
