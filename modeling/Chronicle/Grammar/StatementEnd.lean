import Chronicle.Grammar.Cursor

/-!
# Ends of statements

A statement may end without a semicolon: before a closing brace, at the end of the source, and at
the end of a line whose next token cannot go on with it.  Which tokens can is decided by their first
characters.
-/

set_option autoImplicit false

namespace Chronicle.Grammar

/-- How a run of blanks and comments ends. -/
inductive GapEnd where
  /-- With a slash that begins no comment. -/
  | slash
  /-- With a block comment on one line. -/
  | sameLine
  /-- Otherwise. -/
  | plain
  deriving DecidableEq

/-- The text after a block comment, given the text after its opening, and whether a line ends in it
or ended before. -/
def afterBlock (broken : Bool) : List Char → Bool × Option (List Char)
  | [] => (broken, none)
  | '*' :: '/' :: rest => (broken, some rest)
  | c :: rest => afterBlock (broken || endsLine c) rest

/-- The text after a run of blanks and comments.  Unless `through`, the run ends after the first
block comment that no slash follows. -/
def passGap (through : Bool) : Nat → Bool → List Char → GapEnd × List Char
  | 0, _, cs => (.plain, cs)
  | fuel + 1, broken, cs =>
    match cs.dropWhile isBreakingSpace with
    | '/' :: '/' :: rest => passGap through fuel broken (rest.dropWhile (!endsLine ·))
    | '/' :: '*' :: rest =>
      match afterBlock broken rest with
      | (_, none) => (.plain, [])
      | (broken, some rest) =>
        if rest.head? != some '/' && !through then
          (if broken then .plain else .sameLine, rest)
        else passGap through fuel broken rest
    | '/' :: rest => (.slash, rest)
    | rest => (.plain, rest)

/-- Whether a statement ends before a text that begins a line. -/
def startsStatement (cs : List Char) : Bool :=
  match cs with
  | [] => true
  | '.' :: rest => rest.head?.any Text.isPlainDigit
  | '+' :: rest => rest.head? == some '+'
  | '-' :: rest => rest.head? == some '-'
  | '!' :: rest => rest.head? != some '='
  | 'i' :: 'n' :: rest =>
    if !rest.head?.any isLetter then false
    else
      let word := "stanceof".toList
      !word.isPrefixOf rest || (rest.drop word.length).head?.any isLetter
  | c :: _ => !"\x60,:;*%><=[(?^|&/".toList.contains c

/-- Whether a statement that is complete so far ends before a text.  After a word such as `return`,
a comment that holds or ends a line ends the statement as well. -/
def endsBefore (afterWord : Bool) : Nat → List Char → Bool
  | 0, _ => false
  | fuel + 1, cs =>
    let resume (cs : List Char) : Bool :=
      match cs with
      | [] => false
      | c :: rest =>
        if c == '\x7d' then true
        else if endsLine c then
          match passGap true (rest.length + 1) false rest with
          | (.slash, _) => false
          | (_, next) => startsStatement next
        else if isBreakingSpace c then endsBefore afterWord fuel rest
        else false
    match cs with
    | [] => true
    | '/' :: _ =>
      match passGap false (cs.length + 1) false cs with
      | (.slash, _) => false
      | (gap, next) =>
        if gap == .plain && afterWord && next.head? != some ',' && next.head? != some '=' then true
        else resume next
    | _ => resume cs

/-- The position at which a complete statement ends without a semicolon, if it does, with the
comments passed on the way: such comments are part of the statement. -/
def Cursor.endFrom? (afterWord : Bool) : Nat → Cursor → Option (List Tree × Cursor)
  | 0, _ => none
  | fuel + 1, c =>
    if endsBefore afterWord (c.rest.length + 1) c.rest then some ([], { c with isOpen := true })
    else
      match c.comment? with
      | none => none
      | some (t, c) => (c.endFrom? afterWord fuel).map fun (ts, c) => (t :: ts, c)

/-- The position at which a complete statement ends without a semicolon. -/
def Cursor.end? (afterWord : Bool) (c : Cursor) : Option (List Tree × Cursor) :=
  c.endFrom? afterWord (c.rest.length + 1)

/-- Whether a statement that is complete so far ends here, and the source with it. -/
def Cursor.isLast (c : Cursor) : Bool :=
  (c.end? false).any (·.2.skipBlanks.rest.isEmpty)

end Chronicle.Grammar
