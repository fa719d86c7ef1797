import Chronicle.Grammar.Rule

/-!
# Literals

Quoted texts, templates, and patterns for text search between slashes.  Between their delimiters
blanks and comments mean nothing special.
-/

set_option autoImplicit false

namespace Chronicle.Grammar

/-- The number of characters of the escape sequence that a text begins with; zero if it begins with
none. -/
def escapeLength : List Char → Nat
  | '\\' :: 'x' :: rest =>
    if (rest.take 2).length == 2 && (rest.take 2).all Text.isHexDigit then 4 else 0
  | '\\' :: 'u' :: rest => codeLength ('\\' :: 'u' :: rest)
  | '\\' :: c :: rest =>
    if '0' ≤ c && c ≤ '7' then
      2 + ((rest.take 2).takeWhile fun d => '0' ≤ d && d ≤ '7').length
    else if (c == '\r' || c == '?') && rest.head?.any endsLine then 3
    else 2
  | _ => 0

/-- The number of characters of a quoted text after its opening mark, at most `fuel` pieces; zero if
it does not end on its line. -/
def quotedLength (mark : Char) : Nat → List Char → Nat
  | 0, _ => 0
  | _, [] => 0
  | fuel + 1, c :: rest =>
    if c == mark then 1
    else if c == '\n' || c == '\r' then 0
    else
      let length := if c == '\\' then escapeLength (c :: rest) else 1
      match length, quotedLength mark fuel ((c :: rest).drop length) with
      | 0, _ | _, 0 => 0
      | n, m => n + m

/-- A quoted text. -/
def quoted : Parser Pieces := do
  let before ← comments
  let c ← get
  match c.rest with
  | mark :: rest =>
    ensure (mark == '"' || mark == '\'')
    match quotedLength mark rest.length rest with
    | 0 => failure
    | n => return before ++ (← take "string" true (n + 1))
  | [] => failure

/-- The number of characters of a template that stand for themselves. -/
def plainLength : List Char → Nat
  | [] => 0
  | '\x60' :: _ | '\\' :: _ | '$' :: '\x7b' :: _ => 0
  | _ :: rest => plainLength rest + 1

/-- One piece of a template. -/
def templatePiece (rules : Rules) : Parser Pieces := do
  let c ← get
  match c.rest with
  | '\\' :: _ =>
    match escapeLength c.rest with
    | 0 => failure
    | n => take "escape_sequence" true n
  | '$' :: '\x7b' :: _ =>
    let opening ← take "$\x7b" false 2
    let inner ← expressions rules false
    return construct "template_substitution" (opening ++ inner ++ (← punctuator "\x7d"))
  | _ =>
    match plainLength c.rest with
    | 0 => failure
    | n => take "string_fragment" true n

/-- A template. -/
def template (rules : Rules) : Parser Pieces := do
  let opening ← token "\x60" false 1
  let body ← repeatUntil (do return (← get).rest.head? == some '\x60') (templatePiece rules)
  return construct "template_string" (opening ++ body ++ (← take "\x60" false 1))

/-- The number of characters of a class of characters after its opening bracket; zero if it does not
end on its line. -/
def classLength : List Char → Nat
  | [] | '\n' :: _ => 0
  | ']' :: _ => 1
  | '\\' :: c :: rest =>
    if c == '\n' then 0
    else match classLength rest with
      | 0 => 0
      | n => n + 2
  | _ :: rest =>
    match classLength rest with
    | 0 => 0
    | n => n + 1

/-- The number of characters of a search pattern after its opening slash, at most `fuel` pieces;
zero if it does not end on its line. -/
def searchLength : Nat → List Char → Nat
  | 0, _ => 0
  | _, [] => 0
  | fuel + 1, c :: rest =>
    if c == '/' then 1
    else if c == '\n' then 0
    else
      let length :=
        if c == '\\' then if rest.head?.all (· == '\n') then 0 else 2
        else if c == '[' then match classLength rest with
          | 0 => 0
          | n => n + 1
        else 1
      match length, searchLength fuel ((c :: rest).drop length) with
      | 0, _ | _, 0 => 0
      | n, m => n + m

/-- A search pattern with its flags. -/
def search : Parser Pieces := do
  let before ← comments
  let c ← get
  match c.rest with
  | '/' :: rest =>
    ensure (rest.head? != some '/' && rest.head? != some '*')
    match searchLength rest.length rest with
    | 0 => failure
    | n =>
      let flags := ((rest.drop n).takeWhile fun f => 'a' ≤ f && f ≤ 'z').length
      return before ++ (← take "regex" true (1 + n + flags))
  | _ => failure

end Chronicle.Grammar
