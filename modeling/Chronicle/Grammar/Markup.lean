import Chronicle.Grammar.Literal

/-!
# Markup

Elements of markup that stand among expressions, with attributes, text and nested elements.
-/

set_option autoImplicit false

namespace Chronicle.Grammar

/-! ## Names -/

/-- The characters of a name in markup, hyphens apart. -/
def isMarkupNameChar (c : Char) : Bool :=
  c.isAlphanum || c == '_' || c == '$'

/-- The number of characters of a name with a hyphen; zero if the text begins with none. -/
def hyphenatedLength (cs : List Char) : Nat :=
  let head := cs.takeWhile isMarkupNameChar
  match head, cs.drop head.length with
  | first :: _, '-' :: rest =>
    if first.isDigit then 0
    else head.length + 1 + (rest.takeWhile fun c => isMarkupNameChar c || c == '-').length
  | _, _ => 0

/-- A name with a hyphen, as a leaf of a kind. -/
def hyphenated (kind : String) : Parser Pieces := do
  let before ← comments
  match hyphenatedLength (← get).rest with
  | 0 => failure
  | n => return before ++ (← take kind true n)

/-- A name in markup, as a leaf of a kind. -/
def markupWord (kind : String) : Parser Pieces :=
  hyphenated kind <|> name kind

/-- Two names with a colon between them. -/
def namespaced : Parser Pieces := do
  let space ← markupWord "identifier"
  let colon ← punctuator ":"
  return construct "jsx_namespace_name" (space ++ colon ++ (← markupWord "identifier"))

/-- The name of an element: a single one, one in a namespace, or several with points between
them. -/
def markupName : Parser Pieces :=
  namespaced <|> hyphenated "identifier" <|> (do
    grow (fun pieces => do
      if ← nextIs "." then
        let dot ← punctuator "."
        let property ← name "property_identifier"
        return some (construct "member_expression" (pieces ++ dot ++ property))
      else return none) (← name "identifier"))

/-! ## Attributes -/

/-- An expression in braces among markup. -/
def markupExpression (rules : Rules) : Parser Pieces := do
  let opening ← punctuator "\x7b"
  let inner ← (do
    if ← nextIs "\x7d" then return []
    else if ← nextIs "..." then element rules (.expression false)
    else expressions rules false)
  return construct "jsx_expression" (opening ++ inner ++ (← punctuator "\x7d"))

/-- The number of characters of the character reference that a text begins with, such as `&amp;`;
zero if it begins with none. -/
def referenceLength : List Char → Nat
  | '&' :: '#' :: x :: rest =>
    if x == 'x' || x == 'X' then upTo 6 Text.isHexDigit 3 rest
    else upTo 5 Text.isPlainDigit 2 (x :: rest)
  | '&' :: rest => upTo 30 Char.isAlpha 1 rest
  | _ => 0
where
  /-- The number of characters up to a semicolon, if there are between one and `most` of a class
  before it; `done` characters are passed already. -/
  upTo (most : Nat) (p : Char → Bool) (done : Nat) (cs : List Char) : Nat :=
    let n := (cs.takeWhile p).length
    if 0 < n && n ≤ most && cs[n]? == some ';' then done + n + 1 else 0

/-- The number of characters of a quoted text in markup after its opening mark, at most `fuel`
pieces; zero if it does not end.  A character reference is whole where it is begun. -/
def markupQuotedLength (mark : Char) : Nat → List Char → Nat
  | 0, _ => 0
  | _, [] => 0
  | fuel + 1, c :: rest =>
    if c == mark then 1
    else
      let length :=
        if c != '&' then 1
        else if rest.head?.any fun d => d == '#' || d.isAlpha then referenceLength (c :: rest)
        else 2
      match length, markupQuotedLength mark fuel ((c :: rest).drop length) with
      | 0, _ | _, 0 => 0
      | n, m => n + m

/-- A quoted text in markup, which may go over lines and has no escape sequences. -/
def markupQuoted : Parser Pieces := do
  let before ← comments
  match (← get).rest with
  | mark :: rest =>
    ensure (mark == '"' || mark == '\'')
    match markupQuotedLength mark rest.length rest with
    | 0 => failure
    | n => return before ++ (← take "string" true (n + 1))
  | [] => failure

/-- An attribute of an element. -/
def markupAttribute (rules : Rules) : Parser Pieces := do
  if ← nextIs "\x7b" then markupExpression rules
  else
    let id ← namespaced <|> markupWord "property_identifier"
    let value ← (do
      if ← nextIs "=" then
        let mark ← punctuator "="
        let value ← markupQuoted <|> markupExpression rules <|> rules .markup
        return mark ++ value
      else return [])
    return construct "jsx_attribute" (id ++ value)

/-! ## Elements -/

/-- Whether given characters come next, after comments. -/
def nextChars (chars : List Char) : Parser Bool :=
  lookAhead do
    let _ ← comments
    return chars.isPrefixOf (← get).rest

/-- Given characters as a token. -/
def markupMark (mark : String) : Parser Pieces := do
  ensure (← nextChars mark.toList)
  token mark false mark.length

/-- Whether an opening of an element ends here. -/
def markupOpeningEnds : Parser Bool := do
  return (← nextChars ['>']) || (← nextChars ['/', '>'])

/-- Whether characters in an element are text: blanks from the end of a line on are not. -/
def isMarkupText (cs : List Char) : Bool :=
  go false cs
where
  /-- Whether text comes after the end of a line and blanks, or after anything else. -/
  go (lineStarts : Bool) : List Char → Bool
    | [] => false
    | c :: rest =>
      if c == '\n' then go true rest
      else if lineStarts && isBreakingSpace c then go true rest
      else true

/-- What stands between the opening and the closing of an element: text, expressions, elements. -/
def markupChild (rules : Rules) : Parser Pieces := do
  let cs := (← get).rest
  match cs with
  | '\x7b' :: _ => markupExpression rules
  | '&' :: _ =>
    match referenceLength cs with
    | 0 => failure
    | n => take "html_character_reference" true n
  | '<' :: _ =>
    match Cursor.remarkLength cs with
    | 0 => rules .markup
    | n => take "html_comment" true n
  | _ =>
    let text := cs.takeWhile fun c => !"<>\x7b\x7d&".toList.contains c
    ensure !text.isEmpty
    if isMarkupText text then take "jsx_text" true text.length
    else
      modify (·.advance text.length)
      return []

/-- The name and the attributes of an element; nothing for one that only groups others. -/
def markupHead (rules : Rules) : Parser Pieces := do
  if ← nextChars ['>'] then return []
  else
    let id ← markupName
    return inRole "name" id ++ (← repeatUntil markupOpeningEnds (markupAttribute rules))

/-- An element of markup. -/
def markup (rules : Rules) : Parser Pieces := do
  let opening ← markupMark "<"
  let head ← markupHead rules
  if ← nextChars ['/', '>'] then
    return construct "jsx_self_closing_element" (opening ++ head ++ (← markupMark "/>"))
  else
    let start := construct "jsx_opening_element" (opening ++ head ++ (← markupMark ">"))
    let inner ← repeatUntil
      (do return ['<', '/'].isPrefixOf (← get).rest) (markupChild rules)
    let close ← markupMark "</"
    let id ← optional markupName
    let right ← leaving false (markupMark ">")
    let finish := construct "jsx_closing_element" (close ++ id ++ right)
    return construct "jsx_element" (start ++ inner ++ finish)

end Chronicle.Grammar
