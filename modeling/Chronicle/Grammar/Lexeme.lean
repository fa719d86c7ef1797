import Chronicle.Grammar.Character

/-!
# Lexemes

What kind of token the characters at a position begin with, and how many of them belong to it.
Wherever several tokens fit, the longest is meant.
-/

set_option autoImplicit false

namespace Chronicle.Grammar

/-- The token that a text begins with.  Quoted texts, templates and the like are told by their first
character only; their rules read the rest. -/
inductive Lexeme where
  | word (text : String)
  /-- A word after `#`. -/
  | privateName (length : Nat)
  | numeral (length : Nat)
  | quote (mark : Char)
  | backquote
  | punctuator (text : String)
  /-- The end of the source, or a character that begins no token. -/
  | nothing
  deriving DecidableEq, Repr

/-! ## Words -/

/-- The number of characters of a character code written out in a word, as `\u` with four digits or
with digits in braces; zero if there is none. -/
def codeLength : List Char → Nat
  | '\\' :: 'u' :: rest =>
    let braced := (rest.drop 1).takeWhile Text.isHexDigit
    if rest.head? == some '\x7b' && !braced.isEmpty
        && rest[braced.length + 1]? == some '\x7d' then braced.length + 4
    else if (rest.take 4).length == 4 && (rest.take 4).all Text.isHexDigit then 6
    else 0
  | _ => 0

/-- The number of characters of the word that follows `done` characters of it; at most `fuel`
further parts. -/
def wordLengthFrom : Nat → Nat → List Char → Nat
  | 0, done, _ => done
  | _, done, [] => done
  | fuel + 1, done, c :: rest =>
    if isWordChar c then wordLengthFrom fuel (done + 1) rest
    else match codeLength (c :: rest) with
      | 0 => done
      | n + 1 => wordLengthFrom fuel (done + n + 1) (rest.drop n)

/-- The number of characters of the word that a text begins with. -/
def wordLength : List Char → Nat
  | [] => 0
  | c :: rest =>
    if isWordStart c || codeLength (c :: rest) != 0 then
      wordLengthFrom (rest.length + 1) 0 (c :: rest)
    else 0

/-! ## Numerals -/

/-- The number of characters of digits of a class, with single underscores between them. -/
def digitsLength (p : Char → Bool) : List Char → Nat
  | [] => 0
  | [c] => if p c then 1 else 0
  | c :: d :: rest =>
    if !p c then 0
    else if d == '_' then if rest.head?.any p then digitsLength p rest + 2 else 1
    else digitsLength p (d :: rest) + 1

/-- The binary, octal or hexadecimal digits that a letter after zero announces. -/
def basedDigit? (c : Char) : Option (Char → Bool) :=
  match c with
  | 'x' | 'X' => some Text.isHexDigit
  | 'o' | 'O' => some fun d => '0' ≤ d && d ≤ '7'
  | 'b' | 'B' => some fun d => d == '0' || d == '1'
  | _ => none

/-- The number of characters of an exponent. -/
def exponentLength : List Char → Nat
  | e :: rest =>
    if e == 'e' || e == 'E' then
      let signed := match rest.head? with
        | some '+' | some '-' => 1
        | _ => 0
      match digitsLength Text.isPlainDigit (rest.drop signed) with
      | 0 => 0
      | n => n + signed + 1
    else 0
  | [] => 0

/-- Whether digits can be the part before a decimal point: a zero, or digits with at most one zero
in front of the first other digit. -/
def isIntegerPart : List Char → Bool
  | ['0'] => true
  | '0' :: d :: _ => d != '0' && Text.isPlainDigit d
  | d :: _ => Text.isPlainDigit d
  | [] => false

/-- The number of characters of a numeral in base ten. -/
def decimalLength (cs : List Char) : Nat :=
  let whole := digitsLength Text.isPlainDigit cs
  let rest := cs.drop whole
  if whole == 0 then
    match digitsLength Text.isPlainDigit (cs.drop 1) with
    | 0 => 0
    | n => if cs.head? == some '.' then n + 1 + exponentLength (cs.drop (n + 1)) else 0
  else if rest.head? == some 'n' then whole + 1
  else if !isIntegerPart (cs.take whole) then whole
  else if rest.head? == some '.' then
    let places := digitsLength Text.isPlainDigit (rest.drop 1)
    whole + 1 + places + exponentLength (rest.drop (places + 1))
  else whole + exponentLength rest

/-- The number of characters of the numeral that a text begins with. -/
def numeralLength (cs : List Char) : Nat :=
  match cs with
  | '0' :: letter :: rest =>
    match basedDigit? letter with
    | some p =>
      match digitsLength p rest with
      | 0 => decimalLength cs
      | n => if (rest.drop n).head? == some 'n' then n + 3 else n + 2
    | none => decimalLength cs
  | _ => decimalLength cs

/-! ## Punctuators -/

/-- The punctuators, longer ones first. -/
def punctuators : List String := [
  ">>>=", "...", "===", "!==", "**=", "<<=", ">>=", ">>>", "&&=", "||=", "??=",
  "=>", "==", "!=", "<=", ">=", "&&", "||", "??", "?.", "++", "--", "+=", "-=", "*=", "/=", "%=",
  "&=", "|=", "^=", "<<", ">>", "**",
  "\x7b", "\x7d", "(", ")", "[", "]", ";", ",", "<", ">", "+", "-", "*", "/", "%", "&", "|", "^",
  "!", "~", "?", ":", "=", ".", "@"]

/-- The longest punctuator that a text begins with.  A question mark before a decimal fraction
stands alone. -/
def punctuator? (cs : List Char) : Option String :=
  match cs with
  | '?' :: '.' :: d :: _ =>
    if Text.isPlainDigit d then some "?" else some "?."
  | _ => punctuators.find? fun p => p.toList.isPrefixOf cs

/-- The token that a text begins with. -/
def lexeme (cs : List Char) : Lexeme :=
  match cs with
  | [] => .nothing
  | c :: rest =>
    match wordLength cs with
    | n + 1 => .word (String.ofList (cs.take (n + 1)))
    | 0 =>
      match numeralLength cs with
      | n + 1 => .numeral (n + 1)
      | 0 =>
        if c == '\'' || c == '"' then .quote c
        else if c == '\x60' then .backquote
        else if c == '#' then
          match wordLength rest with
          | 0 => .nothing
          | n => .privateName (n + 1)
        else match punctuator? cs with
          | some p => .punctuator p
          | none => .nothing

end Chronicle.Grammar
