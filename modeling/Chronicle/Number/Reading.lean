import Chronicle.Number.Basic
import Chronicle.Text.Blank

/-!
# Reading numbers

Numerals of the interpreted language and texts that are coerced to numbers.  Both are built from
three readers: an integer in decimal, an integer whose base its first two characters name, and a
decimal number with point and exponent.  Digits of every script count, and basic blanks around a
numeral are skipped.
-/

set_option autoImplicit false

namespace Chronicle.Number

open Text

/-- The characters with digits of other scripts as plain digits and other blanks as spaces. -/
def plain (cs : List Char) : List Char :=
  cs.map fun c =>
    if c.toNat < 127 then c
    else if isBlank c then ' '
    else match decimalValue? c with
      | some v => plainDigit v
      | none => '?'

/-- The characters of a numeral: in plain digits and without basic blanks around it. -/
def numeral (s : String) : List Char :=
  trimEnds isBasicBlank (plain s.toList)

/-- A sign, if there is one, and what follows it. -/
def splitSign : List Char → Bool × List Char
  | '-' :: rest => (true, rest)
  | '+' :: rest => (false, rest)
  | rest => (false, rest)

/-- The value of a run of plain digits. -/
def digitsValue (ds : List Char) : Nat :=
  ds.foldl (fun n c => n * 10 + (c.toNat - 0x30)) 0

/-- An integer in decimal with an optional sign. -/
def readDecimal (s : String) : Except Fault Int :=
  let (negative, ds) := splitSign (numeral s)
  let digits := ds.takeWhile isPlainDigit
  if digits.length > Fault.digitLimit then .error (.readDigits digits.length)
  else if digits.isEmpty || digits.length != ds.length then .error (.integerText 10 s)
  else .ok (if negative then -(digitsValue digits : Int) else digitsValue digits)

/-- The base that two characters name. -/
def namedBase? : List Char → Option Nat
  | '0' :: 'x' :: _ | '0' :: 'X' :: _ => some 16
  | '0' :: 'o' :: _ | '0' :: 'O' :: _ => some 8
  | '0' :: 'b' :: _ | '0' :: 'B' :: _ => some 2
  | _ => none

/-- An integer whose base its first two characters name. -/
def readNamedBase (s : String) : Except Fault Int :=
  let cs := numeral s
  match namedBase? cs with
  | none => .error (.integerText 0 s)
  | some base =>
    let ds := cs.drop 2
    match if ds.isEmpty then none else positional? base ds with
    | some n => .ok n
    | none => .error (.integerText 0 s)

/-- A decimal number without sign: digits, a point and digits, and an exponent. -/
def readUnsigned? (negative : Bool) (cs : List Char) : Option Float :=
  let whole := cs.takeWhile isPlainDigit
  let rest := cs.drop whole.length
  let (places, rest) := match rest with
    | '.' :: rest =>
      let places := rest.takeWhile isPlainDigit
      (places, rest.drop places.length)
    | rest => ([], rest)
  if whole.isEmpty && places.isEmpty then none
  else
    let digits := digitsValue (whole ++ places)
    let scale : Int := -(places.length : Int)
    match rest with
    | [] => some (ofDecimal negative digits scale)
    | c :: rest =>
      if c != 'e' && c != 'E' then none
      else
        let (down, ds) := splitSign rest
        if ds.isEmpty || !ds.all isPlainDigit then none
        else
          let e : Int := digitsValue ds
          some (ofDecimal negative digits (scale + if down then -e else e))

/-- A decimal number with an optional sign, or the name of a special value. -/
def readFloat? (s : String) : Option Float :=
  let (negative, cs) := splitSign (numeral s)
  let name := String.ofList (cs.map Char.toLower)
  if name == "inf" || name == "infinity" then some (infinity negative)
  else if name == "nan" then some notANumber
  else readUnsigned? negative cs

/-- The text without underscores. -/
def withoutUnderscores (cs : List Char) : List Char :=
  cs.filter (· != '_')

/-- A numeric literal: underscores and one final `n` are passed over; a named base, an integer or a
decimal number. -/
def ofLiteral (literal : String) : Except Fault Number :=
  let cs := withoutUnderscores literal.toList
  let cs := if cs.getLast? == some 'n' then cs.dropLast else cs
  let cleaned := String.ofList cs
  if (namedBase? cs).isSome then (readNamedBase cleaned).map .int
  else match readDecimal cleaned with
    | .ok n => .ok (.int n)
    | .error _ =>
      match readFloat? cleaned with
      | some x => .ok (normalize (.float x))
      | none => .error (.decimalText cleaned)

/-- The number that a text is coerced to: zero for a blank text, no number for one that is no
numeral. -/
def ofText (text : String) : Number :=
  let cs := withoutUnderscores (trimEnds isBlank text.toList)
  let cleaned := String.ofList cs
  if cs.isEmpty then .int 0
  else if cleaned == "Infinity" || cleaned == "+Infinity" then inf false
  else if cleaned == "-Infinity" then inf true
  else if (namedBase? cs).isSome then
    match readNamedBase cleaned with
    | .ok n => .int n
    | .error _ => nan
  else match readFloat? cleaned with
    | some x => normalize (.float x)
    | none => nan

end Chronicle.Number
