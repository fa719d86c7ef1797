import Chronicle.Method.Argument
import Chronicle.Text.Case

/-!
# Methods of texts

Texts are sequences of characters and never change; every method gives a new value.
-/

set_option autoImplicit false

namespace Chronicle.Method

-- powers of naturals and integers are repeated products
attribute [local instance (high)] instPowNat

/-- The methods of texts. -/
inductive OfText where
  | charAt | indexOf | includes | split | concat | slice | replicate
  | toUpperCase | toLowerCase | trim | startsWith | endsWith
  deriving DecidableEq, Repr

namespace OfText

/-- The method of a name. -/
def ofName? : String → Option OfText
  | "charAt" => some .charAt
  | "indexOf" => some .indexOf
  | "includes" => some .includes
  | "split" => some .split
  | "concat" => some .concat
  | "slice" => some .slice
  | "repeat" => some .replicate
  | "toUpperCase" => some .toUpperCase
  | "toLowerCase" => some .toLowerCase
  | "trim" => some .trim
  | "startsWith" => some .startsWith
  | "endsWith" => some .endsWith
  | _ => none

/-- The character at a position as a text, empty outside. -/
def charText (s : String) (i : Int) : String :=
  if 0 ≤ i then
    match s.toList[i.toNat]? with
    | some c => String.ofList [c]
    | none => ""
  else ""

/-- The pieces of a text: one for no separator, its characters for the empty one. -/
def pieces (s : String) (separator : Option String) : List String :=
  match separator with
  | none => [s]
  | some t =>
    if t == "" then s.toList.map fun c => String.ofList [c]
    else (Text.splitOn t.toList s.toList).map String.ofList

/-- The position of the first occurrence of a text, or `-1`. -/
def firstIndex (s t : String) : Int :=
  match Text.find? t.toList s.toList with
  | some i => i
  | none => -1

/-- Lengths from this one on do not occur. -/
def sizeLimit : Nat := 2 ^ (63 : Nat)

/-- Texts from this length on are not built. -/
def textLimit : Nat := 2 ^ (32 : Nat)

/-- The text repeated a number of times. -/
def replicated (s : String) (count : Number) : Except Fault String := do
  let invalid := (← count.floatIsNaN) || count.isNegative || count.isInfinite
  if invalid then .error (.repeatCount (← count.text))
  else
    let n := (← count.truncate).toNat
    if sizeLimit ≤ n then .error .indexSize
    else if textLimit ≤ s.length * n then .error .textSize
    else if s.isEmpty then return ""
    else return Text.repeated s n

/-- A method applied to a text. -/
def apply (h : Heap) (s : String) (args : List Value) : OfText → Outcome
  | .charAt => do
    let n ← h.toNumber (args.getD 0 (.int 0))
    return (.text (charText s (← n.truncate)), h)
  | .indexOf => do return (.int (firstIndex s (← h.text (argument args 0))), h)
  | .includes => do
    return (.boolean (Text.contains (← h.text (argument args 0)).toList s.toList), h)
  | .split =>
    match argument args 0 with
    | .undefined => .ok (h.newSequence ((pieces s none).map .text))
    | v => do return h.newSequence ((pieces s (some (← h.text v))).map .text)
  | .concat => do return (.text (s ++ String.join (← args.mapM h.text)), h)
  | .slice => do return (.text (String.ofList (← Method.slice h args s.toList)), h)
  | .replicate => do
    return (.text (← replicated s (← h.toNumber (args.getD 0 (.int 0)))), h)
  | .toUpperCase => .ok (.text (Text.toUpper s), h)
  | .toLowerCase => .ok (.text (Text.toLower s), h)
  | .trim => .ok (.text (Text.trim s), h)
  | .startsWith => do
    return (.boolean ((← h.text (argument args 0)).toList.isPrefixOf s.toList), h)
  | .endsWith => do
    return (.boolean ((← h.text (argument args 0)).toList.isSuffixOf s.toList), h)

end OfText

end Chronicle.Method
