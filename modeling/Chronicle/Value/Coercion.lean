import Chronicle.Value.Heap
import Chronicle.Number.Reading
import Chronicle.Text.Search

/-!
# Values as texts and numbers

Three readings of a value: `Heap.text`, the text it is coerced to; `Heap.toNumber`, the number it is
coerced to; and `Heap.format`, the rendering kept in histories, where texts stand between quotes and
the contents of sequences and records are shown.
-/

set_option autoImplicit false

namespace Chronicle.Heap

/-- The text of a value nested at most `fuel` deep. -/
def textWithin (h : Heap) : Nat → Value → Except Fault String
  | _, .text s => .ok s
  | _, .number n => n.text
  | _, .boolean b => .ok (if b then "true" else "false")
  | _, .null => .ok "null"
  | _, .undefined => .ok "undefined"
  | _, .record _ => .ok "[object Object]"
  | 0, .sequence _ => .error .endlessNesting
  | fuel + 1, .sequence a => do
    let parts ← (h.items a).mapM fun v =>
      if v.isNullish then .ok "" else textWithin h fuel v
    return Text.join "," parts

/-- The text that a value is coerced to.  A sequence gives its elements with commas between, empty
for `null` and `undefined`. -/
def text (h : Heap) (v : Value) : Except Fault String :=
  h.textWithin h.depth v

/-- The number that a value is coerced to. -/
def toNumber (h : Heap) : Value → Except Fault Number
  | .number n => .ok n.normalize
  | .boolean b => .ok (Number.ofBool b)
  | .null => .ok (.int 0)
  | .text s => .ok (Number.ofText s)
  | .sequence a => (h.text (.sequence a)).map Number.ofText
  | .undefined | .record _ => .ok Number.nan

/-- The rendering of a value nested at most `fuel` deep. -/
def formatWithin (h : Heap) : Nat → Value → Except Fault String
  | _, .text s => .ok ("\"" ++ s ++ "\"")
  | _, .number n => n.text
  | _, .boolean b => .ok (if b then "true" else "false")
  | _, .null => .ok "null"
  | _, .undefined => .ok "undefined"
  | 0, .sequence _ | 0, .record _ => .error .endlessNesting
  | fuel + 1, .sequence a => do
    let parts ← (h.items a).mapM fun v => formatWithin h fuel v
    return "[" ++ Text.join ", " parts ++ "]"
  | fuel + 1, .record a => do
    let parts ← (h.fields a).mapM fun (name, v) => do
      return name ++ ": " ++ (← formatWithin h fuel v)
    return "\x7b" ++ Text.join ", " parts ++ "\x7d"

/-- The rendering of a value in histories. -/
def format (h : Heap) (v : Value) : Except Fault String :=
  h.formatWithin h.depth v

end Chronicle.Heap
