import Chronicle.Number.Basic

/-!
# Values

The values of interpreted programs.  Numbers, texts, truth values, `null` and `undefined` are plain
data; sequences and records are shared by reference, so their values are addresses into a heap
(`Chronicle.Heap`).
-/

set_option autoImplicit false

namespace Chronicle

/-- The address of a sequence or a record in the heap.  Sequences and records have separate
addresses. -/
abbrev Address := Nat

/-- The kinds of values. -/
inductive Kind where
  | number
  | text
  | boolean
  | sequence
  | record
  | null
  | undefined
  deriving DecidableEq, Repr

/-- The name of a kind in messages. -/
def Kind.name : Kind → String
  | .number => "Number"
  | .text => "Text"
  | .boolean => "Boolean"
  | .sequence => "Sequence"
  | .record => "Structure"
  | .null => "Null"
  | .undefined => "Undefined"

/-- A value of an interpreted program. -/
inductive Value where
  | number (value : Number)
  | text (value : String)
  | boolean (value : Bool)
  | null
  | undefined
  | sequence (address : Address)
  | record (address : Address)

namespace Value

instance : Inhabited Value := ⟨.undefined⟩

/-- The integer value `n`. -/
def int (n : Int) : Value := .number (.int n)

/-- The kind of a value. -/
def kind : Value → Kind
  | .number _ => .number
  | .text _ => .text
  | .boolean _ => .boolean
  | .null => .null
  | .undefined => .undefined
  | .sequence _ => .sequence
  | .record _ => .record

/-- Whether a value is `null` or `undefined`. -/
def isNullish : Value → Bool
  | .null | .undefined => true
  | _ => false

/-- Whether a condition with this value holds: all but `null`, `undefined`, `false`, the empty text,
zero and the number that is none. -/
def isTruthy : Value → Bool
  | .undefined | .null => false
  | .boolean b => b
  | .number n => !(n.isZero || n.isNaN)
  | .text s => s != ""
  | .sequence _ | .record _ => true

/-- The name that `typeof` gives a value. -/
def typeName : Value → String
  | .number _ => "number"
  | .text _ => "string"
  | .boolean _ => "boolean"
  | .undefined => "undefined"
  | .null | .sequence _ | .record _ => "object"

end Value

end Chronicle
