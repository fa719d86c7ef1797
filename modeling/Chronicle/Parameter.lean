import Chronicle.Value.Heap

/-!
# Parameter specifications

What an annotation says about a parameter: its kind, the value it starts with, a range for numbers,
and further candidate values.  The values are those of the heap that comes with the specification.
-/

set_option autoImplicit false

namespace Chronicle

/-- The kinds that an annotation can give a parameter. -/
inductive ParameterKind where
  | boolean | number | string | array | object
  deriving DecidableEq, Repr

namespace ParameterKind

/-- The name of a kind in annotations. -/
def name : ParameterKind → String
  | .boolean => "Boolean"
  | .number => "Number"
  | .string => "String"
  | .array => "Array"
  | .object => "Object"

/-- The kind of a name. -/
def ofName? : String → Option ParameterKind
  | "Boolean" => some .boolean
  | "Number" => some .number
  | "String" => some .string
  | "Array" => some .array
  | "Object" => some .object
  | _ => none

/-- A kind is found under its name. -/
theorem ofName?_name (k : ParameterKind) : ofName? k.name = some k := by
  cases k <;> rfl

end ParameterKind

/-- The specification of a parameter.  Only `initial` takes part in a run. -/
structure ParameterSpec where
  name : String
  kind : ParameterKind
  initial : Value := .null
  min : Option Float := none
  max : Option Float := none
  alternatives : List Value := []

/-- Why a specification is refused. -/
inductive SpecError where
  /-- A least value above the greatest. -/
  | emptyRange (name : String) (min max : Float)
  /-- A bound beyond the largest double. -/
  | boundTooLarge

/-- The wording of a refusal, where it has one. -/
def SpecError.message? : SpecError → Option String
  | .emptyRange name min max =>
    some ("Value error, Parameter " ++ name ++ ": min " ++ Number.floatText min ++
      " is greater than max " ++ Number.floatText max)
  | .boundTooLarge => none

/-- A bound as a double. -/
def ParameterSpec.bound : Option Number → Except SpecError (Option Float)
  | none => .ok none
  | some n =>
    match n.toFloat with
    | .ok x => .ok (some x)
    | .error _ => .error .boundTooLarge

/-- A specification with a range of numbers, refused when the range is empty. -/
def ParameterSpec.withRange (spec : ParameterSpec) (min max : Option Number) :
    Except SpecError ParameterSpec := do
  let min ← ParameterSpec.bound min
  let max ← ParameterSpec.bound max
  match min, max with
  | some lo, some hi =>
    if (Number.float hi).less (.float lo) then .error (.emptyRange spec.name lo hi)
    else return { spec with min, max }
  | _, _ => return { spec with min, max }

end Chronicle
