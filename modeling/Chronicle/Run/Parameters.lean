import Chronicle.Node
import Chronicle.Store.World

/-!
# Binding parameters

Before a function runs, each of its specifications becomes a binding in its scope, in their order.
Every declared parameter needs one specification; specifications of names that are not declared are
bound too.  All checks come first, so that either all parameters are bound or none.
-/

set_option autoImplicit false

namespace Chronicle

open Effect

/-- The names of declared parameters; any other pattern is refused. -/
def declaredNames : List Node → Except RunError (List String)
  | [] => .ok []
  | .identifier _ name :: rest => return name :: (← declaredNames rest)
  | other :: _ =>
    .error ⟨.parameterBinding ("Unsupported parameter pattern: " ++ other.form),
      some other.location⟩

/-- The first name that occurs again, at its second occurrence. -/
def firstRepeated (seen : List String) : List String → Option String
  | [] => none
  | name :: rest => if seen.contains name then some name else firstRepeated (name :: seen) rest

/-- The error of parameters and specifications that do not line up, if they do not. -/
def checkParameters (declared : List Node) (specs : List ParameterSpec) : Except RunError Unit := do
  let names ← declaredNames declared
  let given := specs.map ParameterSpec.name
  match firstRepeated [] given with
  | some name => throw ⟨.parameterBinding ("Duplicate parameter spec: " ++ name), none⟩
  | none => pure ()
  let missing := names.filter fun name => !given.contains name
  match missing with
  | [] => pure ()
  | first :: _ =>
    throw ⟨.parameterBinding ("No parameter spec for: " ++ Text.join ", " missing),
      (declared.find? fun node => node.name? == some first).map Node.location⟩

/-- Binds a parameter to a copy of the value it starts with. -/
def bindParameter (scope : ScopeId) (source : Heap) (step : Int) (spec : ParameterSpec) :
    Effect Unit := do
  let v ← modifyGet fun w =>
    let (v, heap) := w.heap.copyValue source spec.initial
    (v, { w with heap })
  define scope spec.name v step (some spec)

/-- Binds the parameters of a function from specifications with values of the heap `source`. -/
def bindParameters (scope : ScopeId) (declared : List Node) (source : Heap)
    (specs : List ParameterSpec) (step : Int) : Effect Unit := do
  match checkParameters declared specs with
  | .error e => throw (.error e)
  | .ok () => specs.forM (bindParameter scope source step)

end Chronicle
