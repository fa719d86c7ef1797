import Chronicle.Store.Binding

/-!
# Scopes

Scopes form a tree: each one knows the scopes that enclose it, nearest first.  A name means the
binding of the nearest scope that owns it.  Names keep the order in which they were bound.
-/

set_option autoImplicit false

namespace Chronicle

/-- A scope is named by its place among all scopes. -/
abbrev ScopeId := Nat

/-- One scope: the scopes around it, nearest first, and its own bindings in order. -/
structure Scope where
  outer : List ScopeId := []
  bindings : List (String × Binding) := []

/-- All scopes of a program. -/
structure Scopes where
  all : Array Scope

namespace Scopes

/-- A single root scope without bindings. -/
def root : Scopes := ⟨#[{}]⟩

instance : Inhabited Scopes := ⟨root⟩

/-- The scope of an identifier. -/
def scope (s : Scopes) (id : ScopeId) : Scope :=
  s.all[id]?.getD {}

/-- Whether a scope is enclosed by none. -/
def isRoot (s : Scopes) (id : ScopeId) : Bool :=
  (s.scope id).outer.isEmpty

/-- A scope and the scopes around it, nearest first. -/
def chain (s : Scopes) (id : ScopeId) : List ScopeId :=
  id :: (s.scope id).outer

/-- The scopes with a new one inside another, and its identifier. -/
def extend (s : Scopes) (id : ScopeId) : ScopeId × Scopes :=
  (s.all.size, ⟨s.all.push { outer := s.chain id }⟩)

/-- A scope's own binding of a name. -/
def own? (s : Scopes) (id : ScopeId) (name : String) : Option Binding :=
  (s.scope id).bindings.lookup name

/-- The nearest scope that owns a name. -/
def owner? (s : Scopes) (id : ScopeId) (name : String) : Option ScopeId :=
  (s.chain id).find? fun i => (s.own? i name).isSome

/-- What a name means in a scope. -/
def lookup? (s : Scopes) (id : ScopeId) (name : String) : Option Binding :=
  (s.chain id).findSome? fun i => s.own? i name

/-- Whether a name means something in a scope. -/
def isBound (s : Scopes) (id : ScopeId) (name : String) : Bool :=
  (s.lookup? id name).isSome

/-- Bindings with the one under a name changed. -/
def modifyIn (name : String) (f : Binding → Binding) :
    List (String × Binding) → List (String × Binding)
  | [] => []
  | (n, b) :: rest => if n == name then (n, f b) :: rest else (n, b) :: modifyIn name f rest

/-- The scopes with a scope's own binding of a name changed. -/
def modify (s : Scopes) (id : ScopeId) (name : String) (f : Binding → Binding) : Scopes :=
  ⟨s.all.modify id fun scope => { scope with bindings := modifyIn name f scope.bindings }⟩

/-- The scopes with a binding added to a scope, after its others. -/
def add (s : Scopes) (id : ScopeId) (name : String) (b : Binding) : Scopes :=
  ⟨s.all.modify id fun scope => { scope with bindings := scope.bindings ++ [(name, b)] }⟩

/-! ## Views -/

/-- Every name that means something in a scope, once, those of inner scopes first. -/
def names (s : Scopes) (id : ScopeId) : List String :=
  ((s.chain id).flatMap fun i => (s.scope i).bindings.map Prod.fst).eraseDups

/-- The names that mean something in a scope and what they mean. -/
def visible (s : Scopes) (id : ScopeId) : List (String × Binding) :=
  (s.names id).filterMap fun name => (s.lookup? id name).map (name, ·)

/-- The declared parameters among the names. -/
def parameterNames (s : Scopes) (id : ScopeId) : List String :=
  ((s.visible id).filter (·.2.isParameter)).map Prod.fst

/-- The names that are not declared parameters. -/
def variableNames (s : Scopes) (id : ScopeId) : List String :=
  ((s.visible id).filter (!·.2.isParameter)).map Prod.fst

/-- What every variable held at a step, without those defined later. -/
def snapshot (s : Scopes) (id : ScopeId) (t : Int) : List (String × String) :=
  (s.visible id).filterMap fun (name, b) => (b.valueAt t).map (name, ·)

/-- The variables written at exactly a step, with the last value each was given there. -/
def changesAt (s : Scopes) (id : ScopeId) (t : Int) : List (String × String) :=
  (s.visible id).filterMap fun (name, b) => (b.changeAt t).map (name, ·)

end Scopes

end Chronicle
