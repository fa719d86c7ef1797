import Chronicle.Tree

/-!
# Patterns

What is assigned to is written like an expression: only what follows tells `[a, b]` the array from
`[a, b]` the pattern.  Such source is read as an expression, and made a pattern when it turns out to
be one.
-/

set_option autoImplicit false

namespace Chronicle.Grammar

/-- Where a part of a pattern stands. -/
inductive PatternPlace where
  /-- Where it is assigned to as a whole. -/
  | target
  /-- Among the elements of an array pattern or the parameters of a function. -/
  | element
  /-- Among the members of an object pattern. -/
  | member
  /-- Where it stays an expression. -/
  | kept
  deriving DecidableEq

namespace PatternPlace

/-- The place of a piece of an assignment that gives a default. -/
def inDefault (l : Tree.Label) : PatternPlace :=
  if l.field == some "left" then .target else .kept

/-- The place of a piece of a pair. -/
def inPair (l : Tree.Label) : PatternPlace :=
  if l.field == some "value" then .element else .kept

end PatternPlace

mutual

/-- The pattern that an expression is at a place; `none` if it is none. -/
def pattern? (place : PatternPlace) : Tree → Option Tree
  | .node l cs =>
    if !l.isConstruct || l.isAside then some (.node l cs)
    else match place, l.kind with
      | .kept, _ => some (.node l cs)
      | .target, "identifier" | .target, "undefined" | .target, "member_expression"
      | .target, "subscript_expression" | .target, "array_pattern" | .target, "object_pattern"
      | .element, "identifier" | .element, "undefined" | .element, "member_expression"
      | .element, "subscript_expression" | .element, "array_pattern"
      | .element, "object_pattern" | .member, "object_assignment_pattern" => some (.node l cs)
      | .target, "array" | .element, "array" =>
        (patterns? (fun _ => .element) cs).map (.node { l with kind := "array_pattern" })
      | .target, "object" | .element, "object" =>
        (patterns? (fun _ => .member) cs).map (.node { l with kind := "object_pattern" })
      | .element, "spread_element" | .member, "spread_element" =>
        (patterns? (fun _ => .target) cs).map (.node { l with kind := "rest_pattern" })
      | .element, "assignment_expression" =>
        (patterns? PatternPlace.inDefault cs).map (.node { l with kind := "assignment_pattern" })
      | .member, "pair" =>
        (patterns? PatternPlace.inPair cs).map (.node { l with kind := "pair_pattern" })
      | .member, "shorthand_property_identifier" =>
        some (.node { l with kind := "shorthand_property_identifier_pattern" } cs)
      | _, _ => none

/-- The patterns that expressions are, each at its place. -/
def patterns? (placeOf : Tree.Label → PatternPlace) : List Tree → Option (List Tree)
  | [] => some []
  | t :: ts => do
    let t ← pattern? (placeOf t.label) t
    return t :: (← patterns? placeOf ts)

end

mutual

/-- Whether no object of a tree has a member that only a pattern can have: a name with a default. -/
def isDecided : Tree → Bool
  | .node l cs =>
    !(l.kind == "object" && cs.any (·.label.kind == "object_assignment_pattern"))
      && areDecided cs

/-- Whether no object of some trees has a member that only a pattern can have. -/
def areDecided : List Tree → Bool
  | [] => true
  | t :: ts => isDecided t && areDecided ts

end

end Chronicle.Grammar
