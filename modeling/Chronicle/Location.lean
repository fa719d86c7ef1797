import Chronicle.Number.Writing

/-!
# Source locations

Where a piece of source stands: lines count from one, columns from zero in bytes.  The location with
four zeros is the unknown one.
-/

set_option autoImplicit false

namespace Chronicle

/-- The extent of a piece of source, from its first character to after its last. -/
structure Location where
  startLine : Int := 0
  startColumn : Int := 0
  endLine : Int := 0
  endColumn : Int := 0
  deriving DecidableEq, Repr, Inhabited

namespace Location

/-- The location of what has none. -/
def unknown : Location := {}

/-- Whether a location is the unknown one. -/
def isUnknown (loc : Location) : Bool :=
  loc == unknown

/-- The text of a location: `line:column-line:column`. -/
def text (loc : Location) : String :=
  if loc.isUnknown then "<unknown>"
  else
    Number.intText loc.startLine ++ ":" ++ Number.intText loc.startColumn ++ "-" ++
      Number.intText loc.endLine ++ ":" ++ Number.intText loc.endColumn

end Location

end Chronicle
