import Chronicle.Value.Heap

/-!
# Object paths

A parameter such as `cfg["size"].unit` names a place inside a record.  Brackets, quotes and points
only separate the parts of a path.  `Heap.setNested` writes a value at a path, making records on the
way.
-/

set_option autoImplicit false

namespace Chronicle

namespace Path

/-- The characters between the parts of a path. -/
def isSeparator (c : Char) : Bool :=
  c == '[' || c == ']' || c == '"' || c == '\'' || c == '.'

/-- The pieces of a text between separators, empty ones included. -/
def pieces : List Char → List (List Char)
  | [] => [[]]
  | c :: cs =>
    if isSeparator c then [] :: pieces cs
    else match pieces cs with
      | [] => [[c]]
      | p :: ps => (c :: p) :: ps

/-- The parts of a path. -/
def split (name : String) : List String :=
  ((pieces name.toList).filter (!·.isEmpty)).map String.ofList

end Path

/-- The heap after a value was written at a path inside the record at an address.  What stands on
the way and is no record is replaced by one. -/
def Heap.setNested (h : Heap) (a : Address) : List String → Value → Heap
  | [], _ => h
  | [key], v => h.setFields a ((h.fields a).insert key v)
  | key :: path, v =>
    match (h.fields a).get? key with
    | some (.record child) => h.setNested child path v
    | _ =>
      let (child, h) := h.newRecord []
      let h := h.setFields a ((h.fields a).insert key child)
      match child with
      | .record child => h.setNested child path v
      | _ => h

end Chronicle
