import Chronicle.Value.Equality

/-!
# Arguments of built-in methods

Methods take a list of arguments of any length: a missing one has a default, a surplus one is
ignored.  Positions count from the end when they are negative.
-/

set_option autoImplicit false

namespace Chronicle.Method

/-- What a built-in method gives: its value and the heap after it. -/
abbrev Outcome := Except Fault (Value × Heap)

/-- The argument at a position, or `undefined`. -/
def argument (args : List Value) (i : Nat) : Value :=
  args.getD i .undefined

/-- The position that a relative index stands for in something of length `length`: from the end
when negative, and never outside. -/
def resolveIndex (length : Nat) (i : Int) : Nat :=
  if i < 0 then (length + i).toNat else min i.toNat length

/-- The position that an argument stands for; `null`, `undefined` and a missing argument stand for
the default, the number that is none for the start. -/
def position (h : Heap) (args : List Value) (i length default : Nat) : Except Fault Nat := do
  match args[i]? with
  | none | some .null | some .undefined => return default
  | some v => do
    let n ← h.toNumber v
    if (← n.floatIsNaN) then return 0
    return resolveIndex length (← n.truncate)

/-- The part of a list from one position to before another. -/
def part {α : Type} (start stop : Nat) (xs : List α) : List α :=
  (xs.take stop).drop start

/-- The part of a list that two position arguments name. -/
def slice {α : Type} (h : Heap) (args : List Value) (xs : List α) : Except Fault (List α) := do
  let start ← position h args 0 xs.length 0
  let stop ← position h args 1 xs.length xs.length
  return part start stop xs

end Chronicle.Method
