import Chronicle.Method.Call

/-!
# Results of method calls

A call gives what the method of that name gives for a receiver of its kind (`call_of_find?`), and a
fault that does not fail the call ends the run (`call_of_fault`).
-/

set_option autoImplicit false

namespace Chronicle.Method

variable {h : Heap} {receiver : Value} {method : String} {args : List Value}

theorem call_of_find? {result : Value × Heap}
    (hfind : find? h receiver method args = some (.ok result)) (location : Option Location) :
    call h receiver method args location = .ok result := by
  unfold call
  rw [hfind]

theorem call_of_fault {f : Fault} (hfind : find? h receiver method args = some (.error f))
    (hfails : failsCall f = false) (location : Option Location) :
    call h receiver method args location = .error (.fault f) := by
  unfold call
  rw [hfind]
  dsimp only
  rw [hfails]
  rfl

end Chronicle.Method
