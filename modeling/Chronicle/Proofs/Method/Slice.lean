import Chronicle.Proofs.Method.Call
import Chronicle.Proofs.Value.Faults

/-!
# Slices

`slice` of a text gives a text, and of a sequence a new sequence, with the elements at the positions
from one to before another (`between`).  Integers are resolved as positions from the start, or from
the end where they are negative, and never lie outside (`clamp`, `position_int`).

An integer is asked whether it is a number by its double, so one that is beyond the largest double
is a fault, although its position would be an end of the sequence or text.
-/

set_option autoImplicit false

namespace Chronicle

-- powers of naturals and integers are repeated products
attribute [local instance (high)] instPowNat

theorem Number.ofInt?_isSome {n : Int} (hn : n.natAbs < moderateBound) : (ofInt? n).isSome :=
  ofRatio?_isSome _ hn 1

theorem Number.ofInt?_zero : (ofInt? 0).isSome :=
  ofInt?_isSome (lt_moderateBound (by decide))

/-- The elements of a sequence; those of a text are its characters, as texts. -/
def Heap.elements? (h : Heap) : Value → Option (List Value)
  | .sequence a => h.sequences[a]?
  | .text s => some (s.toList.map fun c => .text (String.ofList [c]))
  | _ => none

namespace Method

/-! ## Positions -/

/-- The position that an integer stands for: from the end when negative, and never outside. -/
def clamp (length : Nat) (i : Int) : Int :=
  if i < 0 then max (length + i) 0 else min i length

/-- The elements at the positions from `start` to before `stop`, in order. -/
def between {α : Type} (start stop : Int) (xs : List α) : List α :=
  (xs.zipIdx.filter fun x => start ≤ x.2 ∧ x.2 < stop).map Prod.fst

theorem clamp_eq (length : Nat) (i : Int) : clamp length i = resolveIndex length i := by
  unfold clamp resolveIndex
  split <;> omega

theorem between_eq_nil {α : Type} {start stop : Int} (h : stop ≤ start) (xs : List α) :
    between start stop xs = [] := by
  unfold between
  rw [List.filter_eq_nil_iff.2 fun x _ => ?_]
  · rfl
  · simp
    omega

theorem part_zipIdx {α : Type} (start stop n : Nat) (xs : List α) :
    part (start - n) (stop - n) xs =
      ((xs.zipIdx n).filter fun x => (start : Int) ≤ x.2 ∧ (x.2 : Int) < stop).map Prod.fst := by
  induction xs generalizing n with
  | nil => simp [part]
  | cons x xs ih =>
    have ih := ih (n + 1)
    unfold part at ih ⊢
    rw [List.zipIdx_cons]
    by_cases hstop : n < stop
    · rw [show stop - n = stop - (n + 1) + 1 by omega, List.take_succ_cons]
      by_cases hstart : start ≤ n
      · rw [show start - n = 0 by omega, List.drop_zero, List.filter_cons_of_pos (by simp; omega),
          List.map_cons, ← ih, show start - (n + 1) = 0 by omega, List.drop_zero]
      · rw [show start - n = start - (n + 1) + 1 by omega, List.drop_succ_cons, ih,
          List.filter_cons_of_neg (by simp; omega)]
    · rw [show stop - (n + 1) = 0 by omega] at ih
      rw [show stop - n = 0 by omega, List.take_zero, List.drop_nil,
        List.filter_cons_of_neg (by simp; omega), ← ih, List.take_zero, List.drop_nil]

theorem part_eq_between {α : Type} (start stop : Nat) (xs : List α) :
    part start stop xs = between start stop xs :=
  part_zipIdx start stop 0 xs

theorem part_map {α β : Type} (start stop : Nat) (f : α → β) (xs : List α) :
    (part start stop xs).map f = part start stop (xs.map f) := by
  rw [part, part, List.map_drop, List.map_take]

/-! ## Arguments -/

variable {h : Heap} {args : List Value}

/-- An integer stands for its position, or is a fault where it has no double. -/
theorem position_int {i : Nat} {j : Int} (harg : args[i]? = some (.int j)) (length default : Nat) :
    position h args i length default =
      match Number.ofInt? j with
      | some _ => .ok (resolveIndex length j)
      | none => .error .integerToFloat := by
  unfold position
  rw [harg]
  show (do
    if (← (Number.int j).floatIsNaN) then return 0
    return resolveIndex length (← (Number.int j).truncate)) = _
  unfold Number.floatIsNaN Number.toFloat
  dsimp only
  cases Number.ofInt? j <;> rfl

theorem position_none {i : Nat} (harg : args[i]? = none) (length default : Nat) :
    position h args i length default = .ok default := by
  unfold position
  rw [harg]
  rfl

/-! ## Calls -/

/-- What the part of a sequence or text between two positions gives. -/
def sliced (h : Heap) (r : Value) (start stop : Nat) : Value × Heap :=
  match r with
  | .sequence a => h.newSequence (part start stop (h.items a))
  | .text s => (.text (String.ofList (part start stop s.toList)), h)
  | v => (v, h)

variable {r : Value} {xs : List Value}

theorem items_of_elements? {a : Address} (ha : h.elements? (.sequence a) = some xs) :
    h.items a = xs := by
  have ha : h.sequences[a]? = some xs := ha
  rw [Heap.items, ha]
  rfl

theorem elements?_newSequence (h : Heap) (items : List Value) {u : Value} {ys : List Value}
    (hu : h.elements? u = some ys) : (h.newSequence items).2.elements? u = some ys := by
  cases u with
  | sequence a =>
    have hlt : a < h.sequences.size := (Array.getElem?_eq_some_iff.1 hu).1
    show (h.sequences.push items)[a]? = some ys
    rw [Array.getElem?_push, if_neg (Nat.ne_of_lt hlt)]
    exact hu
  | _ => exact hu

theorem kind_sliced (h : Heap) (r : Value) (start stop : Nat) :
    (sliced h r start stop).1.kind = r.kind := by
  cases r <;> rfl

/-- Sequences and texts keep their elements when a part is taken. -/
theorem elements?_of_sliced (start stop : Nat) {u : Value} {ys : List Value}
    (hu : h.elements? u = some ys) : (sliced h r start stop).2.elements? u = some ys := by
  cases r with
  | sequence a => exact elements?_newSequence h _ hu
  | _ => exact hu

section
variable (hr : h.elements? r = some xs)
include hr

theorem elements?_sliced (start stop : Nat) :
    (sliced h r start stop).2.elements? (sliced h r start stop).1 = some (part start stop xs) := by
  cases r with
  | sequence a =>
    rw [← items_of_elements? hr]
    exact Array.getElem?_push_size
  | text s =>
    obtain rfl : s.toList.map (fun c => Value.text (String.ofList [c])) = xs := Option.some.inj hr
    rw [← part_map]
    simp [sliced, Heap.elements?]
  | _ => cases hr

/-- A slice is the part between the positions of its arguments. -/
theorem find?_slice (args : List Value) : find? h r "slice" args = some (do
    let start ← position h args 0 xs.length 0
    let stop ← position h args 1 xs.length xs.length
    return sliced h r start stop) := by
  have hpart {α : Type} (ys : List α) (hys : ys.length = xs.length) (f : List α → Value × Heap) :
      (do return f (← slice h args ys)) = (do
        let start ← position h args 0 xs.length 0
        let stop ← position h args 1 xs.length xs.length
        return f (part start stop ys) : Except Fault (Value × Heap)) := by
    unfold slice
    rw [hys]
    cases position h args 0 xs.length 0 with
    | error f => rfl
    | ok start => cases position h args 1 xs.length xs.length <;> rfl
  cases r with
  | sequence a =>
    exact congrArg some (hpart (h.items a) (by rw [items_of_elements? hr]) h.newSequence)
  | text s =>
    obtain rfl : s.toList.map (fun c => Value.text (String.ofList [c])) = xs := Option.some.inj hr
    exact congrArg some (hpart s.toList (by simp) fun cs => (.text (String.ofList cs), h))
  | _ => cases hr

variable {j k : Int} (location : Option Location)

theorem call_slice (hj : (Number.ofInt? j).isSome) (hk : (Number.ofInt? k).isSome) :
    call h r "slice" [.int j, .int k] location =
      .ok (sliced h r (resolveIndex xs.length j) (resolveIndex xs.length k)) := by
  obtain ⟨x, hx⟩ := Option.isSome_iff_exists.1 hj
  obtain ⟨y, hy⟩ := Option.isSome_iff_exists.1 hk
  refine call_of_find? ?_ location
  rw [find?_slice hr, position_int rfl, position_int rfl, hx, hy]
  rfl

theorem call_slice_from (hj : (Number.ofInt? j).isSome) :
    call h r "slice" [.int j] location =
      .ok (sliced h r (resolveIndex xs.length j) xs.length) := by
  obtain ⟨x, hx⟩ := Option.isSome_iff_exists.1 hj
  refine call_of_find? ?_ location
  rw [find?_slice hr, position_int rfl, position_none rfl, hx]
  rfl

/-- An integer beyond the largest double is a fault. -/
theorem call_slice_from_fault (hfault : Number.ofInt? j = none) :
    call h r "slice" [.int j] location = .error (.fault .integerToFloat) := by
  refine call_of_fault ?_ rfl location
  rw [find?_slice hr, position_int rfl, hfault]
  rfl

theorem call_slice_fault (hfault : Number.ofInt? j = none ∨ Number.ofInt? k = none) :
    call h r "slice" [.int j, .int k] location = .error (.fault .integerToFloat) := by
  refine call_of_fault ?_ rfl location
  rw [find?_slice hr, position_int rfl, position_int rfl]
  cases hj : Number.ofInt? j with
  | none => rfl
  | some x =>
    obtain hk : Number.ofInt? k = none := by simpa [hj] using hfault
    rw [hk]
    rfl

end

/-! ## Slices by integers -/

theorem resolveIndex_zero (length : Nat) : resolveIndex length 0 = 0 := by
  simp [resolveIndex]

theorem resolveIndex_length (length : Nat) : resolveIndex length length = length := by
  simp [resolveIndex]

theorem part_append_part {α : Type} (stop : Nat) (ys : List α) :
    part 0 stop ys ++ part stop ys.length ys = ys := by
  rw [part, part, List.drop_zero, List.take_length, List.take_append_drop]

theorem ofInt?_length {length : Nat} (h : length < OfText.sizeLimit) :
    (Number.ofInt? length).isSome := by
  unfold OfText.sizeLimit at h
  refine Number.ofInt?_isSome ?_
  unfold Number.moderateBound
  calc length < 2 ^ 63 := h
    _ ≤ 2 ^ 1000 := Nat.pow_le_pow_right (by omega) (by omega)

/-- A slice between integers has the elements at the positions from one to before the other, slices
up to an integer and from it on are the whole, and a slice without an end goes to the end; the
sequence or text that is sliced stays as it is.  All this is so for integers that have doubles, and
any other integer is a fault. -/
theorem slice_between (hr : h.elements? r = some xs) (hlength : xs.length < OfText.sizeLimit)
    (j k : Int) (location : Option Location) :
    ((Number.ofInt? j).isSome → (Number.ofInt? k).isSome →
      (∃ v h', call h r "slice" [.int j, .int k] location = .ok (v, h') ∧ v.kind = r.kind ∧
        h'.elements? v = some (between (clamp xs.length j) (clamp xs.length k) xs) ∧
        (clamp xs.length k ≤ clamp xs.length j → h'.elements? v = some []) ∧
        h'.elements? r = some xs) ∧
      (∃ v h₁ w h₂ ys zs, call h r "slice" [.int 0, .int k] location = .ok (v, h₁) ∧
        call h₁ r "slice" [.int k] location = .ok (w, h₂) ∧
        h₂.elements? v = some ys ∧ h₂.elements? w = some zs ∧ ys ++ zs = xs) ∧
      call h r "slice" [.int j] location = call h r "slice" [.int j, .int xs.length] location) ∧
    (Number.ofInt? j = none ∨ Number.ofInt? k = none →
      call h r "slice" [.int j, .int k] location = .error (.fault .integerToFloat)) ∧
    (Number.ofInt? j = none →
      call h r "slice" [.int j] location = .error (.fault .integerToFloat)) := by
  refine ⟨fun hj hk => ⟨?_, ?_, ?_⟩, call_slice_fault hr location,
    call_slice_from_fault hr location⟩
  · have helements := elements?_sliced hr (resolveIndex xs.length j) (resolveIndex xs.length k)
    rw [part_eq_between, ← clamp_eq, ← clamp_eq] at helements
    exact ⟨_, _, call_slice hr location hj hk, kind_sliced .., helements,
      fun hle => helements.trans (by rw [between_eq_nil hle]), elements?_of_sliced _ _ hr⟩
  · have hr₁ :=
      elements?_of_sliced (r := r) (resolveIndex xs.length 0) (resolveIndex xs.length k) hr
    refine ⟨_, _, _, _, _, _, call_slice hr location Number.ofInt?_zero hk,
      call_slice_from hr₁ location hk, elements?_of_sliced _ _ (elements?_sliced hr _ _),
      elements?_sliced hr₁ _ _, ?_⟩
    rw [resolveIndex_zero, part_append_part]
  · rw [call_slice_from hr location hj, call_slice hr location hj (ofInt?_length hlength),
      resolveIndex_length]

/-- A heap with one sequence, of three numbers. -/
def threeNumbers : Heap where
  sequences := #[[.int 1, .int 2, .int 3]]

/-- From the last but one on, beyond the end. -/
theorem slice_between_beyond :
    (threeNumbers.elements? (.sequence 0) = some [.int 1, .int 2, .int 3] ∧
      3 < OfText.sizeLimit ∧ (Number.ofInt? (-2)).isSome ∧ (Number.ofInt? 10).isSome) ∧
    ∃ v h', call threeNumbers (.sequence 0) "slice" [.int (-2), .int 10] none = .ok (v, h') ∧
      h'.elements? v = some [.int 2, .int 3] ∧
      h'.elements? (.sequence 0) = some [.int 1, .int 2, .int 3] := by
  have hr : threeNumbers.elements? (.sequence 0) = some [.int 1, .int 2, .int 3] := rfl
  have hj : (Number.ofInt? (-2)).isSome :=
    Number.ofInt?_isSome (Number.lt_moderateBound (by decide))
  have hk : (Number.ofInt? 10).isSome := Number.ofInt?_isSome (Number.lt_moderateBound (by decide))
  obtain ⟨⟨v, h', hcall, -, helements, -, hkept⟩, -⟩ :=
    (slice_between hr (by decide) (-2) 10 none).1 hj hk
  exact ⟨⟨hr, by decide, hj, hk⟩, v, h', hcall, helements, hkept⟩

/-- A slice from an integer that has no double fails, although no element lies from there on. -/
theorem slice_without_double :
    call {} (.text "ab") "slice" [.int (10 ^ (400 : Nat) : Nat)] none =
      .error (.fault .integerToFloat) ∧
    Heap.elements? {} (.text "ab") = some [.text "a", .text "b"] ∧
    between (clamp 2 (10 ^ (400 : Nat) : Nat)) 2 [Value.text "a", .text "b"] = [] := by
  have hr : Heap.elements? {} (.text "ab") = some [.text "a", .text "b"] := rfl
  have hj : Number.ofInt? (10 ^ (400 : Nat) : Nat) = none :=
    Option.isNone_iff_eq_none.1 (by decide +kernel)
  exact ⟨call_slice_from_fault hr none hj, hr, by decide +kernel⟩

end Method

end Chronicle
