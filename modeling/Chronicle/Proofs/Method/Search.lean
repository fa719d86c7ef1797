import Chronicle.Proofs.Method.Slice
import Chronicle.Proofs.Method.Split

/-!
# Searching in a text

`indexOf`, `includes`, `startsWith`, `endsWith` and `split` look for the same occurrences.  What
they answer is what the list of characters says (`answers_indexOf` and those after it), and the
relations between the answers (`SearchAgrees`) follow from the first occurrence
(`Text.find?_eq_some_iff`): `search_agrees`.
-/

set_option autoImplicit false

namespace Chronicle.Method

open Text

/-- A method of a text gives this value and leaves the heap as it is. -/
def Answers (h : Heap) (s method : String) (args : List Value) (v : Value) : Prop :=
  ∀ location, call h (.text s) method args location = .ok (v, h)

/-- Whether what is left of a text from a position on starts with a text. -/
def StartsFrom (h : Heap) (s t : String) (j : Int) (starts : Bool) : Prop :=
  ∃ rest, Answers h s "slice" [.int j] (.text rest) ∧
    Answers h rest "startsWith" [.text t] (.boolean starts)

/-- The answers to a search for one text in another agree with each other. -/
structure SearchAgrees (h : Heap) (s t : String) (i : Int) (found starts ends : Bool) :
    Prop where
  indexOf : Answers h s "indexOf" [.text t] (.int i)
  includes : Answers h s "includes" [.text t] (.boolean found)
  startsWith : Answers h s "startsWith" [.text t] (.boolean starts)
  endsWith : Answers h s "endsWith" [.text t] (.boolean ends)
  /-- A position, or `-1`. -/
  range : -1 ≤ i
  absent : i = -1 ↔ found = false
  /-- The text stands at its position. -/
  first : 0 ≤ i → StartsFrom h s t i true
  /-- It does not stand before. -/
  before : ∀ j, 0 ≤ j → j < i → StartsFrom h s t j false
  start : starts = true ↔ i = 0
  /-- A text ends with another when it is some text with the other one behind it. -/
  stop : ends = true ↔ ∃ u, Answers h u "concat" [.text t] (.text s)
  /-- Splitting gives one piece, or else the first one ends at the position. -/
  pieces : t ≠ "" → ∃ (a : Address) (h' : Heap) (pieces : List String),
    (∀ location, call h (.text s) "split" [.text t] location = .ok (.sequence a, h')) ∧
    h'.items a = pieces.map Value.text ∧ (pieces.length = 1 ↔ found = false) ∧
    (found = true → ∃ piece, pieces.head? = some piece ∧
      Answers h s "slice" [.int 0, .int i] (.text piece))

variable {h : Heap} {s t : String} {n : Nat}

/-! ## Answers -/

theorem answers_of_apply {method : String} {m : OfText} {args : List Value} {v : Value}
    (hm : OfText.ofName? method = some m) (hv : m.apply h s args = .ok (v, h)) :
    Answers h s method args v := fun location =>
  call_of_find? (by rw [find?, hm]; exact congrArg some hv) location

theorem Answers.eq {method : String} {args : List Value} {v w : Value}
    (hv : Answers h s method args v) (hw : Answers h s method args w) : v = w :=
  congrArg Prod.fst (Except.ok.inj ((hv none).symm.trans (hw none)))

theorem answers_indexOf (h : Heap) (s t : String) :
    Answers h s "indexOf" [.text t] (.int (OfText.firstIndex s t)) :=
  answers_of_apply (m := .indexOf) rfl rfl

theorem answers_includes (h : Heap) (s t : String) :
    Answers h s "includes" [.text t] (.boolean (contains t.toList s.toList)) :=
  answers_of_apply (m := .includes) rfl rfl

theorem answers_startsWith (h : Heap) (s t : String) :
    Answers h s "startsWith" [.text t] (.boolean (t.toList.isPrefixOf s.toList)) :=
  answers_of_apply (m := .startsWith) rfl rfl

theorem answers_endsWith (h : Heap) (s t : String) :
    Answers h s "endsWith" [.text t] (.boolean (t.toList.isSuffixOf s.toList)) :=
  answers_of_apply (m := .endsWith) rfl rfl

theorem answers_concat (h : Heap) (u t : String) :
    Answers h u "concat" [.text t] (.text (u ++ t)) := by
  have hjoined : u ++ String.join [t] = u ++ t := by simp [String.join]
  rw [← hjoined]
  exact answers_of_apply (m := .concat) rfl rfl

theorem resolveIndex_of_le (hn : n ≤ s.length) : resolveIndex s.length n = n := by
  unfold resolveIndex
  split <;> omega

theorem answers_slice (hs : s.length < OfText.sizeLimit) (hn : n ≤ s.length) :
    Answers h s "slice" [.int n] (.text (String.ofList (s.toList.drop n))) := by
  intro location
  have hdouble : (Number.ofInt? n).isSome := ofInt?_length (Nat.lt_of_le_of_lt hn hs)
  have hcall := call_slice_from (h := h) (r := .text s) rfl location hdouble
  rw [hcall, List.length_map, String.length_toList, resolveIndex_of_le hn, sliced, part,
    ← String.length_toList, List.take_length]

theorem answers_slice_zero (hs : s.length < OfText.sizeLimit) (hn : n ≤ s.length) :
    Answers h s "slice" [.int 0, .int n] (.text (String.ofList (s.toList.take n))) := by
  intro location
  have hdouble : (Number.ofInt? n).isSome := ofInt?_length (Nat.lt_of_le_of_lt hn hs)
  have hcall := call_slice (h := h) (r := .text s) rfl location Number.ofInt?_zero hdouble
  rw [hcall, List.length_map, String.length_toList, resolveIndex_zero, resolveIndex_of_le hn]
  simp [sliced, part]

/-! ## Agreement -/

theorem startsFrom_of_iff {starts : Bool} (hs : s.length < OfText.sizeLimit) (hn : n ≤ s.length)
    (hstarts : t.toList <+: s.toList.drop n ↔ starts = true) : StartsFrom h s t n starts := by
  refine ⟨_, answers_slice hs hn, ?_⟩
  have hbegins : t.toList.isPrefixOf (s.toList.drop n) = starts := by
    rw [Bool.eq_iff_iff, List.isPrefixOf_iff_prefix, hstarts]
  have hanswer := answers_startsWith h (String.ofList (s.toList.drop n)) t
  rwa [String.toList_ofList, hbegins] at hanswer

/-- A text ends with another one exactly if concatenating gives it. -/
theorem isSuffixOf_iff_concat (h : Heap) (s t : String) :
    t.toList.isSuffixOf s.toList = true ↔ ∃ u, Answers h u "concat" [.text t] (.text s) := by
  rw [List.isSuffixOf_iff_suffix]
  constructor
  · rintro ⟨u, hu⟩
    have hs : String.ofList u ++ t = s := by
      rw [← String.toList_inj, String.toList_append, String.toList_ofList, hu]
    exact ⟨_, hs ▸ answers_concat h (String.ofList u) t⟩
  · rintro ⟨u, hu⟩
    obtain rfl : s = u ++ t := Value.text.inj (hu.eq (answers_concat h u t))
    rw [String.toList_append]
    exact List.suffix_append _ _

/-- Splitting by a text that is not empty gives one piece where it does not occur, and else begins
with what stands before its first occurrence. -/
theorem pieces_of_find? (s : String) (ht : t ≠ "") :
    ((OfText.pieces s (some t)).length = 1 ↔ Text.find? t.toList s.toList = none) ∧
    ∀ n, Text.find? t.toList s.toList = some n →
      (OfText.pieces s (some t)).head? = some (String.ofList (s.toList.take n)) := by
  have htl : t.toList ≠ [] := by simpa using ht
  rw [pieces_of_ne s ht]
  cases hfind : Text.find? t.toList s.toList with
  | none =>
    rw [splitOn_of_not_isInfix (find?_eq_none_iff.1 hfind)]
    exact ⟨by simp, nofun⟩
  | some n =>
    rw [splitOn_of_find? htl hfind]
    refine ⟨?_, fun m hm => by simp [Option.some.inj hm]⟩
    have hmore := splitOn_ne_nil t.toList (s.toList.drop (n + t.toList.length))
    simpa using hmore

/-! ## The position -/

theorem le_firstIndex (s t : String) : -1 ≤ OfText.firstIndex s t := by
  unfold OfText.firstIndex
  split <;> omega

theorem firstIndex_eq_iff : OfText.firstIndex s t = n ↔ Text.find? t.toList s.toList = some n := by
  unfold OfText.firstIndex
  cases Text.find? t.toList s.toList <;> simp

theorem firstIndex_eq_neg_one_iff :
    OfText.firstIndex s t = -1 ↔ Text.find? t.toList s.toList = none := by
  unfold OfText.firstIndex
  cases Text.find? t.toList s.toList <;> simp

/-- The answers to a search agree, whatever the two texts are.  The length says that every position
in the text has a double; texts from that length on do not occur. -/
theorem search_agrees (h : Heap) (hs : s.length < OfText.sizeLimit) (t : String) :
    SearchAgrees h s t (OfText.firstIndex s t) (contains t.toList s.toList)
      (t.toList.isPrefixOf s.toList) (t.toList.isSuffixOf s.toList) where
  indexOf := answers_indexOf h s t
  includes := answers_includes h s t
  startsWith := answers_startsWith h s t
  endsWith := answers_endsWith h s t
  range := le_firstIndex s t
  absent := firstIndex_eq_neg_one_iff.trans contains_eq_false_iff.symm
  first := by
    intro hi
    obtain ⟨n, hn⟩ := Int.eq_ofNat_of_zero_le hi
    have hfind := firstIndex_eq_iff.1 hn
    rw [hn]
    exact startsFrom_of_iff hs (le_length_of_find? hfind)
      (iff_of_true (find?_eq_some_iff.1 hfind).1 rfl)
  before := by
    intro j hj hlt
    obtain ⟨n, hn⟩ := Int.eq_ofNat_of_zero_le (by omega : 0 ≤ OfText.firstIndex s t)
    have hfind := firstIndex_eq_iff.1 hn
    obtain ⟨m, rfl⟩ := Int.eq_ofNat_of_zero_le hj
    have hbefore : m < n := by omega
    exact startsFrom_of_iff hs (Nat.le_trans hbefore.le (le_length_of_find? hfind))
      (iff_of_false ((find?_eq_some_iff.1 hfind).2 m hbefore) Bool.false_ne_true)
  start := by
    rw [List.isPrefixOf_iff_prefix, show (0 : Int) = (0 : Nat) from rfl, firstIndex_eq_iff,
      find?_eq_some_iff]
    simp
  stop := isSuffixOf_iff_concat h s t
  pieces := by
    intro ht
    obtain ⟨hone, hhead⟩ := pieces_of_find? s ht
    refine ⟨_, _, _, call_split rfl s, Heap.items_newSequence_size h _,
      hone.trans contains_eq_false_iff.symm, fun hfound => ?_⟩
    obtain ⟨n, hfind⟩ := Option.isSome_iff_exists.1 hfound
    refine ⟨_, hhead n hfind, ?_⟩
    rw [firstIndex_eq_iff.2 hfind]
    exact answers_slice_zero hs (le_length_of_find? hfind)

/-- In `abcab` the text `ab` stands at the start and at the end. -/
theorem search_agrees_twice : "abcab".length < OfText.sizeLimit ∧
    SearchAgrees {} "abcab" "ab" 0 true true true :=
  have hs : "abcab".length < OfText.sizeLimit := by decide
  ⟨hs, search_agrees {} hs "ab"⟩

end Chronicle.Method
