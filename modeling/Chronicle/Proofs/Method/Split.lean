import Chronicle.Proofs.Method.Call
import Chronicle.Proofs.Text.Search
import Chronicle.Proofs.Value.Spared

/-!
# Splitting and joining

`split` makes a sequence of the pieces of a text (`call_split`), and `join` puts the texts of a
sequence together with a separator between them (`call_join`).  The separator has the same text
before and after the new sequence was made, so joining the pieces by the separator that split them
gives the text again (`split_join`).
-/

set_option autoImplicit false

namespace Chronicle.Method

open Text

variable {h : Heap} {v : Value} {t : String}

/-- The text that a value separates by: none for `undefined`. -/
def separator? (v : Value) (t : String) : Option String :=
  match v with
  | .undefined => none
  | _ => some t

/-! ## Pieces of a text -/

theorem pieces_of_ne (s : String) (ht : t ≠ "") :
    OfText.pieces s (some t) = (splitOn t.toList s.toList).map String.ofList := by
  unfold OfText.pieces
  dsimp only
  rw [if_neg (by simpa using ht)]

/-- With the separator between them, the pieces are the text again. -/
theorem join_pieces (s t : String) : Text.join t (OfText.pieces s (some t)) = s := by
  apply String.toList_inj.1
  rw [join_eq_intercalate, String.toList_intercalate]
  by_cases ht : t = ""
  · subst ht
    simpa [OfText.pieces, Function.comp_def] using intercalate_singletons s.toList
  · have htl : t.toList ≠ [] := by simpa using ht
    rw [pieces_of_ne s ht, List.map_map]
    simpa [Function.comp_def] using intercalate_splitOn htl s.toList

/-! ## Calls -/

theorem call_split (ht : h.text v = .ok t) (s : String) (location : Option Location) :
    call h (.text s) "split" [v] location =
      .ok (h.newSequence ((OfText.pieces s (separator? v t)).map .text)) := by
  refine call_of_find? ?_ location
  show some (OfText.split.apply h s [v]) = _
  cases v with
  | undefined => rfl
  | number _ | text _ | boolean _ | null | sequence _ | record _ =>
    simp only [OfText.apply, argument, List.getD_cons_zero, ht]
    rfl

theorem mapM_texts (h : Heap) (parts : List String) :
    (parts.map Value.text).mapM (fun v => if v.isNullish then .ok "" else h.text v) =
      .ok parts := by
  induction parts with
  | nil => rfl
  | cons s parts ih =>
    rw [List.map_cons, List.mapM_cons, ih]
    rfl

theorem call_join {a : Address} {parts : List String} (ht : h.text v = .ok t)
    (ha : h.items a = parts.map .text) (location : Option Location) :
    call h (.sequence a) "join" [v] location =
      .ok (.text (Text.join ((separator? v t).getD ",") parts), h) := by
  refine call_of_find? ?_ location
  show some (OfSequence.join.apply h a [v]) = _
  unfold OfSequence.apply OfSequence.joined
  rw [ha]
  cases v with
  | undefined =>
    simp only [argument, List.getD_cons_zero, mapM_texts]
    rfl
  | number _ | text _ | boolean _ | null | sequence _ | record _ =>
    simp only [argument, List.getD_cons_zero, ht, mapM_texts]
    rfl

/-! ## Splitting, then joining -/

theorem separator?_of_ne (hv : v ≠ .undefined) (t : String) : separator? v t = some t := by
  cases v with
  | undefined => exact absurd rfl hv
  | _ => rfl

theorem join_separated (v : Value) (s t : String) :
    Text.join ((separator? v t).getD ",") (OfText.pieces s (separator? v t)) = s := by
  cases v with
  | undefined => rfl
  | _ => exact join_pieces s t

/-- Joining by the value that a text was split by gives the text again.  Where the value separates
by a text that is not empty, no piece holds that text, and there is one piece more than leftmost
occurrences of it.  The value is closed, as all values of a run are: it does not hold the sequence
that splitting makes. -/
theorem split_join (hclosed : h.Closed v) (ht : h.text v = .ok t) (s : String)
    (location : Option Location) :
    ∃ (a : Address) (h' : Heap) (pieces : List String),
      call h (.text s) "split" [v] location = .ok (.sequence a, h') ∧
      h'.items a = pieces.map Value.text ∧
      call h' (.sequence a) "join" [v] location = .ok (.text s, h') ∧
      (t ≠ "" → v ≠ .undefined →
        (∀ piece ∈ pieces, ¬ t.toList <:+: piece.toList) ∧
        ∃ positions, (∀ ps, Leftmost t.toList s.toList ps ↔ ps = positions) ∧
          pieces.length = positions.length + 1) := by
  let pieces := OfText.pieces s (separator? v t)
  have hitems := Heap.items_newSequence_size h (pieces.map .text)
  have ht' : (h.newSequence (pieces.map .text)).2.text v = .ok t :=
    ((Heap.extends_newSequence h _).spares hclosed).text_eq_ok ht
  have hjoin := call_join ht' hitems location
  rw [join_separated] at hjoin
  refine ⟨_, _, pieces, call_split ht s location, hitems, hjoin, fun htext hv => ?_⟩
  have hpieces : pieces = (splitOn t.toList s.toList).map String.ofList := by
    rw [← pieces_of_ne s htext, ← separator?_of_ne hv t]
  have htl : t.toList ≠ [] := by simpa using htext
  obtain ⟨positions, hpositions, hlength⟩ := splitOn_leftmost htl s.toList
  refine ⟨fun piece hpiece => ?_, positions, fun ps => ⟨fun hps => ?_, ?_⟩, ?_⟩
  · rw [hpieces] at hpiece
    obtain ⟨cs, hcs, rfl⟩ := List.mem_map.1 hpiece
    rw [String.toList_ofList]
    exact not_infix_of_mem_splitOn htl s.toList cs hcs
  · exact hps.unique htl hpositions
  · rintro rfl
    exact hpositions
  · rw [hpieces, List.length_map, hlength]

/-- A heap with one sequence, whose text `a,a` overlaps itself. -/
def overlapping : Heap where
  sequences := #[[.text "a", .text "a"]]

/-- The text `a,a,a,b` split by a sequence. -/
theorem split_join_overlapping :
    (overlapping.Closed (.sequence 0) ∧ overlapping.text (.sequence 0) = .ok "a,a") ∧
    ∃ (a : Address) (h' : Heap) (pieces : List String),
      call overlapping (.text "a,a,a,b") "split" [.sequence 0] none = .ok (.sequence a, h') ∧
      h'.items a = pieces.map Value.text ∧
      call h' (.sequence a) "join" [.sequence 0] none = .ok (.text "a,a,a,b", h') ∧
      (∀ piece ∈ pieces, ¬ "a,a".toList <:+: piece.toList) ∧ pieces.length = 2 := by
  have hclosed : overlapping.Closed (.sequence 0) := by
    refine (Heap.normal_sequence (by decide) fun v hv => ?_).closed
    obtain rfl : v = .text "a" := by simpa [overlapping, Heap.items] using hv
    exact Heap.normal_text "a"
  have ht : overlapping.text (.sequence 0) = .ok "a,a" := rfl
  obtain ⟨a, h', pieces, hsplit, hitems, hjoin, hpieces⟩ := split_join hclosed ht "a,a,a,b" none
  obtain ⟨hnone, positions, hpositions, hlength⟩ := hpieces (by decide) (by simp)
  have hleftmost : Leftmost "a,a".toList "a,a,a,b".toList [0] := by
    refine ⟨by decide, by decide, fun q hq => ?_⟩
    have hmeets : ∀ q < 5, "a,a".toList <+: "a,a,a,b".toList.drop q →
        ∃ p ∈ [0], p ≤ q ∧ q < p + "a,a".toList.length := by decide
    have hle : 3 ≤ 7 - q := by simpa using hq.length_le
    exact hmeets q (by omega) hq
  rw [← (hpositions [0]).1 hleftmost] at hlength
  exact ⟨⟨hclosed, ht⟩, a, h', pieces, hsplit, hitems, hjoin, hnone, hlength⟩

end Chronicle.Method
