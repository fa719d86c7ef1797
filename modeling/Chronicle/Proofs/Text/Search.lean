import Mathlib.Data.List.Infix
import Mathlib.Data.List.Nodup
import Mathlib.Data.List.Pairwise
import Chronicle.Text.Search

/-!
# Searching, splitting and joining

`find?` gives the first place where the pattern stands (`find?_eq_some_iff`), and none when the
pattern is no part of the text (`find?_eq_none_iff`).

Splitting goes on after each first occurrence, so it cuts out the leftmost, non-overlapping ones
(`Leftmost`): there is one such list of positions (`Leftmost.unique`), and there is one piece more
than positions (`splitOn_leftmost`).  The pieces hold no separator (`not_infix_of_mem_splitOn`), and
with the separator between them they are the text again (`intercalate_splitOn`).
-/

set_option autoImplicit false

namespace Chronicle.Text

variable {pattern separator cs : List Char} {i : Nat}

/-! ## The first occurrence -/

/-- The pattern stands at the first occurrence and nowhere before. -/
theorem find?_eq_some_iff : find? pattern cs = some i ↔
    pattern <+: cs.drop i ∧ ∀ j < i, ¬ pattern <+: cs.drop j := by
  induction cs generalizing i with
  | nil =>
    rw [List.drop_nil, List.prefix_nil]
    cases pattern with
    | nil =>
      cases i with
      | zero => simp [find?]
      | succ i => exact iff_of_false nofun fun h => h.2 0 (Nat.succ_pos i) List.nil_prefix
    | cons c pattern => simp [find?]
  | cons c cs ih =>
    unfold find?
    by_cases hbegins : pattern <+: c :: cs
    · rw [if_pos (List.isPrefixOf_iff_prefix.2 hbegins)]
      cases i with
      | zero => simpa using hbegins
      | succ i => exact iff_of_false nofun fun h => h.2 0 (Nat.succ_pos i) hbegins
    · rw [if_neg fun h => hbegins (List.isPrefixOf_iff_prefix.1 h)]
      cases i with
      | zero => simpa using hbegins
      | succ i =>
        rw [Nat.forall_lt_succ_left]
        simp [ih, hbegins]

theorem le_length_of_find? (h : find? pattern cs = some i) : i ≤ cs.length := by
  by_contra hlt
  obtain ⟨hbegins, hbefore⟩ := find?_eq_some_iff.1 h
  -- beyond the end stands what stands at the end
  rw [List.drop_eq_nil_of_le (by omega), ← List.drop_length (l := cs)] at hbegins
  exact hbefore cs.length (by omega) hbegins

/-- A pattern that does not occur is no part of the text. -/
theorem find?_eq_none_iff : find? pattern cs = none ↔ ¬ pattern <:+: cs := by
  induction cs with
  | nil => simp [find?]
  | cons c cs ih =>
    rw [List.infix_cons_iff, not_or, ← ih, ← List.isPrefixOf_iff_prefix, find?]
    by_cases hbegins : pattern.isPrefixOf (c :: cs) = true
    · simp [hbegins]
    · simp [hbegins]

theorem contains_eq_false_iff : contains pattern cs = false ↔ find? pattern cs = none := by
  rw [contains, Option.isSome_eq_false_iff, Option.isNone_iff_eq_none]

/-- A pattern that stands at some place is part of the text. -/
theorem infix_of_prefix_drop (h : pattern <+: cs.drop i) : pattern <:+: cs :=
  h.isInfix.trans (List.drop_suffix i cs).isInfix

/-- The text is what comes before an occurrence, the pattern, and what comes after. -/
theorem take_append_drop_of_isPrefix (h : pattern <+: cs.drop i) :
    cs.take i ++ pattern ++ cs.drop (i + pattern.length) = cs := by
  obtain ⟨rest, hrest⟩ := h
  have hafter : cs.drop (i + pattern.length) = rest := by
    rw [← List.drop_drop, ← hrest, List.drop_left]
  rw [hafter, List.append_assoc, hrest, List.take_append_drop]

/-- Before its first occurrence the pattern is no part of the text. -/
theorem not_infix_take_of_find? (hpattern : pattern ≠ []) (h : find? pattern cs = some i) :
    ¬ pattern <:+: cs.take i := by
  rintro ⟨before, after, hi⟩
  have hlength := congrArg List.length hi
  have hpos := List.length_pos_iff.2 hpattern
  simp only [List.length_append, List.length_take] at hlength
  refine (find?_eq_some_iff.1 h).2 before.length (by omega) ?_
  have hcs : cs = before ++ (pattern ++ (after ++ cs.drop i)) := by
    simp only [← List.append_assoc, hi, List.take_append_drop]
  rw [hcs, List.drop_left]
  exact List.prefix_append _ _

/-! ## Leftmost occurrences -/

/-- Positions of a pattern in a text are those of its leftmost, non-overlapping occurrences: it
stands at each of them, they do not overlap, and every occurrence begins within one of them. -/
structure Leftmost (pattern cs : List Char) (positions : List Nat) : Prop where
  occurs : ∀ p ∈ positions, pattern <+: cs.drop p
  apart : positions.Pairwise fun p q => p + pattern.length ≤ q
  meets : ∀ q, pattern <+: cs.drop q → ∃ p ∈ positions, p ≤ q ∧ q < p + pattern.length

namespace Leftmost

variable {positions positions' : List Nat}

theorem of_not_isInfix (h : ¬ pattern <:+: cs) : Leftmost pattern cs [] :=
  ⟨nofun, .nil, fun _ hq => absurd (infix_of_prefix_drop hq) h⟩

/-- The first occurrence is leftmost, and after it come those of the rest. -/
theorem cons (hfind : find? pattern cs = some i)
    (h : Leftmost pattern (cs.drop (i + pattern.length)) positions) :
    Leftmost pattern cs (i :: positions.map (i + pattern.length + ·)) where
  occurs := by
    refine List.forall_mem_cons.2 ⟨(find?_eq_some_iff.1 hfind).1, fun p hp => ?_⟩
    obtain ⟨q, hq, rfl⟩ := List.mem_map.1 hp
    rw [← List.drop_drop]
    exact h.occurs q hq
  apart := by
    refine List.pairwise_cons.2 ⟨fun p hp => ?_, ?_⟩
    · obtain ⟨q, -, rfl⟩ := List.mem_map.1 hp
      exact Nat.le_add_right _ _
    · exact List.pairwise_map.2 (h.apart.imp fun hle => by omega)
  meets q hq := by
    have hfirst : i ≤ q := Nat.le_of_not_lt fun hlt => (find?_eq_some_iff.1 hfind).2 q hlt hq
    by_cases hwithin : q < i + pattern.length
    · exact ⟨i, List.mem_cons_self, hfirst, hwithin⟩
    · obtain ⟨k, rfl⟩ := Nat.exists_eq_add_of_le (Nat.le_of_not_lt hwithin)
      rw [← List.drop_drop] at hq
      obtain ⟨p, hp, hle, hlt⟩ := h.meets k hq
      exact ⟨_, List.mem_cons_of_mem _ (List.mem_map_of_mem hp), by omega, by omega⟩

/-- Of two positions the later one lies beyond the other occurrence. -/
theorem add_length_le (h : Leftmost pattern cs positions) {p q : Nat} (hp : p ∈ positions)
    (hq : q ∈ positions) (hlt : p < q) : p + pattern.length ≤ q := by
  have happart : positions.Pairwise fun p q =>
      p + pattern.length ≤ q ∨ q + pattern.length ≤ p := h.apart.imp .inl
  have hsymm : Std.Symm fun p q => p + pattern.length ≤ q ∨ q + pattern.length ≤ p :=
    ⟨fun _ _ => Or.symm⟩
  rcases happart.forall hp hq (Nat.ne_of_lt hlt) with hle | hle
  · exact hle
  · omega

theorem mem_iff (h : Leftmost pattern cs positions) (h' : Leftmost pattern cs positions')
    (p : Nat) : p ∈ positions ↔ p ∈ positions' := by
  induction p using Nat.strong_induction_on with
  | _ p ih =>
    -- an occurrence that one list holds begins within one of the other, which is no earlier one
    constructor
    · intro hp
      obtain ⟨q, hq, hle, hlt⟩ := h'.meets p (h.occurs p hp)
      rcases Nat.eq_or_lt_of_le hle with rfl | hbefore
      · exact hq
      · have := h.add_length_le ((ih q hbefore).2 hq) hp hbefore
        omega
    · intro hp
      obtain ⟨q, hq, hle, hlt⟩ := h.meets p (h'.occurs p hp)
      rcases Nat.eq_or_lt_of_le hle with rfl | hbefore
      · exact hq
      · have := h'.add_length_le ((ih q hbefore).1 hq) hp hbefore
        omega

/-- A text has one list of leftmost occurrences. -/
theorem unique (hpattern : pattern ≠ []) (h : Leftmost pattern cs positions)
    (h' : Leftmost pattern cs positions') : positions = positions' := by
  have hpos := List.length_pos_iff.2 hpattern
  have hsorted : positions.Pairwise (· < ·) := h.apart.imp fun hle => by omega
  have hsorted' : positions'.Pairwise (· < ·) := h'.apart.imp fun hle => by omega
  have hperm : positions.Perm positions' :=
    (List.perm_ext_iff_of_nodup (hsorted.imp Nat.ne_of_lt) (hsorted'.imp Nat.ne_of_lt)).2
      (h.mem_iff h')
  exact hperm.eq_of_pairwise (fun p q _ _ hlt hlt' => absurd hlt' (Nat.lt_asymm hlt)) hsorted
    hsorted'

end Leftmost

/-! ## Pieces -/

theorem splitOn_of_not_isInfix (h : ¬ separator <:+: cs) : splitOn separator cs = [cs] := by
  unfold splitOn
  rw [find?_eq_none_iff.2 h]
  split <;> rfl

theorem splitOn_of_find? (hseparator : separator ≠ []) (h : find? separator cs = some i) :
    splitOn separator cs = cs.take i :: splitOn separator (cs.drop (i + separator.length)) := by
  have hcs : cs ≠ [] := by
    rintro rfl
    simpa [hseparator] using (find?_eq_some_iff.1 h).1
  rw [splitOn, dif_pos ⟨List.length_pos_iff.2 hseparator, List.length_pos_iff.2 hcs⟩, h]

theorem splitOn_ne_nil (separator cs : List Char) : splitOn separator cs ≠ [] := by
  fun_cases splitOn separator cs <;> simp

/-- Splitting follows a text from one occurrence of the separator to the next. -/
theorem splitOn_induction {p : List Char → Prop} (hseparator : separator ≠ [])
    (last : ∀ cs, ¬ separator <:+: cs → p cs)
    (next : ∀ cs i, find? separator cs = some i → p (cs.drop (i + separator.length)) → p cs)
    (cs : List Char) : p cs := by
  induction hn : cs.length using Nat.strong_induction_on generalizing cs with
  | _ n ih =>
    cases hfind : find? separator cs with
    | none => exact last cs (find?_eq_none_iff.1 hfind)
    | some i =>
      have hbegins := ((find?_eq_some_iff.1 hfind).1).length_le
      have hpos := List.length_pos_iff.2 hseparator
      rw [List.length_drop] at hbegins
      exact next cs i hfind (ih _ (by rw [List.length_drop]; omega) _ rfl)

/-- With the separator between them, the pieces are the text again. -/
theorem intercalate_splitOn (hseparator : separator ≠ []) (cs : List Char) :
    separator.intercalate (splitOn separator cs) = cs := by
  induction cs using splitOn_induction hseparator with
  | last cs hnone => rw [splitOn_of_not_isInfix hnone, List.intercalate_singleton]
  | next cs i hfind ih =>
    rw [splitOn_of_find? hseparator hfind, List.intercalate_cons_of_ne_nil (splitOn_ne_nil _ _), ih,
      take_append_drop_of_isPrefix (find?_eq_some_iff.1 hfind).1]

/-- No piece holds the separator. -/
theorem not_infix_of_mem_splitOn (hseparator : separator ≠ []) (cs : List Char) :
    ∀ piece ∈ splitOn separator cs, ¬ separator <:+: piece := by
  induction cs using splitOn_induction hseparator with
  | last cs hnone =>
    rw [splitOn_of_not_isInfix hnone]
    exact List.forall_mem_singleton.2 hnone
  | next cs i hfind ih =>
    rw [splitOn_of_find? hseparator hfind]
    exact List.forall_mem_cons.2 ⟨not_infix_take_of_find? hseparator hfind, ih⟩

/-- There is one piece more than leftmost occurrences of the separator. -/
theorem splitOn_leftmost (hseparator : separator ≠ []) (cs : List Char) :
    ∃ positions, Leftmost separator cs positions ∧
      (splitOn separator cs).length = positions.length + 1 := by
  induction cs using splitOn_induction hseparator with
  | last cs hnone =>
    exact ⟨[], .of_not_isInfix hnone, by rw [splitOn_of_not_isInfix hnone]; rfl⟩
  | next cs i hfind ih =>
    obtain ⟨positions, hpositions, hlength⟩ := ih
    refine ⟨_, .cons hfind hpositions, ?_⟩
    rw [splitOn_of_find? hseparator hfind, List.length_cons, List.length_cons, List.length_map,
      hlength]

/-! ## Joining -/

theorem intercalate_singletons {α : Type} (xs : List α) : [].intercalate (xs.map ([·])) = xs := by
  induction xs with
  | nil => rfl
  | cons x xs ih =>
    cases xs with
    | nil => rfl
    | cons y xs =>
      rw [List.map_cons, List.intercalate_cons_of_ne_nil (by simp), ih]
      rfl

theorem joinFrom_eq_intercalate (separator start : String) (parts : List String) :
    joinFrom separator start parts = separator.intercalate (start :: parts) := by
  induction parts generalizing start with
  | nil => exact String.intercalate_singleton.symm
  | cons s rest ih =>
    rw [joinFrom, ih, String.intercalate_cons_append, String.intercalate_cons_cons]

theorem join_eq_intercalate (separator : String) (parts : List String) :
    join separator parts = separator.intercalate parts := by
  cases parts with
  | nil => exact String.intercalate_nil.symm
  | cons s rest => exact joinFrom_eq_intercalate separator s rest

end Chronicle.Text
