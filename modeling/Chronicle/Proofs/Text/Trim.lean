import Mathlib.Data.List.DropRight
import Chronicle.Text.Blank

/-!
# Trimmed texts

`trimEnds` drops the characters of a class at both ends of a text.  What it drops is of the class
(`dropWhile_eq_trimEnds`), what it leaves does not end in it (`exists_of_trimEnds`), and a text that
neither starts nor ends in the class is what it leaves (`trimEnds_between`).
-/

set_option autoImplicit false

namespace Chronicle

open Text

section
variable {p : Char → Bool}

/-- Without what stands before it, a text is its trimmed part and what stands after that. -/
theorem dropWhile_eq_trimEnds (p : Char → Bool) (cs : List Char) :
    ∃ after, cs.dropWhile p = trimEnds p cs ++ after ∧ ∀ c ∈ after, p c = true := by
  refine ⟨((cs.dropWhile p).reverse.takeWhile p).reverse, ?_, fun c hc => ?_⟩
  · rw [trimEnds, ← List.reverse_append, List.takeWhile_append_dropWhile, List.reverse_reverse]
  · exact List.mem_takeWhile_imp (List.mem_reverse.1 hc)

/-- A trimmed text ends in a character of another class. -/
theorem exists_of_trimEnds {cs ys zs : List Char} (h : trimEnds p cs = ys ++ zs) (hzs : zs ≠ []) :
    ∃ c ∈ zs, p c = false := by
  have hreverse : (cs.dropWhile p).reverse.dropWhile p = zs.reverse ++ ys.reverse := by
    rw [← List.reverse_append, ← h, trimEnds, List.reverse_reverse]
  obtain ⟨c, rest, hc⟩ := List.exists_cons_of_ne_nil (mt List.reverse_eq_nil_iff.1 hzs)
  have hhead := List.head?_dropWhile_not p (cs.dropWhile p).reverse
  rw [hreverse, hc] at hhead
  exact ⟨c, List.mem_reverse.1 (hc ▸ List.mem_cons_self), by simpa using hhead⟩

theorem mem_of_mem_trimEnds {cs : List Char} {c : Char} (h : c ∈ trimEnds p cs) : c ∈ cs := by
  have hdrop := (List.dropWhile_sublist p).subset (List.mem_reverse.1 h)
  exact (List.dropWhile_sublist p).subset (List.mem_reverse.1 hdrop)

/-- What is dropped before a text that starts in another class stands before it. -/
theorem dropWhile_append_of_head {xs rest : List Char} (h : ∀ c ∈ rest.head?, p c = false) :
    (xs ++ rest).dropWhile p = xs.dropWhile p ++ rest := by
  rw [List.dropWhile_append]
  split
  · rename_i hnil
    rw [List.isEmpty_iff.1 hnil, List.nil_append]
    cases rest with
    | nil => rfl
    | cons c rest => exact List.dropWhile_cons_of_neg (by simp [h c rfl])
  · rfl

theorem dropWhile_append_eq {xs rest : List Char} (hxs : ∀ c ∈ xs, p c = true)
    (h : ∀ c ∈ rest.head?, p c = false) : (xs ++ rest).dropWhile p = rest := by
  rw [dropWhile_append_of_head h, List.dropWhile_eq_nil_iff.2 hxs, List.nil_append]

/-- Between characters of a class, what neither starts nor ends in the class is left by trimming. -/
theorem trimEnds_between {before cs after : List Char} (hbefore : ∀ c ∈ before, p c = true)
    (hafter : ∀ c ∈ after, p c = true) (hnil : cs ≠ []) (hstarts : ∀ c ∈ cs.head?, p c = false)
    (hends : ∀ c ∈ cs.getLast?, p c = false) : trimEnds p (before ++ cs ++ after) = cs := by
  have hfront : (before ++ cs ++ after).dropWhile p = cs ++ after := by
    rw [List.append_assoc]
    refine dropWhile_append_eq hbefore ?_
    rwa [List.head?_append_of_ne_nil cs hnil]
  have hback : (after.reverse ++ cs.reverse).dropWhile p = cs.reverse := by
    refine dropWhile_append_eq (fun c hc => hafter c (List.mem_reverse.1 hc)) ?_
    rwa [List.head?_reverse]
  rw [trimEnds, hfront, List.reverse_append, hback, List.reverse_reverse]

end

end Chronicle
