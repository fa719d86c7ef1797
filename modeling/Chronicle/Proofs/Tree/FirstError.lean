import Chronicle.Proofs.Tree.Preorder
import Chronicle.Tree.FirstError

/-!
# The first malformed piece

A tree is flagged faithfully when a node says that it holds an error exactly where it or a node below
it is bad (`Tree.Flagged`).  The search for the first bad node, which goes down only where the flags
say so, then finds the first one in pre-order (`firstError?_flagged`): a node whose flag is set and
that is not bad itself has a bad node below one of its children, so it is never taken for want of
another.  Whatever the flags are, nothing is found just in case the root is neither bad nor flagged
(`firstError?_eq_none_iff`).
-/

set_option autoImplicit false

namespace Chronicle.Tree

/-- Whether the flag of a node says if there is a bad node in its tree. -/
def FlagTells (t : Tree) : Prop :=
  t.label.hasError = true ↔ ∃ bad ∈ t.preorder, bad.isBad = true

/-- Whether the flags of all nodes of a tree say if there are bad nodes. -/
def Flagged (t : Tree) : Prop :=
  ∀ s ∈ t.preorder, s.FlagTells

instance (t : Tree) : Decidable t.FlagTells :=
  inferInstanceAs (Decidable (_ ↔ _))

instance (t : Tree) : Decidable t.Flagged :=
  inferInstanceAs (Decidable (∀ s ∈ t.preorder, s.FlagTells))

theorem find?_isBad_eq_none_of_flag {l : Label} {cs : List Tree} (h : (node l cs).FlagTells)
    (hflag : l.hasError = false) : (preorderAll cs).find? isBad = none := by
  refine List.find?_eq_none.2 fun s hs hbad => ?_
  have hset : l.hasError = true := h.2 ⟨s, by rw [preorder]; exact List.mem_cons_of_mem _ hs, hbad⟩
  rw [hflag] at hset
  cases hset

theorem exists_find?_isBad_of_flag {l : Label} {cs : List Tree} (h : (node l cs).FlagTells)
    (hbad : (node l cs).isBad = false) (hflag : l.hasError = true) :
    ∃ bad, (preorderAll cs).find? isBad = some bad := by
  obtain ⟨bad, hmem, hfound⟩ := h.1 hflag
  rw [preorder] at hmem
  rcases List.mem_cons.1 hmem with rfl | hmem
  · rw [hbad] at hfound
    cases hfound
  · exact Option.isSome_iff_exists.1 (List.find?_isSome.2 ⟨bad, hmem, hfound⟩)

mutual

/-- With faithful flags, the search finds the first bad node in pre-order. -/
theorem firstError?_eq_find? : ∀ {t : Tree}, t.Flagged → t.firstError? = t.preorder.find? isBad
  | .node l cs, h => by
    have hself : (node l cs).FlagTells := h _ (self_mem_preorder _)
    have hbelow : ∀ s ∈ preorderAll cs, s.FlagTells := fun s hs =>
      h s (by rw [preorder]; exact List.mem_cons_of_mem _ hs)
    rw [firstError?, preorder, List.find?_cons]
    cases hbad : (node l cs).isBad with
    | true => rfl
    | false =>
      cases hflag : l.hasError with
      | false => exact (find?_isBad_eq_none_of_flag hself hflag).symm
      | true =>
        obtain ⟨bad, hfind⟩ := exists_find?_isBad_of_flag hself hbad hflag
        rw [firstErrorIn?_eq_find? hbelow, hfind]
        rfl

theorem firstErrorIn?_eq_find? : ∀ {ts : List Tree}, (∀ s ∈ preorderAll ts, s.FlagTells) →
    firstErrorIn? ts = (preorderAll ts).find? isBad
  | [], _ => by rw [firstErrorIn?, preorderAll, List.find?_nil]
  | t :: ts, h => by
    rw [preorderAll] at h
    obtain ⟨hfirst, hrest⟩ := List.forall_mem_append.1 h
    rw [firstErrorIn?, preorderAll, List.find?_append, firstError?_eq_find? hfirst,
      firstErrorIn?_eq_find? hrest]
    cases t.preorder.find? isBad <;> rfl

end

/-- Whatever the flags are, they decide only about the root. -/
theorem firstError?_eq_none_iff : ∀ t : Tree,
    t.firstError? = none ↔ t.isBad = false ∧ t.label.hasError = false
  | .node l cs => by
    rw [firstError?, label]
    cases (node l cs).isBad <;> cases l.hasError <;> simp

/-- The failure that names a bad node. -/
def malformedAt (bad : Tree) : Failure :=
  .malformed (if bad.label.isMissing then "missing " ++ bad.label.kind else "syntax error")
    bad.label.location

theorem wellFormed_eq (t : Tree) :
    t.wellFormed = match t.firstError? with
      | none => .ok t
      | some bad => .error (malformedAt bad) :=
  rfl

/-- With faithful flags, the search finds nothing just in case no node is bad, and otherwise the first
bad node in pre-order; so exactly the trees without bad nodes are accepted, and what is refused is
refused at that node.  With any flags, nothing is found just in case the root is neither bad nor
flagged. -/
theorem firstError?_first (t : Tree) :
    (t.Flagged →
      (t.firstError? = none ↔ ∀ s ∈ t.preorder, s.isBad = false) ∧
      (t.wellFormed = .ok t ↔ ∀ s ∈ t.preorder, s.isBad = false) ∧
      ∀ before bad after, t.preorder = before ++ bad :: after →
        (∀ s ∈ before, s.isBad = false) → bad.isBad = true →
        t.firstError? = some bad ∧ t.wellFormed = .error (malformedAt bad)) ∧
    (t.firstError? = none ↔ t.isBad = false ∧ t.label.hasError = false) := by
  refine ⟨fun h => ?_, firstError?_eq_none_iff t⟩
  have hnone : t.firstError? = none ↔ ∀ s ∈ t.preorder, s.isBad = false := by
    rw [firstError?_eq_find? h, List.find?_eq_none]
    simp only [Bool.not_eq_true]
  have haccepted : t.wellFormed = .ok t ↔ t.firstError? = none := by
    rw [wellFormed_eq]
    cases t.firstError? <;> simp
  refine ⟨hnone, haccepted.trans hnone, fun before bad after hsplit hbefore hbad => ?_⟩
  have hfound : t.firstError? = some bad := by
    rw [firstError?_eq_find? h, List.find?_eq_some_iff_append]
    exact ⟨hbad, before, after, hsplit, fun s hs => by simp [hbefore s hs]⟩
  exact ⟨hfound, by rw [wellFormed_eq, hfound]⟩

/-- A semicolon that the source `a` lacks. -/
def missingSemicolon : Tree :=
  .node { kind := ";", isNamed := false, start := ⟨1, 0, 1⟩, stop := ⟨1, 0, 1⟩,
          isMissing := true, hasError := true } []

/-- A statement without its semicolon, between a statement and a piece that could not be read. -/
def brokenTree : Tree :=
  .node { kind := "program", hasError := true } [
    .node { kind := "empty_statement" } [],
    .node { kind := "expression_statement", hasError := true } [
      .node { kind := "identifier" } [], missingSemicolon],
    .node { kind := "ERROR", hasError := true } []]

theorem firstError?_first_missing :
    brokenTree.Flagged ∧ brokenTree.firstError? = some missingSemicolon ∧
      brokenTree.wellFormed = .error (.malformed "missing ;" ⟨1, 1, 1, 1⟩) := by
  have hflagged : brokenTree.Flagged := by decide
  have hbefore : ∀ s ∈ brokenTree.preorder.take 4, s.isBad = false := by decide
  obtain ⟨-, -, hfirst⟩ := (firstError?_first brokenTree).1 hflagged
  exact ⟨hflagged, hfirst _ missingSemicolon (brokenTree.preorder.drop 5) rfl hbefore rfl⟩

end Chronicle.Tree
