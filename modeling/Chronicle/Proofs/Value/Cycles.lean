import Chronicle.Proofs.Value.Faults
import Chronicle.Proofs.Value.Normal
import Mathlib.Data.Fintype.Card
import Mathlib.Order.WellFounded

/-!
# Values that contain themselves

The text of a value is made of those of its elements, so it is endless where a sequence is an element
of itself, at whatever depth: an element needs fewer levels than its sequence (`acyclic_of_text`).
Where none is, the text faults only as the numbers in it do (`text_raises_of_acyclic`): the sequences
of a heap are finitely many, so that going from a sequence to its elements comes to an end.
-/

set_option autoImplicit false

namespace Chronicle

namespace Heap

variable (h : Heap)

/-- `u` is an element of the sequence `v`. -/
def IsElement (u v : Value) : Prop :=
  ∃ a, v = .sequence a ∧ u ∈ h.items a

/-- Neither the value nor an element of it, at any depth of sequences, contains itself. -/
def Acyclic (v : Value) : Prop :=
  ∀ u, Relation.ReflTransGen h.IsElement u v → ¬ Relation.TransGen h.IsElement u u

/-- Elements at any depth are held. -/
theorem holds_of_reflTransGen {u v : Value} (hu : Relation.ReflTransGen h.IsElement u v) :
    h.Holds v u := by
  induction hu with
  | refl => exact .self u
  | tail _ hstep ih =>
    obtain ⟨a, rfl, hmem⟩ := hstep
    exact .item hmem ih

/-! ## Values with a text -/

/-- A value whose text is found within `k` levels. -/
def TextWithin (k : Nat) (v : Value) : Prop :=
  ∃ s, h.textWithin k v = .ok s

/-- The text of an element needs fewer levels than that of its sequence. -/
theorem TextWithin.element {k : Nat} {u v : Value} (hv : h.TextWithin k v)
    (hu : h.IsElement u v) : ∃ j < k, h.TextWithin j u := by
  obtain ⟨a, rfl, hmem⟩ := hu
  obtain ⟨s, hs⟩ := hv
  cases k with
  | zero => cases hs
  | succ k =>
    refine ⟨k, Nat.lt_succ_self k, ?_⟩
    rw [textWithin_sequence] at hs
    cases hparts : (h.items a).mapM (h.elementText k) with
    | error f =>
      rw [hparts] at hs
      cases hs
    | ok parts =>
      obtain ⟨t, ht⟩ := exists_of_mapM_eq_ok hparts u hmem
      cases u with
      | null => exact ⟨"null", by cases k <;> rfl⟩
      | undefined => exact ⟨"undefined", by cases k <;> rfl⟩
      | _ => exact ⟨t, ht⟩

theorem TextWithin.elements {k : Nat} {u v : Value} (hv : h.TextWithin k v)
    (hu : Relation.TransGen h.IsElement u v) : ∃ j < k, h.TextWithin j u := by
  induction hu using Relation.TransGen.head_induction_on with
  | single hstep => exact hv.element h hstep
  | head hstep _ ih =>
    obtain ⟨j, hj, hw⟩ := ih
    obtain ⟨i, hi, hu⟩ := hw.element h hstep
    exact ⟨i, Nat.lt_trans hi hj, hu⟩

/-- A value that has a text within some level is no element of itself, at any depth. -/
theorem TextWithin.not_cyclic {k : Nat} {u : Value} (hu : h.TextWithin k u) :
    ¬ Relation.TransGen h.IsElement u u := by
  induction k using Nat.strong_induction_on with
  | _ k ih =>
    intro hcycle
    obtain ⟨j, hj, hu'⟩ := hu.elements h hcycle
    exact ih j hj hu' hcycle

/-- A value that has a text does not contain itself. -/
theorem acyclic_of_text {v : Value} {s : String} (hs : h.text v = .ok s) : h.Acyclic v := by
  have hv : h.TextWithin h.depth v := ⟨s, hs⟩
  intro u hu
  rcases Relation.reflTransGen_iff_eq_or_transGen.1 hu with rfl | hu
  · exact hv.not_cyclic h
  · obtain ⟨j, -, hj⟩ := hv.elements h hu
    exact hj.not_cyclic h

/-- The text of a sequence faults as those of its elements do. -/
theorem text_raises_of_elements {p : Fault → Prop} {a : Address}
    (helements : ∀ u ∈ h.items a, Raises p (h.text u)) : Raises p (h.text (.sequence a)) := by
  rw [← h.textWithin_eq_text (Nat.le_succ h.depth), textWithin_sequence]
  refine Raises.map (.mapM fun u hu => ?_) _
  exact .ite (fun _ => .ok _) fun _ => helements u hu

/-- A value that does not contain itself has a text, unless a number in it has none. -/
theorem text_raises_of_acyclic {p : Fault → Prop} {v : Value} (hv : h.Acyclic v)
    (hnumbers : ∀ n, h.Holds v (.number n) → Raises p n.text) : Raises p (h.text v) := by
  -- the sequences at or below `v` are finitely many, so that "is inside of" is well-founded there
  let Below := { a : Fin h.sequences.size // Relation.ReflTransGen h.IsElement (.sequence a) v }
  let r (x y : Below) : Prop := Relation.TransGen h.IsElement (.sequence x.1) (.sequence y.1)
  have htrans : IsTrans Below r := ⟨fun _ _ _ => Relation.TransGen.trans⟩
  have hirrefl : Std.Irrefl r := ⟨fun x => hv _ x.2⟩
  have hwf : WellFounded r := Finite.wellFounded_of_trans_of_irrefl r
  have hvalue : ∀ u, Relation.ReflTransGen h.IsElement u v →
      (∀ x : Below, u = .sequence x.1 → Raises p (h.text u)) → Raises p (h.text u) := by
    intro u hu hsequence
    cases u with
    | number n => exact hnumbers n (h.holds_of_reflTransGen hu)
    | sequence a =>
      by_cases ha : a < h.sequences.size
      · exact hsequence ⟨⟨a, ha⟩, hu⟩ rfl
      · refine h.text_raises_of_elements fun u hmem => ?_
        simp [items, ha] at hmem
    | _ => exact .ok _
  have hbelow : ∀ x : Below, Raises p (h.text (.sequence x.1)) := by
    intro x
    induction x using hwf.induction with
    | _ x ih =>
      refine h.text_raises_of_elements fun u hmem => ?_
      have hstep : h.IsElement u (.sequence x.1) := ⟨x.1, rfl, hmem⟩
      refine hvalue u (.head hstep x.2) fun y hy => ?_
      subst hy
      exact ih y (.single hstep)
  exact hvalue v .refl fun x hx => hx ▸ hbelow x

end Heap

end Chronicle
