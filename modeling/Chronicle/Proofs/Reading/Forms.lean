import Chronicle.Function
import Chronicle.Proofs.Reading.Regular
import Chronicle.Proofs.Reading.Stripped

/-!
# Where names and functions are read

Reading leaves no trace of parentheses.  A piece that does not stand in parentheses is read as a
name only if it is that identifier, and as a function only if it is written as one
(`asExpression_form`): the rules for all other kinds make nodes of other forms
(`asExpression_other`).
-/

set_option autoImplicit false

namespace Chronicle

/-- A node that is neither a name nor a function. -/
structure Node.IsOther (n : Node) : Prop where
  noName : n.name? = none
  noFunction : n.isFunction = false

/-- A node that is a name or a function is written as it is, without parentheses. -/
structure Node.IsWritten (source : ByteArray) (l : Tree.Label) (n : Node) : Prop where
  name : ∀ name, n.name? = some name → l.kind = "identifier" ∧ l.text source = .ok name
  function : n.isFunction = true → l.kind ∈ ["function", "function_expression", "arrow_function"]

theorem Node.IsOther.isWritten {source : ByteArray} {l : Tree.Label} {n : Node} (h : n.IsOther) :
    n.IsWritten source l where
  name name hn := by
    rw [h.noName] at hn
    cases hn
  function hn := by
    rw [h.noFunction] at hn
    cases hn

/-- The kinds of pieces that are read as names or functions. -/
def Tree.Label.formKinds : List String :=
  ["identifier", "parenthesized_expression", "function", "function_expression", "arrow_function"]

namespace Reading

variable {source : ByteArray} {l : Tree.Label} {pieces : List Reading}

theorem unsupported_other : Yields (unsupported source l) Node.IsOther :=
  .after _ fun _ => .pure ⟨rfl, rfl⟩

theorem keyword_other : Yields (keyword source l) Node.IsOther := by
  refine .after _ fun raw => ?_
  split
  · exact .pure ⟨rfl, rfl⟩
  · exact .pure ⟨rfl, rfl⟩
  · exact .pure ⟨rfl, rfl⟩
  · exact .throw _

theorem concatenation_other {location : Location} {first : Node} (hfirst : first.IsOther) :
    ∀ parts : List Node, (parts.foldl (.binary location "+") first).IsOther
  | [] => hfirst
  | _ :: parts => concatenation_other ⟨rfl, rfl⟩ parts

theorem template_other : Yields (template source l pieces) Node.IsOther := by
  refine .after _ fun _ => .after _ fun _ => ?_
  dsimp only
  split
  · exact .pure ⟨rfl, rfl⟩
  · exact .pure (concatenation_other ⟨rfl, rfl⟩ _)

theorem unary_other : Yields (unary source l pieces) Node.IsOther := by
  unfold unary
  split
  · exact .throw _
  · exact .after _ fun _ => .after _ fun _ => .after _ fun _ => .pure ⟨rfl, rfl⟩

theorem update_other : Yields (update source l pieces) Node.IsOther := by
  unfold update
  split
  · exact .throw _
  · exact .after _ fun _ => .after _ fun _ => .after _ fun _ => .pure ⟨rfl, rfl⟩

theorem assignment_other (operator : String) :
    Yields (assignment l operator pieces) Node.IsOther :=
  .after _ fun _ => .after _ fun _ => .after _ fun _ => .after _ fun _ => .pure ⟨rfl, rfl⟩

theorem call_other : Yields (call source l pieces) Node.IsOther := by
  unfold call
  dsimp only
  split
  · exact unsupported_other
  · exact .after _ fun _ => .after _ fun _ => .after _ fun _ => .pure ⟨rfl, rfl⟩

/-- A construct of another kind is read as neither a name nor a function. -/
theorem asExpression_other (h : l.kind ∉ Tree.Label.formKinds) :
    Yields (asExpression source l pieces) Node.IsOther := by
  have hkind : ∀ kind ∈ Tree.Label.formKinds, l.kind ≠ kind := fun kind hmem he => h (he ▸ hmem)
  unfold asExpression
  split
  · exact absurd ‹_› (hkind _ (by decide))
  · exact .pure ⟨rfl, rfl⟩
  · exact .after _ fun _ => .after _ fun _ => .pure ⟨rfl, rfl⟩
  · exact .after _ fun _ => .after _ fun _ => .pure ⟨rfl, rfl⟩
  · exact template_other
  · exact keyword_other
  · exact keyword_other
  · exact keyword_other
  · exact .pure ⟨rfl, rfl⟩
  · exact absurd ‹_› (hkind _ (by decide))
  · exact .after _ fun _ => .pure ⟨rfl, rfl⟩
  · exact .after _ fun _ => .pure ⟨rfl, rfl⟩
  · exact .after _ fun _ => .after _ fun _ => .after _ fun _ => .after _ fun _ =>
      .after _ fun _ => .pure ⟨rfl, rfl⟩
  · exact unary_other
  · exact update_other
  · exact assignment_other "="
  · exact .after _ fun operator => assignment_other operator
  · exact .after _ fun _ => .after _ fun _ => .after _ fun _ => .after _ fun _ => .pure ⟨rfl, rfl⟩
  · exact .after _ fun _ => .after _ fun _ => .after _ fun _ => .after _ fun _ => .pure ⟨rfl, rfl⟩
  · exact call_other
  · exact .after _ fun _ => .after _ fun _ => .after _ fun _ => .pure ⟨rfl, rfl⟩
  · exact absurd ‹_› (hkind _ (by decide))
  · exact absurd ‹_› (hkind _ (by decide))
  · exact absurd ‹_› (hkind _ (by decide))
  · exact unsupported_other

/-- The rule for identifiers makes the name that is written. -/
theorem identifier_written (hkind : l.kind = "identifier") :
    Yields (identifier source l) (Node.IsWritten source l) := by
  intro n hn
  unfold identifier at hn
  obtain ⟨text, htext, hn⟩ := bind_eq_ok hn
  split at hn
  · cases hn
    exact Node.IsOther.isWritten ⟨rfl, rfl⟩
  · cases hn
    exact ⟨fun name h => ⟨hkind, Option.some.inj h ▸ htext⟩, nofun⟩

theorem functionExpression_form :
    Yields (functionExpression source l pieces) fun n => n.name? = none :=
  .after _ fun _ => .pure rfl

theorem arrowFunction_form : Yields (arrowFunction source l pieces) fun n => n.name? = none := by
  refine .after _ fun body => ?_
  dsimp only
  split
  · exact .after _ fun _ => .after _ fun _ => .pure rfl
  · exact .after _ fun _ => .after _ fun _ => .pure rfl

/-- Without parentheses, an expression is a name or a function only if it is written as one. -/
theorem asExpression_form (h : l.kind ≠ "parenthesized_expression") :
    Yields (asExpression source l pieces) (Node.IsWritten source l) := by
  have hfunction : l.kind ∈ ["function", "function_expression", "arrow_function"] →
      ∀ n : Node, n.name? = none → n.IsWritten source l := by
    intro hkind n hn
    refine ⟨fun name h => ?_, fun _ => hkind⟩
    rw [hn] at h
    cases h
  by_cases hform : l.kind ∈ Tree.Label.formKinds
  · simp only [Tree.Label.formKinds, List.mem_cons, List.not_mem_nil, or_false] at hform
    rcases hform with hkind | hkind | hkind | hkind | hkind
    · simp only [asExpression, hkind]
      exact identifier_written hkind
    · exact absurd hkind h
    · simp only [asExpression, hkind]
      exact fun n hn => hfunction (by simp [hkind]) n (functionExpression_form n hn)
    · simp only [asExpression, hkind]
      exact fun n hn => hfunction (by simp [hkind]) n (functionExpression_form n hn)
    · simp only [asExpression, hkind]
      exact fun n hn => hfunction (by simp [hkind]) n (arrowFunction_form n hn)
  · exact fun n hn => (asExpression_other hform n hn).isWritten

end Reading

end Chronicle
