import Chronicle.Evaluation.Property
import Chronicle.Method.Call
import Chronicle.Proofs.Value.Spared

/-!
# What methods and properties store

A method of a sequence may store to it; a method of anything else stores to no cell that was there
(`call_stores`).  A write to a property stores to its receiver (`grows_setProperty`).
-/

set_option autoImplicit false

namespace Chronicle

variable {h h' : Heap} {v : Value}

/-! ## Methods -/

/-- A method that only reads leaves the heap as it is. -/
theorem eq_of_read {α : Type} {e : Except Fault α} {f : α → Value}
    (he : (do return (f (← e), h) : Method.Outcome) = .ok (v, h')) : h' = h := by
  obtain ⟨a, -, he⟩ := bind_eq_ok he
  cases he
  rfl

theorem extends_of_read {α : Type} {e : Except Fault α} {f : α → Value}
    (he : (do return (f (← e), h) : Method.Outcome) = .ok (v, h')) : h.Extends h' :=
  eq_of_read he ▸ .refl h

theorem grows_ofSequence {a : Address} {args : List Value} {m : Method.OfSequence}
    (he : Method.OfSequence.apply h a args m = .ok (v, h')) : h.Grows h' := by
  cases m with
  | push | pop | shift | unshift | reverse =>
    cases he
    exact h.grows_setItems _ _
  | indexOf | includes =>
    cases he
    exact .refl h
  | join => exact (extends_of_read he).grows
  | concat =>
    cases he
    exact (h.extends_newSequence _).grows
  | slice =>
    obtain ⟨items, -, he⟩ := bind_eq_ok he
    cases he
    exact (h.extends_newSequence _).grows

theorem extends_ofText {s : String} {args : List Value} {m : Method.OfText}
    (he : Method.OfText.apply h s args m = .ok (v, h')) : h.Extends h' := by
  cases m with
  | toUpperCase | toLowerCase | trim =>
    cases he
    exact .refl h
  | indexOf | includes | concat | slice | startsWith | endsWith => exact extends_of_read he
  | charAt | replicate =>
    simp only [Method.OfText.apply] at he
    obtain ⟨n, -, he⟩ := bind_eq_ok he
    exact extends_of_read he
  | split =>
    simp only [Method.OfText.apply] at he
    split at he
    · cases he
      exact h.extends_newSequence _
    · obtain ⟨t, -, he⟩ := bind_eq_ok he
      cases he
      exact h.extends_newSequence _

theorem extends_ofNumber {n : Number} {args : List Value} {m : Method.OfNumber}
    (he : Method.OfNumber.apply h n args m = .ok (v, h')) : h.Extends h' := by
  cases m with
  | toFixed =>
    simp only [Method.OfNumber.apply] at he
    obtain ⟨places, -, he⟩ := bind_eq_ok he
    exact extends_of_read he
  | toString =>
    simp only [Method.OfNumber.apply] at he
    split at he
    · exact extends_of_read he
    · obtain ⟨base, -, he⟩ := bind_eq_ok he
      exact extends_of_read he

section
variable {receiver : Value} {method : String} {args : List Value} {location : Option Location}

/-- A method call stores to a sequence that it is made on, or to new cells alone. -/
theorem call_stores (he : Method.call h receiver method args location = .ok (v, h')) :
    h.Extends h' ∨ receiver.kind = .sequence ∧ h.Grows h' := by
  unfold Method.call at he
  split at he
  · cases he
  · rename_i result hf
    cases he
    unfold Method.find? at hf
    split at hf
    · obtain ⟨m, -, hm⟩ := Option.map_eq_some_iff.1 hf
      exact .inr ⟨rfl, grows_ofSequence hm⟩
    · obtain ⟨m, -, hm⟩ := Option.map_eq_some_iff.1 hf
      exact .inl (extends_ofText hm)
    · obtain ⟨m, -, hm⟩ := Option.map_eq_some_iff.1 hf
      exact .inl (extends_ofNumber hm)
    · obtain ⟨m, -, hm⟩ := Option.map_eq_some_iff.1 hf
      cases m
      exact .inl (extends_of_read hm)
    · cases hf
  · split at he <;> cases he

theorem grows_call (he : Method.call h receiver method args location = .ok (v, h')) :
    h.Grows h' :=
  (call_stores he).elim (·.grows) (·.2)

end

/-! ## Properties -/

/-- A write to a property is a store. -/
theorem grows_setProperty {receiver key : Value} {location : Option Location}
    (he : h.setProperty receiver key v location = .ok h') : h.Grows h' := by
  unfold Heap.setProperty at he
  cases receiver with
  | record a =>
    cases ht : h.text key <;> simp only [ht] at he <;> cases he
    exact h.grows_setFields _ _
  | sequence a =>
    simp only at he
    split at he
    · cases he
    · cases ht : h.text key <;> simp only [ht] at he <;> cases he
    · split at he
      · cases he
      · cases he
        exact h.grows_setItems _ _
  | number _ | text _ | boolean _ | null | undefined =>
    cases ht : h.text key <;> simp only [ht] at he <;> cases he

end Chronicle
