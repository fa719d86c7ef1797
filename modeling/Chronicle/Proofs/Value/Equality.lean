import Chronicle.Value.Equality

/-!
# Equality by primitives

Loose equality goes from one coercion to the next, and which side is coerced first depends on the
kinds.  The order does not matter: values of different kinds are equal when their primitives are
(`looseEquals_eq`), where truth values count as numbers, sequences and records as their texts, and
`null` and `undefined` have none.  So loose equality is symmetric and extends strict equality
(`looseEquals_extends`).
-/

set_option autoImplicit false

namespace Chronicle

/-! ## Numbers -/

namespace Number

/-- The order of two exact values the other way round. -/
theorem Exact.compare?_swap (a b : Exact) : b.compare? a = (a.compare? b).map Ordering.swap := by
  cases a with
  | nan => cases b <;> rfl
  | infinite s =>
    cases b with
    | nan => rfl
    | infinite t => cases s <;> cases t <;> rfl
    | dyadic _ _ => cases s <;> rfl
  | dyadic m d =>
    cases b with
    | nan => rfl
    | infinite t => cases t <;> rfl
    | dyadic n e =>
      simp only [compare?, Option.map_some, Int.compare_swap]
      rw [Int.min_comm]

/-- Equality of numbers is symmetric, across integers and doubles. -/
theorem equals_comm (a b : Number) : a.equals b = b.equals a := by
  unfold equals compare?
  rw [Exact.compare?_swap b.exact a.exact]
  cases b.exact.compare? a.exact with
  | none => rfl
  | some o => cases o <;> rfl

end Number

theorem Value.strictEquals_comm (a b : Value) : a.strictEquals b = b.strictEquals a := by
  cases a with
  | number m =>
    cases b with
    | number n => exact m.equals_comm n
    | _ => rfl
  | text s | boolean s | sequence s | record s =>
    cases b with
    | text t | boolean t | sequence t | record t => first | rfl | exact Bool.beq_comm
    | _ => rfl
  | null | undefined => cases b <;> rfl

/-- Values that are strictly equal are of one kind. -/
theorem Value.kind_of_strictEquals {a b : Value} (h : a.strictEquals b = true) :
    a.kind = b.kind := by
  cases a <;> cases b <;> first | rfl | cases h

/-! ## Primitives -/

/-- What loose equality compares when kinds differ. -/
inductive Primitive where
  | number (value : Number)
  | text (value : String)

/-- A primitive as a value. -/
def Primitive.value : Primitive → Value
  | .number n => .number n
  | .text s => .text s

/-- Equality of primitives: a number meets a text as numbers. -/
def Primitive.equals : Primitive → Primitive → Bool
  | .number m, .number n => m.equals n
  | .number m, .text t => m.normalize.equals (Number.ofText t)
  | .text s, .number n => (Number.ofText s).equals n.normalize
  | .text s, .text t => s == t

theorem Primitive.equals_comm (p q : Primitive) : p.equals q = q.equals p := by
  cases p <;> cases q <;> first | exact Number.equals_comm _ _ | exact Bool.beq_comm

/-- Sequences and records are compared as their texts. -/
def Value.isReference : Value → Bool
  | .sequence _ | .record _ => true
  | _ => false

namespace Heap

variable (h : Heap)

/-- The primitive of a value, if it has one.  The text of a sequence can fault. -/
def primitive? : Value → Option (Except Fault Primitive)
  | .number n => some (.ok (.number n))
  | .boolean b => some (.ok (.number (Number.ofBool b)))
  | .text s => some (.ok (.text s))
  | .sequence a => some ((h.text (.sequence a)).map .text)
  | .record a => some ((h.text (.record a)).map .text)
  | .null | .undefined => none

/-- Equality of values by their primitives: values without one equal each other only. -/
def equalByPrimitives (a b : Value) : Except Fault Bool :=
  match h.primitive? a, h.primitive? b with
  | some p?, some q? => do
    let p ← p?
    q?.map p.equals
  | p?, q? => .ok (p?.isNone && q?.isNone)

theorem isNone_primitive? (v : Value) : (h.primitive? v).isNone = v.isNullish := by
  cases v <;> rfl

theorem primitive?_of_isReference {v : Value} (hv : v.isReference = true) :
    h.primitive? v = some ((h.text v).map .text) := by
  cases v <;> first | rfl | cases hv

/-! ## Single coercions -/

section
variable {a b : Value}

theorem looseEquals_of_kind_eq (hkind : a.kind = b.kind) :
    h.looseEquals a b = .ok (a.strictEquals b) := by
  rw [looseEquals.eq_def, if_pos (beq_iff_eq.2 hkind)]

theorem looseEquals_of_isNullish (hkind : a.kind ≠ b.kind)
    (hnull : (a.isNullish || b.isNullish) = true) :
    h.looseEquals a b = .ok (a.isNullish && b.isNullish) := by
  rw [looseEquals.eq_def, if_neg (by simpa using hkind), if_pos hnull]

theorem looseEquals_boolean_left (x : Bool) (hb : b.kind ≠ .boolean) (hnull : b.isNullish = false) :
    h.looseEquals (.boolean x) b = h.looseEquals (.number (Number.ofBool x)) b := by
  rw [looseEquals.eq_def]
  cases b <;> first | rfl | exact absurd rfl hb | cases hnull

theorem looseEquals_boolean_right (y : Bool) (ha : a.kind ≠ .boolean) (hnull : a.isNullish = false) :
    h.looseEquals a (.boolean y) = h.looseEquals a (.number (Number.ofBool y)) := by
  rw [looseEquals.eq_def]
  cases a <;> first | rfl | exact absurd rfl ha | cases hnull

theorem looseEquals_reference_left (ha : a.isReference = true) (hkind : a.kind ≠ b.kind)
    (hb : b.kind ≠ .boolean) (hnull : b.isNullish = false) :
    h.looseEquals a b = h.text a >>= fun s => h.looseEquals (.text s) b := by
  have hnull' : (a.isNullish || b.isNullish) = false := by
    cases a <;> first | exact hnull | cases ha
  rw [looseEquals.eq_def, if_neg (by simpa using hkind), if_neg (by simp [hnull'])]
  cases a with
  | sequence r | record r =>
    cases htext : h.text _ <;> cases b <;>
      first | exact absurd rfl hkind | exact absurd rfl hb | (simp only [htext]; rfl)
  | _ => cases ha

theorem looseEquals_reference_right (p : Primitive) (hb : b.isReference = true) :
    h.looseEquals p.value b = h.text b >>= fun t => h.looseEquals p.value (.text t) := by
  rw [looseEquals.eq_def]
  cases b with
  | sequence r | record r =>
    cases htext : h.text _ <;> cases p <;> simp only [Primitive.value, htext] <;> rfl
  | _ => cases hb

end

/-- Primitives as values are compared as they are. -/
theorem looseEquals_value (p q : Primitive) :
    h.looseEquals p.value q.value = .ok (p.equals q) := by
  cases p <;> cases q <;>
    simp [looseEquals, Primitive.value, Primitive.equals, Value.kind, Value.isNullish,
      Value.strictEquals]

/-- A primitive on the left leaves the right operand to be brought to its own. -/
theorem looseEquals_value_left (p : Primitive) {b : Value} {q? : Except Fault Primitive}
    (hb : h.primitive? b = some q?) : h.looseEquals p.value b = q?.map p.equals := by
  cases b with
  | number n =>
    cases hb
    exact h.looseEquals_value p (.number n)
  | text t =>
    cases hb
    exact h.looseEquals_value p (.text t)
  | boolean y =>
    cases hb
    rw [h.looseEquals_boolean_right y (by cases p <;> nofun) (by cases p <;> rfl)]
    exact h.looseEquals_value p (.number (Number.ofBool y))
  | sequence r | record r =>
    rw [primitive?_of_isReference _ rfl] at hb
    cases hb
    rw [looseEquals_reference_right _ _ rfl]
    cases h.text _ with
    | ok t => exact h.looseEquals_value p (.text t)
    | error f => rfl
  | null | undefined => cases hb

/-- A primitive on the right leaves the left operand to be brought to its own. -/
theorem looseEquals_value_right (q : Primitive) {a : Value} {p? : Except Fault Primitive}
    (ha : h.primitive? a = some p?) : h.looseEquals a q.value = p?.map fun p => p.equals q := by
  have hbool : q.value.kind ≠ .boolean := by cases q <;> nofun
  have hnull : q.value.isNullish = false := by cases q <;> rfl
  cases a with
  | number n =>
    cases ha
    exact h.looseEquals_value (.number n) q
  | text s =>
    cases ha
    exact h.looseEquals_value (.text s) q
  | boolean x =>
    cases ha
    rw [h.looseEquals_boolean_left x hbool hnull]
    exact h.looseEquals_value (.number (Number.ofBool x)) q
  | sequence r | record r =>
    rw [primitive?_of_isReference _ rfl] at ha
    cases ha
    rw [h.looseEquals_reference_left rfl (by cases q <;> nofun) hbool hnull]
    cases h.text _ with
    | ok s => exact h.looseEquals_value (.text s) q
    | error f => rfl
  | null | undefined => cases ha

/-- Values of one kind are compared strictly and others by their primitives, in whatever order the
two are brought to them. -/
theorem looseEquals_eq (a b : Value) :
    h.looseEquals a b =
      if a.kind = b.kind then .ok (a.strictEquals b) else h.equalByPrimitives a b := by
  split
  · exact h.looseEquals_of_kind_eq ‹_›
  rename_i hkind
  unfold equalByPrimitives
  cases ha : h.primitive? a with
  | none =>
    have hnull : a.isNullish = true := by rw [← h.isNone_primitive?, ha]; rfl
    rw [h.looseEquals_of_isNullish hkind (by rw [hnull]; rfl), hnull, ← h.isNone_primitive? b]
    cases h.primitive? b <;> rfl
  | some p? =>
    cases hb : h.primitive? b with
    | none =>
      have hnull : b.isNullish = true := by rw [← h.isNone_primitive?, hb]; rfl
      rw [h.looseEquals_of_isNullish hkind (by rw [hnull, Bool.or_true]), hnull,
        ← h.isNone_primitive? a, ha]
      rfl
    | some q? =>
      have hnull : b.isNullish = false := by rw [← h.isNone_primitive?, hb]; rfl
      cases a with
      | number n =>
        cases ha
        exact h.looseEquals_value_left (.number n) hb
      | text s =>
        cases ha
        exact h.looseEquals_value_left (.text s) hb
      | boolean x =>
        cases ha
        rw [h.looseEquals_boolean_left x (Ne.symm hkind) hnull]
        exact h.looseEquals_value_left (.number (Number.ofBool x)) hb
      | sequence r | record r =>
        by_cases hbool : b.kind = .boolean
        · cases b <;> cases hbool
          cases hb
          rw [h.looseEquals_boolean_right _ (fun hk => by cases hk) rfl]
          exact h.looseEquals_value_right (.number (Number.ofBool _)) ha
        · rw [primitive?_of_isReference _ rfl] at ha
          cases ha
          rw [h.looseEquals_reference_left rfl hkind hbool hnull]
          cases h.text _ with
          | ok s => exact h.looseEquals_value_left (.text s) hb
          | error f => rfl
      | null | undefined => cases ha

/-! ## Symmetry -/

/-- Only the primitive of a sequence can fault. -/
theorem primitive?_eq_ok {v : Value} (hv : v.kind ≠ .sequence) {p? : Except Fault Primitive}
    (hp : h.primitive? v = some p?) : ∃ p, p? = .ok p := by
  cases v with
  | sequence a => exact absurd rfl hv
  | null | undefined => cases hp
  | _ =>
    cases hp
    exact ⟨_, rfl⟩

/-- Of two values of different kinds at most one has a primitive that faults, so it does not matter
which is asked for first. -/
theorem equalByPrimitives_comm {a b : Value} (hkind : a.kind ≠ b.kind) :
    h.equalByPrimitives a b = h.equalByPrimitives b a := by
  unfold equalByPrimitives
  cases ha : h.primitive? a with
  | none => cases h.primitive? b <;> rfl
  | some p? =>
    cases hb : h.primitive? b with
    | none => rfl
    | some q? =>
      by_cases hseq : a.kind = .sequence
      · obtain ⟨q, rfl⟩ := h.primitive?_eq_ok (fun hb => hkind (hseq.trans hb.symm)) hb
        cases p? with
        | ok p => exact congrArg Except.ok (p.equals_comm q)
        | error f => rfl
      · obtain ⟨p, rfl⟩ := h.primitive?_eq_ok hseq ha
        cases q? with
        | ok q => exact congrArg Except.ok (p.equals_comm q)
        | error f => rfl

theorem looseEquals_comm (a b : Value) : h.looseEquals a b = h.looseEquals b a := by
  rw [looseEquals_eq, looseEquals_eq]
  by_cases hkind : a.kind = b.kind
  · rw [if_pos hkind, if_pos hkind.symm, a.strictEquals_comm]
  · rw [if_neg hkind, if_neg (Ne.symm hkind), h.equalByPrimitives_comm hkind]

/-- `null` and `undefined` are loosely equal to each other and themselves, and to nothing else. -/
theorem looseEquals_of_nullish {a : Value} (ha : a.isNullish = true) (b : Value) :
    h.looseEquals a b = .ok b.isNullish := by
  by_cases hkind : a.kind = b.kind
  · rw [h.looseEquals_of_kind_eq hkind]
    cases a <;> cases ha <;> cases b <;> cases hkind <;> rfl
  · rw [h.looseEquals_of_isNullish hkind (by rw [ha]; rfl), ha, Bool.true_and]

/-- Loose equality is symmetric, failures included, and extends strict equality, which is symmetric
too.  Within a kind the two are one, and `null` and `undefined` equal exactly each other and
themselves. -/
theorem looseEquals_extends (a b : Value) :
    h.looseEquals a b = h.looseEquals b a ∧
    a.strictEquals b = b.strictEquals a ∧
    (a.strictEquals b = true → h.looseEquals a b = .ok true) ∧
    (a.kind = b.kind → h.looseEquals a b = .ok (a.strictEquals b)) ∧
    (a.isNullish = true → h.looseEquals a b = .ok b.isNullish) := by
  refine ⟨h.looseEquals_comm a b, a.strictEquals_comm b, fun hstrict => ?_,
    h.looseEquals_of_kind_eq, fun ha => h.looseEquals_of_nullish ha b⟩
  rw [h.looseEquals_of_kind_eq (Value.kind_of_strictEquals hstrict), hstrict]

end Heap

end Chronicle
