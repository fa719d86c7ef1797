import Mathlib.Data.List.Forall2
import Chronicle.Operator.Binary

/-!
# Results that may fail

Computations that give a result or a failure, one after the other and over lists.  `Raises p e`: if
`e` gives no result, its failure has `p`; `Yields e P`: if it gives a result, the result has `P`.
-/

set_option autoImplicit false

namespace Chronicle

/-! ## Sequences and lists of results -/

section
variable {ε α β : Type}

theorem bind_eq_ok {e : Except ε α} {f : α → Except ε β} {b : β} (h : (e >>= f) = .ok b) :
    ∃ a, e = .ok a ∧ f a = .ok b := by
  cases e with
  | error x => cases h
  | ok a => exact ⟨a, rfl, h⟩

/-- Where `g` succeeds like `f` on every element, it succeeds like `f` on the list. -/
theorem mapM_eq_ok {f g : α → Except ε β} : ∀ {l : List α} {ys : List β},
    (∀ x ∈ l, ∀ y, f x = .ok y → g x = .ok y) → l.mapM f = .ok ys → l.mapM g = .ok ys
  | [], _, _, h => h
  | x :: l, ys, hfg, h => by
    rw [List.mapM_cons] at h ⊢
    obtain ⟨y, hy, h⟩ := bind_eq_ok h
    obtain ⟨zs, hzs, h⟩ := bind_eq_ok h
    have hg := mapM_eq_ok (fun x' hx' => hfg x' (List.mem_cons_of_mem x hx')) hzs
    rw [hfg x List.mem_cons_self y hy, hg]
    exact h

/-- Where every element has a known result, so has the list. -/
theorem mapM_eq_ok_map {f : α → Except ε β} {g : α → β} {l : List α}
    (h : ∀ x ∈ l, f x = .ok (g x)) : l.mapM f = .ok (l.map g) := by
  induction l with
  | nil => rfl
  | cons x l ih =>
    obtain ⟨hx, hl⟩ := List.forall_mem_cons.1 h
    rw [List.mapM_cons, hx, ih hl]
    rfl

/-- A list of results has them for every element. -/
theorem exists_of_mapM_eq_ok {f : α → Except ε β} : ∀ {l : List α} {ys : List β},
    l.mapM f = .ok ys → ∀ x ∈ l, ∃ y, f x = .ok y
  | [], _, _, _, hx => by cases hx
  | z :: l, ys, hl, x, hx => by
    rw [List.mapM_cons] at hl
    obtain ⟨y, hy, hl⟩ := bind_eq_ok hl
    obtain ⟨zs, hzs, -⟩ := bind_eq_ok hl
    rcases List.mem_cons.1 hx with rfl | hx
    · exact ⟨y, hy⟩
    · exact exists_of_mapM_eq_ok hzs x hx

/-- A list of results is one result for each element, in order. -/
theorem forall₂_of_mapM_eq_ok {f : α → Except ε β} : ∀ {l : List α} {ys : List β},
    l.mapM f = .ok ys → List.Forall₂ (fun x y => f x = .ok y) l ys
  | [], _, h => by
    cases h
    exact .nil
  | x :: l, ys, h => by
    rw [List.mapM_cons] at h
    obtain ⟨y, hy, h⟩ := bind_eq_ok h
    obtain ⟨zs, hzs, h⟩ := bind_eq_ok h
    cases h
    exact .cons hy (forall₂_of_mapM_eq_ok hzs)

/-- A list fails as the first element does that has no result. -/
theorem exists_first_of_mapM_eq_error {f : α → Except ε β} {e : ε} : ∀ {l : List α},
    l.mapM f = .error e → ∃ before x after, l = before ++ x :: after ∧
      (∀ y ∈ before, ∃ z, f y = .ok z) ∧ f x = .error e
  | [], h => by cases h
  | x :: l, h => by
    rw [List.mapM_cons] at h
    cases hx : f x with
    | error e' =>
      rw [hx] at h
      cases h
      exact ⟨[], x, l, rfl, nofun, hx⟩
    | ok y =>
      cases hl : l.mapM f with
      | ok ys =>
        rw [hx, hl] at h
        cases h
      | error e' =>
        rw [hx, hl] at h
        cases h
        obtain ⟨before, x', after, rfl, hbefore, hx'⟩ := exists_first_of_mapM_eq_error hl
        exact ⟨x :: before, x', after, rfl, List.forall_mem_cons.2 ⟨⟨y, hx⟩, hbefore⟩, hx'⟩

/-- A list fails as an element does when all elements before it have results. -/
theorem mapM_eq_error {f : α → Except ε β} {e : ε} {x : α} {after : List α} :
    ∀ {before : List α}, (∀ y ∈ before, ∃ z, f y = .ok z) → f x = .error e →
      (before ++ x :: after).mapM f = .error e
  | [], _, hx => by
    rw [List.nil_append, List.mapM_cons, hx]
    rfl
  | y :: before, hbefore, hx => by
    obtain ⟨⟨z, hz⟩, hbefore⟩ := List.forall_mem_cons.1 hbefore
    rw [List.cons_append, List.mapM_cons, hz, mapM_eq_error hbefore hx]
    rfl

end

/-! ## Failures of a kind -/

/-- If there is no result, the failure has `p`. -/
def Raises {ε α : Type} (p : ε → Prop) (e : Except ε α) : Prop :=
  ∀ x, e = .error x → p x

namespace Raises

variable {ε α β : Type} {p q : ε → Prop}

theorem pure (a : α) : Raises p (Pure.pure a : Except ε α) := by
  intro x hx
  cases hx

theorem ok (a : α) : Raises p (.ok a : Except ε α) := pure a

theorem error {x : ε} (h : p x) : Raises p (.error x : Except ε α) := by
  intro y hy
  cases hy
  exact h

theorem mono {e : Except ε α} (he : Raises p e) (h : ∀ x, p x → q x) : Raises q e :=
  fun x hx => h x (he x hx)

/-- What follows may use that the first part gave its result. -/
theorem bind {e : Except ε α} {f : α → Except ε β} (he : Raises p e)
    (hf : ∀ a, e = .ok a → Raises p (f a)) : Raises p (e >>= f) := by
  intro x hx
  cases hr : e with
  | ok a =>
    rw [hr] at hx
    exact hf a hr x hx
  | error y =>
    rw [hr] at hx
    cases hx
    exact he x hr

theorem map {e : Except ε α} (he : Raises p e) (f : α → β) : Raises p (e.map f) := by
  cases e with
  | ok a => exact ok (f a)
  | error x => exact error (he x rfl)

theorem ite {c : Prop} [Decidable c] {e f : Except ε α} (he : c → Raises p e)
    (hf : ¬ c → Raises p f) : Raises p (if c then e else f) := by
  by_cases h : c
  · rw [if_pos h]
    exact he h
  · rw [if_neg h]
    exact hf h

theorem mapM {f : α → Except ε β} : ∀ {l : List α}, (∀ x ∈ l, Raises p (f x)) →
    Raises p (l.mapM f)
  | [], _ => pure []
  | x :: l, h => by
    rw [List.mapM_cons]
    refine bind (h x List.mem_cons_self) fun y _ => ?_
    exact bind (mapM fun z hz => h z (List.mem_cons_of_mem x hz)) fun ys _ => pure _

/-- A fault that stops the run stays what it is. -/
theorem orFault {p : Stop → Prop} {e : Except Fault α} (he : Raises (fun f => p (.fault f)) e) :
    Raises p (Chronicle.orFault e) := by
  cases e with
  | ok a => exact ok a
  | error f => exact error (he f rfl)

/-- Only a fault of the interpreter itself passes a numeric operator. -/
theorem orOperatorError {p : Stop → Prop} {e : Except Fault α} (symbol : String) (a b : Value)
    (hbound : Raises (fun f => f.nature = .bound → p (.fault f)) e)
    (hother : Raises (fun f => f.nature ≠ .bound → p (operatorError symbol [a.kind, b.kind])) e) :
    Raises p (Chronicle.orOperatorError symbol a b e) := by
  cases e with
  | ok a => exact ok a
  | error f =>
    exact ite (fun hf => error (hbound f rfl (beq_iff_eq.1 hf)))
      fun hf => error (hother f rfl fun hn => hf (beq_iff_eq.2 hn))

/-- What raises nothing gives a result. -/
theorem exists_ok {e : Except ε α} (he : Raises (fun _ => False) e) :
    ∃ a, e = .ok a := by
  cases e with
  | ok a => exact ⟨a, rfl⟩
  | error x => exact (he x rfl).elim

end Raises

/-! ## Results of a kind -/

/-- If there is a result, it has `P`. -/
def Yields {ε α : Type} (e : Except ε α) (P : α → Prop) : Prop :=
  ∀ a, e = .ok a → P a

namespace Yields

variable {ε α β : Type} {P : α → Prop} {Q : β → Prop}

theorem pure {a : α} (h : P a) : Yields (Pure.pure a : Except ε α) P := by
  intro b hb
  cases hb
  exact h

theorem throw (x : ε) : Yields (MonadExcept.throw x : Except ε α) P := by
  intro b hb
  cases hb

theorem bind {e : Except ε α} {f : α → Except ε β} (he : Yields e P)
    (hf : ∀ a, P a → Yields (f a) Q) : Yields (e >>= f) Q := by
  intro b hb
  obtain ⟨a, ha, hb⟩ := bind_eq_ok hb
  exact hf a (he a ha) b hb

theorem map {e : Except ε α} {f : α → β} (he : Yields e fun a => Q (f a)) : Yields (e.map f) Q := by
  cases e with
  | ok a => exact pure (he a rfl)
  | error x => exact throw x

theorem ite {c : Prop} [Decidable c] {e f : Except ε α} (he : Yields e P) (hf : Yields f P) :
    Yields (if c then e else f) P := by
  by_cases h : c
  · rw [if_pos h]
    exact he
  · rw [if_neg h]
    exact hf

/-- What is known of any result: it is one. -/
theorem self {e : Except ε α} : Yields e fun a => e = .ok a :=
  fun _ ha => ha

/-- Whatever comes first. -/
theorem after (e : Except ε α) {f : α → Except ε β} (hf : ∀ a, Yields (f a) Q) :
    Yields (e >>= f) Q :=
  bind (P := fun _ => True) (fun _ _ => trivial) fun a _ => hf a

theorem mapM {γ : Type} {f : γ → Except ε α} :
    ∀ {l : List γ}, (∀ x ∈ l, Yields (f x) P) → Yields (l.mapM f) fun ys => ∀ y ∈ ys, P y
  | [], _ => pure nofun
  | x :: l, h => by
    rw [List.mapM_cons]
    refine bind (h x List.mem_cons_self) fun y hy => ?_
    refine bind (mapM fun z hz => h z (List.mem_cons_of_mem x hz)) fun ys hys => pure ?_
    intro z hz
    rcases List.mem_cons.1 hz with h | hz
    · exact h ▸ hy
    · exact hys z hz

theorem mapM_option {γ : Type} {f : γ → Except ε α} {o : Option γ}
    (h : ∀ x, o = some x → Yields (f x) P) : Yields (o.mapM f) fun r => ∀ y, r = some y → P y := by
  cases o with
  | none => exact pure nofun
  | some x =>
    intro r hr y hy
    subst hy
    cases hx : f x with
    | error e =>
      rw [Option.mapM_some, hx] at hr
      cases hr
    | ok z =>
      rw [Option.mapM_some, hx] at hr
      cases hr
      exact h x rfl _ hx

theorem foldlM {γ : Type} {f : α → γ → Except ε α} :
    ∀ {l : List γ} {a : α}, P a → (∀ a x, x ∈ l → P a → Yields (f a x) P) →
      Yields (l.foldlM f a) P
  | [], _, ha, _ => pure ha
  | x :: _, a, ha, h => by
    rw [List.foldlM_cons]
    exact bind (h a x List.mem_cons_self ha) fun b hb =>
      foldlM hb fun c y hy => h c y (List.mem_cons_of_mem x hy)

end Yields

end Chronicle
