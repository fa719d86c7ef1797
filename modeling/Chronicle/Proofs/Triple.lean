import Chronicle.Run.Statement

/-!
# Conditions before and after a computation

`Triple P e Q E`: from a state with `P`, the computation `e` either gives a result and a state in
`Q`, or stops in a state in `E`.  Effects and walks both are such computations.  `Keeps P E e` is
the case where a result leaves `P` as it was and a stop leaves `E`; `keeps_bind` and `keeps_rounds`
carry it through sequences and loops.
-/

set_option autoImplicit false

namespace Chronicle

section
variable {ε σ α β : Type}

/-- From a state with `P`, `e` ends in `Q` with a result or in `E` with a stop. -/
def Triple (P : σ → Prop) (e : EStateM ε σ α) (Q : α → σ → Prop) (E : ε → σ → Prop) : Prop :=
  ∀ s, P s → match e s with
    | .ok a s' => Q a s'
    | .error x s' => E x s'

/-- `e` keeps `P` when it gives a result, and ends in `E` when it stops. -/
def Keeps (P E : σ → Prop) (e : EStateM ε σ α) : Prop :=
  Triple P e (fun _ => P) (fun _ => E)

variable {P P' E : σ → Prop} {Q : α → σ → Prop} {R : β → σ → Prop} {X : ε → σ → Prop}

theorem Triple.bind {e : EStateM ε σ α} {f : α → EStateM ε σ β} (he : Triple P e Q X)
    (hf : ∀ a, Triple (Q a) (f a) R X) : Triple P (e >>= f) R X := by
  intro s hs
  have h := he s hs
  show match EStateM.bind e f s with
    | .ok a s' => R a s'
    | .error x s' => X x s'
  unfold EStateM.bind
  cases hr : e s with
  | ok a s' =>
    rw [hr] at h
    exact hf a s' h
  | error x s' =>
    rw [hr] at h
    exact h

theorem Triple.weaken {P' : σ → Prop} {Q' : α → σ → Prop} {X' : ε → σ → Prop}
    {e : EStateM ε σ α} (he : Triple P e Q X) (hp : ∀ s, P' s → P s)
    (hq : ∀ a s, Q a s → Q' a s) (hx : ∀ x s, X x s → X' x s) : Triple P' e Q' X' := by
  intro s hs
  have h := he s (hp s hs)
  cases hr : e s with
  | ok a s' =>
    rw [hr] at h
    exact hq a s' h
  | error x s' =>
    rw [hr] at h
    exact hx x s' h

/-- Two things said of one computation. -/
theorem Triple.and {P' : σ → Prop} {Q' : α → σ → Prop} {X' : ε → σ → Prop} {e : EStateM ε σ α}
    (he : Triple P e Q X) (he' : Triple P' e Q' X') :
    Triple (fun s => P s ∧ P' s) e (fun a s => Q a s ∧ Q' a s) fun x s => X x s ∧ X' x s := by
  intro s hs
  have h := he s hs.1
  have h' := he' s hs.2
  cases hr : e s with
  | ok a s' =>
    rw [hr] at h h'
    exact ⟨h, h'⟩
  | error x s' =>
    rw [hr] at h h'
    exact ⟨h, h'⟩

/-- After reading the state, the rest starts from that state. -/
theorem get_bind {f : σ → EStateM ε σ β} (s : σ) : (get >>= f) s = f s s := rfl

/-- What follows a result goes on from it. -/
theorem bind_of_ok {e : EStateM ε σ α} {f : α → EStateM ε σ β} {s s' : σ} {a : α}
    (h : e s = .ok a s') : (e >>= f) s = f a s' := by
  show EStateM.bind e f s = f a s'
  unfold EStateM.bind
  rw [h]

/-- From one state, first parts that end alike can take each other's place. -/
theorem bind_eq_of_eq {e e' : EStateM ε σ α} {f : α → EStateM ε σ β} {s : σ} (h : e s = e' s) :
    (e >>= f) s = (e' >>= f) s := by
  show EStateM.bind e f s = EStateM.bind e' f s
  unfold EStateM.bind
  rw [h]

/-- A stop ends the whole sequence. -/
theorem bind_of_error {e : EStateM ε σ α} {f : α → EStateM ε σ β} {s s' : σ} {x : ε}
    (h : e s = .error x s') : (e >>= f) s = .error x s' := by
  show EStateM.bind e f s = .error x s'
  unfold EStateM.bind
  rw [h]

/-- A sequence that gives a result has gone through its first part. -/
theorem ok_of_bind {e : EStateM ε σ α} {f : α → EStateM ε σ β} {s s' : σ} {b : β}
    (h : (e >>= f) s = .ok b s') : ∃ a t, e s = .ok a t ∧ f a t = .ok b s' := by
  change EStateM.bind e f s = .ok b s' at h
  unfold EStateM.bind at h
  cases he : e s with
  | ok a t =>
    rw [he] at h
    exact ⟨a, t, rfl, h⟩
  | error x t =>
    rw [he] at h
    cases h

theorem ok_of_run' {e : EStateM ε σ α} {s : σ} {a : α} (h : e.run' s = some a) :
    ∃ s', e s = .ok a s' := by
  unfold EStateM.run' EStateM.run at h
  cases he : e s with
  | ok b t =>
    rw [he] at h
    cases h
    exact ⟨t, rfl⟩
  | error x t =>
    rw [he] at h
    cases h

/-! ## Results of a kind -/

/-- If `e` gives a result, from whatever state, the result has `p`. -/
def Gives (e : EStateM ε σ α) (p : α → Prop) : Prop :=
  ∀ s a s', e s = .ok a s' → p a

namespace Gives

variable {p : α → Prop} {q : β → Prop}

theorem pure {a : α} (h : p a) : Gives (Pure.pure a : EStateM ε σ α) p := by
  intro s b s' hb
  cases hb
  exact h

theorem throw (x : ε) : Gives (MonadExcept.throw x : EStateM ε σ α) p := by
  intro s b s' hb
  cases hb

theorem bind {e : EStateM ε σ α} {f : α → EStateM ε σ β} (he : Gives e p)
    (hf : ∀ a, p a → Gives (f a) q) : Gives (e >>= f) q := by
  intro s b s' h
  obtain ⟨a, t, ha, hb⟩ := ok_of_bind h
  exact hf a (he s a t ha) t b s' hb

theorem ite {c : Prop} [Decidable c] {e f : EStateM ε σ α} (he : Gives e p) (hf : Gives f p) :
    Gives (if c then e else f) p := by
  by_cases h : c
  · rw [if_pos h]
    exact he
  · rw [if_neg h]
    exact hf

/-- Whatever comes first. -/
theorem after (e : EStateM ε σ α) {f : α → EStateM ε σ β} (hf : ∀ a, Gives (f a) q) :
    Gives (e >>= f) q :=
  bind (p := fun _ => True) (fun _ _ _ _ => trivial) fun a _ => hf a

end Gives

/-! ## Keeping a condition -/

theorem keeps_pure (a : α) : Keeps (ε := ε) P E (pure a) := fun _ hs => hs

theorem keeps_throw (hE : ∀ s, P s → E s) (x : ε) : Keeps P E (throw x : EStateM ε σ α) :=
  fun s hs => hE s hs

theorem keeps_get : Keeps (ε := ε) P E get := fun _ hs => hs

theorem keeps_bind {e : EStateM ε σ α} {f : α → EStateM ε σ β} (he : Keeps P E e)
    (hf : ∀ a, Keeps P E (f a)) : Keeps P E (e >>= f) :=
  Triple.bind he hf

/-- After reading the state, the rest only needs to keep `P` from that state. -/
theorem keeps_get_bind {f : σ → EStateM ε σ β}
    (hf : ∀ s, P s → Triple (fun s' => s' = s) (f s) (fun _ => P) (fun _ => E)) :
    Keeps P E (get >>= f) := by
  intro s hs
  exact hf s hs s rfl

theorem keeps_ite {c : Prop} [Decidable c] {e f : EStateM ε σ α} (he : Keeps P E e)
    (hf : Keeps P E f) : Keeps P E (if c then e else f) := by
  by_cases h : c
  · rw [if_pos h]
    exact he
  · rw [if_neg h]
    exact hf

theorem keeps_forM {γ : Type} {f : γ → EStateM ε σ PUnit} :
    ∀ {l : List γ}, (∀ x ∈ l, Keeps P E (f x)) → Keeps P E (l.forM f)
  | [], _ => keeps_pure _
  | x :: _, h =>
    keeps_bind (h x List.mem_cons_self) fun _ =>
      keeps_forM fun y hy => h y (List.mem_cons_of_mem x hy)

end

/-- The state in which a computation ends, with a result or with a stop. -/
def stateAfter {ε σ α : Type} : EStateM.Result ε σ α → σ
  | .ok _ s => s
  | .error _ s => s

theorem Keeps.stateAfter {ε σ α : Type} {P : σ → Prop} {e : EStateM ε σ α} (h : Keeps P P e) {s : σ}
    (hs : P s) : P (stateAfter (e s)) := by
  have hk := h s hs
  cases hr : e s with
  | ok a s' =>
    rw [hr] at hk
    exact hk
  | error x s' =>
    rw [hr] at hk
    exact hk

/-! ## Walks -/

/-- A condition on the world of a run, under an effect. -/
theorem triple_act {α : Type} {P E : RunState → Prop} {Q : α → RunState → Prop} {e : Effect α}
    (h : ∀ s, P s → Triple (fun w => w = s.world) e (fun a w => Q a { s with world := w })
      fun _ w => E { s with world := w }) :
    Triple P (Walk.act e) Q (fun _ => E) := by
  intro s hs
  have he := h s hs s.world rfl
  unfold Walk.act
  cases hr : e s.world with
  | ok a w =>
    rw [hr] at he
    exact he
  | error x w =>
    rw [hr] at he
    exact he

/-- Rounds keep what one round keeps. -/
theorem keeps_rounds {P E : RunState → Prop} (hE : ∀ s, P s → E s) {round : Walk Bool}
    (h : Keeps P E round) : ∀ fuel, Keeps P E (Walk.rounds round fuel)
  | 0 => keeps_throw hE _
  | fuel + 1 => by
    unfold Walk.rounds
    exact keeps_bind h fun again => keeps_ite (keeps_rounds hE h fuel) (keeps_pure _)

end Chronicle
