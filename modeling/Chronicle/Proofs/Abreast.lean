import Chronicle.Proofs.Triple

/-!
# Two computations side by side

`Abreast W g e e'`: from states related by `W`, the computations `e` and `e'` go the same way.  Both
give a result, that of `e'` being `g` of that of `e`, or both stop with the same error, in related
states again; or both stop with the same fault.  `Abreast.bind` and `abreast_rounds` carry this
through sequences and loops.
-/

set_option autoImplicit false

namespace Chronicle

section
variable {σ α β : Type}

/-- Two ends that are alike. -/
inductive EndsAlike (W : σ → σ → Prop) (g : α → α) :
    EStateM.Result Stop σ α → EStateM.Result Stop σ α → Prop
  | ok {s s' : σ} (a : α) (h : W s s') : EndsAlike W g (.ok a s) (.ok (g a) s')
  | error {s s' : σ} (x : RunError) (h : W s s') :
    EndsAlike W g (.error (.error x) s) (.error (.error x) s')
  | fault {s s' : σ} (f : Fault) : EndsAlike W g (.error (.fault f) s) (.error (.fault f) s')

/-- From related states, `e` and `e'` end alike. -/
def Abreast (W : σ → σ → Prop) (g : α → α) (e e' : EStateM Stop σ α) : Prop :=
  ∀ s s', W s s' → EndsAlike W g (e s) (e' s')

variable {W : σ → σ → Prop} {g : α → α} {k : β → β}

theorem EndsAlike.mono {W' : σ → σ → Prop} {r r' : EStateM.Result Stop σ α}
    (h : EndsAlike W g r r') (hW : ∀ s s', W s s' → W' s s') : EndsAlike W' g r r' := by
  cases h with
  | ok a h => exact .ok a (hW _ _ h)
  | error x h => exact .error x (hW _ _ h)
  | fault f => exact .fault f

/-- What follows starts from the states in which the first parts ended. -/
theorem EndsAlike.bind {W' : σ → σ → Prop} {e e' : EStateM Stop σ α} {f f' : α → EStateM Stop σ β}
    {s s' : σ} (he : EndsAlike W g (e s) (e' s')) (hW : ∀ t t', W t t' → W' t t')
    (hf : ∀ a t t', W t t' → EndsAlike W' k (f a t) (f' (g a) t')) :
    EndsAlike W' k ((e >>= f) s) ((e' >>= f') s') := by
  show EndsAlike W' k (EStateM.bind e f s) (EStateM.bind e' f' s')
  unfold EStateM.bind
  generalize e s = r at he
  generalize e' s' = r' at he
  cases he with
  | ok a h => exact hf a _ _ h
  | error x h => exact .error x (hW _ _ h)
  | fault x => exact .fault x

namespace Abreast

theorem pure (a : α) {a' : α} (ha : a' = g a) :
    Abreast W g (Pure.pure a) (Pure.pure a') := by
  subst ha
  exact fun _ _ h => .ok a h

theorem throw (x : Stop) : Abreast W g (MonadExcept.throw x) (MonadExcept.throw x) := by
  intro s s' h
  cases x with
  | error x => exact .error x h
  | fault f => exact .fault f

theorem bind {e e' : EStateM Stop σ α} {f f' : α → EStateM Stop σ β} (he : Abreast W g e e')
    (hf : ∀ a, Abreast W k (f a) (f' (g a))) : Abreast W k (e >>= f) (e' >>= f') :=
  fun s s' h => (he s s' h).bind (fun _ _ ht => ht) hf

/-- Computations whose results are known. -/
theorem returning {k : β → β} {e e' : EStateM Stop σ α} (he : Abreast W g e e') (b : β) :
    Abreast W k (e >>= fun _ => Pure.pure b) (e' >>= fun _ => Pure.pure (k b)) :=
  he.bind fun _ => pure b rfl

/-- After reading the states, the rest starts from them. -/
theorem get_bind {f f' : σ → EStateM Stop σ α}
    (hf : ∀ s s', W s s' → EndsAlike W g (f s s) (f' s' s')) :
    Abreast W g (get >>= f) (get >>= f') :=
  hf

theorem ite {c : Prop} [Decidable c] {e e' f f' : EStateM Stop σ α} (he : Abreast W g e e')
    (hf : Abreast W g f f') : Abreast W g (if c then e else f) (if c then e' else f') := by
  by_cases h : c
  · rw [if_pos h, if_pos h]
    exact he
  · rw [if_neg h, if_neg h]
    exact hf

theorem forM {γ : Type} {f f' : γ → EStateM Stop σ PUnit} :
    ∀ {l : List γ}, (∀ x ∈ l, Abreast W id (f x) (f' x)) → Abreast W id (l.forM f) (l.forM f')
  | [], _ => pure _ rfl
  | x :: _, h =>
    bind (h x List.mem_cons_self) fun _ => forM fun y hy => h y (List.mem_cons_of_mem x hy)

end Abreast

end

/-- Rounds go abreast like one round. -/
theorem abreast_rounds {S : RunState → RunState → Prop} {round round' : Walk Bool}
    (h : Abreast S id round round') :
    ∀ fuel, Abreast S id (Walk.rounds round fuel) (Walk.rounds round' fuel)
  | 0 => .throw _
  | fuel + 1 => by
    unfold Walk.rounds
    exact h.bind fun again => .ite (abreast_rounds h fuel) (.pure _ rfl)

end Chronicle
