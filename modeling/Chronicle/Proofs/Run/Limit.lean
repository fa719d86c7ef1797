import Chronicle.Proofs.Run.Stamps

/-!
# Runs under a limit

A run under a limit of `m` entries and one under a larger limit `n`, or none, go the same way until
the first of them wants to record entry `m + 1`.  There it stops and the other goes on; all that the
other writes from then on is stamped after `m` (`Past`).

`Cut m n e₁ e₂` says this of two computations.  It is kept by sequences (`Cut.bind`) and by loops
(`Cut.rounds`): a loop's bound on its rounds is out of reach, since every round that goes on leaves
an entry.  `execute_cases` is what it says of two runs of one function.
-/

set_option autoImplicit false

namespace Chronicle

open Walk

/-! ## What is written after a point -/

/-- `w` comes from `w₁` by writes stamped after `m`. -/
structure Since (m : Int) (w₁ w : World) : Prop where
  bound : ∀ {id name}, (w₁.scopes.own? id name).isSome → (w.scopes.own? id name).isSome
  entries : ∀ id name, ∃ l, w.historyOf id name = w₁.historyOf id name ++ l ∧ ∀ e ∈ l, m < e.step

theorem Since.refl (m : Int) (w : World) : Since m w w where
  bound h := h
  entries _ _ := ⟨[], by simp, nofun⟩

/-- One more write, which adds only entries stamped after `m`. -/
theorem Since.push {m : Int} {w₁ w w' : World} (h : Since m w₁ w)
    (hb : ∀ {i n}, (w.scopes.own? i n).isSome → (w'.scopes.own? i n).isSome)
    (hh : ∀ i n, ∃ l, w'.historyOf i n = w.historyOf i n ++ l ∧ ∀ e ∈ l, m < e.step) :
    Since m w₁ w' where
  bound hi := hb (h.bound hi)
  entries i n := by
    obtain ⟨l, hl, hlm⟩ := h.entries i n
    obtain ⟨k, hk, hkm⟩ := hh i n
    refine ⟨l ++ k, by rw [hk, hl, List.append_assoc], fun e he => ?_⟩
    rcases List.mem_append.1 he with he | he
    · exact hlm e he
    · exact hkm e he

/-- At most one entry, stamped after `m`. -/
theorem lt_of_mem_ite {m : Int} {c : Prop} [Decidable c] {e : HistoryEntry} (he : m < e.step) :
    ∀ f ∈ (if c then [e] else []), m < f.step := by
  intro f hf
  split at hf
  · rw [List.mem_singleton.1 hf]
    exact he
  · cases hf

theorem since_lasting {m k : Int} (hk : m < k) (w₁ : World) :
    Lasting 0 k (Since m w₁) (Since m w₁) where
  stop h := h
  note _ h := { h with }
  store _ h := { h with }
  write {w id name v text} hown _ h := by
    obtain ⟨b, hb⟩ := Option.isSome_iff_exists.1 hown
    refine h.push (fun hi => ?_) (fun i n => ⟨_, w.historyOf_write v text k i n hb, ?_⟩)
    · rw [World.isSome_own?_write]
      exact hi
    · exact lt_of_mem_ite (Int.lt_of_lt_of_le hk (b.le_stamp k))
  writeUnrendered {w id name v} _ h := by
    refine h.push (fun hi => ?_) (fun i n => ⟨[], ?_, nofun⟩)
    · rw [World.isSome_own?_writeUnrendered]
      exact hi
    · rw [World.historyOf_writeUnrendered, List.append_nil]
  add {w name v text spec} hown _ h := by
    by_cases hroot : 0 < w.scopes.all.size
    · refine h.push (fun {i n} hi => ?_)
        (fun i n => ⟨_, w.historyOf_add 0 name v text k i n spec hroot hown, lt_of_mem_ite hk⟩)
      rw [World.own?_add _ _ _ _ _ _ _ _ spec hroot hown]
      split
      · rfl
      · exact hi
    · have hsame : ∀ i n, (w.add 0 name v text k spec).scopes.own? i n = w.scopes.own? i n :=
        Scopes.own?_add_of_not_lt _ hroot _ _
      refine h.push (fun {i n} hi => by rw [hsame]; exact hi) fun i n => ⟨[], ?_, nofun⟩
      unfold World.historyOf
      rw [hsame, List.append_nil]
  addUnrendered _ h := { h with }

/-- `s` comes after `s₁`: its trace goes on from there, to more than `m` entries, and all that was
written since is stamped after `m`. -/
structure Past (m : Int) (s₁ s : RunState) : Prop where
  lt : m < s.trace.size
  trace : s₁.trace.toList <+: s.trace.toList
  since : Since m s₁.world s.world

theorem past_steady (m : Int) (s₁ : RunState) :
    Steady 0 (Past m s₁) (Past m s₁) (Past m s₁) := by
  have hlasting : ∀ {s : RunState} {k : Int}, Past m s₁ s → m < k →
      Lasting 0 k (fun w => Past m s₁ { s with world := w })
        fun w => Past m s₁ { s with world := w } := by
    intro s k hs hk
    have hsince := since_lasting hk s₁.world
    exact {
      stop := fun h => h
      note := fun hn h => { h with since := hsince.note hn h.since }
      store := fun he h => { h with since := hsince.store he h.since }
      write := fun hown hf h => { h with since := hsince.write hown hf h.since }
      writeUnrendered := fun hown h => { h with since := hsince.writeUnrendered hown h.since }
      add := fun hown hf h => { h with since := hsince.add hown hf h.since }
      addUnrendered := fun hown h => { h with since := hsince.addUnrendered hown h.since } }
  exact {
    ahead := fun h => h
    stop := fun h => h
    now := fun h => hlasting h h.lt
    later := fun h => hlasting h (Int.lt_add_one_of_le (Int.le_of_lt h.lt))
    record := fun {s line kind outcome} h => {
      lt := by
        have := h.lt
        simp only [Trace.append, Array.size_push]
        omega
      trace := by
        simp only [Trace.append, Array.toList_push]
        exact h.trace.trans (List.prefix_append _ _)
      since := h.since }
    keep := fun h => { h with } }

/-! ## Two computations -/

/-- How a computation under the limit `m` ends beside the same one under the limit `n`: both alike
within `m` entries, or the first at its limit and the second past it; or the second, which has no
limit, has not ended in as many rounds as can be run. -/
inductive Truncates (m : Int) (n : Option Int) {α : Type} :
    EStateM.Result Stop RunState α → EStateM.Result Stop RunState α → Prop
  | same {r : EStateM.Result Stop RunState α} (h : (stateAfter r).trace.size ≤ m) :
    Truncates m n r r
  | cut {s₁ : RunState} {location : Option Location} {r : EStateM.Result Stop RunState α}
    (hm : s₁.trace.size = m) (h : Past m s₁ (stateAfter r)) :
    Truncates m n (.error (.because (.stepLimit m) location) s₁) r
  | endless {r : EStateM.Result Stop RunState α} {s₂ : RunState} (h : n = none) :
    Truncates m n r (.error (.fault .endlessRun) s₂)

/-- `e₁` is `e₂` cut off at `m` entries. -/
structure Cut (m : Int) (n : Option Int) {α : Type} (e₁ e₂ : Walk α) : Prop where
  truncates : ∀ s, s.trace.size ≤ m → Truncates m n (e₁ s) (e₂ s)
  past : ∀ s₁, Keeps (Past m s₁) (Past m s₁) e₂

section
variable {m : Int} {n : Option Int} {α β : Type}

theorem Cut.bind {e₁ e₂ : Walk α} {f₁ f₂ : α → Walk β} (he : Cut m n e₁ e₂)
    (hf : ∀ a, Cut m n (f₁ a) (f₂ a)) : Cut m n (e₁ >>= f₁) (e₂ >>= f₂) where
  truncates s hs := by
    have ht := he.truncates s hs
    show Truncates m n (EStateM.bind e₁ f₁ s) (EStateM.bind e₂ f₂ s)
    unfold EStateM.bind
    generalize e₁ s = r₁ at ht
    generalize e₂ s = r₂ at ht
    cases ht with
    | same h =>
      cases r₁ with
      | ok a s' => exact (hf a).truncates s' h
      | error x s' => exact .same h
    | cut hm h =>
      refine .cut hm ?_
      cases r₂ with
      | ok a s₂ => exact ((hf a).past _).stateAfter h
      | error x s₂ => exact h
    | endless h => exact .endless h
  past s₁ := keeps_bind (he.past s₁) fun a => (hf a).past s₁

theorem Cut.ite {c : Prop} [Decidable c] {e₁ e₂ f₁ f₂ : Walk α} (he : Cut m n e₁ e₂)
    (hf : Cut m n f₁ f₂) : Cut m n (if c then e₁ else f₁) (if c then e₂ else f₂) := by
  by_cases h : c
  · rw [if_pos h, if_pos h]
    exact he
  · rw [if_neg h, if_neg h]
    exact hf

/-- Without an entry the two cannot part. -/
theorem Leaves.cut {e : Walk α} (hl : Leaves e)
    (hp : ∀ s₁, Keeps (Past m s₁) (Past m s₁) e) : Cut m n e e where
  truncates s hs := by
    have ht : (stateAfter (e s)).trace = s.trace := (hl (· = s.trace)).stateAfter rfl
    exact .same (ht ▸ hs)
  past := hp

theorem cut_pure (a : α) : Cut m n (Pure.pure a) (Pure.pure a) :=
  (Leaves.pure a).cut fun _ => keeps_pure a

/-- The limit strikes when an entry is recorded. -/
theorem cut_record (hn : ∀ k, n = some k → m < k) (location : Location) (kind : TraceKind)
    (outcome : Option Bool) :
    Cut m n (record (some m) location kind outcome) (record n location kind outcome) where
  truncates s hs := by
    have hbelow : ∀ k, n = some k → s.trace.size < k := fun k hk =>
      Int.lt_of_le_of_lt hs (hn k hk)
    have h₂ : record n location kind outcome s =
        .ok () { s with trace := s.trace.append location.startLine kind outcome } := by
      rcases record_cases n location kind outcome s with ⟨k, hk, hle, -⟩ | ⟨-, h₂⟩
      · have := hbelow k hk
        omega
      · exact h₂
    rw [h₂]
    rcases record_cases (some m) location kind outcome s with ⟨k, hk, hle, h₁⟩ | ⟨hlt, h₁⟩
    · cases hk
      rw [h₁]
      have hm : s.trace.size = m := by omega
      refine .cut hm ⟨?_, ?_, .refl m s.world⟩
      · simp only [stateAfter, Trace.append, Array.size_push]
        omega
      · simp only [stateAfter, Trace.append, Array.toList_push]
        exact List.prefix_append _ _
    · rw [h₁]
      have := hlt m rfl
      refine .same ?_
      simp only [stateAfter, Trace.append, Array.size_push]
      omega
  past s₁ := (past_steady m s₁).keeps_record n location kind outcome

end

/-! ## Loops -/

/-- A round that asks for another has left an entry. -/
def Grows (round : Walk Bool) : Prop :=
  ∀ k : Nat, Triple (fun s => s.trace.size = k) round
    (fun again s => again = true → k < s.trace.size) fun _ _ => True

/-- Traces only get longer. -/
theorem longer_steady (k : Nat) : Steady 0 (fun s => k ≤ s.trace.size)
    (fun s => k ≤ s.trace.size) fun s => k ≤ s.trace.size := by
  refine Steady.ofTrace 0 (P := fun t => k ≤ t.size) fun {t line kind outcome} ht => ?_
  rw [Trace.append, Array.size_push]
  exact Nat.le_succ_of_le ht

theorem triple_record_lt (limit : Option Int) (location : Location) (kind : TraceKind)
    (outcome : Option Bool) (k : Nat) :
    Triple (fun s => k ≤ s.trace.size) (record limit location kind outcome)
      (fun _ s => k < s.trace.size) fun _ _ => True := by
  intro s hs
  rcases record_cases limit location kind outcome s with ⟨m, -, -, he⟩ | ⟨-, he⟩
  · rw [he]
    trivial
  · rw [he]
    simp only [Trace.append, Array.size_push]
    omega

section
variable (limit : Option Int) (location : Location) (body : Node)

theorem grows_whileRound (condition : Node) :
    Grows (whileRound 0 limit location condition body) := by
  intro k
  have hbody := walk_keeps (longer_steady (k + 1)) limit body
  have htest := (Leaves.test 0 1 (some condition)) fun trace => trace.size = k
  refine (htest.weaken (fun _ hs => hs) (fun _ s hs => Nat.le_of_eq hs.symm)
    fun _ _ _ => trivial).bind fun outcome =>
      (triple_record_lt limit location _ _ k).bind fun _ => ?_
  refine Triple.weaken (P := fun s => k + 1 ≤ s.trace.size)
    (Q := fun _ s => k + 1 ≤ s.trace.size) (X := fun _ s => k + 1 ≤ s.trace.size) ?_
    (fun _ hs => hs) (fun _ _ hs _ => hs) fun _ _ _ => trivial
  exact keeps_ite (keeps_bind hbody fun _ => keeps_pure _) (keeps_pure _)

theorem grows_forRound (condition update : Option Node) :
    Grows (forRound 0 limit location condition update body) := by
  intro k
  have hbody := walk_keeps (longer_steady k) limit body
  have htest := (Leaves.test 0 0 condition) fun trace => trace.size = k
  have hupdate := (Leaves.evaluateAhead 0 1 update) fun trace => k ≤ trace.size
  refine (htest.weaken (fun _ hs => hs) (fun _ s hs => Nat.le_of_eq hs.symm)
    fun _ _ _ => trivial).bind fun outcome => ?_
  cases outcome with
  | false => exact fun _ _ => nofun
  | true =>
    refine Triple.bind (hbody.weaken (fun _ hs => hs) (fun _ _ hs => hs) fun _ _ _ => trivial)
      fun _ => ?_
    refine Triple.bind (hupdate.weaken (fun _ hs => hs) (fun _ _ hs => hs) fun _ _ _ => trivial)
      fun _ => ?_
    exact (triple_record_lt limit location _ _ k).bind fun _ _ hs _ => hs

end

section
variable {m : Int} {n : Option Int} (hn : ∀ k, n = some k → m < k)
include hn

/-- Rounds are cut like one round, as long as there are more of them than entries left. -/
theorem truncates_rounds {r₁ r₂ : Walk Bool} (h : Cut m n r₁ r₂) (hg : Grows r₂) :
    ∀ (f₁ f₂ : Nat) (s : RunState), s.trace.size ≤ m → m < s.trace.size + f₁ →
      (∀ k, n = some k → k < s.trace.size + f₂) →
      Truncates m n (rounds r₁ f₁ s) (rounds r₂ f₂ s) := by
  intro f₁
  induction f₁ with
  | zero => intro f₂ s hs hf₁; omega
  | succ f₁ ih =>
    intro f₂ s hs hf₁ hf₂
    cases f₂ with
    | zero =>
      cases hk : n with
      | none => exact .endless rfl
      | some k =>
        have := hn k hk
        have := hf₂ k hk
        omega
    | succ f₂ =>
      have ht := h.truncates s hs
      have hgrow := hg s.trace.size s rfl
      show Truncates m n (EStateM.bind r₁ (fun b => if b then rounds r₁ f₁ else pure ()) s)
        (EStateM.bind r₂ (fun b => if b then rounds r₂ f₂ else pure ()) s)
      unfold EStateM.bind
      generalize r₁ s = x₁ at ht
      generalize r₂ s = x₂ at ht hgrow
      cases ht with
      | same hx =>
        cases x₁ with
        | error x s' => exact .same hx
        | ok again s' =>
          cases again with
          | false => exact .same hx
          | true =>
            have hlt : s.trace.size < s'.trace.size := hgrow rfl
            refine ih f₂ s' hx (by omega) fun k hk => ?_
            have := hf₂ k hk
            omega
      | @cut s₁ location _ hm hx =>
        refine .cut hm ?_
        cases x₂ with
        | error x s₂ => exact hx
        | ok again s₂ =>
          have hrest : Keeps (Past m s₁) (Past m s₁) (if again then rounds r₂ f₂ else pure ()) :=
            keeps_ite (keeps_rounds (fun _ hs => hs) (h.past _) f₂) (keeps_pure _)
          exact hrest.stateAfter hx
      | endless hx => exact .endless hx

theorem Cut.rounds {r₁ r₂ : Walk Bool} (h : Cut m n r₁ r₂) (hg : Grows r₂) :
    Cut m n (Walk.rounds r₁ (roundLimit (some m))) (Walk.rounds r₂ (roundLimit n)) where
  truncates s hs := by
    refine truncates_rounds hn h hg _ _ s hs ?_ fun k hk => ?_
    · simp only [roundLimit]
      omega
    · subst hk
      simp only [roundLimit]
      omega
  past s₁ := keeps_rounds (fun _ hs => hs) (h.past s₁) _

/-! ## Statements -/

omit hn in
theorem cut_test_ahead (condition : Option Node) :
    Cut m n (test 0 1 condition) (test 0 1 condition) :=
  (Leaves.test 0 1 condition).cut fun s₁ => (past_steady m s₁).triple_test_ahead condition

omit hn in
theorem cut_evaluate (node : Option Node) :
    Cut m n (evaluateAhead 0 0 node) (evaluateAhead 0 0 node) :=
  (Leaves.evaluateAhead 0 0 node).cut fun s₁ => (past_steady m s₁).keeps_evaluateAhead node

theorem cut_whileRound (location : Location) (condition : Node) {body : Node}
    (hbody : Cut m n (walk 0 (some m) body) (walk 0 n body)) :
    Cut m n (whileRound 0 (some m) location condition body)
      (whileRound 0 n location condition body) :=
  (cut_test_ahead (some condition)).bind fun _ => (cut_record hn location _ _).bind fun _ =>
    .ite (hbody.bind fun _ => cut_pure _) (cut_pure _)

theorem cut_forRound (location : Location) (condition update : Option Node) {body : Node}
    (hbody : Cut m n (walk 0 (some m) body) (walk 0 n body)) :
    Cut m n (forRound 0 (some m) location condition update body)
      (forRound 0 n location condition update body) := by
  have htest : Cut m n (test 0 0 condition) (test 0 0 condition) :=
    (Leaves.test 0 0 condition).cut fun s₁ => (past_steady m s₁).keeps_test condition
  have hupdate : Cut m n (evaluateAhead 0 1 update) (evaluateAhead 0 1 update) :=
    (Leaves.evaluateAhead 0 1 update).cut fun s₁ => (past_steady m s₁).triple_evaluateAhead update
  exact htest.bind fun _ => .ite
    (hbody.bind fun _ => hupdate.bind fun _ =>
      (cut_record hn location _ _).bind fun _ => cut_pure _)
    (cut_pure _)

end

section
variable {m : Int} {n : Option Int}

mutual

/-- Every statement under the limit `m` is the same statement under `n`, cut off. -/
theorem walk_cut (hn : ∀ k, n = some k → m < k) :
    ∀ node : Node, Cut m n (walk 0 (some m) node) (walk 0 n node)
  | .declaration location _ declarators =>
    (cut_record hn location _ _).bind fun _ => (Leaves.declare 0 declarators).cut fun s₁ =>
      (past_steady m s₁).keeps_declare declarators
  | .ifStatement location condition consequent alternate =>
    (cut_test_ahead (some condition)).bind fun _ => (cut_record hn location _ _).bind fun _ =>
      .ite (walk_cut hn consequent) (walkOption_cut hn alternate)
  | .whileStatement location condition body =>
    .rounds hn (cut_whileRound hn location condition (walk_cut hn body))
      (grows_whileRound n location body condition)
  | .forStatement location init condition update body => by
    rw [walk_for, walk_for]
    refine (cut_record hn location _ _).bind fun _ => .bind ?_ fun _ =>
      .rounds hn (cut_forRound hn location condition update (walk_cut hn body))
        (grows_forRound n location body condition update)
    exact (Leaves.enter 0 init).cut fun s₁ => (past_steady m s₁).keeps_enter init
  | .expressionStatement location expression =>
    (cut_record hn location _ _).bind fun _ => cut_evaluate (some expression)
  | .returnStatement location argument => by
    rw [walk_return, walk_return]
    exact (cut_record hn location _ _).bind fun _ => (Leaves.giveBack 0 argument).cut fun s₁ =>
      (past_steady m s₁).keeps_giveBack argument
  | .continueStatement location _ => cut_record hn location _ _
  | .block _ body => walkAll_cut hn body
  | .program .. | .functionDeclaration .. | .declarator .. | .identifier .. | .thisValue ..
  | .literal .. | .array .. | .property .. | .object .. | .new .. | .update .. | .unary ..
  | .binary .. | .assignment .. | .member .. | .call .. | .functionExpression ..
  | .arrowFunction .. | .unsupported .. =>
    Leaves.cut (fun _ => keeps_throw (fun _ hs => hs) _) fun _ => keeps_throw (fun _ hs => hs) _

theorem walkOption_cut (hn : ∀ k, n = some k → m < k) :
    ∀ node : Option Node, Cut m n (walkOption 0 (some m) node) (walkOption 0 n node)
  | none => cut_pure _
  | some node => walk_cut hn node

theorem walkAll_cut (hn : ∀ k, n = some k → m < k) :
    ∀ nodes : List Node, Cut m n (walkAll 0 (some m) nodes) (walkAll 0 n nodes)
  | [] => cut_pure _
  | node :: rest => (walk_cut hn node).bind fun _ => walkAll_cut hn rest

end

/-! ## Runs -/

/-- The parameters are bound alike, and no entry is left before the body. -/
theorem run_truncates (hm : 0 ≤ m) (hn : ∀ k, n = some k → m < k) (f : LocatedFunction) :
    Truncates m n (f.run (some m) {}) (f.run n {}) := by
  rw [run_eq, run_eq]
  have hbind := Leaves.act (bindParameters 0 f.function.params f.heap f.params parameterStep)
  have hbody := walkAll_cut hn f.function.body
  show Truncates m n (EStateM.bind _ _ _) (EStateM.bind _ _ _)
  unfold EStateM.bind
  have htrace := hbind (·.size ≤ m) { world := startWorld } hm
  generalize act (bindParameters 0 f.function.params f.heap f.params parameterStep)
    { world := startWorld } = r at htrace
  cases r with
  | ok a s => exact hbody.truncates s htrace
  | error x s => exact .same htrace

end

/-! ## What two runs show -/

/-- Writes stamped after `m` leave the entries up to `m`. -/
theorem Since.filter_eq {m : Int} {w₁ w : World} (h : Since m w₁ w) (id : ScopeId)
    (name : String) :
    (w₁.historyOf id name).filter (fun e => e.step ≤ m) =
      (w.historyOf id name).filter fun e => e.step ≤ m := by
  obtain ⟨l, hl, hlm⟩ := h.entries id name
  have hnil : l.filter (fun e => e.step ≤ m) = [] := by
    rw [List.filter_eq_nil_iff]
    intro e he
    have := hlm e he
    simp only [decide_eq_true_eq]
    omega
  rw [hl, List.filter_append, hnil, List.append_nil]

/-- Runs that agree on the entries up to `m` show the same at every step up to `m`. -/
theorem views_eq (t : TracedFunction) (limit limit' : Option Int) {m k : Int} (hk : k ≤ m)
    (name : String)
    (h : ((t.execute limit).1.world.historyOf 0 name).filter (fun e => e.step ≤ m) =
      ((t.execute limit').1.world.historyOf 0 name).filter fun e => e.step ≤ m) :
    ((t.execute limit).1.world.scopes.snapshot 0 k).lookup name =
        ((t.execute limit').1.world.scopes.snapshot 0 k).lookup name ∧
      ((t.execute limit).1.world.scopes.changesAt 0 k).lookup name =
        ((t.execute limit').1.world.scopes.changesAt 0 k).lookup name := by
  have hle : ∀ e : HistoryEntry, decide (e.step ≤ k) = true → e.step ≤ m := by
    intro e he
    have := of_decide_eq_true he
    omega
  have heq : ∀ e : HistoryEntry, (e.step == k) = true → e.step ≤ m := by
    intro e he
    rw [beq_iff_eq] at he
    omega
  constructor
  · rw [World.lookup_snapshot_eq (execute_chain t limit) (execute_stamped t limit).1.ordered,
      World.lookup_snapshot_eq (execute_chain t limit') (execute_stamped t limit').1.ordered,
      Binding.filter_eq_of_le hle h]
  · rw [World.lookup_changesAt_eq (execute_chain t limit),
      World.lookup_changesAt_eq (execute_chain t limit'), Binding.filter_eq_of_le heq h]

theorem historyOf_execute (t : TracedFunction) (limit : Option Int) (id : ScopeId)
    (name : String) :
    (t.execute limit).1.world.historyOf id name =
      (stateAfter (t.located.run limit {})).world.historyOf id name := by
  unfold World.historyOf
  rw [(t.execute_state limit).2]

/-- Two runs are the same within `m` entries, or the first stops at its limit and the second goes
past it. -/
theorem execute_cases (t : TracedFunction) {m : Int} {n : Option Int} (hm : 0 ≤ m)
    (hn : ∀ k, n = some k → m < k)
    (hend : n = none → (t.execute n).2 ≠ some (.fault .endlessRun)) :
    (t.execute (some m) = t.execute n ∧ (t.execute (some m)).1.steps ≤ m) ∨
      ∃ s₁ location,
        t.located.run (some m) {} = .error (.because (.stepLimit m) location) s₁ ∧
          s₁.trace.size = m ∧ Past m s₁ (stateAfter (t.located.run n {})) := by
  have ht := run_truncates hm hn t.located
  have htrace := (t.execute_state (some m)).1
  generalize h₁ : t.located.run (some m) {} = r₁ at ht htrace ⊢
  generalize h₂ : t.located.run n {} = r₂ at ht
  cases ht with
  | same h =>
    refine .inl ⟨?_, ?_⟩
    · unfold TracedFunction.execute
      rw [h₁, h₂]
    · unfold TracedFunction.steps
      rw [htrace]
      exact h
  | @cut s₁ location _ hsize h => exact .inr ⟨s₁, location, rfl, hsize, h⟩
  | endless h =>
    refine absurd ?_ (hend h)
    rw [TracedFunction.execute_of_fault h₂]

/-- A limit only cuts a run off.  Of two runs of a function, one under the limit `m` and one under a
larger limit or, if it ends, under none, the first has at most `m` entries, which are the first ones
of the second run.  When the second has at most `m` entries, the runs are the same.  Otherwise the
first fails at its limit with exactly `m` entries, and up to step `m` the two have the same
histories and show the same values and changes. -/
theorem execute_limit (t : TracedFunction) {m : Int} {n : Option Int} (hm : 0 ≤ m)
    (hn : ∀ k, n = some k → m < k)
    (hend : n = none → (t.execute n).2 ≠ some (.fault .endlessRun)) :
    let r := (t.execute (some m)).1
    let r' := (t.execute n).1
    r.steps ≤ m ∧
    r.trace.toList = r'.trace.toList.take (min m.toNat r'.steps) ∧
    (r'.steps ≤ m → t.execute (some m) = t.execute n) ∧
    (m < r'.steps →
      (r.status = .failed ∧ (∃ location, r.failure = some ⟨.stepLimit m, location⟩) ∧
        r.steps = m) ∧
      (∀ name, (r.world.historyOf 0 name).filter (fun e => e.step ≤ m) =
        (r'.world.historyOf 0 name).filter fun e => e.step ≤ m) ∧
      ∀ k ≤ m, ∀ name,
        (∀ b b', r.world.scopes.lookup? 0 name = some b →
          r'.world.scopes.lookup? 0 name = some b' → b.valueAt k = b'.valueAt k) ∧
        (r.world.scopes.snapshot 0 k).lookup name = (r'.world.scopes.snapshot 0 k).lookup name ∧
        (r.world.scopes.changesAt 0 k).lookup name =
          (r'.world.scopes.changesAt 0 k).lookup name) := by
  intro r r'
  rcases execute_cases t hm hn hend with ⟨hsame, hsize⟩ | ⟨s₁, location, hrun, hsize, hpast⟩
  · have hr : r' = r := congrArg Prod.fst hsame.symm
    rw [hr]
    refine ⟨hsize, ?_, fun _ => hsame, fun hlt => absurd hsize (Int.not_le.2 hlt)⟩
    have hle : (r.trace.size : Int) ≤ m := hsize
    have hmin : r.trace.toList.length ≤ min m.toNat r.steps := by
      rw [Array.length_toList]
      exact Nat.le_min.2 ⟨by omega, Nat.le_refl _⟩
    rw [List.take_of_length_le hmin]
  · have htrace' := (t.execute_state n).1
    have hr := TracedFunction.execute_of_error hrun
    have htrace : r.trace = s₁.trace := by simp only [r, hr]
    have hsteps : r.steps = m := by rw [TracedFunction.steps, htrace, hsize]
    have hpast' : m < r'.steps := by
      rw [TracedFunction.steps, htrace']
      exact hpast.lt
    have hhistory : ∀ name, (r.world.historyOf 0 name).filter (fun e => e.step ≤ m) =
        (r'.world.historyOf 0 name).filter fun e => e.step ≤ m := by
      intro name
      have hafter : stateAfter (t.located.run (some m) {}) = s₁ := by
        rw [hrun]
        rfl
      rw [historyOf_execute t (some m), historyOf_execute t n, hafter]
      exact hpast.since.filter_eq 0 name
    refine ⟨Int.le_of_eq hsteps, ?_, fun hle => absurd hle (Int.not_le.2 hpast'), fun _ =>
      ⟨⟨by simp only [r, hr], ⟨location, by simp only [r, hr]⟩, hsteps⟩, hhistory,
        fun k hk name => ?_⟩⟩
    · have hprefix := List.prefix_iff_eq_take.1 hpast.trace
      rw [← htrace', Array.length_toList] at hprefix
      have hmin : min m.toNat r'.steps = s₁.trace.size := by omega
      rw [htrace, hmin]
      exact hprefix
    · obtain ⟨hsnapshot, hchanges⟩ := views_eq t (some m) n hk name (hhistory name)
      refine ⟨fun b b' hb hb' => ?_, hsnapshot, hchanges⟩
      rw [Scopes.lookup_snapshot, Scopes.lookup_snapshot] at hsnapshot
      rw [show (t.execute (some m)).1.world.scopes.lookup? 0 name = some b from hb,
        show (t.execute n).1.world.scopes.lookup? 0 name = some b' from hb'] at hsnapshot
      exact hsnapshot

/-- `let a = true; a = false;`, a statement a line. -/
def twoWrites : TracedFunction where
  located := {
    name := "f"
    heap := {}
    params := []
    function := {
      location := .unknown
      id := none
      params := []
      bodyLocation := .unknown
      body := [
        .declaration ⟨1, 0, 1, 0⟩ "let" [.declarator .unknown (.identifier .unknown "a")
          (some (.literal .unknown (.boolean true) "true"))],
        .expressionStatement ⟨2, 0, 2, 0⟩ (.assignment .unknown "=" (.identifier .unknown "a")
          (.literal .unknown (.boolean false) "false"))] } }

/-- Under a limit of one entry the second write is cut off; without a limit the run ends. -/
theorem execute_limit_twoWrites :
    (twoWrites.execute none).1.steps = 2 ∧
      (twoWrites.execute (some 1)).1.trace.toList =
        (twoWrites.execute none).1.trace.toList.take 1 ∧
      (twoWrites.execute (some 1)).1.status = .failed ∧
      ((twoWrites.execute none).1.world.scopes.snapshot 0 1).lookup "a" = some "true" ∧
      ((twoWrites.execute (some 1)).1.world.scopes.snapshot 0 1).lookup "a" = some "true" := by
  have hend : (none : Option Int) = none →
      (twoWrites.execute none).2 ≠ some (.fault .endlessRun) := by
    intro _
    rw [show (twoWrites.execute none).2 = none from rfl]
    nofun
  have hsteps : (twoWrites.execute none).1.steps = 2 := rfl
  obtain ⟨-, htrace, -, hcut⟩ := execute_limit twoWrites (m := 1) (n := none) (by decide) nofun
    hend
  rw [hsteps] at htrace hcut
  obtain ⟨⟨hfailed, -, -⟩, -, hviews⟩ := hcut (by decide)
  have ha : ((twoWrites.execute none).1.world.scopes.snapshot 0 1).lookup "a" = some "true" := by
    decide +kernel
  exact ⟨hsteps, htrace, hfailed, ha, (hviews 1 (by decide) "a").2.1.trans ha⟩

end Chronicle
