import Chronicle.Proofs.Run.Statement

/-!
# Walks end under a limit

`course` says how a statement can go when nothing bounds the rounds of its loops: from which state,
by how many completed rounds, to which end.  A loop that never ends has no course.

`Ends m c e cost`: from every state, the computation `e` goes the one way that the course `c` has,
each completed round of it leaves an entry, and the trace stays within `m` entries.  There is one rule
for each way of putting courses together; for loops it needs that a round which asks for another has
left an entry (`ends_loop`).  So under a limit every statement ends, by at most as many rounds as
there are entries, and `walkAll`, whose loops are bounded, computes its end (`walkAll_ends`).
-/

set_option autoImplicit false

namespace Chronicle

open Walk

/-- What can happen from a state on: the number of completed rounds of loops, and the end. -/
abbrev Course (α : Type) := RunState → Nat → EStateM.Result Stop RunState α → Prop

namespace Course

variable {α β : Type}

/-- A computation without loops. -/
inductive Of (e : Walk α) : Course α
  | intro (s : RunState) : Of e s 0 (e s)

/-- What follows the result of a course; a stop ends both. -/
inductive Then (c : Course α) (f : α → Course β) : Course β
  | stop {s t : RunState} {n : Nat} {x : Stop} (h : c s n (.error x t)) : Then c f s n (.error x t)
  | next {s t : RunState} {n k : Nat} {a : α} {r : EStateM.Result Stop RunState β}
    (h : c s n (.ok a t)) (rest : f a t k r) : Then c f s (n + k) r

/-- Rounds of a loop, as long as each one asks for another. -/
inductive Loop (round : Course Bool) : Course Unit
  | stop {s t : RunState} {n : Nat} {x : Stop} (h : round s n (.error x t)) :
    Loop round s n (.error x t)
  | last {s t : RunState} {n : Nat} (h : round s n (.ok false t)) : Loop round s n (.ok () t)
  | again {s t : RunState} {n k : Nat} {r : EStateM.Result Stop RunState Unit}
    (h : round s n (.ok true t)) (rest : Loop round t k r) : Loop round s (n + 1 + k) r

end Course

open Course

mutual

/-- How a statement can go.  Forms without statements below them have no loops. -/
def course (scope : ScopeId) (limit : Option Int) : Node → Course Unit
  | .ifStatement location condition consequent alternate =>
    Then (Of (test scope 1 (some condition))) fun outcome =>
    Then (Of (record limit location .ifStatement (some outcome))) fun _ =>
    if outcome then course scope limit consequent else courseOption scope limit alternate
  | .whileStatement location condition body =>
    Loop <|
      Then (Of (test scope 1 (some condition))) fun outcome =>
      Then (Of (record limit location .whileStatement (some outcome))) fun _ =>
      if outcome then Then (course scope limit body) fun _ => Of (pure outcome)
      else Of (pure outcome)
  | .forStatement location init condition update body =>
    Then (Of (record limit location .forStatement none)) fun _ =>
    Then (Of (enter scope init)) fun _ =>
    Loop <|
      Then (Of (test scope 0 condition)) fun outcome =>
      if outcome then
        Then (course scope limit body) fun _ =>
        Then (Of (evaluateAhead scope 1 update)) fun _ =>
        Then (Of (record limit location .forStatement none)) fun _ => Of (pure outcome)
      else Of (pure outcome)
  | .block _ body => courseAll scope limit body
  | other => Of (walk scope limit other)
termination_by structural node => node

/-- How a statement that may be missing can go. -/
def courseOption (scope : ScopeId) (limit : Option Int) : Option Node → Course Unit
  | none => Of (pure ())
  | some node => course scope limit node

/-- How statements in order can go. -/
def courseAll (scope : ScopeId) (limit : Option Int) : List Node → Course Unit
  | [] => Of (pure ())
  | node :: rest => Then (course scope limit node) fun _ => courseAll scope limit rest

end

/-! ## Entries -/

section
variable {m : Int}

/-- At least `k` entries are added between two states, none of them past the limit `m`. -/
def Records (m : Int) (s : RunState) (k : Nat) (t : RunState) : Prop :=
  ∃ new, t.trace.toList = s.trace.toList ++ new ∧ k ≤ new.length ∧
    new.length ≤ m.toNat - s.trace.size

namespace Records

variable {s t u : RunState} {k l : Nat}

theorem of_trace_eq (h : t.trace = s.trace) : Records m s 0 t :=
  ⟨[], by rw [h, List.append_nil], Nat.zero_le _, Nat.zero_le _⟩

theorem mono (h : Records m s k t) (hl : l ≤ k) : Records m s l t := by
  obtain ⟨new, hnew, hk, hle⟩ := h
  exact ⟨new, hnew, Nat.le_trans hl hk, hle⟩

theorem size_eq {new : List TraceEntry} (h : t.trace.toList = s.trace.toList ++ new) :
    t.trace.size = s.trace.size + new.length := by
  simpa using congrArg List.length h

theorem trans (h : Records m s k t) (h' : Records m t l u) : Records m s (k + l) u := by
  obtain ⟨new, hnew, hk, hle⟩ := h
  obtain ⟨new', hnew', hl, hle'⟩ := h'
  rw [size_eq hnew] at hle'
  refine ⟨new ++ new', by rw [hnew', hnew, List.append_assoc], ?_, ?_⟩
  · rw [List.length_append]
    omega
  · rw [List.length_append]
    omega

end Records

/-! ## Rules -/

variable {α β : Type}

/-- Up to the end at least `n` entries are added, and `cost` more at a result. -/
def RecordsTo (m : Int) (cost : α → Nat) (s : RunState) (n : Nat) :
    EStateM.Result Stop RunState α → Prop
  | .ok a t => Records m s (n + cost a) t
  | .error _ t => Records m s n t

/-- The one thing that the course can do from `s` is to end in `r`, by `n` completed rounds, each of
which has left an entry. -/
structure EndsIn (m : Int) (c : Course α) (cost : α → Nat) (s : RunState) (n : Nat)
    (r : EStateM.Result Stop RunState α) : Prop where
  goes : c s n r
  only : ∀ {k r'}, c s k r' → k = n ∧ r' = r
  records : RecordsTo m cost s n r

/-- From every state, the course ends where the computation does. -/
def Ends (m : Int) (c : Course α) (e : Walk α) (cost : α → Nat) : Prop :=
  ∀ s, ∃ n, EndsIn m c cost s n (e s)

theorem Of.eq {e : Walk α} {s : RunState} {k : Nat} {r : EStateM.Result Stop RunState α}
    (h : Of e s k r) : k = 0 ∧ r = e s := by
  cases h
  exact ⟨rfl, rfl⟩

/-- A computation is a course by itself when its rounds are not counted. -/
theorem Ends.of {c : Course α} {e : Walk α} {cost cost' : α → Nat} (h : Ends m c e cost)
    (hcost : ∀ a, cost' a ≤ cost a) : Ends m (Of e) e cost' := by
  intro s
  obtain ⟨n, -, -, hrecords⟩ := h s
  refine ⟨0, .intro s, Of.eq, ?_⟩
  cases hr : e s with
  | ok a t =>
    rw [hr] at hrecords
    have := hcost a
    exact Records.mono hrecords (by omega)
  | error x t =>
    rw [hr] at hrecords
    exact Records.mono hrecords (Nat.zero_le n)

/-- What leaves the trace alone costs nothing. -/
theorem Leaves.ends {e : Walk α} (h : Leaves e) {cost : α → Nat}
    (hcost : ∀ {s a t}, e s = .ok a t → cost a = 0) : Ends m (Of e) e cost := by
  intro s
  have htrace : (stateAfter (e s)).trace = s.trace := (h (· = s.trace)).stateAfter rfl
  refine ⟨0, .intro s, Of.eq, ?_⟩
  cases hr : e s with
  | ok a t =>
    rw [hr] at htrace
    show Records m s (0 + cost a) t
    rw [hcost hr]
    exact .of_trace_eq htrace
  | error x t =>
    rw [hr] at htrace
    exact .of_trace_eq htrace

theorem ends_pure {a : α} {cost : α → Nat} (h : cost a = 0) :
    Ends m (Of (pure a)) (pure a) cost :=
  (Leaves.pure a).ends fun hb => by cases hb; exact h

/-- An entry is one entry, and is recorded within the limit only. -/
theorem ends_record (location : Location) (kind : TraceKind) (outcome : Option Bool) :
    Ends m (Of (record (some m) location kind outcome)) (record (some m) location kind outcome)
      fun _ => 1 := by
  intro s
  refine ⟨0, .intro s, Of.eq, ?_⟩
  rcases record_cases (some m) location kind outcome s with ⟨k, -, -, he⟩ | ⟨hlt, he⟩
  · rw [he]
    exact .of_trace_eq rfl
  · rw [he]
    have := hlt m rfl
    refine ⟨[⟨s.trace.size + 1, location.startLine, kind, outcome⟩], Array.toList_push,
      Nat.le_refl 1, ?_⟩
    rw [List.length_singleton]
    omega

theorem Ends.bind {c : Course α} {e : Walk α} {f : α → Course β} {g : α → Walk β} {k : Nat}
    {cost' : β → Nat} (he : Ends m c e fun _ => k) (cost : β → Nat)
    (hf : ∀ a, Ends m (f a) (g a) cost) (hcost : ∀ b, cost' b ≤ k + cost b) :
    Ends m (Then c f) (e >>= g) cost' := by
  intro s
  obtain ⟨n, h⟩ := he s
  cases hr : e s with
  | error x t =>
    rw [hr] at h
    rw [bind_of_error hr]
    refine ⟨n, .stop h.goes, fun hrun => ?_, h.records⟩
    cases hrun with
    | stop hx =>
      obtain ⟨rfl, hx⟩ := h.only hx
      cases hx
      exact ⟨rfl, rfl⟩
    | next ha _ => cases (h.only ha).2
  | ok a t =>
    rw [hr] at h
    rw [bind_of_ok hr]
    obtain ⟨n', h'⟩ := hf a t
    have hentries : Records m s (n + k) t := h.records
    refine ⟨n + n', .next h.goes h'.goes, fun hrun => ?_, ?_⟩
    · cases hrun with
      | stop hx => cases (h.only hx).2
      | next ha rest =>
        obtain ⟨rfl, ha⟩ := h.only ha
        cases ha
        obtain ⟨rfl, hr'⟩ := h'.only rest
        exact ⟨rfl, hr'⟩
    · have hrecords := h'.records
      cases hr' : g a t with
      | ok b u =>
        rw [hr'] at hrecords
        have := hcost b
        exact (hentries.trans hrecords).mono (by omega)
      | error x u =>
        rw [hr'] at hrecords
        exact (hentries.trans hrecords).mono (by omega)

theorem Ends.ite {p : Prop} [Decidable p] {c c' : Course α} {e e' : Walk α} {cost : α → Nat}
    (he : p → Ends m c e cost) (he' : ¬ p → Ends m c' e' cost) :
    Ends m (if p then c else c') (if p then e else e') cost := by
  by_cases h : p
  · rw [if_pos h, if_pos h]
    exact he h
  · rw [if_neg h, if_neg h]
    exact he' h

/-! ## Loops -/

/-- One more round, when the rounds after one that leaves an entry end. -/
theorem ends_round {c : Course Bool} {round : Walk Bool} (h : Ends m c round Bool.toNat)
    {fuel : Nat} {s : RunState} (hrest : ∀ t, Records m s 1 t →
      ∃ n, EndsIn m (Loop c) (fun _ => 0) t n (rounds round fuel t)) :
    ∃ n, EndsIn m (Loop c) (fun _ => 0) s n (rounds round (fuel + 1) s) := by
  obtain ⟨n, h⟩ := h s
  unfold rounds
  cases hr : round s with
  | error x t =>
    rw [hr] at h
    rw [bind_of_error hr]
    refine ⟨n, .stop h.goes, fun hrun => ?_, h.records⟩
    cases hrun with
    | stop hx =>
      obtain ⟨rfl, hx⟩ := h.only hx
      cases hx
      exact ⟨rfl, rfl⟩
    | last hb | again hb _ => cases (h.only hb).2
  | ok again t =>
    rw [hr] at h
    rw [bind_of_ok hr]
    cases again with
    | false =>
      refine ⟨n, .last h.goes, fun hrun => ?_, h.records⟩
      cases hrun with
      | last hb =>
        obtain ⟨rfl, ht⟩ := h.only hb
        cases ht
        exact ⟨rfl, rfl⟩
      | stop hb | again hb _ => cases (h.only hb).2
    | true =>
      have hentries : Records m s (n + 1) t := h.records
      obtain ⟨n', h'⟩ := hrest t (hentries.mono (Nat.le_add_left 1 n))
      refine ⟨n + 1 + n', .again h.goes h'.goes, fun hrun => ?_, ?_⟩
      · cases hrun with
        | again hb rest =>
          obtain ⟨rfl, ht⟩ := h.only hb
          cases ht
          obtain ⟨rfl, hr'⟩ := h'.only rest
          exact ⟨rfl, hr'⟩
        | stop hb | last hb => cases (h.only hb).2
      · have hrecords := h'.records
        simp only [if_true]
        cases hr' : rounds round fuel t with
        | ok _ u | error _ u =>
          rw [hr'] at hrecords
          exact hentries.trans hrecords

/-- Rounds that leave an entry before they ask for another end before their bound is reached. -/
theorem ends_rounds {c : Course Bool} {round : Walk Bool} (h : Ends m c round Bool.toNat) :
    ∀ (fuel : Nat) (s : RunState), m.toNat ≤ s.trace.size + fuel →
      ∃ n, EndsIn m (Loop c) (fun _ => 0) s n (rounds round (fuel + 1) s) := by
  intro fuel
  induction fuel with
  | zero =>
    intro s hfuel
    refine ends_round h fun t ⟨new, _, hpos, hle⟩ => ?_
    omega
  | succ fuel ih =>
    intro s hfuel
    refine ends_round h fun t ⟨new, hnew, hpos, hle⟩ => ih t ?_
    rw [Records.size_eq hnew]
    omega

theorem ends_loop {c : Course Bool} {round : Walk Bool} (h : Ends m c round Bool.toNat) :
    Ends m (Loop c) (rounds round (roundLimit (some m))) fun _ => 0 :=
  fun s => ends_rounds h m.toNat s (Nat.le_add_left _ _)

/-! ## Statements -/

section
variable (scope : ScopeId)

theorem ends_test (ahead : Int) (condition : Option Node) :
    Ends m (Of (test scope ahead condition)) (test scope ahead condition) fun _ => 0 :=
  (Leaves.test scope ahead condition).ends fun _ => rfl

/-- An entry, and then something that leaves the trace alone. -/
theorem ends_record_bind {e : Walk Unit} (he : Leaves e) (location : Location) (kind : TraceKind)
    (outcome : Option Bool) :
    Ends m (Of (record (some m) location kind outcome >>= fun _ => e))
      (record (some m) location kind outcome >>= fun _ => e) fun _ => 0 :=
  ((ends_record location kind outcome).bind (fun _ => 0) (fun _ => he.ends fun _ => rfl)
    fun _ => Nat.zero_le _).of fun _ => Nat.le_refl 0

/-- A round of a `while` leaves its entry before its body. -/
theorem ends_whileRound {location : Location} {condition body : Node}
    (hbody : Ends m (course scope (some m) body) (walk scope (some m) body) fun _ => 0) :
    Ends m
      (Then (Of (test scope 1 (some condition))) fun outcome =>
        Then (Of (record (some m) location .whileStatement (some outcome))) fun _ =>
        if outcome then Then (course scope (some m) body) fun _ => Of (pure outcome)
        else Of (pure outcome))
      (whileRound scope (some m) location condition body) Bool.toNat := by
  refine (ends_test scope 1 (some condition)).bind (fun _ => 1) (fun outcome =>
    (ends_record location .whileStatement (some outcome)).bind (fun _ => 0)
      (fun _ => .ite (fun _ => ?_) fun _ => ends_pure rfl) fun _ => Nat.le_refl 1) fun again => ?_
  · exact hbody.bind (fun _ => 0) (fun _ => ends_pure rfl) fun _ => Nat.le_refl 0
  · cases again <;> decide

/-- A round of a `for` leaves its entry after its body. -/
theorem ends_forRound {location : Location} {condition update : Option Node} {body : Node}
    (hbody : Ends m (course scope (some m) body) (walk scope (some m) body) fun _ => 0) :
    Ends m
      (Then (Of (test scope 0 condition)) fun outcome =>
        if outcome then
          Then (course scope (some m) body) fun _ =>
          Then (Of (evaluateAhead scope 1 update)) fun _ =>
          Then (Of (record (some m) location .forStatement none)) fun _ => Of (pure outcome)
        else Of (pure outcome))
      (forRound scope (some m) location condition update body) Bool.toNat := by
  have hupdate : Ends m (Of (evaluateAhead scope 1 update)) (evaluateAhead scope 1 update)
      fun _ => 0 :=
    (Leaves.evaluateAhead scope 1 update).ends fun _ => rfl
  refine (ends_test scope 0 condition).bind Bool.toNat (fun outcome =>
    .ite (fun _ => ?_) fun hfalse => ends_pure ?_) fun again => Nat.le_add_left _ _
  · refine hbody.bind (fun _ => 1) (fun _ => hupdate.bind (fun _ => 1) (fun _ =>
      (ends_record location .forStatement none).bind (fun _ => 0)
        (fun _ => ends_pure rfl) fun _ => Nat.le_refl 1) fun _ => Nat.le_refl 1) fun again => ?_
    cases again <;> decide
  · rw [eq_false_of_ne_true hfalse]
    rfl

mutual

/-- Under a limit, a statement ends. -/
theorem walk_ends : ∀ node : Node,
    Ends m (course scope (some m) node) (walk scope (some m) node) fun _ => 0
  | .declaration _ _ declarators => ends_record_bind (.declare scope declarators) _ _ _
  | .ifStatement location condition consequent alternate =>
    (ends_test scope 1 (some condition)).bind (fun _ => 0) (fun outcome =>
      (ends_record location .ifStatement (some outcome)).bind (fun _ => 0)
        (fun _ => .ite (fun _ => walk_ends consequent) fun _ => walkOption_ends alternate)
        fun _ => Nat.zero_le _) fun _ => Nat.zero_le _
  | .whileStatement _ _ body => ends_loop (ends_whileRound scope (walk_ends body))
  | .forStatement location init condition update body => by
    have hloop : Ends m _ (rounds (forRound scope (some m) location condition update body) _) _ :=
      ends_loop (ends_forRound scope (walk_ends body))
    have henter : Ends m (Of (enter scope init)) (enter scope init) fun _ => 0 :=
      (Leaves.enter scope init).ends fun _ => rfl
    rw [walk_for]
    exact (ends_record location .forStatement none).bind (fun _ => 0)
      (fun _ => henter.bind (fun _ => 0) (fun _ => hloop) fun _ => Nat.zero_le _)
      fun _ => Nat.zero_le _
  | .expressionStatement _ expression =>
    ends_record_bind (.evaluateAhead scope 0 (some expression)) _ _ _
  | .returnStatement location argument => by
    have h := ends_record_bind (m := m) (.giveBack scope argument) location .returnStatement none
    rw [← walk_return] at h
    exact h
  | .continueStatement location _ =>
    (ends_record location .continueStatement none).of fun _ => Nat.zero_le 1
  | .block _ body => walkAll_ends body
  | .program .. | .functionDeclaration .. | .declarator .. | .identifier .. | .thisValue ..
  | .literal .. | .array .. | .property .. | .object .. | .new .. | .update .. | .unary ..
  | .binary .. | .assignment .. | .member .. | .call .. | .functionExpression ..
  | .arrowFunction .. | .unsupported .. =>
    Leaves.ends (fun _ => keeps_throw (fun _ hs => hs) _) fun _ => rfl

theorem walkOption_ends : ∀ node : Option Node,
    Ends m (courseOption scope (some m) node) (walkOption scope (some m) node) fun _ => 0
  | none => ends_pure rfl
  | some node => walk_ends node

theorem walkAll_ends : ∀ nodes : List Node,
    Ends m (courseAll scope (some m) nodes) (walkAll scope (some m) nodes) fun _ => 0
  | [] => ends_pure rfl
  | node :: rest =>
    (walk_ends node).bind (fun _ => 0) (fun _ => walkAll_ends rest) fun _ => Nat.zero_le _

end

end

/-- Under a limit, walking a body ends, from whatever state and in whatever scope: of all that it can
do when nothing bounds the rounds of its loops there is exactly one thing, and `walkAll` computes it.
Every completed round of a loop leaves an entry, no more entries are added than the limit allows, and
none past it. -/
theorem walk_terminates (scope : ScopeId) (m : Int) (body : List Node) (s : RunState) :
    ∃ n, (∀ k r, courseAll scope (some m) body s k r ↔
        k = n ∧ r = walkAll scope (some m) body s) ∧
      ∃ new, (stateAfter (walkAll scope (some m) body s)).trace.toList = s.trace.toList ++ new ∧
        n ≤ new.length ∧ (new.length : Int) ≤ max m 0 ∧
        (s.trace.size + new.length : Int) ≤ max m s.trace.size := by
  obtain ⟨n, hgoes, honly, hrecords⟩ := walkAll_ends (m := m) scope body s
  refine ⟨n, fun k r => ⟨honly, ?_⟩, ?_⟩
  · rintro ⟨rfl, rfl⟩
    exact hgoes
  · obtain ⟨new, hnew, hn, hle⟩ : Records m s n (stateAfter (walkAll scope (some m) body s)) := by
      cases hr : walkAll scope (some m) body s with
      | ok _ t | error _ t =>
        rw [hr] at hrecords
        exact hrecords
    exact ⟨new, hnew, hn, by omega, by omega⟩

end

end Chronicle
