import Chronicle.Proofs.Run.Lasting
import Mathlib.Computability.Language

/-!
# Traces as words of a grammar

Without its steps, an entry of a trace is a letter and a trace is a word.  `Node.flow` gives every
statement the words that its control flow allows: one letter for a plain statement, products for
sequences, sums for branches, stars for loops.

`Writes L e`: the computation `e` adds a word of `L` to the trace, and the beginning of one when it
stops.  `walk_writes` says that a statement writes the words that its flow allows.
-/

set_option autoImplicit false

/-- Sets of words over an alphabet. -/
abbrev WordsOver (α : Type) : Type := Language α

namespace Chronicle

open Walk
open scoped Computability

/-- A visited point without its step. -/
structure Letter where
  line : Int
  kind : TraceKind
  outcome : Option Bool := none
  deriving DecidableEq, Repr

/-- An entry without its step. -/
def TraceEntry.letter (e : TraceEntry) : Letter :=
  ⟨e.line, e.kind, e.outcome⟩

/-- The letters of a trace. -/
def Trace.word (trace : Trace) : List Letter :=
  trace.toList.map TraceEntry.letter

/-- The one word that is a letter. -/
def Letter.only (l : Letter) : WordsOver Letter := {[l]}

mutual

/-- The words that the control flow of a statement allows; the empty one for a node that is not
walked. -/
def Node.flow : Node → WordsOver Letter
  | .declaration location .. => (Letter.mk location.startLine .declaration none).only
  | .ifStatement location _ consequent alternate =>
    (Letter.mk location.startLine .ifStatement (some true)).only * consequent.flow +
      (Letter.mk location.startLine .ifStatement (some false)).only * Node.flowOption alternate
  | .whileStatement location _ body =>
    ((Letter.mk location.startLine .whileStatement (some true)).only * body.flow)∗ *
      (Letter.mk location.startLine .whileStatement (some false)).only
  | .forStatement location _ _ _ body =>
    (Letter.mk location.startLine .forStatement none).only *
      (body.flow * (Letter.mk location.startLine .forStatement none).only)∗
  | .expressionStatement location _ =>
    (Letter.mk location.startLine .expressionStatement none).only
  | .returnStatement location _ => (Letter.mk location.startLine .returnStatement none).only
  | .continueStatement location _ => (Letter.mk location.startLine .continueStatement none).only
  | .block _ body => Node.flowAll body
  | _ => 1
termination_by structural node => node

/-- The words of a statement that may be missing. -/
def Node.flowOption : Option Node → WordsOver Letter
  | none => 1
  | some node => node.flow

/-- The words of statements in order. -/
def Node.flowAll : List Node → WordsOver Letter
  | [] => 1
  | node :: rest => node.flow * Node.flowAll rest

end

/-! ## Words -/

theorem Letter.mem_only (l : Letter) : [l] ∈ l.only := rfl

section
variable {L M : WordsOver Letter}

theorem exists_mem_mul (hL : ∃ w, w ∈ L) (hM : ∃ w, w ∈ M) : ∃ w, w ∈ L * M := by
  obtain ⟨v, hv⟩ := hL
  obtain ⟨w, hw⟩ := hM
  exact ⟨v ++ w, Language.append_mem_mul hv hw⟩

/-- One more round in front. -/
theorem mem_star_mul_of_mul {w : List Letter} (hw : w ∈ L * (L∗ * M)) : w ∈ L∗ * M := by
  have hle : L * (L∗ * M) ≤ L∗ * M := by
    rw [← mul_assoc]
    exact mul_le_mul_left mul_kstar_le_kstar M
  exact hle hw

/-- No round at all. -/
theorem mem_star_mul {w : List Letter} (hw : w ∈ M) : w ∈ L∗ * M :=
  Language.append_mem_mul (Language.nil_mem_kstar L) hw

end

mutual

/-- The control flow of a statement allows some word. -/
theorem exists_mem_flow : ∀ node : Node, ∃ w, w ∈ node.flow
  | .declaration .. | .expressionStatement .. | .returnStatement .. | .continueStatement .. =>
    ⟨_, Letter.mem_only _⟩
  | .ifStatement _ _ consequent _ => by
    obtain ⟨w, hw⟩ := exists_mem_mul ⟨_, Letter.mem_only _⟩ (exists_mem_flow consequent)
    exact ⟨w, .inl hw⟩
  | .whileStatement .. => ⟨_, mem_star_mul (Letter.mem_only _)⟩
  | .forStatement .. => exists_mem_mul ⟨_, Letter.mem_only _⟩ ⟨_, Language.nil_mem_kstar _⟩
  | .block _ body => exists_mem_flowAll body
  | .program .. | .functionDeclaration .. | .declarator .. | .identifier .. | .thisValue ..
  | .literal .. | .array .. | .property .. | .object .. | .new .. | .update .. | .unary ..
  | .binary .. | .assignment .. | .member .. | .call .. | .functionExpression ..
  | .arrowFunction .. | .unsupported .. => ⟨[], Language.nil_mem_one⟩

theorem exists_mem_flowAll : ∀ nodes : List Node, ∃ w, w ∈ Node.flowAll nodes
  | [] => ⟨[], Language.nil_mem_one⟩
  | node :: rest => exists_mem_mul (exists_mem_flow node) (exists_mem_flowAll rest)

end

theorem exists_mem_flowOption (node : Option Node) : ∃ w, w ∈ Node.flowOption node := by
  cases node with
  | none => exact ⟨[], Language.nil_mem_one⟩
  | some node => exact exists_mem_flow node

/-! ## Computations that write words -/

/-- `e` adds a word of `L a` to the trace when its result is `a`, and the beginning of a word of
some `L a` when it stops. -/
def Writes {α : Type} (L : α → WordsOver Letter) (e : Walk α) : Prop :=
  ∀ s, match e s with
    | .ok a s' => ∃ w ∈ L a, s'.trace.word = s.trace.word ++ w
    | .error _ s' => ∃ a w rest, w ++ rest ∈ L a ∧ s'.trace.word = s.trace.word ++ w

section
variable {α β : Type}

/-- Words follow each other.  When the first part stops, the rest could have written something. -/
theorem Writes.bind {e : Walk α} {f : α → Walk β} {L : α → WordsOver Letter}
    {M : α → β → WordsOver Letter} {N : β → WordsOver Letter} (he : Writes L e)
    (hf : ∀ a, Writes (M a) (f a)) (hM : ∀ a, ∃ b w, w ∈ M a b)
    (hN : ∀ a b w, w ∈ L a * M a b → w ∈ N b) : Writes N (e >>= f) := by
  intro s
  have h := he s
  show match EStateM.bind e f s with
    | .ok b s' => ∃ w ∈ N b, s'.trace.word = s.trace.word ++ w
    | .error _ s' => ∃ b w rest, w ++ rest ∈ N b ∧ s'.trace.word = s.trace.word ++ w
  unfold EStateM.bind
  cases hr : e s with
  | error x s' =>
    rw [hr] at h
    obtain ⟨a, w, rest, hw, hs⟩ := h
    obtain ⟨b, v, hv⟩ := hM a
    refine ⟨b, w, rest ++ v, hN a b _ ?_, hs⟩
    rw [← List.append_assoc]
    exact Language.append_mem_mul hw hv
  | ok a s' =>
    rw [hr] at h
    obtain ⟨w, hw, hs⟩ := h
    have h' := hf a s'
    dsimp only
    cases hr' : f a s' with
    | ok b s'' =>
      rw [hr'] at h'
      obtain ⟨v, hv, hs'⟩ := h'
      exact ⟨w ++ v, hN a b _ (Language.append_mem_mul hw hv), by
        rw [hs', hs, List.append_assoc]⟩
    | error x s'' =>
      rw [hr'] at h'
      obtain ⟨b, v, rest, hv, hs'⟩ := h'
      refine ⟨b, w ++ v, rest, hN a b _ ?_, by rw [hs', hs, List.append_assoc]⟩
      rw [List.append_assoc]
      exact Language.append_mem_mul hw hv

theorem Writes.seq {e : Walk α} {f : α → Walk Unit} {L M : WordsOver Letter}
    (he : Writes (fun _ => L) e) (hf : ∀ a, Writes (fun _ => M) (f a)) (hM : ∃ w, w ∈ M) :
    Writes (fun _ => L * M) (e >>= f) :=
  he.bind hf (fun _ => ⟨(), hM⟩) fun _ _ _ hw => hw

theorem Writes.mono {e : Walk α} {L M : α → WordsOver Letter} (he : Writes L e)
    (hLM : ∀ a w, w ∈ L a → w ∈ M a) : Writes M e := by
  intro s
  have h := he s
  cases hr : e s with
  | ok a s' =>
    rw [hr] at h
    obtain ⟨w, hw, hs⟩ := h
    exact ⟨w, hLM a w hw, hs⟩
  | error x s' =>
    rw [hr] at h
    obtain ⟨a, w, rest, hw, hs⟩ := h
    exact ⟨a, w, rest, hLM a _ hw, hs⟩

/-- A computation whose result is known. -/
theorem Writes.returning {e : Walk Unit} {L : α → WordsOver Letter} {a : α}
    (he : Writes (fun _ => L a) e) : Writes L (e >>= fun _ => pure a) := by
  intro s
  have h := he s
  show match EStateM.bind e (fun _ => pure a) s with
    | .ok b s' => ∃ w ∈ L b, s'.trace.word = s.trace.word ++ w
    | .error _ s' => ∃ b w rest, w ++ rest ∈ L b ∧ s'.trace.word = s.trace.word ++ w
  unfold EStateM.bind
  cases hr : e s with
  | ok u s' =>
    rw [hr] at h
    exact h
  | error x s' =>
    rw [hr] at h
    obtain ⟨u, w, rest, hw, hs⟩ := h
    exact ⟨a, w, rest, hw, hs⟩

/-- Without an entry, nothing is written. -/
theorem Leaves.writes [Inhabited α] {e : Walk α} (h : Leaves e) : Writes (fun _ => 1) e := by
  intro s
  have ht := h (·.word = s.trace.word) s rfl
  cases hr : e s with
  | ok a s' =>
    rw [hr] at ht
    exact ⟨[], Language.nil_mem_one, by rw [List.append_nil]; exact ht⟩
  | error x s' =>
    rw [hr] at ht
    exact ⟨default, [], [], Language.nil_mem_one, by rw [List.append_nil]; exact ht⟩

theorem Leaves.bind_writes [Inhabited α] {e : Walk α} {f : α → Walk β} {L : β → WordsOver Letter}
    (he : Leaves e) (hf : ∀ a, Writes L (f a)) (hL : ∃ b w, w ∈ L b) : Writes L (e >>= f) :=
  he.writes.bind hf (fun _ => hL) fun _ b _ hw => one_mul (L b) ▸ hw

theorem writes_record (limit : Option Int) (location : Location) (kind : TraceKind)
    (outcome : Option Bool) :
    Writes (fun _ => (Letter.mk location.startLine kind outcome).only)
      (record limit location kind outcome) := by
  intro s
  rcases record_cases limit location kind outcome s with ⟨m, -, -, he⟩ | ⟨-, he⟩
  · rw [he]
    exact ⟨(), [], _, Letter.mem_only _, by rw [List.append_nil]⟩
  · rw [he]
    refine ⟨_, Letter.mem_only _, ?_⟩
    simp [Trace.word, Trace.append, TraceEntry.letter]

/-- A plain statement: its entry, and a part that leaves none. -/
theorem writes_plain (limit : Option Int) (location : Location) (kind : TraceKind)
    {e : Walk Unit} (he : Leaves e) :
    Writes (fun _ => (Letter.mk location.startLine kind none).only)
      (record limit location kind none >>= fun _ => e) :=
  (writes_record limit location kind none).bind (fun _ => he.writes)
    (fun _ => ⟨(), [], Language.nil_mem_one⟩) fun _ _ _ hw => by rwa [mul_one] at hw

end

/-- Rounds write `L true` while they ask for another, and `L false` in the last one. -/
theorem writes_rounds {round : Walk Bool} {L : Bool → WordsOver Letter} (h : Writes L round)
    (hL : ∃ w, w ∈ L false) :
    ∀ fuel, Writes (fun _ => (L true)∗ * L false) (rounds round fuel) := by
  obtain ⟨q, hq⟩ := hL
  intro fuel
  induction fuel with
  | zero =>
    intro s
    exact ⟨(), [], q, mem_star_mul hq, by rw [List.append_nil]⟩
  | succ fuel ih =>
    -- what follows a round depends on its result: the other rounds, or nothing
    refine h.bind (M := fun again _ => bif again then (L true)∗ * L false else 1)
      (fun again => ?_) (fun again => ⟨(), ?_⟩) fun again _ w hw => ?_
    · cases again with
      | false => exact (Leaves.pure ()).writes
      | true => exact ih
    · cases again with
      | false => exact ⟨[], Language.nil_mem_one⟩
      | true => exact ⟨q, mem_star_mul hq⟩
    · cases again with
      | false =>
        rw [cond_false, mul_one] at hw
        exact mem_star_mul hw
      | true => exact mem_star_mul_of_mul hw

/-! ## Statements -/

section
variable (scope : ScopeId) (limit : Option Int)

/-- What a round of a `while` writes: its letter, and the body where the condition holds. -/
def whileWords (location : Location) (body : Node) : Bool → WordsOver Letter
  | true => (Letter.mk location.startLine .whileStatement (some true)).only * body.flow
  | false => (Letter.mk location.startLine .whileStatement (some false)).only

/-- What a round of a `for` writes: where the condition holds, the body and its letter. -/
def forWords (location : Location) (body : Node) : Bool → WordsOver Letter
  | true => body.flow * (Letter.mk location.startLine .forStatement none).only
  | false => 1

theorem writes_whileRound (location : Location) (condition body : Node)
    (hbody : Writes (fun _ => body.flow) (walk scope limit body)) :
    Writes (whileWords location body) (whileRound scope limit location condition body) := by
  refine (Leaves.test scope 1 (some condition)).bind_writes (fun outcome => ?_)
    ⟨false, _, Letter.mem_only _⟩
  have hrecord := writes_record limit location .whileStatement (some outcome)
  cases outcome with
  | false =>
    have hround : Writes (fun _ => whileWords location body false) _ := hrecord
    exact hround.returning
  | true =>
    have hround : Writes (fun _ => whileWords location body true) _ :=
      hrecord.seq (fun _ => hbody) (exists_mem_flow body)
    have hreturn := hround.returning
    rw [bind_assoc] at hreturn
    exact hreturn

theorem writes_forRound (location : Location) (condition update : Option Node) (body : Node)
    (hbody : Writes (fun _ => body.flow) (walk scope limit body)) :
    Writes (forWords location body) (forRound scope limit location condition update body) := by
  refine (Leaves.test scope 0 condition).bind_writes (fun outcome => ?_)
    ⟨false, [], Language.nil_mem_one⟩
  cases outcome with
  | false =>
    have hround : Writes (fun _ => forWords location body false) (pure ()) :=
      (Leaves.pure ()).writes
    exact hround.returning
  | true =>
    have hrecord := writes_record limit location .forStatement none
    have hupdate := (Leaves.evaluateAhead scope 1 update).bind_writes (fun _ => hrecord)
      ⟨(), _, Letter.mem_only _⟩
    have hround : Writes (fun _ => forWords location body true) _ :=
      hbody.seq (fun _ => hupdate) ⟨_, Letter.mem_only _⟩
    have hreturn := hround.returning
    simp only [bind_assoc] at hreturn
    exact hreturn

mutual

/-- A statement writes a word that its control flow allows. -/
theorem walk_writes : ∀ node : Node, Writes (fun _ => node.flow) (walk scope limit node)
  | .declaration location _ declarators =>
    writes_plain limit location .declaration (Leaves.declare scope declarators)
  | .ifStatement location condition consequent alternate => by
    rw [walk_if]
    refine (Leaves.test scope 1 (some condition)).bind_writes (fun outcome => ?_)
      ⟨(), exists_mem_flow _⟩
    have hrecord := writes_record limit location .ifStatement (some outcome)
    cases outcome with
    | true =>
      have hbranch := hrecord.seq (fun _ => walk_writes consequent) (exists_mem_flow consequent)
      exact hbranch.mono fun _ _ hw => .inl hw
    | false =>
      have hbranch := hrecord.seq (fun _ => walkOption_writes alternate)
        (exists_mem_flowOption alternate)
      exact hbranch.mono fun _ _ hw => .inr hw
  | .whileStatement location condition body =>
    writes_rounds (writes_whileRound scope limit location condition body (walk_writes body))
      ⟨_, Letter.mem_only _⟩ _
  | .forStatement location init condition update body => by
    rw [walk_for]
    have hrounds := writes_rounds
      (writes_forRound scope limit location condition update body (walk_writes body))
      ⟨[], Language.nil_mem_one⟩ (roundLimit limit)
    have hstar : (forWords location body true)∗ * forWords location body false =
        (forWords location body true)∗ := mul_one _
    rw [hstar] at hrounds
    have hloop := (Leaves.enter scope init).bind_writes (fun _ => hrounds)
      ⟨(), _, Language.nil_mem_kstar _⟩
    exact (writes_record limit location .forStatement none).seq (fun _ => hloop)
      ⟨_, Language.nil_mem_kstar _⟩
  | .expressionStatement location expression =>
    writes_plain limit location .expressionStatement
      (Leaves.evaluateAhead scope 0 (some expression))
  | .returnStatement location argument => by
    rw [walk_return]
    exact writes_plain limit location .returnStatement (Leaves.giveBack scope argument)
  | .continueStatement location _ => writes_record limit location .continueStatement none
  | .block _ body => walkAll_writes body
  | .program .. | .functionDeclaration .. | .declarator .. | .identifier .. | .thisValue ..
  | .literal .. | .array .. | .property .. | .object .. | .new .. | .update .. | .unary ..
  | .binary .. | .assignment .. | .member .. | .call .. | .functionExpression ..
  | .arrowFunction .. | .unsupported .. =>
    Leaves.writes fun _ => keeps_throw (fun _ hs => hs) _

theorem walkOption_writes :
    ∀ node : Option Node, Writes (fun _ => Node.flowOption node) (walkOption scope limit node)
  | none => (Leaves.pure ()).writes
  | some node => walk_writes node

theorem walkAll_writes :
    ∀ nodes : List Node, Writes (fun _ => Node.flowAll nodes) (walkAll scope limit nodes)
  | [] => (Leaves.pure ()).writes
  | node :: rest =>
    (walk_writes node).seq (fun _ => walkAll_writes rest) (exists_mem_flowAll rest)

end

end

/-! ## Runs -/

/-- A trace whose entries are counted from one. -/
def Trace.Numbered (t : Trace) : Prop :=
  ∀ i e, t[i]? = some e → e.step = i + 1

theorem numbered_steady : Steady 0 (fun s => s.trace.Numbered) (fun s => s.trace.Numbered)
    fun s => s.trace.Numbered := by
  refine Steady.ofTrace 0 (P := Trace.Numbered) fun {t line kind outcome} ht i e he => ?_
  rw [Trace.append, Array.getElem?_push] at he
  split at he
  · rename_i hi
    cases he
    rw [hi]
  · exact ht i e he

/-- The trace of a run is a word that the body's control flow allows, or the beginning of one. -/
theorem run_writes (f : LocatedFunction) (limit : Option Int) :
    match f.run limit {} with
    | .ok _ s => s.trace.word ∈ Node.flowAll f.function.body
    | .error _ s => ∃ rest, s.trace.word ++ rest ∈ Node.flowAll f.function.body := by
  have hbind := Leaves.act (bindParameters 0 f.function.params f.heap f.params parameterStep)
  have h := hbind.bind_writes (fun _ => walkAll_writes 0 limit f.function.body)
    ⟨(), exists_mem_flowAll _⟩ { world := startWorld }
  rw [← run_eq f limit] at h
  cases hr : f.run limit {} with
  | ok u s =>
    rw [hr] at h
    obtain ⟨w, hw, hs⟩ := h
    show s.trace.word ∈ _
    rw [hs]
    exact hw
  | error x s =>
    rw [hr] at h
    obtain ⟨u, w, rest, hw, hs⟩ := h
    refine ⟨rest, ?_⟩
    rw [hs]
    exact hw

/-- The trace is a word of the body's control flow.  Without its steps, the trace of a completed run
is a word that the control flow of the body allows, the trace of any run is the beginning of such a
word, and the entries are counted from one. -/
theorem execute_control_flow (t : TracedFunction) (limit : Option Int) :
    let r := (t.execute limit).1
    (r.status = .completed → r.trace.word ∈ Node.flowAll t.located.function.body) ∧
    (∃ rest, r.trace.word ++ rest ∈ Node.flowAll t.located.function.body) ∧
    ∀ i e, r.trace[i]? = some e → e.step = i + 1 := by
  intro r
  have hnumbered := run_keeps numbered_steady (fun i e he => by simp at he) t.located limit {} rfl
  have hword := run_writes t.located limit
  have htrace : r.trace = (stateAfter (t.located.run limit {})).trace := (t.execute_state limit).1
  refine ⟨fun hc => ?_, ?_⟩
  · obtain ⟨s, hr⟩ := TracedFunction.run_of_completed hc
    rw [htrace]
    rw [hr] at hword ⊢
    exact hword
  · rw [htrace]
    cases hr : t.located.run limit {} with
    | ok u s =>
      rw [hr] at hnumbered hword
      exact ⟨⟨[], by rw [List.append_nil]; exact hword⟩, hnumbered⟩
    | error x s =>
      rw [hr] at hnumbered hword
      exact ⟨hword, hnumbered⟩

end Chronicle
