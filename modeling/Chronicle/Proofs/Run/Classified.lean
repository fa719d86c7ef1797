import Chronicle.Grammar.Program
import Chronicle.Proofs.Evaluation.Contained
import Chronicle.Proofs.Locate
import Chronicle.Proofs.Run.Limit

/-!
# How runs end

Under a limit of `m` entries the trace stays within `m` (`Within`), and so a loop ends before its
bound on rounds is reached (`contained_rounds`).  A statement with regular nodes keeps this and stops
in no other way than its expressions do (`walk_contained`).  So a run of a located function either
completes, or fails with an error of the run, or ends by a fault that no handler covers
(`run_contained`); the last is the only thing that keeps the other functions from running
(`runFunctions_of_classified`, `runFunctions_of_fault`).
-/

set_option autoImplicit false

namespace Chronicle

open Walk

/-- The trace of a run has at most `m` entries, and none when `m` is negative. -/
def Within (m : Int) (s : RunState) : Prop :=
  s.trace.size ≤ m.toNat

section
variable {m : Int}

/-! ## Parts of statements -/

theorem contained_act {α : Type} {e : Effect α} (he : Safe e) : Contained (Within m) (act e) := by
  intro s hs
  have h := he s.world trivial
  unfold act
  cases hr : e s.world with
  | ok a w => exact hs
  | error x w =>
    rw [hr] at h
    exact h

theorem contained_record (location : Location) (kind : TraceKind) (outcome : Option Bool) :
    Contained (Within m) (record (some m) location kind outcome) := by
  intro s hs
  rcases record_cases (some m) location kind outcome s with ⟨k, -, -, he⟩ | ⟨hlt, he⟩
  · rw [he]
    trivial
  · rw [he]
    have := hlt m rfl
    simp only [Within, Trace.append, Array.size_push]
    omega

theorem contained_keep (v : Value) : Contained (Within m) (keep v) := fun _ hs => hs

theorem contained_test (ahead : Int) (condition : Option Node)
    (hn : ∀ n, condition = some n → n.Everywhere Node.Regular) :
    Contained (Within m) (test 0 ahead condition) := by
  cases condition with
  | none => exact .pure true
  | some node =>
    exact Contained.bind (fun _ hs => hs) fun _ =>
      (contained_act (evaluate_contained 0 _ node (hn node rfl))).bind fun v => .pure v.isTruthy

theorem contained_evaluateAhead (ahead : Int) (node : Option Node)
    (hn : ∀ n, node = some n → n.Everywhere Node.Regular) :
    Contained (Within m) (evaluateAhead 0 ahead node) := by
  cases node with
  | none => exact .pure ()
  | some node =>
    exact Contained.bind (fun _ hs => hs) fun _ =>
      (contained_act (evaluate_contained 0 _ node (hn node rfl))).bind fun _ => .pure ()

theorem contained_declare (declarators : List Node)
    (hn : Node.AllEverywhere Node.Regular declarators) :
    Contained (Within m) (declare 0 declarators) :=
  .forM fun d hd => contained_evaluateAhead 0 (some d) fun _ he => Option.some.inj he ▸ hn d hd

theorem contained_enter (init : Option Node)
    (hn : ∀ n, init = some n → n.Everywhere Node.Regular) :
    Contained (Within m) (enter 0 init) := by
  unfold enter
  split
  · exact contained_declare _ (hn _ rfl).children
  · exact contained_evaluateAhead 0 _ hn

theorem contained_giveBack (argument : Option Node)
    (hn : ∀ n, argument = some n → n.Everywhere Node.Regular) :
    Contained (Within m) (giveBack 0 argument) := by
  cases argument with
  | none => exact contained_keep .undefined
  | some node =>
    refine Contained.bind (fun _ hs => hs) fun step => ?_
    refine (contained_act (evaluate_contained 0 _ node (hn node rfl))).bind fun v => ?_
    cases node.name? with
    | none => exact contained_keep v
    | some name =>
      exact (contained_act (Safe.assign 0 name v step none)).bind fun _ => contained_keep v

/-! ## Loops -/

/-- Rounds that each leave an entry before they ask for another end within their bound. -/
theorem contained_rounds {round : Walk Bool} (h : Contained (Within m) round)
    (hg : Grows round) : ∀ fuel : Nat,
      Triple (fun s => Within m s ∧ m.toNat < s.trace.size + fuel) (rounds round fuel)
        (fun _ => Within m) fun x _ => x.Allowed
  | 0 => by
    rintro s ⟨hs, hfuel⟩
    exact absurd hs (Nat.not_le.2 hfuel)
  | fuel + 1 => by
    rintro s ⟨hs, hfuel⟩
    have hround : Triple (fun t => Within m t ∧ t.trace.size = s.trace.size) round
        (fun again t => Within m t ∧ (again = true → m.toNat < t.trace.size + fuel))
        fun x _ => x.Allowed :=
      (Triple.and h (hg s.trace.size)).weaken (fun _ ht => ht)
        (fun again t ht => ⟨ht.1, fun ha => by have := ht.2 ha; omega⟩) fun _ _ hx => hx.1
    unfold rounds
    refine hround.bind (fun again => ?_) s ⟨hs, rfl⟩
    cases again with
    | false => exact fun t ht => ht.1
    | true =>
      exact (contained_rounds h hg fuel).weaken (fun t ht => ⟨ht.1, ht.2 rfl⟩)
        (fun _ _ ht => ht) fun _ _ hx => hx

theorem contained_loop {round : Walk Bool} (h : Contained (Within m) round) (hg : Grows round) :
    Contained (Within m) (rounds round (roundLimit (some m))) :=
  (contained_rounds h hg _).weaken
    (fun s hs => ⟨hs, by simp only [roundLimit]; omega⟩) (fun _ _ hs => hs) fun _ _ hx => hx

theorem contained_whileRound {location : Location} {condition body : Node}
    (hcondition : condition.Everywhere Node.Regular)
    (hbody : Contained (Within m) (walk 0 (some m) body)) :
    Contained (Within m) (whileRound 0 (some m) location condition body) := by
  refine (contained_test 1 (some condition) fun n he => ?_).bind fun outcome => ?_
  · exact Option.some.inj he ▸ hcondition
  · exact (contained_record _ _ _).bind fun _ => .ite (hbody.bind fun _ => .pure _) (.pure _)

theorem contained_forRound {location : Location} {condition update : Option Node} {body : Node}
    (hcondition : ∀ n, condition = some n → n.Everywhere Node.Regular)
    (hupdate : ∀ n, update = some n → n.Everywhere Node.Regular)
    (hbody : Contained (Within m) (walk 0 (some m) body)) :
    Contained (Within m) (forRound 0 (some m) location condition update body) := by
  refine (contained_test 0 condition hcondition).bind fun outcome => .ite ?_ (.pure outcome)
  exact hbody.bind fun _ => (contained_evaluateAhead 1 update hupdate).bind fun _ =>
    (contained_record _ _ _).bind fun _ => .pure outcome

/-! ## Statements -/

mutual

/-- A statement with regular nodes stays within the limit and stops, if it stops, in a way that is
allowed. -/
theorem walk_contained : ∀ node : Node, node.Everywhere Node.Regular →
    Contained (Within m) (walk 0 (some m) node)
  | .declaration location _ declarators, hn =>
    (contained_record _ _ _).bind fun _ => contained_declare declarators hn.children
  | .ifStatement location condition consequent alternate, hn => by
    have hconsequent := walk_contained consequent (hn.child (by simp [Node.children]))
    have halternate := walkOption_contained alternate fun n he =>
      hn.child (by simp [Node.children, he])
    refine (contained_test 1 (some condition) fun n he => hn.child ?_).bind fun outcome => ?_
    · simp [Node.children, Option.some.inj he]
    · exact (contained_record _ _ _).bind fun _ => .ite hconsequent halternate
  | .whileStatement location condition body, hn => by
    rw [walk_while]
    have hbody := walk_contained body (hn.child (by simp [Node.children]))
    exact contained_loop (contained_whileRound (hn.child (by simp [Node.children])) hbody)
      (grows_whileRound (some m) location body condition)
  | .forStatement location init condition update body, hn => by
    rw [walk_for]
    have hbody := walk_contained body (hn.child (by simp [Node.children]))
    have hround : Contained (Within m) (forRound 0 (some m) location condition update body) :=
      contained_forRound (fun n he => hn.child (by simp [Node.children, he]))
        (fun n he => hn.child (by simp [Node.children, he])) hbody
    refine (contained_record _ _ _).bind fun _ => ?_
    exact (contained_enter init fun n he => hn.child (by simp [Node.children, he])).bind fun _ =>
      contained_loop hround (grows_forRound (some m) location body condition update)
  | .expressionStatement location expression, hn =>
    (contained_record _ _ _).bind fun _ => contained_evaluateAhead 0 (some expression) fun n he =>
      hn.child (by simp [Node.children, Option.some.inj he])
  | .returnStatement location argument, hn => by
    rw [walk_return]
    exact (contained_record _ _ _).bind fun _ =>
      contained_giveBack argument fun n he => hn.child (by simp [Node.children, he])
  | .continueStatement .., _ => contained_record _ _ _
  | .block _ body, hn => walkAll_contained body hn.children
  | .program .., _ | .functionDeclaration .., _ | .declarator .., _ | .identifier .., _
  | .thisValue .., _ | .literal .., _ | .array .., _ | .property .., _ | .object .., _ | .new .., _
  | .update .., _ | .unary .., _ | .binary .., _ | .assignment .., _ | .member .., _ | .call .., _
  | .functionExpression .., _ | .arrowFunction .., _ | .unsupported .., _ => .throw trivial

theorem walkOption_contained : ∀ node : Option Node,
    (∀ n, node = some n → n.Everywhere Node.Regular) →
    Contained (Within m) (walkOption 0 (some m) node)
  | none, _ => .pure ()
  | some node, hn => walk_contained node (hn node rfl)

theorem walkAll_contained : ∀ nodes : List Node, Node.AllEverywhere Node.Regular nodes →
    Contained (Within m) (walkAll 0 (some m) nodes)
  | [], _ => .pure ()
  | node :: rest, hn =>
    (walk_contained node hn.head).bind fun _ => walkAll_contained rest hn.tail

end

/-! ## Runs -/

theorem safe_bindParameters (declared : List Node) (source : Heap) (specs : List ParameterSpec)
    (step : Int) : Safe (bindParameters 0 declared source specs step) := by
  unfold bindParameters
  cases checkParameters declared specs with
  | error e => exact .throw trivial
  | ok _ =>
    refine .forM fun spec _ => Contained.bind (fun _ _ => trivial) fun v => ?_
    exact Safe.define 0 spec.name v step (some spec)

theorem run_contained {f : LocatedFunction}
    (hbody : Node.AllEverywhere Node.Regular f.function.body) :
    Contained (Within m) (f.run (some m)) := by
  refine (contained_act ?_).bind fun _ => walkAll_contained _ hbody
  exact (Safe.newRecord []).bind fun receiver =>
    (Safe.define 0 thisName receiver parameterStep none).bind fun _ => safe_bindParameters _ _ _ _

end

namespace TracedFunction

/-- A run that ends accounted for: completed, or failed with its error kept. -/
def Classified (r : TracedFunction × Option Stop) : Prop :=
  (r.2 = none ∧ r.1.status = .completed ∧ r.1.failure = none) ∨
    ∃ e, r.2 = some (.error e) ∧ r.1.status = .failed ∧ r.1.failure = some e

/-- A run that ends by a fault: its function counts as not run. -/
def EndsBy (r : TracedFunction × Option Stop) (f : Fault) : Prop :=
  r.2 = some (.fault f) ∧ r.1.status = .pending ∧ r.1.failure = none

/-- A run is classified, unless its walk ends with a fault. -/
theorem execute_ends (t : TracedFunction) (limit : Option Int) :
    Classified (t.execute limit) ∨
      ∃ f s, t.located.run limit {} = .error (.fault f) s ∧ EndsBy (t.execute limit) f := by
  unfold execute
  cases t.located.run limit {} with
  | ok a s => exact .inl (.inl ⟨rfl, rfl, rfl⟩)
  | error x s =>
    cases x with
    | error e => exact .inl (.inr ⟨e, rfl, rfl, rfl⟩)
    | fault f => exact .inr ⟨f, s, rfl, rfl, rfl, rfl⟩

theorem execute_classified {t : TracedFunction}
    (hbody : Node.AllEverywhere Node.Regular t.located.function.body) (m : Int) :
    Classified (t.execute (some m)) ∨
      ∃ f, f.isUnhandled = true ∧ EndsBy (t.execute (some m)) f := by
  rcases t.execute_ends (some m) with h | ⟨f, s, hrun, hf⟩
  · exact .inl h
  · have h := run_contained (m := m) hbody {} (Nat.zero_le _)
    rw [hrun] at h
    exact .inr ⟨f, h, hf⟩

theorem endsBy_of_stop {t : TracedFunction} {limit : Option Int} {f : Fault}
    (h : (t.execute limit).2 = some (.fault f)) : EndsBy (t.execute limit) f := by
  rcases t.execute_ends limit with (⟨hstop, -⟩ | ⟨e, hstop, -⟩) | ⟨g, s, -, hg⟩
  · cases hstop.symm.trans h
  · cases hstop.symm.trans h
  · cases hg.1.symm.trans h
    exact hg

end TracedFunction

/-! ## Running several functions -/

theorem runFunction_of_classified {t : TracedFunction} {limit : Option Int}
    (h : TracedFunction.Classified (t.execute limit)) (log : Array Notice) :
    ∃ failure log', runFunction t limit log = .ok ((t.execute limit).1, failure) log' := by
  unfold runFunction
  rcases h with ⟨hstop, -⟩ | ⟨e, hstop, -⟩
  · generalize t.execute limit = r at hstop
    obtain ⟨t', stop⟩ := r
    cases hstop
    exact ⟨none, _, rfl⟩
  · generalize t.execute limit = r at hstop
    obtain ⟨t', stop⟩ := r
    cases hstop
    exact ⟨some e, _, rfl⟩

/-- A run that is classified lets the next function run. -/
theorem runFunctions_cons_of_classified {t : TracedFunction} {limit : Option Int}
    (h : TracedFunction.Classified (t.execute limit)) (ts : List TracedFunction)
    (log : Array Notice) :
    ∃ log', runFunctions limit (t :: ts) log =
      (runFunctions limit ts >>= fun rest => pure ((t.execute limit).1 :: rest)) log' := by
  obtain ⟨failure, log', hr⟩ := runFunction_of_classified h log
  exact ⟨log', bind_of_ok hr⟩

/-- Functions whose runs are classified are all run. -/
theorem runFunctions_of_classified {limit : Option Int} : ∀ {ts : List TracedFunction},
    (∀ t ∈ ts, TracedFunction.Classified (t.execute limit)) → ∀ log : Array Notice,
      ∃ log', runFunctions limit ts log = .ok (ts.map fun t => (t.execute limit).1) log'
  | [], _, log => ⟨log, rfl⟩
  | t :: ts, h, log => by
    obtain ⟨log₁, h₁⟩ := runFunctions_cons_of_classified (h t List.mem_cons_self) ts log
    obtain ⟨log₂, h₂⟩ := runFunctions_of_classified
      (fun u hu => h u (List.mem_cons_of_mem t hu)) log₁
    exact ⟨log₂, h₁.trans (bind_of_ok h₂)⟩

theorem runFunction_of_fault {t : TracedFunction} {limit : Option Int} {f : Fault}
    (h : TracedFunction.EndsBy (t.execute limit) f) (log : Array Notice) :
    ∃ log', runFunction t limit log = .error (.fault f) log' := by
  obtain ⟨hstop, -⟩ := h
  unfold runFunction
  generalize t.execute limit = r at hstop
  obtain ⟨t', stop⟩ := r
  cases hstop
  exact ⟨_, rfl⟩

/-- The first run that ends by a fault ends the whole. -/
theorem runFunctions_of_fault {limit : Option Int} {t : TracedFunction} {f : Fault}
    (hf : TracedFunction.EndsBy (t.execute limit) f) (after : List TracedFunction) :
    ∀ before : List TracedFunction,
      (∀ u ∈ before, TracedFunction.Classified (u.execute limit)) → ∀ log : Array Notice,
        ∃ log', runFunctions limit (before ++ t :: after) log = .error (.fault f) log'
  | [], _, log => by
    obtain ⟨log', h⟩ := runFunction_of_fault hf log
    exact ⟨log', bind_of_error h⟩
  | u :: before, h, log => by
    obtain ⟨log₁, h₁⟩ :=
      runFunctions_cons_of_classified (h u List.mem_cons_self) (before ++ t :: after) log
    obtain ⟨log₂, h₂⟩ := runFunctions_of_fault hf after before
      (fun v hv => h v (List.mem_cons_of_mem u hv)) log₁
    exact ⟨log₂, h₁.trans (bind_of_error h₂)⟩

/-- Under a limit, every run of every function located in a source ends classified, or by one of the
few faults that no handler covers: a number in it is written or read with too many digits, has no
double or no integer, a text of digits is no numeral, a length is out of reach, or a value contains
itself.  Runs that are classified do not keep the others from running: when all runs are, tracing
the source gives every function after its run.  The first run that is not ends it all, by its
fault. -/
theorem runs_classified (parse : SourceParser) (source : String) (log : Array Notice) (m : Int)
    (fs : List TracedFunction) (log' : Array Notice)
    (hfs : locateSource parse source log = .ok fs log') :
    (∀ t ∈ fs, TracedFunction.Classified (t.execute (some m)) ∨
      ∃ f, f.isUnhandled = true ∧ TracedFunction.EndsBy (t.execute (some m)) f) ∧
    ∀ name,
      ((∀ t ∈ named name fs, TracedFunction.Classified (t.execute (some m))) →
        ∃ stats log₁, traceSource parse source name (some m) log =
          .ok ((named name fs).map fun t => (t.execute (some m)).1, stats) log₁) ∧
      ∀ before t after f, named name fs = before ++ t :: after →
        (∀ u ∈ before, TracedFunction.Classified (u.execute (some m))) →
        TracedFunction.EndsBy (t.execute (some m)) f →
          ∃ log₁, traceSource parse source name (some m) log = .error (.fault f) log₁ := by
  refine ⟨fun t ht => TracedFunction.execute_classified (fresh_of_located hfs t ht).regular m,
    fun name => ?_⟩
  obtain ⟨stats, htrace⟩ := traceSource_eq parse source name (some m) log
  rw [htrace, bind_of_ok hfs]
  constructor
  · intro h
    obtain ⟨log₁, h₁⟩ := runFunctions_of_classified h log'
    exact ⟨_, log₁, bind_of_ok h₁⟩
  · intro before t after f hnamed hbefore hf
    obtain ⟨log₁, h₁⟩ := runFunctions_of_fault hf after before hbefore log'
    rw [hnamed]
    exact ⟨log₁, bind_of_error h₁⟩

/-- A function that asks for the character of a text at a position. -/
def charAtSource (position : String) : String :=
  "/**\n * @param \x7bString\x7d s = \"a\"\n */\nfunction f(s) \x7b\n  return s.charAt(" ++
    position ++ ");\n\x7d\n"

/-- At a position that is no number the call fails, the run with it, and tracing goes on. -/
theorem runs_classified_nan :
    ∃ t log', locateSource Tree.ofSource (charAtSource "0 / 0") #[] = .ok [t] log' ∧
      TracedFunction.Classified (t.execute (some 10)) ∧ (t.execute (some 10)).1.status = .failed ∧
      ∃ stats log₁, traceSource Tree.ofSource (charAtSource "0 / 0") "" (some 10) #[] =
        .ok ([(t.execute (some 10)).1], stats) log₁ := by
  have hrun : ((locateSource Tree.ofSource (charAtSource "0 / 0")).run' #[]).map
      (List.map fun t => (t.execute (some 10)).1.status) = some [.failed] := by
    decide +kernel
  obtain ⟨t, log', hl, ht⟩ := located_of_map hrun
  obtain ⟨hends, htrace⟩ := runs_classified Tree.ofSource (charAtSource "0 / 0") #[] 10 [t] log' hl
  have hclassified : TracedFunction.Classified (t.execute (some 10)) := by
    refine (hends t List.mem_cons_self).resolve_right ?_
    rintro ⟨f, -, -, hpending, -⟩
    cases ht.symm.trans hpending
  refine ⟨t, log', hl, hclassified, ht, (htrace "").1 fun u hu => ?_⟩
  exact List.mem_singleton.1 hu ▸ hclassified

/-- At an infinite position the same call ends the run by a fault, and tracing with it. -/
theorem charAt_infinite :
    ∃ t log' log₁, locateSource Tree.ofSource (charAtSource "1 / 0") #[] = .ok [t] log' ∧
      TracedFunction.EndsBy (t.execute (some 10)) .infinityToInteger ∧
      ¬ TracedFunction.Classified (t.execute (some 10)) ∧
      traceSource Tree.ofSource (charAtSource "1 / 0") "" (some 10) #[] =
        .error (.fault .infinityToInteger) log₁ := by
  have hrun : ((locateSource Tree.ofSource (charAtSource "1 / 0")).run' #[]).map
      (List.map fun t => (t.execute (some 10)).2) = some [some (.fault .infinityToInteger)] := by
    decide +kernel
  obtain ⟨t, log', hl, ht⟩ := located_of_map hrun
  have hends := TracedFunction.endsBy_of_stop ht
  obtain ⟨stats, htrace⟩ := traceSource_eq Tree.ofSource (charAtSource "1 / 0") "" (some 10) #[]
  obtain ⟨log₁, h₁⟩ := runFunctions_of_fault hends [] []
    (fun _ h => absurd h List.not_mem_nil) log'
  refine ⟨t, log', log₁, hl, hends, ?_, ?_⟩
  · rintro (⟨hstop, -⟩ | ⟨e, hstop, -⟩)
    · cases hstop.symm.trans ht
    · cases hstop.symm.trans ht
  · rw [htrace, bind_of_ok hl]
    exact bind_of_error h₁

end Chronicle
