import Chronicle.Grammar.Program
import Chronicle.Proofs.ParameterDoc.Normal
import Chronicle.Proofs.Run.Lasting
import Chronicle.Proofs.Run.Watched

/-!
# Runs keep numbers in normal form

When the literals of a function and the values that its parameters start with are normal
(`LocatedFunction.Normal`), so is every state that a run of it passes through, every value that an
expression gives on the way, and the value that the run returns.  The functions located in a source
are normal (`normal_of_located`), so in tracing a source no other numbers come up (`runs_normal`).
-/

set_option autoImplicit false

namespace Chronicle

namespace KeepsNormal

variable {h : Heap}

/-! ## Parts of statements -/

theorem steps : KeepsNormal RunState.view h Walk.steps anything :=
  fun _ hs _ => ⟨hs, .refl _, trivial⟩

/-- An entry changes the trace alone. -/
theorem record (limit : Option Int) (location : Location) (kind : TraceKind)
    (outcome : Option Bool) :
    KeepsNormal RunState.view h (Walk.record limit location kind outcome) anything := by
  intro s hs _
  rcases record_cases limit location kind outcome s with ⟨m, -, -, he⟩ | ⟨-, he⟩
  · rw [he]
    exact ⟨hs, .refl _⟩
  · rw [he]
    exact ⟨⟨hs.bindings, hs.returned⟩, .refl _, trivial⟩

theorem keep {v : Value} (hv : h.Normal v) :
    KeepsNormal RunState.view h (Walk.keep v) anything :=
  fun _ hs hh => ⟨⟨hs.bindings, hh v hv⟩, .refl _, trivial⟩

/-- Rounds keep what one round keeps, from whatever heap it starts. -/
theorem rounds {round : Watch Bool} (hr : ∀ g, KeepsNormal Watched.view g round anything) :
    ∀ fuel h, KeepsNormal Watched.view h (Watch.rounds round fuel) anything
  | 0, _ => throw _
  | fuel + 1, h => by
    unfold Watch.rounds
    exact (hr h).bind fun again g _ _ => ite (rounds hr fuel g) (done _)

section
variable (scope : ScopeId)

theorem test (ahead : Int) (condition : Option Node)
    (hn : Node.AllEverywhere Node.NormalLiteral condition.toList) :
    KeepsNormal Watched.view h (Watch.test scope ahead condition) anything := by
  cases condition with
  | none => exact done true
  | some node =>
    exact (look steps).bind fun step g _ _ =>
      (evaluate_normal scope _ node hn.head g).bind fun _ _ _ _ => done _

theorem evaluateAhead (ahead : Int) (node : Option Node)
    (hn : Node.AllEverywhere Node.NormalLiteral node.toList) :
    KeepsNormal Watched.view h (Watch.evaluateAhead scope ahead node) anything := by
  cases node with
  | none => exact done ()
  | some node =>
    exact (look steps).bind fun step g _ _ =>
      (evaluate_normal scope _ node hn.head g).bind fun _ _ _ _ => done _

theorem declare {declarators : List Node}
    (hn : Node.AllEverywhere Node.NormalLiteral declarators) :
    KeepsNormal Watched.view h (Watch.declare scope declarators) anything :=
  forM fun d hd _ _ => evaluateAhead scope 0 (some d) (.toList fun _ he => by cases he; exact hn d hd)

theorem enter (init : Option Node)
    (hn : Node.AllEverywhere Node.NormalLiteral init.toList) :
    KeepsNormal Watched.view h (Watch.enter scope init) anything := by
  unfold Watch.enter
  split
  · exact declare scope hn.head.children
  · exact evaluateAhead scope 0 _ hn

theorem giveBack {argument : Option Node}
    (hn : Node.AllEverywhere Node.NormalLiteral argument.toList) :
    KeepsNormal Watched.view h (Watch.giveBack scope argument) anything := by
  cases argument with
  | none => exact look (keep Heap.normal_undefined)
  | some node =>
    refine (look steps).bind fun step g _ _ => ?_
    refine (evaluate_normal scope step node hn.head g).bind fun v _ _ hv => ?_
    dsimp only
    cases node.name? with
    | some name =>
      exact (effect (assign scope name step none hv)).bind fun _ _ hg _ => look (keep (hg v hv))
    | none => exact look (keep hv)

end

/-- The copy of a normal value is normal, and so stays all that was normal before. -/
theorem copied {source : Heap} {v : Value} (hv : source.Normal v) :
    KeepsNormal World.view h (Chronicle.copied source v) Heap.Normal := by
  intro w hw _
  have hupholds := w.heap.upholds_append source
  exact ⟨hw.withHeap hupholds, hupholds, hv.shift w.heap⟩

end KeepsNormal

/-! ## Statements -/

section
variable (scope : ScopeId) (limit : Option Int)

open KeepsNormal (look record done)

mutual

/-- A statement whose literals are normal passes through normal states. -/
theorem walk_normal : ∀ node : Node, node.Everywhere Node.NormalLiteral →
    ∀ h, KeepsNormal Watched.view h (Watch.walk scope limit node) anything
  | .declaration .., hn, _ =>
    (look (record _ _ _ _)).bind fun _ _ _ _ => .declare scope hn.children
  | .ifStatement _ condition consequent alternate, hn, _ => by
    have hcondition := hn.child (c := condition) (by simp [Node.children])
    have hconsequent := walk_normal consequent (hn.child (by simp [Node.children]))
    have halternate := walkOption_normal alternate fun c hc =>
      hn.child (by simp [Node.children, hc])
    refine (KeepsNormal.test scope 1 (some condition) (.cons hcondition .nil)).bind fun _ _ _ _ => ?_
    exact (look (record _ _ _ _)).bind fun _ g _ _ => .ite (hconsequent g) (halternate g)
  | .whileStatement _ condition body, hn, h => by
    have hcondition := hn.child (c := condition) (by simp [Node.children])
    have hbody := walk_normal body (hn.child (by simp [Node.children]))
    refine .rounds (fun g => ?_) _ h
    refine (KeepsNormal.test scope 1 (some condition) (.cons hcondition .nil)).bind fun _ _ _ _ => ?_
    exact (look (record _ _ _ _)).bind fun _ g _ _ =>
      .ite ((hbody g).bind fun _ _ _ _ => done _) (done _)
  | .forStatement _ init condition update body, hn, h => by
    have hbody := walk_normal body (hn.child (by simp [Node.children]))
    have hparts := hn.children
    simp only [Node.children] at hparts
    have hinit : Node.AllEverywhere Node.NormalLiteral init.toList :=
      fun c hc => hparts c (by simp [hc])
    have hcondition : Node.AllEverywhere Node.NormalLiteral condition.toList :=
      fun c hc => hparts c (by simp [hc])
    have hupdate : Node.AllEverywhere Node.NormalLiteral update.toList :=
      fun c hc => hparts c (by simp [hc])
    refine (look (record _ _ _ _)).bind fun _ _ _ _ => (KeepsNormal.enter scope init hinit).bind
      fun _ g _ _ => .rounds (fun g => ?_) _ g
    refine (KeepsNormal.test scope 0 condition hcondition).bind fun _ g _ _ => .ite ?_ (done _)
    exact (hbody g).bind fun _ _ _ _ => (KeepsNormal.evaluateAhead scope 1 update hupdate).bind
      fun _ _ _ _ => (look (record _ _ _ _)).bind fun _ _ _ _ => done _
  | .expressionStatement .., hn, _ =>
    (look (record _ _ _ _)).bind fun _ _ _ _ => .evaluateAhead scope 0 _ hn.children
  | .returnStatement .., hn, _ =>
    (look (record _ _ _ _)).bind fun _ _ _ _ => .giveBack scope hn.children
  | .continueStatement .., _, _ => look (record _ _ _ _)
  | .block _ body, hn, h => walkAll_normal body hn.children h
  | .program .., _, _ | .functionDeclaration .., _, _ | .declarator .., _, _
  | .identifier .., _, _ | .thisValue .., _, _ | .literal .., _, _ | .array .., _, _
  | .property .., _, _ | .object .., _, _ | .new .., _, _ | .update .., _, _ | .unary .., _, _
  | .binary .., _, _ | .assignment .., _, _ | .member .., _, _ | .call .., _, _
  | .functionExpression .., _, _ | .arrowFunction .., _, _ | .unsupported .., _, _ => .throw _

theorem walkOption_normal :
    ∀ node : Option Node, (∀ n, node = some n → n.Everywhere Node.NormalLiteral) →
      ∀ h, KeepsNormal Watched.view h (Watch.walkOption scope limit node) anything
  | none, _, _ => done _
  | some node, hn, h => walk_normal node (hn node rfl) h

theorem walkAll_normal :
    ∀ nodes : List Node, Node.AllEverywhere Node.NormalLiteral nodes →
      ∀ h, KeepsNormal Watched.view h (Watch.walkAll scope limit nodes) anything
  | [], _, _ => done _
  | node :: rest, hn, h =>
    (walk_normal node hn.head h).bind fun _ g _ _ => walkAll_normal rest hn.tail g

end

end

/-! ## Runs -/

theorem bindParameters_normal (scope : ScopeId) (declared : List Node) {source : Heap}
    {specs : List ParameterSpec} (hspecs : ∀ spec ∈ specs, source.Normal spec.initial)
    (step : Int) (h : Heap) :
    KeepsNormal Watched.view h (Watch.bindParameters scope declared source specs step)
      anything := by
  unfold Watch.bindParameters
  cases checkParameters declared specs with
  | error e => exact .throw _
  | ok u =>
    refine .forM fun spec hspec g _ => ?_
    exact (KeepsNormal.effect (.copied (hspecs spec hspec))).bind fun v _ _ hv =>
      .effect (.define scope spec.name step hv _)

theorem watch_normal {f : LocatedFunction}
    (hbody : Node.AllEverywhere Node.NormalLiteral f.function.body)
    (hspecs : ∀ spec ∈ f.params, f.heap.Normal spec.initial) (limit : Option Int) (h : Heap) :
    KeepsNormal Watched.view h (f.watch limit) anything := by
  have hreceiver : KeepsNormal World.view h (Effect.newRecord []) Heap.Normal :=
    .newRecord fun _ hf => absurd hf List.not_mem_nil
  exact (KeepsNormal.effect hreceiver).bind fun _ _ _ hr =>
    (KeepsNormal.effect (.define 0 thisName parameterStep hr none)).bind fun _ g _ _ =>
      (bindParameters_normal 0 _ hspecs parameterStep g).bind fun _ g _ _ =>
        walkAll_normal 0 limit _ hbody g

/-- The value of an image is normal in its heap. -/
def Image.Normal (i : Image) : Prop :=
  i.heap.Normal i.value

/-- The literals of a function and the values that its parameters start with are normal. -/
structure LocatedFunction.Normal (f : LocatedFunction) : Prop where
  body : Node.AllEverywhere Node.NormalLiteral f.function.body
  params : ∀ spec ∈ f.params, f.heap.Normal spec.initial

/-- What a run of a normal function leaves, however it ends, is normal. -/
theorem execute_normal {t : TracedFunction} (ht : t.located.Normal) (limit : Option Int) :
    (t.execute limit).1.world.Normal ∧
      (t.returned.Normal → (t.execute limit).1.returned.Normal) := by
  have hshows : Watched.forget (t.located.watch limit .start) = t.located.run limit {} :=
    watch_shows t.located limit .start
  have hends := watch_normal ht.body ht.params limit {} .start Watched.start_normal (.refl _)
  cases hw : t.located.watch limit .start with
  | ok u w =>
    rw [hw] at hends hshows
    rw [TracedFunction.execute_of_ok hshows.symm]
    exact ⟨hends.1.state.bindings, fun _ => hends.1.state.returned⟩
  | error x w =>
    rw [hw] at hends hshows
    cases x with
    | error e =>
      rw [TracedFunction.execute_of_error hshows.symm]
      exact ⟨hends.1.state.bindings, fun _ => hends.1.state.returned⟩
    | fault f =>
      rw [TracedFunction.execute_of_fault hshows.symm]
      exact ⟨hends.1.state.bindings, id⟩

/-- All that is seen of a run of a normal function is normal. -/
theorem seen_normal {f : LocatedFunction} (hf : f.Normal) (limit : Option Int) :
    ∀ x ∈ (stateAfter (f.watch limit .start)).seen, x.Normal := by
  have hends := watch_normal hf.body hf.params limit {} .start Watched.start_normal (.refl _)
  cases hw : f.watch limit .start with
  | ok u w | error x w =>
    rw [hw] at hends
    exact hends.1.seen

/-- A function that is located in a source is normal: its literals were read, and its parameters
start with the values of an annotation. -/
theorem normal_of_located {parse : SourceParser} {source : String} {fs : List TracedFunction}
    {log log' : Array Notice} (h : locateSource parse source log = .ok fs log') :
    ∀ t ∈ fs, t.located.Normal ∧ t.returned.Normal := by
  obtain ⟨comments, docs, log₁, log₂, hdocs, hfs⟩ := located_found h
  intro t ht
  obtain ⟨hpending, hbody, doc, hdoc, hheap, hparams⟩ := hfs t ht
  have hnormal := readAnnotations_normal parse comments log₁ docs log₂ hdocs doc hdoc
  refine ⟨⟨hbody.mono fun n hn => hn.normalLiteral, ?_⟩, ?_⟩
  · rw [hheap, hparams]
    exact hnormal
  · rw [hpending]
    exact Heap.normal_undefined

/-- Numbers stay in normal form.  The functions located in a source have normal literals and
parameters.  In a run of any function that has, under any limit and however it ends, every state that
it passes through and every value that an expression gives on the way is normal, and so are the
bindings and the returned value that it leaves.  A zero with a minus sign is not normal. -/
theorem runs_normal :
    (∀ parse source log fs log', locateSource parse source log = .ok fs log' →
      ∀ t ∈ fs, t.located.Normal ∧ t.returned.Normal) ∧
    (∀ (t : TracedFunction) (limit : Option Int), t.located.Normal →
      Watched.forget (t.located.watch limit .start) = t.located.run limit {} ∧
      (∀ x ∈ (stateAfter (t.located.watch limit .start)).seen, x.Normal) ∧
      (t.execute limit).1.world.Normal ∧
      (t.returned.Normal → (t.execute limit).1.returned.Normal)) ∧
    ¬ Number.negativeZero.IsNormal := by
  refine ⟨fun _ _ _ _ _ h => normal_of_located h, fun t limit ht => ⟨?_, ?_, ?_⟩,
    Number.not_isNormal_negativeZero⟩
  · exact watch_shows t.located limit .start
  · exact seen_normal ht limit
  · exact execute_normal ht limit

/-- A function that appends the number of a text to a sequence and returns it from there; the text is
a zero with a minus sign. -/
def signedSource : String :=
  "/**\n * @param \x7bString\x7d s = \"-0\"\n * @param \x7bArray\x7d xs = [1]\n */\n" ++
    "function f(s, xs) \x7b\n  xs.push(+s);\n  return xs[1];\n\x7d\n"

/-- The number that is appended, and returned, is the integer zero. -/
theorem runs_normal_signed :
    ∃ t log, locateSource Tree.ofSource signedSource #[] = .ok [t] log ∧ t.located.Normal ∧
      (t.execute none).1.world.Normal ∧
      (t.execute none).1.returned.value = .int 0 ∧ (t.execute none).1.returned.Normal := by
  have hrun : ((locateSource Tree.ofSource signedSource).run' #[]).map
      (List.map fun t => (t.execute none).1.returned.value) = some [.int 0] := by
    decide +kernel
  obtain ⟨t, log, hl, hzero⟩ := located_of_map hrun
  obtain ⟨ht, hreturned⟩ := runs_normal.1 _ _ _ _ _ hl t List.mem_cons_self
  obtain ⟨-, -, hworld, hkeeps⟩ := runs_normal.2.1 t none ht
  exact ⟨t, log, hl, ht, hworld, hzero, hkeeps hreturned⟩

end Chronicle
