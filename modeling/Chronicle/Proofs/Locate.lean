import Chronicle.Proofs.Locate.Exact
import Chronicle.Proofs.Reading.Regular
import Chronicle.Proofs.Triple
import Chronicle.Tracing

/-!
# Located functions

The functions that are located in a source have not been run, the nodes of their bodies are as they
were read, and their parameters are those of an annotation (`located_found`): locating takes
functions out of the program, and giving them one shape adds a `return` at most.  Tracing a source is
locating its functions and running them (`traceSource_eq`).
-/

set_option autoImplicit false

namespace Chronicle

/-- A function that has not been run, with regular nodes in its body. -/
structure TracedFunction.Fresh (t : TracedFunction) : Prop where
  pending : t = { located := t.located }
  regular : Node.AllEverywhere Node.Regular t.located.function.body

/-! ## Locating in a program -/

theorem Node.Introduces.everywhere {p : Node → Prop} {node fn : Node} {name : String}
    (hi : node.Introduces name fn) (h : node.Everywhere p) : fn.Everywhere p := by
  cases hi with
  | declaration => exact h
  | declarator | assignment => exact h.child (by simp [Node.children])

/-- The body of a function in one shape: its own statements, or the return of its expression. -/
theorem ofNode?_asRead {node : Node} {f : Function} (h : node.Everywhere Node.AsRead)
    (hf : Function.ofNode? node = some f) : Node.AllEverywhere Node.AsRead f.body := by
  have hblock : ∀ {place : Location} {body : List Node},
      Node.block place body ∈ node.children → Node.AllEverywhere Node.AsRead body :=
    fun hc => (h.child hc).children
  cases node with
  | functionDeclaration l id params place body =>
    cases hf
    exact hblock (List.mem_append_right _ List.mem_cons_self)
  | functionExpression l id params place body =>
    cases hf
    exact hblock (List.mem_append_right _ List.mem_cons_self)
  | arrowFunction l params body isExpression =>
    have hbody : body.Everywhere Node.AsRead := h.child (by simp [Node.children])
    cases isExpression with
    | true =>
      cases hf
      exact .cons (.of trivial (.cons hbody .nil)) .nil
    | false =>
      cases body with
      | block place statements =>
        cases hf
        exact hbody.children
      | _ => cases hf
  | _ => cases hf

/-- A function with a body as it was read, and the parameters of one of the annotations. -/
structure LocatedFunction.Found (annotations : List ParameterDoc) (f : LocatedFunction) : Prop where
  body : Node.AllEverywhere Node.AsRead f.function.body
  params : ∃ doc ∈ annotations, f.heap = doc.heap ∧ f.params = doc.params

theorem locateFunctions_found {program : Node} (h : program.Everywhere Node.AsRead)
    (annotations : List ParameterDoc) :
    Yields (locateFunctions program annotations) fun fs => ∀ f ∈ fs, f.Found annotations := by
  intro fs hfs f hf
  obtain ⟨p, n, hn, ⟨fn, hintroduces, hone⟩, doc, habove, hheap, hparams⟩ :=
    introducedBy_of_located hfs hf
  obtain ⟨before, after, rfl, -⟩ := habove
  exact ⟨ofNode?_asRead (hintroduces.everywhere (h.at? hn)) hone, doc, by simp, hheap, hparams⟩

/-! ## Locating in a source -/

variable {parse : SourceParser} {source : String} {log log' : Array Notice}

theorem readProgram_asRead (parse : SourceParser) (source : String) :
    Yields (readProgram parse source) (Node.Everywhere Node.AsRead) := by
  refine .after _ fun t => ?_
  intro program h
  cases ht : t.program source.toUTF8 with
  | error f =>
    rw [ht] at h
    cases h
  | ok p =>
    rw [ht] at h
    cases h
    exact program_yields _ t _ ht

theorem ok_of_lift {α : Type} {e : Except Failure α} {a : α}
    (h : Annotating.lift e log = .ok a log') : e = .ok a := by
  cases e with
  | ok b =>
    cases h
    rfl
  | error x => cases h

theorem gives_lift {α : Type} {e : Except Failure α} {p : α → Prop} (h : Yields e p) :
    Gives (Annotating.lift e) p :=
  fun _ a _ ha => h a (ok_of_lift ha)

/-- The functions located in a source have not been run, and they are found in its program under the
annotations of its comments. -/
theorem located_found {fs : List TracedFunction}
    (h : locateSource parse source log = .ok fs log') :
    ∃ comments docs log₁ log₂, readAnnotations parse comments log₁ = .ok docs log₂ ∧
      ∀ t ∈ fs, t = { located := t.located } ∧ t.located.Found docs := by
  obtain ⟨program, log₁, hprogram, h⟩ := ok_of_bind h
  obtain ⟨docs, log₂, hdocs, h⟩ := ok_of_bind h
  obtain ⟨found, log₃, hfound, h⟩ := ok_of_bind h
  cases h
  have hasRead := readProgram_asRead parse source program (ok_of_lift hprogram)
  refine ⟨program.comments, docs, log₁, log₂, hdocs, fun t ht => ?_⟩
  obtain ⟨f, hf, rfl⟩ := List.mem_map.1 ht
  exact ⟨rfl, locateFunctions_found hasRead docs found (ok_of_lift hfound) f hf⟩

theorem fresh_of_located {fs : List TracedFunction}
    (h : locateSource parse source log = .ok fs log') : ∀ t ∈ fs, t.Fresh := by
  obtain ⟨comments, docs, log₁, log₂, -, hfs⟩ := located_found h
  intro t ht
  obtain ⟨hpending, hfound⟩ := hfs t ht
  exact ⟨hpending, hfound.body.mono fun n hn => hn.regular⟩

/-- A source that gives one value for its functions has one function. -/
theorem located_of_map {α : Type} {g : TracedFunction → α} {a : α}
    (h : ((locateSource parse source).run' #[]).map (List.map g) = some [a]) :
    ∃ t log, locateSource parse source #[] = .ok [t] log ∧ g t = a := by
  obtain ⟨fs, hfs, hmap⟩ := Option.map_eq_some_iff.1 h
  obtain ⟨log, hl⟩ := ok_of_run' hfs
  obtain ⟨t, rest, rfl, ht, hrest⟩ := List.map_eq_cons_iff.1 hmap
  obtain rfl := List.map_eq_nil_iff.1 hrest
  exact ⟨t, log, hl, ht⟩

/-! ## Tracing -/

/-- Tracing a source runs the functions located in it that have the name. -/
theorem traceSource_eq (parse : SourceParser) (source name : String) (limit : Option Int)
    (log : Array Notice) :
    ∃ stats : List TracedFunction → Statistics, traceSource parse source name limit log =
      (locateSource parse source >>= fun fs => runFunctions limit (named name fs) >>=
        fun functions => pure (functions, stats functions)) log := by
  unfold locateSource traceSource
  simp only [bind, EStateM.bind]
  cases Annotating.lift (readProgram parse source) log with
  | error e s => exact ⟨fun _ => {}, rfl⟩
  | ok program s =>
    dsimp only
    cases readAnnotations parse program.comments s with
    | error e s => exact ⟨fun _ => {}, rfl⟩
    | ok docs s =>
      dsimp only
      cases Annotating.lift (locateFunctions program docs) s with
      | error e s => exact ⟨fun _ => {}, rfl⟩
      | ok found s => exact ⟨_, rfl⟩

end Chronicle
