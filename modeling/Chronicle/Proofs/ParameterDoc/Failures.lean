import Chronicle.Grammar.Program
import Chronicle.Proofs.Evaluation.Contained
import Chronicle.Proofs.ParameterDoc.Layout
import Chronicle.Proofs.ParameterDoc.Normal

/-!
# Failures of annotations

An annotation fails at the first line that is not accepted, after lines that were.  `Draft.Refusal`
lists the ways in which a draft refuses a line: an error of the annotation, a range that is empty or
has a bound beyond all doubles, a fault that nothing handles while a value is written or coerced,
and a path below a parameter of another kind than `Object` (`addLine_refusal`).  The values of a line
may not be read before that (`LineFailure`, `addParameter_failure`).

`Comment.annotated?_failure` puts these together for a comment.
-/

set_option autoImplicit false

namespace Chronicle

/-- A sequence that stops does so in its first part or after it. -/
theorem error_of_bind {ε σ α β : Type} {e : EStateM ε σ α} {f : α → EStateM ε σ β} {s s' : σ} {x : ε}
    (h : (e >>= f) s = .error x s') :
    e s = .error x s' ∨ ∃ a t, e s = .ok a t ∧ f a t = .error x s' := by
  change EStateM.bind e f s = .error x s' at h
  unfold EStateM.bind at h
  cases he : e s with
  | ok a t =>
    rw [he] at h
    exact .inr ⟨a, t, rfl, h⟩
  | error y t =>
    rw [he] at h
    cases h
    exact .inl rfl

namespace Draft

/-! ## Lines that are refused -/

/-- The ways in which a draft refuses a line. -/
inductive Refusal (d : Draft) (kind : ParameterKind) (name : String) : Failure → Prop
  | document (e : DocError) : Refusal d kind name (.doc e)
  | emptyRange {lo hi : Float} (hkind : kind = .number)
    (hempty : (Number.float hi).less (.float lo) = true) :
    Refusal d kind name (.spec (.emptyRange name lo hi))
  | boundTooLarge (hkind : kind = .number) : Refusal d kind name (.spec .boundTooLarge)
  | unhandled {f : Fault} (hf : f.isUnhandled = true) : Refusal d kind name (.fault f)
  /-- The base of the path is a parameter of another kind than `Object`. -/
  | misplaced {base : String} {keys : List String} {spec : ParameterSpec} (hkind : kind = .object)
    (hname : Path.split name = base :: keys)
    (hfind : d.params.find? (·.name == base) = some spec) (hspec : spec.kind ≠ .object) :
    Refusal d kind name (.fault (if keys.length == 1 then .wrongForm else .noProperty))

section
variable {d d' d₀ : Draft} {kind : ParameterKind} {name : String} {v : Value} {x : Failure}

theorem Refusal.writing {f : Fault} (hf : f.OfWriting) : Refusal d kind name (.fault f) :=
  .unhandled hf.isUnhandled

theorem read_refusal {α : Type} {f : Heap → Except Fault α} (hf : Raises Fault.OfWriting (f d.heap))
    (h : Draft.read f d = .error x d') : Refusal d₀ kind name x := by
  unfold Draft.read at h
  rw [get_bind] at h
  cases hr : f d.heap with
  | ok y =>
    rw [hr] at h
    cases h
  | error e =>
    rw [hr] at h
    cases h
    exact .writing (hf e hr)

theorem refuse_refusal {α : Type} {expected shown : String}
    (h : (refuse shown expected v : Drafting α) d = .error x d') : Refusal d₀ kind name x := by
  rcases error_of_bind h with h | ⟨_, _, -, h⟩
  · exact read_refusal (d.heap.text_raises v) h
  · cases h
    exact .document _

theorem number_refusal (h : number v name d = .error x d') : Refusal d kind name x := by
  have hread : Draft.read (·.toNumber v) d = .error x d' → Refusal d kind name x :=
    read_refusal (d.heap.toNumber_raises v)
  cases v with
  | number _ | text _ | boolean _ => exact hread h
  | null | undefined | sequence _ | record _ => exact refuse_refusal h

theorem mapM_number_refusal : ∀ {values : List Value} {d d' : Draft},
    values.mapM (number · name) d = .error x d' → Refusal d kind name x
  | [], _, _, h => nomatch h
  | v :: values, d, d', h => by
    rw [List.mapM_cons] at h
    rcases error_of_bind h with hfirst | ⟨n, d₁, hn, hrest⟩
    · exact number_refusal hfirst
    · obtain ⟨-, rfl⟩ := number_ok hn
      rcases error_of_bind hrest with hrest | ⟨_, _, -, hend⟩
      · exact mapM_number_refusal hrest
      · cases hend

theorem bound_refusal {n : Option Number} {e : SpecError}
    (h : ParameterSpec.bound n = .error e) : e = .boundTooLarge := by
  cases n with
  | none => cases h
  | some n =>
    unfold ParameterSpec.bound at h
    dsimp only at h
    split at h
    · cases h
    · cases h
      rfl

theorem withRange_refusal {spec : ParameterSpec} {min max : Option Number} {e : SpecError}
    (h : spec.withRange min max = .error e) :
    Refusal d .number spec.name (.spec e) := by
  unfold ParameterSpec.withRange at h
  cases hlo : ParameterSpec.bound min with
  | error e' =>
    rw [hlo] at h
    cases h
    exact bound_refusal hlo ▸ .boundTooLarge rfl
  | ok lo =>
    cases hhi : ParameterSpec.bound max with
    | error e' =>
      rw [hlo, hhi] at h
      cases h
      exact bound_refusal hhi ▸ .boundTooLarge rfl
    | ok hi =>
      rw [hlo, hhi] at h
      cases lo with
      | none => cases h
      | some lo =>
        cases hi with
        | none => cases h
        | some hi =>
          change (if (Number.float hi).less (.float lo) then _ else _) = _ at h
          by_cases hless : (Number.float hi).less (.float lo) = true
          · rw [if_pos hless] at h
            cases h
            exact .emptyRange rfl hless
          · rw [if_neg hless] at h
            cases h

theorem addNumber_refusal {first : Value} {rest : List Value}
    (h : addNumber name first rest d = .error x d') : Refusal d .number name x := by
  rcases error_of_bind h with hbounds | ⟨bounds, d₁, hbounds, hrest⟩
  · exact mapM_number_refusal hbounds
  obtain ⟨-, rfl⟩ := mapM_number_ok hbounds
  rcases error_of_bind hrest with hinitial | ⟨initial, d₂, -, hend⟩
  · exact number_refusal hinitial
  let plain : ParameterSpec :=
    { name, kind := .number, initial := .number initial, alternatives := rest.drop 2 }
  cases hspec : plain.withRange bounds[0]? bounds[1]? with
  | ok spec =>
    simp only [plain] at hspec
    simp only [hspec] at hend
    cases hend
  | error e =>
    have hrefusal : Refusal d₁ .number name (.spec e) := withRange_refusal hspec
    simp only [plain] at hspec
    simp only [hspec] at hend
    cases hend
    exact hrefusal

/-- A write is refused for the value it writes, or because there is no record to write to. -/
theorem writeObject_refusal {keys : List String} {target : Value}
    (h : writeObject name target keys v d = .error x d') :
    Refusal d₀ kind name x ∨ (∀ a, target ≠ .record a) ∧
      x = .fault (if keys.length == 1 then .wrongForm else .noProperty) := by
  cases keys with
  | nil =>
    cases v with
    | record source =>
      cases target with
      | record a => cases h
      | _ =>
        cases h
        exact .inr ⟨nofun, rfl⟩
    | _ => exact .inl (refuse_refusal h)
  | cons key keys =>
    cases target with
    | record a => cases h
    | _ =>
      cases h
      exact .inr ⟨nofun, rfl⟩

/-- Every value that a parameter starts with is of the parameter's kind. -/
def WellKinded (d : Draft) : Prop :=
  ∀ spec ∈ d.params, spec.initial.kind = spec.kind.valueKind

theorem addObject_refusal {candidates : List Value} (hd : d.WellKinded)
    (h : addObject name candidates d = .error x d') : Refusal d .object name x := by
  cases hname : Path.split name with
  | nil =>
    unfold addObject at h
    rw [hname] at h
    cases h
    exact .document _
  | cons base keys =>
    cases candidates with
    | nil =>
      unfold addObject at h
      rw [hname] at h
      cases h
      exact .document _
    | cons v rest =>
      rw [addObject_cons hname] at h
      rcases objectBase_cases d base with ⟨spec, hfind, hbase⟩ | ⟨hfind, hbase⟩
      · rw [bind_of_ok hbase] at h
        rcases error_of_bind h with hwrite | ⟨_, _, -, hend⟩
        · rcases writeObject_refusal hwrite with hrefusal | ⟨htarget, rfl⟩
          · exact hrefusal
          · refine .misplaced rfl hname hfind fun hkind => ?_
            have hrecord := hd spec (List.mem_of_find?_eq_some hfind)
            rw [hkind] at hrecord
            cases hinitial : spec.initial with
            | record a => exact htarget a hinitial
            | _ => simp [hinitial, Value.kind, ParameterKind.valueKind] at hrecord
        · cases hend
      · rw [bind_of_ok hbase] at h
        rcases error_of_bind h with hwrite | ⟨_, _, -, hend⟩
        · rcases writeObject_refusal hwrite with hrefusal | ⟨htarget, -⟩
          · exact hrefusal
          · exact absurd rfl (htarget _)
        · cases hend

/-- Every path below a parameter that starts with no record faults, since the kind of the parameter
is not looked at. -/
theorem addObject_misplaced {spec : ParameterSpec} {base key : String} {keys : List String}
    {rest : List Value} (hname : Path.split name = base :: key :: keys)
    (hfind : d.params.find? (·.name == base) = some spec)
    (hinitial : ∀ a, spec.initial ≠ .record a) :
    addObject name (v :: rest) d =
      .error (.fault (if keys = [] then .wrongForm else .noProperty)) d := by
  have hbase : objectBase base d = .ok spec.initial d := by
    unfold objectBase
    rw [get_bind, hfind]
    rfl
  rw [addObject_cons hname, bind_of_ok hbase]
  refine bind_of_error ?_
  cases htarget : spec.initial with
  | record a => exact absurd htarget (hinitial a)
  | _ => cases keys <;> rfl

/-- The ways in which a line is refused are these. -/
theorem addLine_refusal {candidates : List Value} (hd : d.WellKinded)
    (h : addLine kind name candidates d = .error x d') : Refusal d kind name x := by
  cases candidates with
  | nil =>
    cases kind with
    | object => exact addObject_refusal hd h
    | _ =>
      cases h
      exact .document _
  | cons first rest =>
    cases kind with
    | object => exact addObject_refusal hd h
    | number => exact addNumber_refusal h
    | boolean => cases h
    | string =>
      rcases error_of_bind h with hread | ⟨_, _, -, hend⟩
      · exact read_refusal (d.heap.text_raises first) hread
      · cases hend
    | array =>
      cases first with
      | sequence a => cases h
      | _ => exact refuse_refusal h

end

/-- Lines that were taken leave parameters that start with values of their kinds. -/
theorem Takes.wellKinded {lines : List Line} {d : Draft} (ht : Takes lines d) : d.WellKinded := by
  intro spec hspec
  obtain ⟨l, -, hmakes⟩ := exists_left_of_forall₂ (takes_makes ht) hspec
  exact hmakes.initial_kind

end Draft

/-! ## Candidates that cannot be read -/

/-- The ways in which the values of a line cannot be read: they are not well-formed, no list of
expressions or do not evaluate, or there is a fault while they are read or evaluated. -/
inductive Candidates.Unreadable (parse : SourceParser) (values : String) : Failure → Prop
  | malformed (what : String) (location : Location) :
    Unreadable parse values (.doc (.malformed values what location))
  | noList : Unreadable parse values (.doc (.noList values))
  | notLiterals (e : RunError) : Unreadable parse values (.doc (.notLiterals values e))
  | reading {f : Fault} (hf : Candidates.array parse values = .error (.fault f)) :
    Unreadable parse values (.fault f)
  | unhandled {f : Fault} (hf : f.isUnhandled = true) : Unreadable parse values (.fault f)

namespace Candidates

variable {parse : SourceParser}

/-- A source without a program is malformed, or there is a fault in it. -/
theorem readProgram_error {source : String} {e : Failure}
    (h : readProgram parse source = .error e) :
    (∃ what location, e = .malformed what location) ∨ ∃ f, e = .fault f := by
  unfold readProgram readTree Tree.wellFormed at h
  cases hf : (parse source).firstError? with
  | some bad =>
    rw [hf] at h
    cases h
    exact .inl ⟨_, _, rfl⟩
  | none =>
    rw [hf] at h
    change Failure.ofFault ((parse source).program source.toUTF8) = .error e at h
    cases hp : (parse source).program source.toUTF8 with
    | ok program =>
      rw [hp] at h
      cases h
    | error f =>
      rw [hp] at h
      cases h
      exact .inr ⟨f, rfl⟩

theorem array_unreadable {text : String} {e : Failure} (h : array parse text = .error e) :
    Unreadable parse text e := by
  have harray := h
  unfold array at h
  cases hp : readProgram parse ("[" ++ text ++ "];") with
  | ok program =>
    rw [hp] at h
    dsimp only at h
    split at h
    · cases h
    · cases h
      exact .noList
  | error e' =>
    rw [hp] at h
    rcases readProgram_error hp with ⟨what, location, rfl⟩ | ⟨f, rfl⟩
    · cases h
      exact .malformed what location
    · cases h
      exact .reading harray

theorem error_of_lift {α : Type} {r : Except Failure α} {e : Failure} {log log' : Array Notice}
    (h : Annotating.lift r log = .error e log') : r = .error e := by
  cases r with
  | ok a => cases h
  | error x =>
    cases h
    rfl

theorem read_unreadable {text : String} {log log' : Array Notice} {e : Failure}
    (h : read parse text log = .error e log') : Unreadable parse text e := by
  rcases error_of_bind h with hlift | ⟨node, log₁, hlift, hrest⟩
  · exact array_unreadable (error_of_lift hlift)
  · have hnode := array_asRead parse text node (ok_of_lift hlift)
    have hstop := @evaluate_contained 0 0 node (hnode.mono fun n hn => hn.regular) {} trivial
    cases he : evaluate 0 0 node {} with
    | ok v w =>
      simp only [he] at hrest
      cases v <;> cases hrest
    | error stop w =>
      rw [he] at hstop
      simp only [he] at hrest
      cases stop with
      | error e' =>
        cases hrest
        exact .notLiterals e'
      | fault f =>
        cases hrest
        exact .unhandled hstop

end Candidates

/-! ## Comments -/

namespace Draft

/-- The ways in which a line of a comment fails: its values cannot be read, or the draft refuses
it. -/
inductive LineFailure (parse : SourceParser) (d : Draft) (line : ParameterLine) : Failure → Prop
  | noName (number : Int) (hname : line.name = "") :
    LineFailure parse d line (.doc (.noName number))
  | unreadable {values : String} {e : Failure} (hvalues : line.values = some values)
    (he : Candidates.Unreadable parse values e) : LineFailure parse d line e
  | refused {kind : ParameterKind} {h : Heap} {e : Failure}
    (hkind : ParameterKind.ofName? line.kind = some kind)
    (he : Refusal { d with heap := d.heap.append h } kind line.name e) :
    LineFailure parse d line e

/-- The line leads to a draft that has taken lines, or fails in one of these ways. -/
def Leads (parse : SourceParser) (d : Draft) (line : ParameterLine) (e : Annotating Draft) :
    Prop :=
  ∀ log, match e log with
    | .ok d' _ => ∃ lines, Takes lines d'
    | .error x _ => LineFailure parse d line x

variable {parse : SourceParser}

section
variable {d : Draft} {lines : List Line} (ht : Takes lines d) {line : ParameterLine}
include ht

/-- The candidates that a line lists are read, and the draft takes it with copies of them. -/
theorem leads_of_candidates {values : String} (hvalues : line.values = some values)
    {kind : ParameterKind} (hkind : ParameterKind.ofName? line.kind = some kind) :
    d.Leads parse line (Candidates.read parse values >>= fun c =>
      match addLineFrom c.heap kind line.name c.values d with
      | .ok () d => pure d
      | .error e _ => throw e) := by
  intro log
  cases hread : Candidates.read parse values log with
  | error e log₁ =>
    rw [bind_of_error hread]
    exact .unreadable hvalues (Candidates.read_unreadable hread)
  | ok c log₁ =>
    rw [bind_of_ok hread]
    cases hadd : addLineFrom c.heap kind line.name c.values d with
    | ok u d' => exact ⟨_, ht.addLineFrom hadd⟩
    | error e d' =>
      have hd : WellKinded { d with heap := d.heap.append c.heap } := ht.wellKinded
      exact .refused hkind (addLine_refusal hd hadd)

theorem leads_addParameter (number : Int) :
    d.Leads parse line (d.addParameter parse number line) := by
  unfold addParameter
  split
  · exact fun log => ⟨lines, ht⟩
  · rename_i hne
    have hvalues : line.values = some (line.values.getD "") := by
      cases hv : line.values with
      | none => exact absurd (by rw [hv]; rfl) hne
      | some values => rfl
    split
    · exact fun log => ⟨lines, ht⟩
    · rename_i kind hkind
      by_cases hname : line.name = ""
      · rw [if_pos (by simpa using hname)]
        exact fun log => .noName number hname
      · rw [if_neg (by simpa using hname)]
        exact leads_of_candidates ht hvalues hkind

end

/-- Lines fail at the first that does, after others that led to the draft it is for. -/
theorem addLines_failure : ∀ (texts : List (List Char)) {d : Draft} {lines : List Line}
    {found : Bool} {number : Int} {log log' : Array Notice} {e : Failure}, Takes lines d →
      d.addLines parse found number texts log = .error e log' →
        ∃ before text after, texts = before ++ text :: after ∧
          ∃ d' found' log₁, d.addLines parse found number before log = .ok (d', found') log₁ ∧
            ∃ line, ParameterLine.read? text = some line ∧ LineFailure parse d' line e
  | [], _, _, _, _, _, _, _, _, h => nomatch h
  | text :: rest, d, lines, found, number, log, log', e, ht, h => by
    unfold addLines at h
    cases hline : ParameterLine.read? text with
    | none =>
      rw [hline] at h
      obtain ⟨before, failing, after, rfl, d', found', log₁, hbefore, hfails⟩ :=
        addLines_failure rest ht h
      refine ⟨text :: before, failing, after, rfl, d', found', log₁, ?_, hfails⟩
      rw [addLines, hline]
      exact hbefore
    | some line =>
      rw [hline] at h
      have hleads : d.Leads parse line (d.addParameter parse number line) :=
        leads_addParameter ht number
      have hcases := hleads log
      rcases error_of_bind h with hstop | ⟨d₁, log₁, hok, hrest⟩
      · rw [hstop] at hcases
        exact ⟨[], text, rest, rfl, d, found, log, rfl, line, hline, hcases⟩
      · rw [hok] at hcases
        obtain ⟨lines₁, ht₁⟩ := hcases
        obtain ⟨before, failing, after, rfl, d', found', log₂, hbefore, hfails⟩ :=
          addLines_failure rest ht₁ hrest
        refine ⟨text :: before, failing, after, rfl, d', found', log₂, ?_, hfails⟩
        rw [addLines, hline]
        exact (bind_of_ok hok).trans hbefore

end Draft

/-- An annotation that cannot be read is that of a block comment, and it fails at a line after
others: with an error of the annotation or a range that is empty, or else in one of the further ways
of `Draft.LineFailure`. -/
theorem Comment.annotated?_failure (parse : SourceParser) (c : Comment) (log log' : Array Notice)
    (e : Failure) (h : c.annotated? parse log = .error e log') :
    c.kind = .block ∧ ∃ before text after,
      ParameterLine.split c.text.toList = before ++ text :: after ∧
        ∃ d found log₁,
          ({} : Draft).addLines parse false c.location.startLine before log =
            .ok (d, found) log₁ ∧
            ∃ line, ParameterLine.read? text = some line ∧ Draft.LineFailure parse d line e := by
  unfold annotated? at h
  cases hkind : c.kind with
  | line =>
    rw [hkind] at h
    cases h
  | block =>
    rw [hkind] at h
    refine ⟨rfl, ?_⟩
    rcases error_of_bind h with hlines | ⟨⟨d, found⟩, log₁, -, hend⟩
    · exact Draft.addLines_failure _ (.nil {}) hlines
    · cases found <;> cases hend

/-- A comment whose second line goes below the number that its first line declares. -/
def pathOnNumber : Comment where
  kind := .block
  text := "*\n * @param \x7bNumber\x7d cfg = 1\n * @param \x7bObject\x7d cfg.a = 2\n "
  location := ⟨1, 0, 4, 3⟩

theorem pathOnNumber_faults : (match pathOnNumber.annotated? Tree.ofSource #[] with
    | .error (.fault f) _ => some f
    | _ => none) = some .wrongForm := by
  decide +kernel

/-- The fault is no error of the annotation. -/
theorem pathOnNumber_not_reported :
    ∃ log, pathOnNumber.annotated? Tree.ofSource #[] = .error (.fault .wrongForm) log := by
  have hfaults := pathOnNumber_faults
  split at hfaults
  · rename_i f log hr
    cases hfaults
    exact ⟨log, hr⟩
  · cases hfaults

theorem annotated?_failure_pathOnNumber : pathOnNumber.kind = .block ∧ ∃ before text after,
    ParameterLine.split pathOnNumber.text.toList = before ++ text :: after ∧
      ∃ d found log,
        ({} : Draft).addLines Tree.ofSource false pathOnNumber.location.startLine before #[] =
          .ok (d, found) log ∧
          ∃ line, ParameterLine.read? text = some line ∧
            Draft.LineFailure Tree.ofSource d line (.fault .wrongForm) := by
  have hfaults := pathOnNumber_faults
  split at hfaults
  · rename_i f log hr
    cases hfaults
    exact pathOnNumber.annotated?_failure Tree.ofSource #[] log (.fault .wrongForm) hr
  · cases hfaults

end Chronicle
