import Chronicle.ParameterDoc.Comment
import Chronicle.Proofs.Evaluation.Normal
import Chronicle.Proofs.Locate
import Chronicle.Proofs.ParameterDoc.Accepted

/-!
# Annotations give numbers in normal form

The candidates of a parameter are literals that were read and evaluated, so they are normal
(`Candidates.read_normal`).  A line of an annotation puts its candidates beside the values of the
lines before it, and makes parameters of them or writes them into a record that a parameter starts
with: each of these steps keeps a draft normal (`Draft.addLine_normal`), and so the values that the
parameters of an annotation start with are normal (`readAnnotations_normal`).
-/

set_option autoImplicit false

namespace Chronicle

theorem Node.AsRead.normalLiteral {n : Node} (h : n.AsRead) : n.NormalLiteral := by
  cases n with
  | literal location value raw => exact h
  | _ => trivial

/-! ## Candidates -/

namespace Candidates

/-- Candidates are read as an array with nodes as they were read. -/
theorem array_asRead (parse : SourceParser) (text : String) :
    Yields (array parse text) (Node.Everywhere Node.AsRead) := by
  unfold array
  cases hp : readProgram parse ("[" ++ text ++ "];") with
  | error e => cases e <;> exact .throw _
  | ok program =>
    have hprogram := readProgram_asRead parse _ program hp
    dsimp only
    split
    · rename_i place location elements hbody
      refine .pure ?_
      cases program with
      | program l body comments =>
        have hstatement : (Node.expressionStatement place (.array location elements)).Everywhere
            Node.AsRead := by
          refine hprogram.child ?_
          rw [Node.children, show body = _ from hbody]
          exact List.mem_cons_self
        exact hstatement.child List.mem_cons_self
      | _ => cases hbody
    · exact .throw _

/-- The candidates of a text are normal. -/
theorem read_normal (parse : SourceParser) (text : String) :
    Gives (read parse text) fun c => c.heap.NormalAll c.values := by
  refine (gives_lift (array_asRead parse text)).bind fun node harray => ?_
  have hnode := harray.mono fun n hn => hn.normalLiteral
  split
  · rename_i address w he
    exact .after _ fun _ => .pure fun v hv => (normal_of_evaluate hnode he).item hv
  · exact .after _ fun _ => .pure nofun
  · refine .after _ fun _ => ?_
    split
    · exact .throw _
    · exact .throw _

end Candidates

/-! ## Paths -/

/-- A write at a path upholds a heap where the record and the value are normal: the records made on
the way start empty. -/
theorem Heap.setNested_upholds {v : Value} : ∀ (keys : List String) {h : Heap} {a : Address},
    h.Normal (.record a) → h.Normal v → h.Upholds (h.setNested a keys v)
  | [], _, _, _, _ => .refl _
  | [key], h, a, ha, hv => by
    have hfields : h.NormalFields (h.fields a) := fun _ hf => ha.field hf
    exact upholds_setFields (hfields.insert key hv)
  | key :: k :: path, h, a, ha, hv => by
    unfold setNested
    split
    · rename_i child hget
      have hchild : h.Normal (.record child) := ha.field (Fields.mem_of_get? hget)
      exact setNested_upholds (k :: path) hchild hv
    · obtain ⟨hmade, hchild⟩ := h.newRecord_empty_normal
      have hfields : (h.newRecord []).2.NormalFields ((h.newRecord []).2.fields a) :=
        fun _ hf => (hmade _ ha).field hf
      have hset := upholds_setFields (a := a) (hfields.insert key hchild)
      have hbelow := setNested_upholds (k :: path) (hset _ hchild) (hset _ (hmade _ hv))
      exact hmade.trans (hset.trans hbelow)

/-! ## Drafts -/

theorem ParameterSpec.withRange_initial (spec : ParameterSpec) (min max : Option Number) :
    Yields (spec.withRange min max) fun s => s.initial = spec.initial := by
  refine .after _ fun lower => .after _ fun upper => ?_
  split
  · exact .ite (.throw _) (.pure rfl)
  · exact .pure rfl

namespace Draft

/-- The values that parameters start with are normal. -/
def Normal (d : Draft) : Prop :=
  ∀ spec ∈ d.params, d.heap.Normal spec.initial

/-- The view of a draft. -/
def view : HeapView Draft := ⟨Draft.heap, Normal⟩

theorem Normal.withHeap {d : Draft} (hd : d.Normal) {h : Heap} (hh : d.heap.Upholds h) :
    Normal { d with heap := h } :=
  fun spec hspec => hh _ (hd spec hspec)

theorem empty_normal : Normal {} := fun _ hspec => absurd hspec List.not_mem_nil

section
variable {α : Type} {h : Heap} {good : Heap → α → Prop}

theorem read_normal {f : Heap → Except Fault α} (hf : ∀ g, Yields (f g) (good g)) :
    KeepsNormal view h (Draft.read f) good := by
  intro d hd _
  unfold Draft.read
  rw [get_bind]
  cases hr : f d.heap with
  | ok x => exact ⟨hd, .refl _, hf _ x hr⟩
  | error e => exact ⟨hd, .refl _⟩

theorem refuse_normal (name expected : String) (v : Value) :
    KeepsNormal view h (refuse name expected v) good := by
  have hread : KeepsNormal view h (Draft.read (·.text v)) anything :=
    read_normal fun _ _ _ => trivial
  exact hread.bind fun _ _ _ _ => .throw _

theorem number_normal (v : Value) (name : String) :
    KeepsNormal view h (number v name) normalNumber := by
  have hread : KeepsNormal view h (Draft.read (·.toNumber v)) normalNumber :=
    read_normal fun g => g.toNumber_isNormal v
  cases v with
  | number _ | text _ | boolean _ => exact hread
  | null | undefined | sequence _ | record _ => exact refuse_normal name _ _

theorem add_normal {spec : ParameterSpec} (hspec : h.Normal spec.initial) :
    KeepsNormal view h (add spec) anything := by
  intro d hd hh
  refine ⟨fun s hs => ?_, .refl _, trivial⟩
  rcases List.mem_append.1 hs with hs | hs
  · exact hd s hs
  · cases List.mem_singleton.1 hs
    exact hh _ hspec

theorem addNumber_normal (name : String) (first : Value) (rest : List Value) :
    KeepsNormal view h (addNumber name first rest) anything := by
  refine (KeepsNormal.mapM fun v _ g => number_normal v name).bind fun bounds g _ _ => ?_
  refine (number_normal first name).bind fun initial g _ hinitial => ?_
  dsimp only
  split
  · rename_i spec hspec
    refine add_normal ?_
    rw [ParameterSpec.withRange_initial _ _ _ spec hspec]
    exact Heap.normal_number.2 hinitial
  · exact .throw _

/-! ### Objects -/

theorem objectBase_normal (base : String) :
    KeepsNormal view h (objectBase base) Heap.Normal := by
  intro d hd hh
  unfold objectBase
  rw [get_bind]
  cases hfind : d.params.find? (·.name == base) with
  | some spec => exact ⟨hd, .refl _, hd spec (List.mem_of_find?_eq_some hfind)⟩
  | none =>
    obtain ⟨hmade, hnew⟩ := d.heap.newRecord_empty_normal
    have hadd : KeepsNormal view (d.heap.newRecord []).2
        (add { name := base, kind := .object, initial := (d.heap.newRecord []).1 }) anything :=
      add_normal hnew
    have hends := (hadd.bind fun _ g hg _ => .value (hg _ hnew)) _ (hd.withHeap hmade) (.refl _)
    exact hends.from hmade

theorem mergeFields_normal (name : String) {target v : Value} (htarget : h.Normal target)
    (hv : h.Normal v) : KeepsNormal view h (mergeFields name target v) anything := by
  cases v with
  | record source =>
    cases target with
    | record a =>
      intro d hd hh
      have hsource : d.heap.NormalFields (d.heap.fields source) := fun _ hf => (hh _ hv).field hf
      have hfields : d.heap.NormalFields (d.heap.fields a) := fun _ hf => (hh _ htarget).field hf
      have hupholds := Heap.upholds_setFields (a := a) (hsource.update hfields)
      exact ⟨hd.withHeap hupholds, hupholds, trivial⟩
    | _ => exact .throw _
  | _ => exact refuse_normal name _ _

theorem writePath_normal {target v : Value} (htarget : h.Normal target) (keys : List String)
    (hv : h.Normal v) : KeepsNormal view h (writePath target keys v) anything := by
  cases target with
  | record a =>
    intro d hd hh
    have hupholds := Heap.setNested_upholds keys (hh _ htarget) (hh _ hv)
    exact ⟨hd.withHeap hupholds, hupholds, trivial⟩
  | _ => exact .throw _

/-- What changes no value that a parameter starts with. -/
theorem modifyFirst_normal (name : String) {f : ParameterSpec → ParameterSpec}
    (hf : ∀ p, (f p).initial = p.initial) :
    KeepsNormal view h (modify fun d => { d with params := modifyFirst name f d.params } :
      Drafting Unit) anything := by
  intro d hd _
  refine ⟨fun spec hspec => ?_, .refl _, trivial⟩
  obtain ⟨q, hq, rfl | rfl⟩ := mem_modifyFirst hspec
  · exact hd _ hq
  · rw [hf]
    exact hd q hq

theorem addObject_normal (name : String) {candidates : List Value}
    (hc : h.NormalAll candidates) : KeepsNormal view h (addObject name candidates) anything := by
  unfold addObject
  split
  · exact .throw _
  · exact .throw _
  · rename_i base keys v rest _
    refine (objectBase_normal base).bind fun target g hg htarget => ?_
    have hv : g.Normal v := hg v (hc v List.mem_cons_self)
    exact .ite
      ((mergeFields_normal name htarget hv).bind fun _ _ _ _ =>
        modifyFirst_normal base fun _ => rfl)
      ((writePath_normal htarget keys hv).bind fun _ _ _ _ => modifyFirst_normal base fun _ => rfl)

/-! ### Lines -/

/-- A line with normal candidates keeps a draft normal, also if it is refused. -/
theorem addLine_normal (kind : ParameterKind) (name : String) {candidates : List Value}
    (hc : h.NormalAll candidates) : KeepsNormal view h (addLine kind name candidates) anything := by
  cases kind with
  | object => exact addObject_normal name hc
  | number =>
    cases candidates with
    | nil => exact .throw _
    | cons first rest => exact addNumber_normal name first rest
  | boolean =>
    cases candidates with
    | nil => exact .throw _
    | cons first rest => exact add_normal (Heap.normal_boolean _)
  | string =>
    cases candidates with
    | nil => exact .throw _
    | cons first rest =>
      have hread : KeepsNormal view h (Draft.read (·.text first)) anything :=
        read_normal fun _ _ _ => trivial
      exact hread.bind fun text _ _ _ => add_normal (Heap.normal_text text)
  | array =>
    cases candidates with
    | nil => exact .throw _
    | cons first rest =>
      have hfirst : h.Normal first := hc first List.mem_cons_self
      cases first with
      | sequence a => exact add_normal hfirst
      | _ => exact refuse_normal name _ _

/-- Candidates of another heap are moved beside the values of the draft. -/
theorem addLineFrom_normal {source : Heap} (kind : ParameterKind) (name : String)
    {candidates : List Value} (hc : source.NormalAll candidates) :
    KeepsNormal view h (addLineFrom source kind name candidates) anything := by
  intro d hd _
  have hupholds := d.heap.upholds_append source
  have hmoved : (d.heap.append source).NormalAll (candidates.map d.heap.shiftValue) := by
    intro v hv
    obtain ⟨u, hu, rfl⟩ := List.mem_map.1 hv
    exact (hc u hu).shift d.heap
  have hends := addLine_normal kind name hmoved _ (hd.withHeap hupholds) (.refl _)
  exact hends.from hupholds

end

variable (parse : SourceParser)

theorem addParameter_normal {d : Draft} (hd : d.Normal) (number : Int) (line : ParameterLine) :
    Gives (d.addParameter parse number line) Normal := by
  unfold addParameter
  split
  · exact .after _ fun _ => .pure hd
  · split
    · exact .after _ fun _ => .pure hd
    · rename_i kind _
      -- Both branches of the check for a name go on alike.
      refine .ite (.after _ fun _ => ?_) ?_
      all_goals
        refine (Candidates.read_normal parse _).bind fun c hc => ?_
        have hends := addLineFrom_normal kind line.name hc d hd (.refl _)
        cases ha : addLineFrom c.heap kind line.name c.values d with
        | ok u d' =>
          rw [ha] at hends
          exact .pure hends.1
        | error e d' => exact .throw e

theorem addLines_normal : ∀ (lines : List (List Char)) {d : Draft}, d.Normal →
    ∀ (found : Bool) (number : Int),
      Gives (d.addLines parse found number lines) fun r => r.1.Normal
  | [], d, hd, found, number => .pure hd
  | text :: rest, d, hd, found, number => by
    unfold addLines
    cases ParameterLine.read? text with
    | none => exact addLines_normal rest hd found _
    | some line =>
      exact (addParameter_normal parse hd number line).bind fun d hd =>
        addLines_normal rest hd true _

end Draft

/-! ## Comments -/

/-- The values that the parameters of an annotation start with are normal. -/
def ParameterDoc.Normal (doc : ParameterDoc) : Prop :=
  ∀ spec ∈ doc.params, doc.heap.Normal spec.initial

theorem Comment.annotated?_normal (parse : SourceParser) (c : Comment) :
    Gives (c.annotated? parse) fun r => ∀ doc, r = some doc → doc.Normal := by
  unfold annotated?
  cases c.kind with
  | line => exact .pure nofun
  | block =>
    refine (Draft.addLines_normal parse _ Draft.empty_normal false _).bind fun (d, found) hd => ?_
    cases found with
    | false => exact .pure nofun
    | true => exact .pure fun doc hdoc => Option.some.inj hdoc ▸ hd

/-- Annotations that are read start their parameters with normal values. -/
theorem readAnnotations_normal (parse : SourceParser) : ∀ comments : List Comment,
    Gives (readAnnotations parse comments) fun docs => ∀ doc ∈ docs, doc.Normal
  | [] => .pure nofun
  | c :: rest => by
    unfold readAnnotations
    refine (c.annotated?_normal parse).bind fun doc? hdoc => ?_
    cases doc? with
    | none => exact readAnnotations_normal parse rest
    | some doc =>
      refine (readAnnotations_normal parse rest).bind fun docs hdocs => .pure fun x hx => ?_
      rcases List.mem_cons.1 hx with rfl | hx
      · exact hdoc x rfl
      · exact hdocs x hx

end Chronicle
