import Chronicle.Proofs.ParameterDoc.Accepted

/-!
# The specifications of accepted lines

`Draft.Takes lines d`: a draft has taken the lines, one after the other, and has become `d`.  Every
line of another kind than `Object` has made one specification, and so has the first line of each
base of an object parameter (`leaders`); further lines with the base were merged into that
(`takes_makes`).  A candidate is a value of the heap, which others may share.  When each line brings
values of its own, those that are not written into a record are never changed (`takes_spares`).

`takes_specs` puts these together.
-/

set_option autoImplicit false

namespace Chronicle

section
variable {α β : Type} {r : α → β → Prop} {xs : List α} {ys : List β}

theorem exists_left_of_forall₂ (h : List.Forall₂ r xs ys) {y : β} (hy : y ∈ ys) :
    ∃ x ∈ xs, r x y := by
  induction h with
  | nil => cases hy
  | cons hr _ ih =>
    rcases List.mem_cons.1 hy with rfl | hy
    · exact ⟨_, List.mem_cons_self, hr⟩
    · obtain ⟨x, hx, hrx⟩ := ih hy
      exact ⟨x, List.mem_cons_of_mem _ hx, hrx⟩

theorem exists_right_of_forall₂ (h : List.Forall₂ r xs ys) {x : α} (hx : x ∈ xs) :
    ∃ y ∈ ys, r x y :=
  exists_left_of_forall₂ h.flip hx

end

namespace Draft

/-- A line as a draft takes it.  Its candidates are values of `heap`, which extends the heap of the
draft before. -/
structure Line where
  before : Heap
  heap : Heap
  kind : ParameterKind
  name : String
  candidates : List Value

namespace Line

/-- The base of an object path, on a line of kind `Object`. -/
def base? (l : Line) : Option String :=
  if l.kind = .object then (Path.split l.name).head? else none

/-- The candidates of the line are values that were made for it. -/
def Own (l : Line) : Prop :=
  ∀ v ∈ l.candidates, Heap.Beyond l.before l.heap v

end Line

/-- From no parameters, the draft becomes `d` by taking the lines in order.  Between two lines new
values may come to its heap. -/
inductive Takes : List Line → Draft → Prop
  | nil (h : Heap) : Takes [] { heap := h }
  | snoc {lines : List Line} {l : Line} {params : List ParameterSpec} {d : Draft}
    (hlines : Takes lines ⟨l.before, params⟩) (hnew : l.before.Extends l.heap)
    (hline : addLine l.kind l.name l.candidates ⟨l.heap, params⟩ = .ok () d) :
    Takes (lines ++ [l]) d

/-! ## Lines that make a specification -/

/-- The lines that make a specification of their own: all but those of kind `Object` whose base a
line before them had. -/
def leaders (before : List Line) : List Line → List Line
  | [] => []
  | l :: rest =>
    if l.base? = none ∨ l.base? ∉ before.map Line.base? then l :: leaders (before ++ [l]) rest
    else leaders (before ++ [l]) rest

/-- The candidates after the first of all lines of kind `Object` with the base, in order. -/
def surplus (base : String) (lines : List Line) : List Value :=
  lines.flatMap fun l => if l.base? = some base then l.candidates.tail else []

/-- The specification that a line makes among others. -/
inductive Makes (lines : List Line) (l : Line) : ParameterSpec → Prop
  | plain {spec : ParameterSpec} (hadds : l.heap.Adds l.name l.kind l.candidates spec) :
    Makes lines l spec
  | object {base : String} (hbase : l.base? = some base) (a : Address) :
    Makes lines l
      { name := base, kind := .object, initial := .record a, alternatives := surplus base lines }

section
variable {lines : List Line} {l : Line} {seen : List String} {base : String}
  {spec : ParameterSpec} {d : Draft}

theorem Line.kind_of_base? (h : l.base? = some base) : l.kind = .object := by
  unfold Line.base? at h
  split at h
  · assumption
  · cases h

theorem leaders_snoc (before lines : List Line) (l : Line) :
    leaders before (lines ++ [l]) = leaders before lines ++
      if l.base? = none ∨ l.base? ∉ (before ++ lines).map Line.base? then [l] else [] := by
  induction lines generalizing before with
  | nil =>
    rw [List.nil_append, leaders, leaders, leaders, List.append_nil, List.nil_append]
  | cons first rest ih =>
    rw [List.cons_append, leaders, leaders, ih, List.append_assoc]
    split
    · rfl
    · rfl

/-- Every base has its line among those that make a specification. -/
theorem exists_leader {lines before : List Line} (hmem : some base ∈ lines.map Line.base?)
    (hnew : some base ∉ before.map Line.base?) :
    ∃ l ∈ leaders before lines, l.base? = some base := by
  induction lines generalizing before with
  | nil => simp at hmem
  | cons first rest ih =>
    unfold leaders
    by_cases hfirst : first.base? = some base
    · rw [if_pos (.inr (hfirst ▸ hnew))]
      exact ⟨first, List.mem_cons_self, hfirst⟩
    · have hrest : some base ∈ rest.map Line.base? := by
        rw [List.map_cons, List.mem_cons] at hmem
        exact hmem.resolve_left (Ne.symm hfirst)
      have hnew' : some base ∉ (before ++ [first]).map Line.base? := by
        simp [hnew, Ne.symm hfirst]
      obtain ⟨l, hl, hbase⟩ := ih hrest hnew'
      refine ⟨l, ?_, hbase⟩
      split
      · exact List.mem_cons_of_mem first hl
      · exact hl

/-- No two of the lines that make a specification have a base in common. -/
theorem leaders_distinct (before lines : List Line) :
    (∀ l ∈ leaders before lines, l ∈ lines ∧ (l.base? = none ∨ l.base? ∉ before.map Line.base?)) ∧
      (leaders before lines).Pairwise fun l l' => l.base? = none ∨ l.base? ≠ l'.base? := by
  induction lines generalizing before with
  | nil => exact ⟨nofun, .nil⟩
  | cons first rest ih =>
    obtain ⟨hmem, hpairwise⟩ := ih (before ++ [first])
    have hrest : ∀ l ∈ leaders (before ++ [first]) rest,
        l ∈ rest ∧ (l.base? = none ∨ l.base? ∉ before.map Line.base? ∧ l.base? ≠ first.base?) :=
      fun l hl => by simpa [not_or] using hmem l hl
    unfold leaders
    split
    · rename_i hfirst
      refine ⟨fun l hl => ?_, List.pairwise_cons.2 ⟨fun l hl => ?_, hpairwise⟩⟩
      · rcases List.mem_cons.1 hl with rfl | hl
        · exact ⟨List.mem_cons_self, hfirst⟩
        · exact ⟨List.mem_cons_of_mem _ (hrest l hl).1, (hrest l hl).2.imp_right And.left⟩
      · rcases (hrest l hl).2 with hnone | ⟨-, hne⟩
        · rw [hnone]
          exact Classical.em _
        · exact .inr (Ne.symm hne)
    · refine ⟨fun l hl => ?_, hpairwise⟩
      exact ⟨List.mem_cons_of_mem _ (hrest l hl).1, (hrest l hl).2.imp_right And.left⟩

/-! ## Specifications of lines -/

theorem surplus_snoc (base : String) (lines : List Line) (l : Line) :
    surplus base (lines ++ [l]) =
      surplus base lines ++ if l.base? = some base then l.candidates.tail else [] := by
  simp [surplus]

theorem surplus_of_new (hnew : some base ∉ lines.map Line.base?) : surplus base lines = [] := by
  unfold surplus
  rw [List.flatMap_eq_nil_iff]
  intro l hl
  exact if_neg fun hbase : l.base? = some base => hnew (hbase ▸ List.mem_map_of_mem hl)

/-- A specification stays as it is through a line that does not have its base. -/
theorem Makes.other {l' : Line} (h : Makes lines l spec)
    (hother : spec.kind = .object → l'.base? ≠ some spec.name) : Makes (lines ++ [l']) l spec := by
  cases h with
  | plain hadds => exact .plain hadds
  | @object base hbase a =>
    have hsame : surplus base (lines ++ [l']) = surplus base lines := by
      rw [surplus_snoc, if_neg (hother rfl), List.append_nil]
    exact hsame ▸ .object hbase a

theorem Makes.kind_eq (h : Makes lines l spec) : spec.kind = l.kind := by
  cases h with
  | plain hadds => exact hadds.kind_eq
  | object hbase => exact (Line.kind_of_base? hbase).symm

theorem Makes.initial_kind (h : Makes lines l spec) : spec.initial.kind = spec.kind.valueKind := by
  cases h with
  | plain hadds => exact hadds.initial_kind
  | object hbase a => rfl

theorem Makes.range (h : Makes lines l spec) :
    (spec.kind ≠ .number → spec.min = none ∧ spec.max = none) ∧ IsRange spec.min spec.max := by
  cases h with
  | plain hadds => exact hadds.range
  | object hbase a => exact ⟨fun _ => ⟨rfl, rfl⟩, nofun⟩

theorem Makes.base_of_object (h : Makes lines l spec) (hkind : spec.kind = .object) :
    l.base? = some spec.name := by
  cases h with
  | plain hadds => exact absurd (hadds.kind_eq.symm.trans hkind) hadds.ne_object
  | object hbase => exact hbase

/-- A parameter that starts with a record is one of kind `Object`. -/
theorem Makes.object_of_record (h : Makes lines l spec) {a : Address}
    (hinitial : spec.initial = .record a) : spec.kind = .object := by
  have hkind := h.initial_kind
  rw [hinitial] at hkind
  cases hk : spec.kind with
  | object => rfl
  | _ => simp [hk, ParameterKind.valueKind, Value.kind] at hkind

/-- A specification with the base of a further line is extended by its surplus. -/
theorem Makes.extend {l' : Line} (h : Makes lines l spec) (hkind : spec.kind = .object)
    (hbase : l'.base? = some spec.name) :
    Makes (lines ++ [l']) l (spec.extend l'.candidates.tail) := by
  cases h with
  | plain hadds => exact absurd (hadds.kind_eq.symm.trans hkind) hadds.ne_object
  | @object base hl a =>
    have hmakes : Makes (lines ++ [l']) l
        { name := base, kind := .object, initial := .record a,
          alternatives := surplus base (lines ++ [l']) } := .object hl a
    rwa [surplus_snoc, if_pos hbase] at hmakes

/-- A line that is merged into the first specification of its base leaves the others. -/
theorem makes_modifyFirst {l' : Line} (hbase : l'.base? = some base) {makers : List Line}
    {specs : List ParameterSpec} (hmakes : List.Forall₂ (Makes lines) makers specs)
    (hdistinct : makers.Pairwise fun l l' => l.base? = none ∨ l.base? ≠ l'.base?)
    (hfind : specs.find? (·.name == base) = some spec) (hkind : spec.kind = .object) :
    List.Forall₂ (Makes (lines ++ [l'])) makers
      (modifyFirst base (·.extend l'.candidates.tail) specs) := by
  induction hmakes with
  | nil => cases hfind
  | @cons l p makers specs hl hrest ih =>
    rw [List.pairwise_cons] at hdistinct
    unfold modifyFirst
    by_cases hp : p.name = base
    · have hspec : p = spec := by simpa [hp] using hfind
      subst hspec
      have hlbase := hl.base_of_object hkind
      rw [if_pos (by simpa using hp)]
      refine .cons (hl.extend hkind (hp ▸ hbase)) ?_
      -- no further specification has the base, since no further line is the first with it
      refine ((List.forall₂_and_left _ _).2 ⟨hdistinct.1, hrest⟩).imp fun l₁ q hl₁ => ?_
      obtain ⟨hne, hq⟩ := hl₁
      refine hq.other fun hobject hname => ?_
      rw [hlbase, hq.base_of_object hobject, ← hname, hbase, hp] at hne
      simp at hne
    · rw [if_neg (by simpa using hp)]
      have hfind' : specs.find? (·.name == base) = some spec := by simpa [hp] using hfind
      refine .cons (hl.other fun _ hname => hp ?_) (ih hdistinct.2 hfind')
      exact Option.some.inj (hname.symm.trans hbase)

/-- The first line with a base makes the specification that has it for a name. -/
theorem Makes.name_of_base (h : Makes lines l spec) (hbase : l.base? = some base) :
    spec.name = base := by
  cases h with
  | plain hadds => exact absurd (Line.kind_of_base? hbase) hadds.ne_object
  | object hl => exact Option.some.inj (hl.symm.trans hbase)

end

/-! ## Taking lines -/

theorem Line.base?_of_split {l : Line} {base : String} {keys : List String}
    (hkind : l.kind = .object) (hname : Path.split l.name = base :: keys) :
    l.base? = some base := by
  rw [Line.base?, if_pos hkind, hname]
  rfl

/-- Every specification was made by its line. -/
theorem takes_makes {lines : List Line} {d : Draft} (ht : Takes lines d) :
    List.Forall₂ (Makes lines) (leaders [] lines) d.params := by
  induction ht with
  | nil h => exact .nil
  | @snoc lines l params d _ hnew hline ih =>
    rw [leaders_snoc, List.nil_append]
    by_cases hkind : l.kind = .object
    · rw [hkind] at hline
      generalize hc : l.candidates = candidates at hline
      obtain ⟨hname, hbase, -⟩ := addObject_ok_iff.1 hline
      rename_i base keys v rest a d₁ h'
      have hl := Line.base?_of_split hkind hname
      have htail : l.candidates.tail = rest := by rw [hc, List.tail_cons]
      cases hbase with
      | @found spec _ hfind hinitial =>
        obtain ⟨l', hl', hmakes⟩ := exists_left_of_forall₂ ih (List.mem_of_find?_eq_some hfind)
        have hobject := hmakes.object_of_record hinitial
        have hspec : spec.name = base := by simpa using List.find?_some hfind
        have hold : l.base? ∈ lines.map Line.base? := by
          rw [hl, ← hspec, ← hmakes.base_of_object hobject]
          exact List.mem_map_of_mem ((leaders_distinct [] lines).1 l' hl').1
        rw [if_neg (by simp [hl, hl ▸ hold]), List.append_nil, ← htail]
        exact makes_modifyFirst hl ih (leaders_distinct [] lines).2 hfind hobject
      | made hfind =>
        have hfirst : some base ∉ lines.map Line.base? := by
          intro hmem
          have hnone : some base ∉ ([] : List Line).map Line.base? := by simp
          obtain ⟨l', hl', hbase'⟩ := exists_leader hmem hnone
          obtain ⟨spec, hspec, hmakes⟩ := exists_right_of_forall₂ ih hl'
          have hne := List.find?_eq_none.1 hfind spec hspec
          simp [hmakes.name_of_base hbase'] at hne
        rw [if_pos (.inr (hl ▸ hfirst))]
        have hne : ∀ p ∈ params, p.name ≠ base := by simpa using hfind
        show List.Forall₂ _ _ (modifyFirst base _ (params ++ [_]))
        rw [@modifyFirst_append_of_ne base _ _ _ hne rfl]
        have hmakers := (List.forall₂_and_left _ _).2 ⟨(leaders_distinct [] lines).1, ih⟩
        have hothers : List.Forall₂ (Makes (lines ++ [l])) (leaders [] lines) params := by
          refine hmakers.imp fun l' spec ⟨hl', h⟩ => h.other fun hobject he => ?_
          rw [← hl, he, ← h.base_of_object hobject] at hfirst
          exact hfirst (List.mem_map_of_mem hl'.1)
        have hmakes : Makes (lines ++ [l]) l
            { name := base, kind := .object, initial := .record l.heap.records.size,
              alternatives := surplus base (lines ++ [l]) } := .object hl _
        rw [surplus_snoc, if_pos hl, surplus_of_new hfirst, htail] at hmakes
        exact List.rel_append hothers (.cons hmakes .nil)
    · obtain ⟨spec, hadds, rfl⟩ := addLine_plain hkind hline
      have hbase : l.base? = none := if_neg hkind
      rw [if_pos (.inl hbase)]
      refine List.rel_append (ih.imp fun _ _ h => h.other ?_) (.cons (.plain hadds) .nil)
      intro _
      simp [hbase]

/-! ## Values that lines leave alone -/

/-- The values that object parameters start with are there. -/
def Rooted (d : Draft) : Prop :=
  ∀ spec ∈ d.params, spec.kind = .object → d.heap.Closed spec.initial

/-- The value shares no cell with what object parameters start with. -/
structure Aside (d : Draft) (v : Value) : Prop where
  closed : d.heap.Closed v
  apart : ∀ spec ∈ d.params, spec.kind = .object → d.heap.Apart spec.initial v

section
variable {d d' d₁ : Draft} {h : Heap} {params : List ParameterSpec} {base name : String}
  {v w : Value} {rest : List Value} {a : Address}

theorem Rooted.extends (hd : Rooted d) (he : d.heap.Extends h) : Rooted { d with heap := h } :=
  fun spec hspec hkind => he.closed (hd spec hspec hkind)

theorem Aside.extends (hw : Aside d w) (hd : Rooted d) (he : d.heap.Extends h) :
    Aside { d with heap := h } w := by
  refine ⟨he.closed hw.closed, fun spec hspec hkind => ?_⟩
  have hroot := he.spares (hd spec hspec hkind)
  exact (hroot.apart_iff (he.spares hw.closed)).2 (hw.apart spec hspec hkind)

/-- A value of new cells shares none with what was there. -/
theorem aside_of_beyond (hd : Rooted d) (he : d.heap.Extends h) (hw : d.heap.Beyond h w) :
    Aside { d with heap := h } w :=
  ⟨hw.closed, fun spec hspec hkind c hc hcw =>
    (hw c hcw).2 (hd spec hspec hkind c (he.reaches (hd spec hspec hkind) hc))⟩

/-- The record of an object parameter that is there or new, and the values aside from it. -/
theorem HasBase.aside (hbase : HasBase d base a d₁) (hd : Rooted d)
    (hrecord : ∀ spec ∈ d.params, ∀ a, spec.initial = .record a → spec.kind = .object) :
    d.heap.Extends d₁.heap ∧ Rooted d₁ ∧ d₁.heap.Closed (.record a) ∧
      ∀ w, Aside d w → Aside d₁ w ∧ d₁.heap.Apart (.record a) w := by
  cases hbase with
  | @found spec _ hfind hinitial =>
    have hspec := List.mem_of_find?_eq_some hfind
    have hkind := hrecord spec hspec a hinitial
    exact ⟨.refl _, hd, hinitial ▸ hd spec hspec hkind,
      fun w hw => ⟨hw, hinitial ▸ hw.apart spec hspec hkind⟩⟩
  | made hfind =>
    have he := Heap.extends_newRecord d.heap []
    have hsize : ∀ c, (d.heap.newRecord []).2.Reaches (.record d.heap.records.size) c →
        c = .record d.heap.records.size := fun c hc =>
      Heap.reaches_size (Heap.reaches_newRecord_empty.1 hc)
    have hclosed : (d.heap.newRecord []).2.Closed (.record d.heap.records.size) := by
      intro c hc
      simp [hsize c hc, Heap.newRecord]
    have hnew : ∀ w, Aside d w →
        (d.heap.newRecord []).2.Apart (.record d.heap.records.size) w := by
      intro w hw c hc hcw
      have hold := hw.closed c (he.reaches hw.closed hcw)
      simp [hsize c hc] at hold
    have hmem : ∀ spec ∈ (d.withObject base).params,
        spec ∈ d.params ∨ spec.initial = .record d.heap.records.size := by
      intro spec hspec
      rcases List.mem_append.1 hspec with hspec | hspec
      · exact .inl hspec
      · exact .inr (by rw [List.mem_singleton.1 hspec])
    refine ⟨he, fun spec hspec hkind => ?_, hclosed, fun w hw => ⟨⟨he.closed hw.closed, ?_⟩,
      hnew w hw⟩⟩
    · rcases hmem spec hspec with hspec | hinitial
      · exact (hd.extends he) spec hspec hkind
      · rw [hinitial]
        exact hclosed
    · intro spec hspec hkind
      rcases hmem spec hspec with hspec | hinitial
      · exact (hw.extends hd he).apart spec hspec hkind
      · rw [hinitial]
        exact hnew w hw

/-- A merged line spares the values that share no cell with its own or with an object parameter. -/
theorem Merges.aside (hm : Merges d name (v :: rest) d') (hd : Rooted d)
    (hrecord : ∀ spec ∈ d.params, ∀ a, spec.initial = .record a → spec.kind = .object)
    (hv : d.heap.Closed v) :
    Rooted d' ∧ ∀ w, Aside d w → d.heap.Apart v w → Aside d' w ∧ d.heap.Spares d'.heap w := by
  obtain ⟨hname, hbase, hwrites⟩ := hm
  rename_i base keys a d₁ h'
  obtain ⟨he, hrooted, ha, haside⟩ := hbase.aside hd hrecord
  have hg := hwrites.grafts
  have hroot : ∀ spec ∈ modifyFirst base (·.extend rest) d₁.params, spec.kind = .object →
      d₁.heap.Closed spec.initial ∧ ∀ w, Aside d₁ w → d₁.heap.Apart spec.initial w := by
    intro spec hspec hkind
    obtain ⟨q, hq, rfl | rfl⟩ := mem_modifyFirst hspec
    · exact ⟨hrooted _ hq hkind, fun w hw => hw.apart _ hq hkind⟩
    · exact ⟨hrooted q hq hkind, fun w hw => hw.apart q hq hkind⟩
  refine ⟨fun spec hspec hkind => ?_, fun w hw hvw => ?_⟩
  · exact hg.closed ha (he.closed hv) (hroot spec hspec hkind).1
  · obtain ⟨hw₁, hapart⟩ := haside w hw
    have hvw₁ := ((he.spares hv).apart_iff (he.spares hw.closed)).2 hvw
    refine ⟨⟨hg.closed ha (he.closed hv) hw₁.closed, fun spec hspec hkind => ?_⟩,
      (he.spares hw.closed).trans (hg.spares hw₁.closed hapart)⟩
    exact hg.apart hw₁.closed ((hroot spec hspec hkind).2 w hw₁) hapart hvw₁

end

/-- A candidate that is not written into a record: that of a line of another kind than `Object`, or
one that shares no cell with the first of its line. -/
def Line.Spare (l : Line) (v : Value) : Prop :=
  v ∈ l.candidates ∧ (l.kind = .object → ∀ u ∈ l.candidates.head?, l.heap.Apart u v)

/-- Where lines bring values of their own, no line changes what is not written into a record. -/
theorem takes_spares {lines : List Line} {d : Draft} (ht : Takes lines d)
    (hown : ∀ l ∈ lines, l.Own) :
    Rooted d ∧ ∀ l ∈ lines, ∀ v, l.Spare v → Aside d v ∧ l.heap.Spares d.heap v := by
  induction ht with
  | nil h =>
    exact ⟨fun _ hspec => absurd hspec List.not_mem_nil, fun _ hl => absurd hl List.not_mem_nil⟩
  | @snoc lines l params d hlines hnew hline ih =>
    obtain ⟨hrooted, hspares⟩ := ih fun l' hl' => hown l' (List.mem_append_left _ hl')
    have hl : l.Own := hown l (List.mem_append_right _ List.mem_cons_self)
    have hrooted₁ : Rooted ⟨l.heap, params⟩ := hrooted.extends hnew
    have hcandidate : ∀ v ∈ l.candidates, Aside ⟨l.heap, params⟩ v :=
      fun v hv => aside_of_beyond hrooted hnew (hl v hv)
    -- it is enough to say what the line does to what is aside when it is taken
    have hstep : (∀ w, Aside ⟨l.heap, params⟩ w →
        (l.kind = .object → ∀ u ∈ l.candidates.head?, l.heap.Apart u w) →
          Aside d w ∧ l.heap.Spares d.heap w) → ∀ l' ∈ lines ++ [l], ∀ v, l'.Spare v →
            Aside d v ∧ l'.heap.Spares d.heap v := by
      intro hline l' hl' v hv
      rcases List.mem_append.1 hl' with hl' | hl'
      · obtain ⟨haside, hold⟩ := hspares l' hl' v hv
        obtain ⟨hd, hs⟩ := hline v (haside.extends hrooted hnew) fun _ u hu c hc hcv =>
          (hl u (List.mem_of_mem_head? hu) c hc).2
            (haside.closed c (hnew.reaches haside.closed hcv))
        exact ⟨hd, (hold.trans (hnew.spares haside.closed)).trans hs⟩
      · cases List.mem_singleton.1 hl'
        exact hline v (hcandidate v hv.1) hv.2
    by_cases hkind : l.kind = .object
    · rw [hkind] at hline
      have hmerges := addObject_ok_iff.1 hline
      have hrecord : ∀ spec ∈ params, ∀ a, spec.initial = .record a → spec.kind = .object := by
        intro spec hspec a hinitial
        obtain ⟨l', -, hmakes⟩ := exists_left_of_forall₂ (takes_makes hlines) hspec
        exact hmakes.object_of_record hinitial
      cases hc : l.candidates with
      | nil =>
        rw [hc] at hmerges
        cases hmerges
      | cons v rest =>
        rw [hc] at hmerges
        have hv : v ∈ l.candidates := hc ▸ List.mem_cons_self
        obtain ⟨hd, haside⟩ := hmerges.aside hrooted₁ hrecord (hcandidate v hv).closed
        exact ⟨hd, hstep fun w hw hapart => haside w hw (hapart hkind v (hc ▸ rfl))⟩
    · obtain ⟨spec, hadds, rfl⟩ := addLine_plain hkind hline
      have hmem : ∀ p ∈ params ++ [spec], p.kind = .object → p ∈ params := by
        intro p hp hobject
        rcases List.mem_append.1 hp with hp | hp
        · exact hp
        · rw [List.mem_singleton.1 hp, hadds.kind_eq] at hobject
          exact absurd hobject hkind
      exact ⟨fun p hp hobject => hrooted₁ p (hmem p hp hobject) hobject,
        hstep fun w hw _ => ⟨⟨hw.closed, fun p hp hobject => hw.apart p (hmem p hp hobject) hobject⟩,
          .refl _ _⟩⟩

/-! ## Runs -/

/-- A line whose candidates are values of a heap of their own. -/
structure Input where
  heap : Heap
  kind : ParameterKind
  name : String
  candidates : List Value

/-- Takes lines in order. -/
def addAll (inputs : List Input) : Drafting Unit :=
  inputs.forM fun input => addLineFrom input.heap input.kind input.name input.candidates

section
variable {lines : List Line} {d d' : Draft}

/-- A line with candidates of another heap is taken with copies of them. -/
theorem Takes.addLineFrom (ht : Takes lines d) {source : Heap} {kind : ParameterKind}
    {name : String} {candidates : List Value}
    (h : addLineFrom source kind name candidates d = .ok () d') :
    Takes (lines ++ [⟨d.heap, d.heap.append source, kind, name,
      candidates.map d.heap.shiftValue⟩]) d' :=
  .snoc ht (.append d.heap source) h

/-- Lines with candidates of heaps of their own are taken with values of their own. -/
theorem takes_of_addAll : ∀ {inputs : List Input} {lines : List Line} {d : Draft}, Takes lines d →
    (∀ input ∈ inputs, ∀ v ∈ input.candidates, input.heap.Closed v) →
      addAll inputs d = .ok () d' → ∃ taken, Takes (lines ++ taken) d' ∧ (∀ l ∈ taken, l.Own) ∧
        taken.map (fun l => (l.kind, l.name)) = inputs.map fun input => (input.kind, input.name)
  | [], lines, d, ht, _, h => by
    cases h
    exact ⟨[], by rwa [List.append_nil], nofun, rfl⟩
  | input :: inputs, lines, d, ht, hclosed, h => by
    obtain ⟨_, d₁, hline, hrest⟩ := ok_of_bind h
    rw [List.forall_mem_cons] at hclosed
    obtain ⟨taken, hall, hown, hnames⟩ := takes_of_addAll (ht.addLineFrom hline) hclosed.2 hrest
    rw [List.append_assoc] at hall
    refine ⟨_ :: taken, hall, List.forall_mem_cons.2 ⟨fun v hv => ?_, hown⟩, ?_⟩
    · obtain ⟨u, hu, rfl⟩ := List.mem_map.1 hv
      exact Heap.beyond_shift d.heap (hclosed.1 u hu)
    · rw [List.map_cons, List.map_cons, hnames]

end

/-- What becomes of lines that are all accepted.  Each specification was made by a line, in order:
every line of another kind than `Object` makes one of its coerced candidates, the further ones being
alternatives, and so does the first line of kind `Object` with a base, for all that have it
(`Makes`).  Every parameter starts with a value of its kind, and only numbers have a range, which is
not empty.  Where lines bring values of their own, the candidates that were not written into a
record are as they were. -/
theorem takes_specs {lines : List Line} {d : Draft} (ht : Takes lines d) :
    List.Forall₂ (Makes lines) (leaders [] lines) d.params ∧
      (∀ spec ∈ d.params, spec.initial.kind = spec.kind.valueKind ∧
        (spec.kind ≠ .number → spec.min = none ∧ spec.max = none) ∧
          IsRange spec.min spec.max) ∧
      ((∀ l ∈ lines, l.Own) → ∀ l ∈ lines, ∀ v, l.Spare v → l.heap.Spares d.heap v) := by
  refine ⟨takes_makes ht, fun spec hspec => ?_, fun hown l hl v hv => ?_⟩
  · obtain ⟨l, -, hmakes⟩ := exists_left_of_forall₂ (takes_makes ht) hspec
    exact ⟨hmakes.initial_kind, hmakes.range⟩
  · exact ((takes_spares ht hown).2 l hl v hv).2

/-- Two lines of kind `Object` with the base `cfg`, a number with a range between them and an array
after them. -/
def interleaved : List Input :=
  [⟨{}, .object, "cfg.a", [.int 1, .int 2]⟩,
    ⟨{}, .number, "n", [.int 5, .int 0, .text "10", .int 7]⟩,
    ⟨{}, .object, "cfg.b", [.text "x", .null]⟩,
    ⟨⟨#[[.int 3]], #[], #[.sequence 0]⟩, .array, "xs", [.sequence 0, .boolean true]⟩]

theorem takes_specs_interleaved : ∃ lines d, Takes lines d ∧ (∀ l ∈ lines, l.Own) ∧
    lines.map (fun l => (l.kind, l.name)) =
      [(.object, "cfg.a"), (.number, "n"), (.object, "cfg.b"), (.array, "xs")] ∧
    d.params.map (fun p => (p.name, p.kind, p.alternatives.length)) =
      [("cfg", .object, 2), ("n", .number, 1), ("xs", .array, 1)] ∧
    List.Forall₂ (Makes lines) (leaders [] lines) d.params ∧
      ∀ l ∈ lines, ∀ v, l.Spare v → l.heap.Spares d.heap v := by
  have hrun : (addAll interleaved >>= fun _ => get >>= fun d =>
      pure (d.params.map fun p => (p.name, p.kind, p.alternatives.length)) :
        Drafting (List (String × ParameterKind × Nat))).run' {} =
      some [("cfg", .object, 2), ("n", .number, 1), ("xs", .array, 1)] := by
    decide +kernel
  have hsequence : Heap.Closed ⟨#[[.int 3]], #[], #[.sequence 0]⟩ (.sequence 0) := by
    intro c hc
    cases hc with
    | sequence => simp
    | item hmem hc =>
      cases List.mem_singleton.1 hmem
      cases hc
  have hclosed : ∀ input ∈ interleaved, ∀ v ∈ input.candidates, input.heap.Closed v := by
    simp only [interleaved, List.forall_mem_cons]
    exact ⟨⟨nofun, nofun, nofun⟩, ⟨nofun, nofun, nofun, nofun, nofun⟩, ⟨nofun, nofun, nofun⟩,
      ⟨hsequence, nofun, nofun⟩, nofun⟩
  obtain ⟨_, hok⟩ := ok_of_run' hrun
  obtain ⟨_, d, hall, hparams⟩ := ok_of_bind hok
  obtain ⟨lines, ht, hown, hnames⟩ := takes_of_addAll (.nil {}) hclosed hall
  obtain ⟨hmakes, -, hspares⟩ := takes_specs ht
  exact ⟨lines, d, ht, hown, hnames, (EStateM.Result.ok.inj hparams).1, hmakes, hspares hown⟩

end Draft

end Chronicle
