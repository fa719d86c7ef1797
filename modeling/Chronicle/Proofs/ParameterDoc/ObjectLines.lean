import Chronicle.Proofs.ParameterDoc.Layout

/-!
# Lines for the parts of an object

`Draft.Fragment` is a line of kind `Object`.  Lines of one base whose paths lie beside each other are
all accepted and make one specification, which holds the first candidate of each line at its path
(`addAll_fragments`): a write keeps what the writes before it left, since their paths lie beside its
own (`Writes.kept`, `Holding.next`).

`objectPaths_merge` puts this together with the laws of writes at paths (`NestedWrites`).
-/

set_option autoImplicit false

namespace Chronicle

namespace Draft

open Heap

section
variable {h h' : Heap} {a : Address} {v : Value} {keys : List String}

/-- What a write leaves below the record of an object parameter. -/
structure Kept (h : Heap) (a : Address) (keys : List String) (v : Value) (h' : Heap) : Prop where
  planted : h'.Planted (.record a)
  found : ∃ w, h'.follow (.record a) keys = some w ∧ h.Same h' v w
  beside : ∀ q, Beside keys q → h.KeptAt h' (.record a) q

/-- A record that takes over the fields of a tree is the same tree. -/
theorem kept_setFields {source : Address} (ha : a < h.records.size)
    (hv : h.Planted (.record source)) (hapart : h.Apart (.record a) (.record source)) :
    Kept h a [] (.record source) (h.setFields a (h.fields source)) := by
  have hfields := h.fields_setFields_self ha (h.fields source)
  have hspares : h.Spares (h.setFields a (h.fields source)) (.record source) :=
    spares_setFields (hapart _ (.record a))
  refine ⟨⟨fun c hc => ?_, .record ?_ (fun field hf => ?_) ?_⟩, ⟨_, follow_nil _, .record ?_ ?_⟩,
    fun q hq => absurd rfl hq.ne_nil⟩
  · rw [cells_setFields]
    cases hc with
    | record => exact record_mem_cells.2 ha
    | field hmem hc =>
      rw [hfields] at hmem
      exact hv.closed c (.field hmem ((hspares.field hmem).reaches_iff.1 hc))
  · rw [hfields]
    exact hv.unshared.names
  · rw [hfields] at hf
    exact (hspares.field hf).unshared (hv.unshared.fields hf)
  · rw [hfields]
    exact hv.unshared.pairwise.imp_of_mem fun hf hg =>
      ((hspares.field hf).apart_iff (hspares.field hg)).2
  · rw [hfields]
  · intro i f f' hf hf'
    rw [hfields] at hf'
    obtain rfl := Option.some.inj (hf.symm.trans hf')
    have hmem := List.mem_of_getElem? hf
    exact (hspares.field hmem).same (hv.unshared.fields hmem).same_self

/-- A write of a tree at a path is found there and nowhere beside it.  Without keys, the fields of
the value come to a record that had none. -/
theorem Writes.kept (hw : Writes h a keys v h') (ha : h.Planted (.record a)) (hv : h.Planted v)
    (hapart : h.Apart (.record a) v) (hfields : keys = [] → h.fields a = []) :
    Kept h a keys v h' := by
  cases hw with
  | below hkeys =>
    have hspares := (h.grafts_setNested v keys a).spares hv.closed hapart
    have hwritten := written_setNested v keys hkeys ha
    exact ⟨ha.setNested keys hv hapart,
      ⟨v, hwritten.at_path, hspares.same hv.unshared.same_self⟩, hwritten.beside⟩
  | fields source =>
    have hcopied : (h.fields a).update (h.fields source) = h.fields source := by
      rw [hfields rfl]
      exact Fields.update_of_disjoint hv.unshared.names
    rw [hcopied]
    exact kept_setFields ha.lt hv hapart

end

/-! ## Lines of one base -/

/-- A line of kind `Object` with the candidates that it lists. -/
structure Fragment where
  heap : Heap
  name : String
  first : Value
  rest : List Value

namespace Fragment

/-- The path of the line, from its base on. -/
def keys (f : Fragment) : List String :=
  (Path.split f.name).tail

/-- The line as it is given to a draft. -/
def input (f : Fragment) : Input :=
  ⟨f.heap, .object, f.name, f.first :: f.rest⟩

/-- The line has the base, and its first candidate is a tree: a record when the line is for the
whole parameter. -/
structure Fits (base : String) (f : Fragment) : Prop where
  base : (Path.split f.name).head? = some base
  planted : f.heap.Planted f.first
  whole : f.keys = [] → ∃ source, f.first = .record source

theorem Fits.split {base : String} {f : Fragment} (hf : f.Fits base) :
    Path.split f.name = base :: f.keys := by
  have hbase := hf.base
  unfold keys
  cases hs : Path.split f.name with
  | nil =>
    rw [hs] at hbase
    cases hbase
  | cons first rest =>
    rw [hs] at hbase
    cases hbase
    rfl

end Fragment

/-- The last parameter of the draft is one for the base, which starts with a tree that holds the
first candidate of each line at its path. -/
structure Holding (params : List ParameterSpec) (base : String) (fragments : List Fragment)
    (d : Draft) (spec : ParameterSpec) (a : Address) : Prop where
  params : d.params = params ++ [spec]
  name : spec.name = base
  kind : spec.kind = .object
  initial : spec.initial = .record a
  planted : d.heap.Planted (.record a)
  found : ∀ f ∈ fragments, ∃ w, d.heap.follow (.record a) f.keys = some w ∧
    f.heap.Same d.heap f.first w

section
variable {d d₁ : Draft} {base : String} {a : Address} {f : Fragment} {params : List ParameterSpec}
  {spec : ParameterSpec} {fragments : List Fragment}

/-- A fragment's first candidate as a value of the draft that takes the line. -/
theorem Fragment.Fits.moved (hf : f.Fits base) (d : Draft) :
    (d.heap.append f.heap).Planted (d.heap.shiftValue f.first) :=
  ⟨(beyond_shift d.heap hf.planted.closed).closed, hf.planted.unshared.shift d.heap⟩

/-- A line that fits is accepted where its base has a record, into which its first candidate is
written. -/
theorem addLineFrom_fragment (hf : f.Fits base)
    (hbase : HasBase ⟨d.heap.append f.heap, d.params⟩ base a d₁)
    (hextends : (d.heap.append f.heap).Extends d₁.heap) (ha : d₁.heap.Planted (.record a))
    (hapart : d₁.heap.Apart (.record a) (d.heap.shiftValue f.first))
    (hempty : f.keys = [] → d₁.heap.fields a = []) :
    ∃ h' w, addLineFrom f.heap .object f.name (f.first :: f.rest) d = .ok ()
        ⟨h', modifyFirst base (·.extend (f.rest.map d.heap.shiftValue)) d₁.params⟩ ∧
      h'.Planted (.record a) ∧ h'.follow (.record a) f.keys = some w ∧ f.heap.Same h' f.first w ∧
        ∀ q, Beside f.keys q → d₁.heap.KeptAt h' (.record a) q := by
  have hmoved := hf.moved d
  have hspares := hextends.spares hmoved.closed
  have hwrites : ∃ h', Writes d₁.heap a f.keys (d.heap.shiftValue f.first) h' := by
    by_cases hkeys : f.keys = []
    · obtain ⟨source, hsource⟩ := hf.whole hkeys
      rw [hkeys, hsource]
      exact ⟨_, .fields _⟩
    · exact ⟨_, .below hkeys _⟩
  obtain ⟨h', hw⟩ := hwrites
  obtain ⟨hplanted, ⟨w, hfollow, hsame⟩, hbeside⟩ :=
    hw.kept ha (hmoved.spared hspares hextends.cells) hapart hempty
  have hcopied : f.heap.Same d₁.heap f.first (d.heap.shiftValue f.first) :=
    hspares.same (hf.planted.unshared.same_self.shift ⟨rfl, rfl⟩)
  exact ⟨h', w, addObject_ok_iff.2 (.mk hf.split hbase hw), hplanted, hfollow,
    hcopied.trans hsame, hbeside⟩

/-- The first line of a base makes the parameter. -/
theorem holding_first (hf : f.Fits base) (hfind : d.params.find? (·.name == base) = none) :
    ∃ d' spec a, addLineFrom f.heap .object f.name (f.first :: f.rest) d = .ok () d' ∧
      Holding d.params base [f] d' spec a := by
  have hextends := extends_newRecord (d.heap.append f.heap) []
  have hmoved := hf.moved d
  have hplanted : ((d.heap.append f.heap).newRecord []).2.Planted
      (.record (d.heap.append f.heap).records.size) :=
    planted_empty (by simp [newRecord]) (by rw [fields_newRecord_empty, fields_size])
  have hapart : ((d.heap.append f.heap).newRecord []).2.Apart
      (.record (d.heap.append f.heap).records.size) (d.heap.shiftValue f.first) := by
    intro c hc hcv
    obtain rfl := reaches_size (reaches_newRecord_empty.1 hc)
    simpa using hmoved.closed _ (reaches_newRecord_empty.1 hcv)
  have hbase : HasBase ⟨d.heap.append f.heap, d.params⟩ base _
      (withObject ⟨d.heap.append f.heap, d.params⟩ base) := .made hfind
  obtain ⟨h', w, hadd, hplanted', hfollow, hsame, -⟩ :=
    addLineFrom_fragment hf hbase hextends hplanted hapart fun _ =>
      (fields_newRecord_empty _ _).trans (fields_size _)
  have hne : ∀ p ∈ d.params, p.name ≠ base := by simpa using hfind
  refine ⟨_, _, _, hadd, @modifyFirst_append_of_ne base _ _ _ hne rfl, rfl, rfl, rfl, hplanted', ?_⟩
  rw [List.forall_mem_singleton]
  exact ⟨w, hfollow, hsame⟩

/-- A further line, whose path lies beside those before it, keeps what they left. -/
theorem Holding.next {done : List Fragment} (hd : Holding params base done d spec a)
    (hfind : params.find? (·.name == base) = none) (hf : f.Fits base) (hdone : done ≠ [])
    (hbeside : ∀ g ∈ done, Beside g.keys f.keys) :
    ∃ d' spec', addLineFrom f.heap .object f.name (f.first :: f.rest) d = .ok () d' ∧
      Holding params base (done ++ [f]) d' spec' a := by
  have hextends := Extends.append d.heap f.heap
  have hspares := hextends.spares hd.planted.closed
  have hbase : HasBase ⟨d.heap.append f.heap, d.params⟩ base a ⟨d.heap.append f.heap, d.params⟩ :=
    .found (by simp [hd.params, hfind, hd.name]) hd.initial
  -- the copied candidate is new, and the record reaches none but old cells
  have hapart : (d.heap.append f.heap).Apart (.record a) (d.heap.shiftValue f.first) :=
    fun c hc hcv => (beyond_shift d.heap hf.planted.closed c hcv).2
      (hd.planted.closed c (hspares.reaches_iff.1 hc))
  have hkeys : f.keys ≠ [] := by
    obtain ⟨g, hg⟩ := List.exists_mem_of_ne_nil done hdone
    exact (hbeside g hg).symm.ne_nil
  obtain ⟨h', w, hadd, hplanted, hfollow, hsame, hkept⟩ :=
    addLineFrom_fragment hf hbase (.refl _) (hd.planted.spared hspares hextends.cells) hapart
      fun he => absurd he hkeys
  have hne : ∀ p ∈ params, p.name ≠ base := by simpa using hfind
  refine ⟨_, spec.extend (f.rest.map d.heap.shiftValue), hadd, ?_, hd.name, hd.kind, hd.initial,
    hplanted, ?_⟩
  · show modifyFirst base _ d.params = _
    rw [hd.params]
    exact modifyFirst_append_of_ne hne hd.name
  · intro g hg
    rcases List.mem_append.1 hg with hg | hg
    · obtain ⟨w, hw, hgsame⟩ := hd.found g hg
      obtain ⟨hfollow', hstill⟩ := hkept g.keys (hbeside g hg).symm
      rw [hspares.follow_eq, hw] at hfollow'
      exact ⟨w, hfollow', (hstill w ((hspares.follow_eq _).trans hw)).same
        ((hspares.of_follow hw).same hgsame)⟩
    · cases List.mem_singleton.1 hg
      exact ⟨w, hfollow, hsame⟩

/-- Further lines whose paths lie beside each other and beside those before them. -/
theorem Holding.all (hfind : params.find? (·.name == base) = none) :
    ∀ {more done : List Fragment} {d : Draft} {spec : ParameterSpec},
      Holding params base done d spec a → done ≠ [] → (∀ f ∈ more, f.Fits base) →
      (done ++ more).Pairwise (fun f g => Beside f.keys g.keys) →
        ∃ d' spec', addAll (more.map Fragment.input) d = .ok () d' ∧
          Holding params base (done ++ more) d' spec' a
  | [], done, d, spec, hd, _, _, _ => ⟨d, spec, rfl, by rwa [List.append_nil]⟩
  | f :: more, done, d, spec, hd, hdone, hfits, hpairs => by
    rw [List.forall_mem_cons] at hfits
    have hbeside : ∀ g ∈ done, Beside g.keys f.keys := fun g hg =>
      (List.pairwise_append.1 hpairs).2.2 g hg f List.mem_cons_self
    obtain ⟨d₁, spec₁, hadd, hd₁⟩ := hd.next hfind hfits.1 hdone hbeside
    rw [List.append_cons] at hpairs ⊢
    obtain ⟨d', spec', hall, hd'⟩ := hd₁.all hfind (by simp) hfits.2 hpairs
    exact ⟨d', spec', (bind_of_ok hadd).trans hall, hd'⟩

/-- Lines of a new base with paths beside each other are all accepted, and make one parameter. -/
theorem addAll_fragments (hfind : d.params.find? (·.name == base) = none) (hne : fragments ≠ [])
    (hfits : ∀ f ∈ fragments, f.Fits base)
    (hpairs : fragments.Pairwise (fun f g => Beside f.keys g.keys)) :
    ∃ d' spec a, addAll (fragments.map Fragment.input) d = .ok () d' ∧
      Holding d.params base fragments d' spec a := by
  obtain ⟨f, more, rfl⟩ := List.exists_cons_of_ne_nil hne
  rw [List.forall_mem_cons] at hfits
  obtain ⟨d₁, spec₁, a, hadd, hd₁⟩ := holding_first hfits.1 hfind
  obtain ⟨d', spec', hall, hd'⟩ := hd₁.all hfind (List.cons_ne_nil f []) hfits.2 hpairs
  exact ⟨d', spec', a, (bind_of_ok hadd).trans hall, hd'⟩

end

/-! ## Writes and lines -/

/-- The laws of writes at paths below a tree.  The value that is written is found at the path, as it
was if it is a tree apart from the record; what stands at a path beside it is kept; a second write
at the path is as if it were the only one; and writes at paths beside each other can be made in
either order. -/
structure NestedWrites (h : Heap) (a : Address) : Prop where
  found : ∀ p v, p ≠ [] → (h.setNested a p v).follow (.record a) p = some v
  content : ∀ p v, h.Planted v → h.Apart (.record a) v → h.Spares (h.setNested a p v) v
  beside : ∀ p v q, p ≠ [] → Beside p q → h.KeptAt (h.setNested a p v) (.record a) q
  again : ∀ p v u, p ≠ [] →
    ((h.setNested a p v).setNested a p u).sequences = (h.setNested a p u).sequences ∧
      ((h.setNested a p v).setNested a p u).records = (h.setNested a p u).records
  exchange : ∀ p q v u, h.Planted v → h.Planted u → h.Apart (.record a) v →
    h.Apart (.record a) u → Beside p q →
      ((h.setNested a p v).setNested a q u).AgreeBelow ((h.setNested a q u).setNested a p v)
        (.record a) (.record a)

/-- Writes at paths below a tree obey the laws of `NestedWrites`.  So where lines of kind `Object`
have one base and paths that lie beside each other, all are accepted, and they make one parameter,
which holds the first candidate of each at its path. -/
theorem objectPaths_merge :
    (∀ (h : Heap) (a : Address), h.Planted (.record a) → NestedWrites h a) ∧
    ∀ (d : Draft) (base : String) (fragments : List Fragment),
      d.params.find? (·.name == base) = none → fragments ≠ [] → (∀ f ∈ fragments, f.Fits base) →
      fragments.Pairwise (fun f g => Beside f.keys g.keys) →
        ∃ d' spec a, addAll (fragments.map Fragment.input) d = .ok () d' ∧
          Holding d.params base fragments d' spec a := by
  refine ⟨fun h a ha => ⟨?_, ?_, ?_, ?_, ?_⟩, fun d base fragments => addAll_fragments⟩
  · exact fun p v hp => (written_setNested v p hp ha).at_path
  · exact fun p v hv hapart => (h.grafts_setNested v p a).spares hv.closed hapart
  · exact fun p v q hp => (written_setNested v p hp ha).beside q
  · exact fun p v u hp => setNested_setNested v u p hp ha
  · exact fun p q v u hv hu hav hau => setNested_comm ha hv hu hav hau

/-- The heap with one record, which has one field. -/
def oneField : Heap :=
  ⟨#[], #[[("d", .int 1)]], #[.record 0]⟩

theorem planted_oneField : oneField.Planted (.record 0) := by
  refine ⟨fun c hc => ?_, .record (by decide) (fun field hf => ?_) (List.pairwise_singleton _ _)⟩
  · cases hc with
    | record => decide
    | field hmem hc =>
      cases List.mem_singleton.1 hmem
      cases hc
  · cases List.mem_singleton.1 hf
    exact .atom nofun

/-- Three lines with the base `cfg`: a number, a record and a text. -/
def cfgFragments : List Fragment :=
  [⟨{}, "cfg.a", .int 1, [.int 2]⟩, ⟨oneField, "cfg.b.c", .record 0, []⟩,
    ⟨{}, "cfg.b.e", .text "x", []⟩]

theorem split_cfgFragments : cfgFragments.map (fun f => Path.split f.name) =
    [["cfg", "a"], ["cfg", "b", "c"], ["cfg", "b", "e"]] := by
  decide +kernel

theorem objectPaths_merge_cfgFragments : NestedWrites oneField 0 ∧
    ∃ d spec a, addAll (cfgFragments.map Fragment.input) {} = .ok () d ∧
      Holding [] "cfg" cfgFragments d spec a := by
  have hsplit := split_cfgFragments
  simp only [cfgFragments, List.map_cons, List.cons.injEq, List.map_nil, and_true] at hsplit
  obtain ⟨ha, hc, he⟩ := hsplit
  refine ⟨objectPaths_merge.1 oneField 0 planted_oneField,
    objectPaths_merge.2 {} "cfg" cfgFragments rfl (List.cons_ne_nil _ _) ?_ ?_⟩
  · simp only [cfgFragments, List.forall_mem_cons]
    refine ⟨⟨by rw [ha]; rfl, planted_atom nofun, ?_⟩, ⟨by rw [hc]; rfl, planted_oneField, ?_⟩,
      ⟨by rw [he]; rfl, planted_atom nofun, ?_⟩, nofun⟩
    all_goals simp [Fragment.keys, ha, hc, he]
  · simp [cfgFragments, Fragment.keys, ha, hc, he, Beside]

end Draft

end Chronicle
