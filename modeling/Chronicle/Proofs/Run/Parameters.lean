import Mathlib.Data.List.Forall2
import Mathlib.Data.List.Pairwise
import Chronicle.Proofs.Evaluation.Lasting
import Chronicle.Proofs.Store.World
import Chronicle.Proofs.Value.Separate
import Chronicle.Run.Parameters

/-!
# Bound parameters

Binding checks first whether parameters and specifications line up (`LinedUp`,
`checkParameters_cases`).  Where they do, it binds one specification after the other, each to a copy
of its value: `World.BindsAll` says what that leaves behind, and `BindsAll.cons` takes it one
specification further (`forM_bindParameter`).  Each copy consists of cells that are new when it is
made, so that the copies are apart from one another and from everything that was there before.

`bindParameters_allOrNothing` puts these together.
-/

set_option autoImplicit false

namespace Chronicle

/-! ## Checks -/

/-- Parameters and specifications that line up: every parameter is a plain name with a
specification, and no name has two. -/
structure LinedUp (declared : List Node) (specs : List ParameterSpec) : Prop where
  identifiers : ∀ node ∈ declared, ∃ location name, node = .identifier location name
  distinct : (specs.map ParameterSpec.name).Nodup
  specified : ∀ location name, .identifier location name ∈ declared →
    name ∈ specs.map ParameterSpec.name

theorem name?_eq_some_iff {node : Node} {name : String} :
    node.name? = some name ↔ ∃ location, node = .identifier location name := by
  cases node <;> simp [Node.name?]

/-- The names of parameters are found, or one of these has no name. -/
theorem declaredNames_cases (declared : List Node) :
    (∃ names, declaredNames declared = .ok names ∧ declared.map Node.name? = names.map some) ∨
      (∃ detail location, declaredNames declared = .error ⟨.parameterBinding detail, location⟩) ∧
        ∃ node ∈ declared, node.name? = none := by
  induction declared with
  | nil => exact .inl ⟨[], rfl, rfl⟩
  | cons node rest ih =>
    cases node with
    | identifier location name =>
      unfold declaredNames
      rcases ih with ⟨names, hnames, hmap⟩ | ⟨⟨detail, place, herror⟩, node, hnode, hnone⟩
      · refine .inl ⟨name :: names, by rw [hnames]; rfl, ?_⟩
        rw [List.map_cons, List.map_cons, hmap]
        rfl
      · exact .inr ⟨⟨detail, place, by rw [herror]; rfl⟩, node, List.mem_cons_of_mem _ hnode, hnone⟩
    | _ => exact .inr ⟨⟨_, _, rfl⟩, _, List.mem_cons_self, rfl⟩

theorem firstRepeated_eq_none_iff : ∀ {names seen : List String},
    firstRepeated seen names = none ↔ names.Nodup ∧ ∀ n ∈ names, n ∉ seen
  | [], _ => by simp [firstRepeated]
  | name :: rest, seen => by
    unfold firstRepeated
    by_cases hname : name ∈ seen
    · simp [hname]
    · have hnew : seen.contains name = false := by simpa using hname
      rw [hnew, if_neg Bool.false_ne_true, firstRepeated_eq_none_iff, List.nodup_cons]
      constructor
      · rintro ⟨hrest, hseen⟩
        refine ⟨⟨fun hmem => hseen name hmem List.mem_cons_self, hrest⟩, fun n hn => ?_⟩
        rcases List.mem_cons.1 hn with rfl | hn
        · exact hname
        · exact fun hmem => hseen n hn (List.mem_cons_of_mem name hmem)
      · rintro ⟨⟨hmem, hrest⟩, hseen⟩
        refine ⟨hrest, fun n hn => ?_⟩
        rw [List.mem_cons, not_or]
        exact ⟨fun he => hmem (he ▸ hn), hseen n (List.mem_cons_of_mem name hn)⟩

/-- With all names found, what lines up are distinct specifications among which none is missing. -/
theorem linedUp_iff {declared : List Node} {specs : List ParameterSpec} {names : List String}
    (hmap : declared.map Node.name? = names.map some) :
    LinedUp declared specs ↔ firstRepeated [] (specs.map ParameterSpec.name) = none ∧
      names.filter (fun name => !(specs.map ParameterSpec.name).contains name) = [] := by
  have hmem : ∀ name, name ∈ names ↔ ∃ location, .identifier location name ∈ declared := by
    intro name
    have hsome : name ∈ names ↔ some name ∈ declared.map Node.name? := by simp [hmap]
    rw [hsome, List.mem_map]
    constructor
    · rintro ⟨node, hnode, hname⟩
      obtain ⟨location, rfl⟩ := name?_eq_some_iff.1 hname
      exact ⟨location, hnode⟩
    · rintro ⟨location, hnode⟩
      exact ⟨_, hnode, rfl⟩
  rw [firstRepeated_eq_none_iff, List.filter_eq_nil_iff]
  constructor
  · intro h
    refine ⟨⟨h.distinct, fun _ _ => List.not_mem_nil⟩, fun name hname => ?_⟩
    obtain ⟨location, hnode⟩ := (hmem name).1 hname
    simpa using h.specified location name hnode
  · rintro ⟨⟨hdistinct, -⟩, hgiven⟩
    refine ⟨fun node hnode => ?_, hdistinct, fun location name hnode => ?_⟩
    · have hname : node.name? ∈ names.map some := hmap ▸ List.mem_map_of_mem hnode
      obtain ⟨name, -, hname⟩ := List.mem_map.1 hname
      obtain ⟨location, rfl⟩ := name?_eq_some_iff.1 hname.symm
      exact ⟨location, name, rfl⟩
    · simpa using hgiven name ((hmem name).2 ⟨location, hnode⟩)

/-- The check passes parameters and specifications that line up, and fails with an error of the
binding on any others. -/
theorem checkParameters_cases (declared : List Node) (specs : List ParameterSpec) :
    checkParameters declared specs = .ok () ∧ LinedUp declared specs ∨
      (∃ detail location,
        checkParameters declared specs = .error ⟨.parameterBinding detail, location⟩) ∧
        ¬ LinedUp declared specs := by
  rcases declaredNames_cases declared with
    ⟨names, hnames, hmap⟩ | ⟨⟨detail, location, herror⟩, node, hnode, hnone⟩
  · rw [linedUp_iff hmap]
    unfold checkParameters
    simp only [hnames, bind, Except.bind]
    cases hr : firstRepeated [] (specs.map ParameterSpec.name) with
    | some name => exact .inr ⟨⟨_, _, rfl⟩, fun h => absurd h.1 (Option.some_ne_none name)⟩
    | none =>
      cases hm : names.filter fun name => !(specs.map ParameterSpec.name).contains name with
      | nil => exact .inl ⟨rfl, rfl, rfl⟩
      | cons first rest =>
        exact .inr ⟨⟨_, _, rfl⟩, fun h => absurd h.2 (List.cons_ne_nil first rest)⟩
  · refine .inr ⟨⟨detail, location, by rw [checkParameters, herror]; rfl⟩, fun h => ?_⟩
    obtain ⟨l, name, rfl⟩ := h.identifiers node hnode
    cases hnone

/-! ## Bindings -/

/-- What a specification is bound to: itself, a value of the same structure as its own, and the
rendering of this value as the only entry. -/
structure Bound (source h : Heap) (step : Int) (spec : ParameterSpec) (x : String × Binding) :
    Prop where
  named : x.1 = spec.name
  carries : x.2.spec = some spec
  same : source.Same h spec.initial x.2.value
  history : ∃ text, source.format spec.initial = .ok text ∧ x.2.history = #[⟨step, text⟩]

/-- What binding specifications leaves: the scope's bindings go on with theirs, whose values lie in
cells that are new and are apart from one another, and nothing else has changed. -/
structure World.BindsAll (source : Heap) (scope : ScopeId) (step : Int) (w : World)
    (specs : List ParameterSpec) (bound : List (String × Binding)) (w' : World) : Prop where
  bindings : (w'.scopes.scope scope).bindings = (w.scopes.scope scope).bindings ++ bound
  others : ∀ i, i ≠ scope → w'.scopes.scope i = w.scopes.scope i
  heap : w.heap.Extends w'.heap
  each : List.Forall₂ (Bound source w'.heap step) specs bound
  beyond : ∀ x ∈ bound, Heap.Beyond w.heap w'.heap x.2.value
  apart : bound.Pairwise fun x y => w'.heap.Apart x.2.value y.2.value

section
variable {source : Heap} {scope : ScopeId} {step : Int} {w w' : World} {spec : ParameterSpec}
variable {bound : List (String × Binding)} {text : String}

/-- The world with a specification bound to a copy of its value. -/
def World.addParameter (w : World) (source : Heap) (scope : ScopeId) (step : Int)
    (spec : ParameterSpec) (text : String) : World :=
  { w with heap := w.heap.append source }.add scope spec.name (w.heap.shiftValue spec.initial) text
    step (some spec)

theorem bindParameter_eq (hown : w.scopes.own? scope spec.name = none)
    (ht : source.format spec.initial = .ok text) :
    bindParameter scope source step spec w =
      .ok () (w.addParameter source scope step spec text) := by
  have habove : Heap.Above w.heap source (w.heap.append source) := ⟨rfl, rfl⟩
  show Effect.define scope spec.name (w.heap.shiftValue spec.initial) step (some spec)
    { w with heap := w.heap.append source } = _
  rw [Effect.define_eq, if_neg (by simp [hown]), habove.format_shift, ht]
  rfl

namespace World.BindsAll

theorem nil (w : World) : BindsAll source scope step w [] [] w :=
  ⟨(List.append_nil _).symm, fun _ _ => rfl, .refl w.heap, .nil, fun _ hx => by simp at hx, .nil⟩

/-- One specification more, before the others. -/
theorem cons {specs : List ParameterSpec} (hscope : scope < w.scopes.all.size)
    (ht : source.format spec.initial = .ok text) (hclosed : source.Closed spec.initial)
    (h : BindsAll source scope step (w.addParameter source scope step spec text) specs bound w') :
    ∃ b, BindsAll source scope step w (spec :: specs) ((spec.name, b) :: bound) w' := by
  let copy := w.heap.shiftValue spec.initial
  let b : Binding := Binding.push { value := copy, spec := some spec } copy text step
  have hheap : (w.addParameter source scope step spec text).heap = w.heap.append source := rfl
  have hscopes : ∀ i, (w.addParameter source scope step spec text).scopes.scope i = _ :=
    Scopes.scope_add w.scopes scope spec.name b
  have hbeyond : Heap.Beyond w.heap (w.heap.append source) copy := Heap.beyond_shift w.heap hclosed
  have hlater : (w.heap.append source).Extends w'.heap := hheap ▸ h.heap
  refine ⟨b, ?_, fun i hi => ?_, (Heap.Extends.append w.heap source).trans hlater, ?_, ?_, ?_⟩
  · rw [h.bindings, hscopes, if_pos ⟨rfl, hscope⟩, List.append_assoc, List.singleton_append]
  · rw [h.others i hi, hscopes, if_neg fun hc => hi hc.1]
  · refine .cons ⟨rfl, rfl, ?_, text, ht, rfl⟩ h.each
    exact hlater.same ((Heap.same_of_format ht).shift ⟨rfl, rfl⟩) hbeyond.closed
  · intro x hx
    rcases List.mem_cons.1 hx with rfl | hx
    · exact hbeyond.later hlater
    · exact (hheap ▸ h.beyond x hx).of_extends (Heap.Extends.append w.heap source)
  · refine List.pairwise_cons.2 ⟨fun y hy c hcopy hreach => ?_, h.apart⟩
    -- the other values lie in cells that were not there when the copy was made
    have hold : c ∈ (w.heap.append source).cells :=
      (hbeyond c (hlater.reaches hbeyond.closed hcopy)).1
    exact (h.beyond y hy c hreach).2 hold

end World.BindsAll

/-- Specifications of different names that the scope does not own are bound one after the other. -/
theorem forM_bindParameter : ∀ {specs : List ParameterSpec} {w : World},
    scope < w.scopes.all.size → (specs.map ParameterSpec.name).Nodup →
    (∀ spec ∈ specs, w.scopes.own? scope spec.name = none) →
    (∀ spec ∈ specs, ∃ text, source.format spec.initial = .ok text) →
    (∀ spec ∈ specs, source.Closed spec.initial) →
    ∃ bound w', specs.forM (bindParameter scope source step) w = .ok () w' ∧
      World.BindsAll source scope step w specs bound w'
  | [], w, _, _, _, _, _ => ⟨[], w, rfl, .nil w⟩
  | spec :: specs, w, hscope, hnodup, hown, hformat, hclosed => by
    obtain ⟨hnew, hnodup⟩ := List.nodup_cons.1 hnodup
    obtain ⟨text, ht⟩ := hformat spec List.mem_cons_self
    have hfirst : bindParameter scope source step spec w = .ok () _ :=
      bindParameter_eq (hown spec List.mem_cons_self) ht
    have hown' : ∀ spec' ∈ specs,
        (w.addParameter source scope step spec text).scopes.own? scope spec'.name = none := by
      intro spec' hmem
      have hne : spec'.name ≠ spec.name :=
        fun he => hnew (he ▸ List.mem_map_of_mem hmem)
      exact (Scopes.own?_add_ne _ _ _ _ hne).trans (hown spec' (List.mem_cons_of_mem spec hmem))
    have hscope' : scope < (w.addParameter source scope step spec text).scopes.all.size := by
      rwa [World.addParameter, World.size_add]
    obtain ⟨bound, w', hrest, hbound⟩ := forM_bindParameter hscope'
      hnodup hown' (fun spec' h => hformat spec' (List.mem_cons_of_mem spec h))
      fun spec' h => hclosed spec' (List.mem_cons_of_mem spec h)
    obtain ⟨b, hb⟩ := hbound.cons hscope ht (hclosed spec List.mem_cons_self)
    exact ⟨_, w', (bind_of_ok hfirst).trans hrest, hb⟩

/-- After a change through a bound value, every other specification is bound as it was. -/
theorem World.BindsAll.bound_of_changedThrough {specs : List ParameterSpec} {h : Heap}
    (hb : World.BindsAll source scope step w specs bound w') {x : String × Binding}
    (hx : x ∈ bound) (hc : w'.heap.ChangedThrough x.2.value h) :
    List.Forall₂ (fun spec y => y.1 ≠ x.1 → Bound source h step spec y) specs bound := by
  have hsymm : Std.Symm fun x y : String × Binding => w'.heap.Apart x.2.value y.2.value :=
    ⟨fun x y hxy c hy hx => hxy c hx hy⟩
  obtain ⟨hlength, heach⟩ := List.forall₂_iff_zip.1 hb.each
  refine List.forall₂_iff_zip.2 ⟨hlength, fun {spec y} hmem hne => ?_⟩
  have hy : y ∈ bound := (List.of_mem_zip hmem).2
  have hapart : w'.heap.Apart x.2.value y.2.value :=
    hb.apart.forall hx hy fun he => hne (congrArg Prod.fst he).symm
  have hbound := heach hmem
  exact ⟨hbound.named, hbound.carries, hc.same hbound.same (hb.beyond y hy).closed hapart,
    hbound.history⟩

/-- What was there before is the same after a change through a bound value. -/
theorem World.BindsAll.same_of_closed {specs : List ParameterSpec} {h : Heap} {u : Value}
    (hb : World.BindsAll source scope step w specs bound w') {x : String × Binding}
    (hx : x ∈ bound) (hc : w'.heap.ChangedThrough x.2.value h) (hu : w.heap.Closed u)
    (ht : w.heap.format u = .ok text) : w.heap.Same h u u := by
  refine hc.same (hb.heap.same (Heap.same_of_format ht) hu) (hb.heap.closed hu) ?_
  exact fun c hreach hold => (hb.beyond x hx c hreach).2 (hu c (hb.heap.reaches hu hold))

/-- The law of parameter binding, where the scope owns none of the names and every value stands in
its heap and has a rendering.  Binding succeeds when parameters and specifications line up; else it
fails with an error of its own and leaves the world as it is.  When it succeeds, the bindings of the
scope go on with one for each specification, in their order, and no other scope has changed.  A
later change through a bound value, at any depth, leaves every other parameter as it was bound, and
all values that were there before: those of the specifications among them, when they lie in the
same heap. -/
theorem bindParameters_allOrNothing (declared : List Node) {specs : List ParameterSpec}
    (hscope : scope < w.scopes.all.size)
    (hfree : ∀ spec ∈ specs, w.scopes.own? scope spec.name = none)
    (hformat : ∀ spec ∈ specs, ∃ text, source.format spec.initial = .ok text)
    (hclosed : ∀ spec ∈ specs, source.Closed spec.initial) (step : Int) :
    ((∃ w', bindParameters scope declared source specs step w = .ok () w') ↔
      LinedUp declared specs) ∧
    (∀ e w', bindParameters scope declared source specs step w = .error e w' →
      (∃ detail location, e = .because (.parameterBinding detail) location) ∧ w' = w) ∧
    ∀ w', bindParameters scope declared source specs step w = .ok () w' →
      ∃ bound, (w'.scopes.scope scope).bindings = (w.scopes.scope scope).bindings ++ bound ∧
        (∀ i, i ≠ scope → w'.scopes.scope i = w.scopes.scope i) ∧
        List.Forall₂ (Bound source w'.heap step) specs bound ∧
        ∀ x ∈ bound, ∀ h, w'.heap.ChangedThrough x.2.value h →
          List.Forall₂ (fun spec y => y.1 ≠ x.1 → Bound source h step spec y) specs bound ∧
          ∀ u text, w.heap.Closed u → w.heap.format u = .ok text → w.heap.Same h u u := by
  rcases checkParameters_cases declared specs with
    ⟨hcheck, hlined⟩ | ⟨⟨detail, location, hcheck⟩, hlined⟩
  · obtain ⟨bound, w₁, hforM, hb⟩ := forM_bindParameter hscope hlined.distinct hfree hformat hclosed
    have hbind : bindParameters scope declared source specs step w = .ok () w₁ := by
      unfold bindParameters
      rw [hcheck]
      exact hforM
    rw [hbind]
    refine ⟨⟨fun _ => hlined, fun _ => ⟨w₁, rfl⟩⟩, fun _ _ he => ?_, fun _ he => ?_⟩
    · cases he
    · cases he
      exact ⟨bound, hb.bindings, hb.others, hb.each, fun x hx h hc =>
        ⟨hb.bound_of_changedThrough hx hc, fun u text hu ht => hb.same_of_closed hx hc hu ht⟩⟩
  · have hbind : bindParameters scope declared source specs step w =
        .error (.because (.parameterBinding detail) location) w := by
      unfold bindParameters
      rw [hcheck]
      rfl
    rw [hbind]
    refine ⟨⟨fun he => ?_, fun h => absurd h hlined⟩, fun _ _ he => ?_, fun _ he => ?_⟩
    · obtain ⟨_, he⟩ := he
      cases he
    · cases he
      exact ⟨⟨detail, location, rfl⟩, rfl⟩
    · cases he

end

/-- A world whose heap holds a sequence and a record that share another sequence. -/
def sharingWorld : World :=
  { heap := {
      sequences := #[[.text "p", .sequence 1], [.text "q"]]
      records := #[[("k", .sequence 1)]] } }

/-- Specifications with values of that heap. -/
def sharingSpecs : List ParameterSpec := [
  { name := "a", kind := .array, initial := .sequence 0 },
  { name := "o", kind := .object, initial := .record 0 }]

theorem bindParameters_allOrNothing_sharing :
    0 < sharingWorld.scopes.all.size ∧
    (∀ spec ∈ sharingSpecs, sharingWorld.scopes.own? 0 spec.name = none) ∧
    (∀ spec ∈ sharingSpecs, ∃ text, sharingWorld.heap.format spec.initial = .ok text) ∧
    (∀ spec ∈ sharingSpecs, sharingWorld.heap.Closed spec.initial) ∧
    ∃ w' b b', bindParameters 0 [.identifier .unknown "o"] sharingWorld.heap sharingSpecs 4
        sharingWorld = .ok () w' ∧
      (w'.scopes.scope 0).bindings = [("a", b), ("o", b')] ∧
      b.history = #[⟨4, "[\"p\", [\"q\"]]"⟩] ∧
      sharingWorld.heap.Same (w'.heap.setItems 3 []) (.record 0) b'.value ∧
      sharingWorld.heap.Same (w'.heap.setItems 3 []) (.sequence 0) (.sequence 0) := by
  have hscope : 0 < sharingWorld.scopes.all.size := by decide
  have hfree : ∀ spec ∈ sharingSpecs, sharingWorld.scopes.own? 0 spec.name = none := by
    rintro spec (⟨⟩ | ⟨_, ⟨⟩ | ⟨_, ⟨⟩⟩⟩) <;> rfl
  have hformat : ∀ spec ∈ sharingSpecs,
      ∃ text, sharingWorld.heap.format spec.initial = .ok text := by
    rintro spec (⟨⟩ | ⟨_, ⟨⟩ | ⟨_, ⟨⟩⟩⟩) <;> exact ⟨_, rfl⟩
  have hshared : sharingWorld.heap.Normal (.sequence 1) :=
    Heap.normal_sequence (by decide) fun v hv => by
      cases List.mem_singleton.1 hv
      exact Heap.normal_text "q"
  have hclosed : ∀ spec ∈ sharingSpecs, sharingWorld.heap.Closed spec.initial := by
    rintro spec (⟨⟩ | ⟨_, ⟨⟩ | ⟨_, ⟨⟩⟩⟩)
    · refine (Heap.normal_sequence (by decide) ?_).closed
      rintro v (⟨⟩ | ⟨_, ⟨⟩ | ⟨_, ⟨⟩⟩⟩)
      · exact Heap.normal_text "p"
      · exact hshared
    · refine (Heap.normal_record (by decide) ?_).closed
      rintro f (⟨⟩ | ⟨_, ⟨⟩⟩)
      exact hshared
  let w' := (sharingWorld.addParameter sharingWorld.heap 0 4
    { name := "a", kind := .array, initial := .sequence 0 } "[\"p\", [\"q\"]]").addParameter
      sharingWorld.heap 0 4 { name := "o", kind := .object, initial := .record 0 }
        "\x7bk: [\"q\"]\x7d"
  have hbind : bindParameters 0 [.identifier .unknown "o"] sharingWorld.heap sharingSpecs 4
      sharingWorld = .ok () w' := by
    have hcheck : checkParameters [.identifier .unknown "o"] sharingSpecs = .ok () := by decide
    unfold bindParameters
    rw [hcheck]
    exact (bind_of_ok (bindParameter_eq rfl rfl)).trans (bind_of_ok (bindParameter_eq rfl rfl))
  obtain ⟨-, -, hsuccess⟩ := bindParameters_allOrNothing [.identifier .unknown "o"] hscope hfree
    hformat hclosed 4
  obtain ⟨bound, hbindings, -, -, hlater⟩ := hsuccess w' hbind
  obtain rfl : [("a", _), ("o", _)] = bound := hbindings
  -- the copy of the sequence lies at 2, and inside it that of the shared one at 3
  have hitem : Value.sequence 3 ∈ w'.heap.items 2 := by
    cbv
    exact .tail _ (.head _)
  have hchanged : w'.heap.ChangedThrough (.sequence 2) (w'.heap.setItems 3 []) := by
    refine ⟨Heap.evolves_setItems _ 3 [], fun c hc _ => ?_⟩
    rw [Heap.storesFrom_push rfl, List.mem_singleton] at hc
    exact hc ▸ .item hitem (.sequence 3)
  obtain ⟨hothers, hold⟩ := hlater _ List.mem_cons_self _ hchanged
  obtain ⟨-, hothers⟩ := List.forall₂_cons.1 hothers
  exact ⟨hscope, hfree, hformat, hclosed, w', _, _, hbind, rfl, rfl,
    ((List.forall₂_cons.1 hothers).1 (by decide)).same, hold _ _ (hclosed _ List.mem_cons_self) rfl⟩

end Chronicle
