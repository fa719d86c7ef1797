import Chronicle.Proofs.Store.Operations

/-!
# Resolution of names

The scopes that a program makes form a tree (`Scopes.IsTree`, which operations keep:
`IsTree.extend`, `IsTree.kept`).  `Nearest` says in it which binding a name means: the scope's own,
else what the name means in the scope around it.  The search through the enclosing scopes finds this
binding (`IsTree.owner?_eq_some_iff`).

`World.Sets` says that a single binding of the whole tree was written; `performAll_resolution` says
it of assignments and definitions, together with the listing of names (`Scopes.Resolves`).
-/

set_option autoImplicit false

namespace Chronicle

namespace Scopes

/-- The scope directly around a scope. -/
def parent? (s : Scopes) (id : ScopeId) : Option ScopeId :=
  (s.scope id).outer.head?

/-- From the first scope outwards, the second one is the nearest that owns the name. -/
inductive Nearest (s : Scopes) (name : String) : ScopeId → ScopeId → Prop where
  | here {id : ScopeId} : (s.own? id name).isSome → Nearest s name id id
  | outward {id p i : ScopeId} :
    s.own? id name = none → s.parent? id = some p → Nearest s name p i → Nearest s name id i

/-- The first scope is enclosed by none, and every other one lies directly in a scope made before
it.  No scope owns a name twice. -/
structure IsTree (s : Scopes) : Prop where
  root : 0 < s.all.size ∧ s.chain 0 = [0]
  inner : ∀ {id}, 0 < id → id < s.all.size → ∃ p < id, s.chain id = id :: s.chain p
  nodup : ∀ id, (s.ownNames id).Nodup

/-- How names resolve in a scope.  A name means the nearest binding of it; the names listed are
those that mean something, each once, the scope's own before the others of the scope around it. -/
structure Resolves (s : Scopes) (id : ScopeId) : Prop where
  lookup : ∀ name b, s.lookup? id name = some b ↔ ∃ i, s.Nearest name id i ∧ s.own? i name = some b
  listed : ∀ name, name ∈ s.names id ↔ (s.lookup? id name).isSome
  once : (s.names id).Nodup
  order : s.names id = s.ownNames id ++
    match s.parent? id with
    | some p => (s.names p).filter fun name => name ∉ s.ownNames id
    | none => []

variable {s : Scopes} {id : ScopeId} {name : String}

theorem isRoot_iff : s.isRoot id ↔ s.parent? id = none := by
  unfold isRoot parent?
  cases (s.scope id).outer <;> simp

theorem parent?_eq (s : Scopes) (id : ScopeId) : s.parent? id = (s.chain id).tail.head? :=
  rfl

/-! ## Trees of scopes -/

namespace IsTree

theorem start : Scopes.root.IsTree where
  root := ⟨Nat.one_pos, rfl⟩
  inner hpos hlt := absurd hlt (Nat.not_lt.2 hpos)
  nodup id := by cases id <;> simp [ownNames, scope, Scopes.root]

/-- Writes of bindings leave the tree as it is. -/
theorem congr {s' : Scopes} (h : s.IsTree) (hsize : s'.all.size = s.all.size)
    (hchain : ∀ i, s'.chain i = s.chain i) (hnodup : ∀ i, (s'.ownNames i).Nodup) : s'.IsTree where
  root := by
    rw [hsize, hchain]
    exact h.root
  inner hpos hlt := by
    obtain ⟨p, hp, hc⟩ := h.inner hpos (hsize ▸ hlt)
    exact ⟨p, hp, by rw [hchain, hchain, hc]⟩
  nodup := hnodup

theorem modify (h : s.IsTree) (f : Binding → Binding) : (s.modify id name f).IsTree :=
  h.congr (size_modify ..) (fun _ => chain_modify ..) fun i => by
    rw [ownNames_modify]
    exact h.nodup i

theorem add (h : s.IsTree) (hown : s.own? id name = none) (b : Binding) :
    (s.add id name b).IsTree :=
  h.congr (size_add ..) (fun _ => chain_add ..) fun i => nodup_ownNames_add hown b (h.nodup i)

theorem kept : Kept IsTree where
  push h := h.modify _
  pushUnrendered h := h.modify _
  add hown h := h.add hown _

theorem extend (h : s.IsTree) (hid : id < s.all.size) : (s.extend id).2.IsTree := by
  have hsize : (s.extend id).2.all.size = s.all.size + 1 := Array.size_push ..
  have hchain : ∀ i < s.all.size, (s.extend id).2.chain i = s.chain i := fun i hi => by
    rw [chain_extend, if_neg (Nat.ne_of_lt hi)]
  refine ⟨⟨by omega, (hchain 0 h.root.1).trans h.root.2⟩, fun {i} hpos hlt => ?_, fun i => ?_⟩
  · by_cases hi : i = s.all.size
    · subst hi
      exact ⟨id, hid, by rw [hchain id hid, chain_extend, if_pos rfl]⟩
    · have hlt' : i < s.all.size := by omega
      obtain ⟨p, hp, hc⟩ := h.inner hpos hlt'
      exact ⟨p, hp, by rw [hchain i hlt', hchain p (Nat.lt_trans hp hlt'), hc]⟩
  · unfold ownNames
    rw [scope_extend]
    split
    · exact .nil
    · exact h.nodup i

/-- A scope is the root or lies in another one of the tree. -/
theorem parent?_cases (h : s.IsTree) (hid : id < s.all.size) :
    s.parent? id = none ∧ s.chain id = [id] ∨
      ∃ p < id, s.parent? id = some p ∧ s.chain id = id :: s.chain p := by
  rcases Nat.eq_zero_or_pos id with rfl | hpos
  · exact .inl ⟨by rw [parent?_eq, h.root.2]; rfl, h.root.2⟩
  · obtain ⟨p, hp, hc⟩ := h.inner hpos hid
    exact .inr ⟨p, hp, by rw [parent?_eq, hc]; rfl, hc⟩

/-! ## Search -/

/-- The search through the enclosing scopes finds the nearest one that owns the name. -/
theorem owner?_eq_some_iff (h : s.IsTree) {i : ScopeId} (hid : id < s.all.size) :
    s.owner? id name = some i ↔ s.Nearest name id i := by
  induction id using Nat.strongRecOn with
  | ind id ih =>
    have howner : s.owner? id name =
        (id :: (s.scope id).outer).find? fun i => (s.own? i name).isSome := rfl
    cases hown : s.own? id name with
    | some b =>
      rw [howner, List.find?_cons_of_pos (by rw [hown]; rfl)]
      constructor
      · rintro ⟨⟩
        exact .here (Option.isSome_of_eq_some hown)
      · rintro (⟨-⟩ | ⟨hnone, -, -⟩)
        · rfl
        · rw [hown] at hnone
          cases hnone
    | none =>
      rw [howner, List.find?_cons_of_neg (by rw [hown]; exact Bool.false_ne_true)]
      rcases h.parent?_cases hid with ⟨hp, hc⟩ | ⟨p, hlt, hp, hc⟩
      · rw [List.tail_eq_of_cons_eq hc]
        constructor
        · rintro ⟨⟩
        · rintro (hsome | ⟨-, hp', -⟩)
          · rw [hown] at hsome
            cases hsome
          · rw [hp] at hp'
            cases hp'
      · rw [List.tail_eq_of_cons_eq hc]
        refine (ih p hlt (Nat.lt_trans hlt hid)).trans ⟨.outward hown hp, ?_⟩
        rintro (hsome | ⟨-, hp', hi⟩)
        · rw [hown] at hsome
          cases hsome
        · rw [hp] at hp'
          cases hp'
          exact hi

theorem owner?_eq_none_iff (h : s.IsTree) (hid : id < s.all.size) :
    s.owner? id name = none ↔ ∀ i, ¬ s.Nearest name id i := by
  simp only [Option.eq_none_iff_forall_ne_some, ne_eq, h.owner?_eq_some_iff hid]

/-- The names of a scope are its own and then the others of the scope around it. -/
theorem names_eq (h : s.IsTree) (hid : id < s.all.size) :
    s.names id = s.ownNames id ++
      match s.parent? id with
      | some p => (s.names p).filter fun name => name ∉ s.ownNames id
      | none => [] := by
  have hown := eraseDups_of_nodup (h.nodup id)
  rcases h.parent?_cases hid with ⟨hp, hc⟩ | ⟨p, -, hp, hc⟩
  · rw [hp, names_of_chain hc, hown, List.append_nil]
  · have hnames : s.names id = (s.ownNames id ++ (s.chain p).flatMap s.ownNames).eraseDups := by
      unfold names
      rw [hc]
      rfl
    rw [hp, hnames, List.eraseDups_append, hown]
    dsimp only
    rw [List.removeAll, filter_eraseDups]
    congr 2
    funext n
    simp

theorem resolves (h : s.IsTree) (hid : id < s.all.size) : s.Resolves id where
  lookup name b := by
    rw [lookup?_eq_bind, Option.bind_eq_some_iff]
    simp only [h.owner?_eq_some_iff hid]
  listed _ := mem_names
  once := nodup_names s id
  order := h.names_eq hid

end IsTree

end Scopes

/-! ## Operations on the tree -/

/-- The scope that an operation names is there. -/
def Operation.Placed (w : World) : Operation → Prop
  | .extend scope | .define scope .. | .assign scope .. => scope < w.scopes.all.size
  | .change _ => True

instance (w : World) : (op : Operation) → Decidable (op.Placed w)
  | .extend scope | .define scope .. | .assign scope .. =>
    inferInstanceAs (Decidable (scope < w.scopes.all.size))
  | .change _ => inferInstanceAs (Decidable True)

namespace World

/-- Every scope is there when an operation names it. -/
def Placed (w : World) : List Operation → Prop
  | [] => True
  | op :: ops => op.Placed w ∧ (w.perform op).Placed ops

instance decidablePlaced : (w : World) → (ops : List Operation) → Decidable (w.Placed ops)
  | _, [] => inferInstanceAs (Decidable True)
  | w, op :: ops =>
    haveI := decidablePlaced (w.perform op) ops
    inferInstanceAs (Decidable (op.Placed w ∧ (w.perform op).Placed ops))

theorem isTree_perform {w : World} {op : Operation} (h : w.scopes.IsTree) (hop : op.Placed w) :
    (w.perform op).scopes.IsTree := by
  refine Scopes.IsTree.kept.perform (fun scope he => ?_) h
  subst he
  exact h.extend hop

/-- Operations on scopes that are there keep the scopes a tree, those that fail too. -/
theorem isTree_performAll : ∀ {w : World} {ops : List Operation},
    w.scopes.IsTree → w.Placed ops → (w.performAll ops).scopes.IsTree
  | _, [], h, _ => h
  | w, op :: _, h, hops =>
    isTree_performAll (w := w.perform op) (isTree_perform h hops.1) hops.2

/-! ## Single writes -/

/-- From one world to another, scope `id` came to own `b` under `name`, and nothing else changed:
no other binding of any scope, not the order of names, the scopes or the heap. -/
structure Sets (w : World) (id : ScopeId) (name : String) (b : Binding) (w' : World) : Prop where
  here : w'.scopes.own? id name = some b
  elsewhere : ∀ i n, ¬(i = id ∧ n = name) → w'.scopes.own? i n = w.scopes.own? i n
  ownNames : ∀ i, w'.scopes.ownNames i =
    w.scopes.ownNames i ++ if i = id ∧ name ∉ w.scopes.ownNames i then [name] else []
  chain : ∀ i, w'.scopes.chain i = w.scopes.chain i
  size : w'.scopes.all.size = w.scopes.all.size
  heap : w'.heap = w.heap

variable {w : World} {id : ScopeId} {name : String} {v : Value} {text : String} {step : Int}

theorem sets_write {b : Binding} (hb : w.scopes.own? id name = some b) :
    w.Sets id name (b.push v text step) (w.write id name v text step) where
  here := by rw [own?_write, if_pos ⟨rfl, rfl⟩, hb]; rfl
  elsewhere i n hin := by rw [own?_write, if_neg hin]
  ownNames i := by
    have hold : ¬(i = id ∧ name ∉ w.scopes.ownNames i) := by
      rintro ⟨rfl, hn⟩
      exact hn (Scopes.isSome_own?_iff.1 (Option.isSome_of_eq_some hb))
    rw [if_neg hold, List.append_nil]
    exact Scopes.ownNames_modify ..
  chain _ := Scopes.chain_modify ..
  size := size_write ..
  heap := rfl

theorem sets_add (hid : id < w.scopes.all.size) (hown : w.scopes.own? id name = none)
    (spec : Option ParameterSpec) :
    w.Sets id name { value := v, spec, history := #[⟨step, text⟩] }
      (w.add id name v text step spec) where
  here := by rw [own?_add _ _ _ _ _ _ _ _ _ hid hown, if_pos ⟨rfl, rfl⟩]
  elsewhere i n hin := by rw [own?_add _ _ _ _ _ _ _ _ _ hid hown, if_neg hin]
  ownNames i := by
    have hnew : name ∉ w.scopes.ownNames id := Scopes.own?_eq_none_iff.1 hown
    refine (Scopes.ownNames_add ..).trans ?_
    congr 1
    by_cases hi : i = id
    · subst hi
      rw [if_pos ⟨rfl, hid⟩, if_pos ⟨rfl, hnew⟩]
    · rw [if_neg fun h => hi h.1, if_neg fun h => hi h.1]
  chain _ := Scopes.chain_add ..
  size := size_add ..
  heap := rfl

/-- A definition writes the scope's own binding and no other. -/
theorem sets_define (hid : id < w.scopes.all.size) (ht : w.heap.format v = .ok text)
    (name : String) (step : Int) (spec : Option ParameterSpec) :
    ∃ w', Effect.define id name v step spec w = .ok () w' ∧
      w.Sets id name
        (match w.scopes.own? id name with
          | some b => b.push v text step
          | none => { value := v, spec, history := #[⟨step, text⟩] }) w' := by
  rw [Effect.define_eq]
  cases hown : w.scopes.own? id name with
  | some b =>
    rw [if_pos (Option.isSome_of_eq_some rfl), Effect.writeOwn_eq, ht]
    exact ⟨_, rfl, sets_write hown⟩
  | none =>
    rw [if_neg (by simp), ht]
    exact ⟨_, rfl, sets_add hid hown spec⟩

end World

/-- The law of resolution and framing.  In the tree of scopes that any operations leave, an
assignment writes the nearest binding of its name; without one it creates a binding in the root and
fails anywhere else, changing nothing.  A definition writes or creates the scope's own binding.
Every other binding of the tree stays as it was, and in every scope names resolve as listed. -/
theorem performAll_resolution (ops : List Operation) (h : World.Placed {} ops) {c : ScopeId}
    (hc : c < (World.performAll {} ops).scopes.all.size) {v : Value} {text : String}
    (ht : (World.performAll {} ops).heap.format v = .ok text) (x : String) (step : Int)
    (location : Option Location) (spec : Option ParameterSpec) :
    let w := World.performAll {} ops
    (∀ i, w.scopes.Nearest x c i → ∃ b w', w.scopes.own? i x = some b ∧
      Effect.assign c x v step location w = .ok () w' ∧ w.Sets i x (b.push v text step) w') ∧
    ((∀ i, ¬ w.scopes.Nearest x c i) →
      (w.scopes.parent? c = none → ∃ w', Effect.assign c x v step location w = .ok () w' ∧
        w.Sets c x { value := v, history := #[⟨step, text⟩] } w') ∧
      (w.scopes.parent? c ≠ none →
        Effect.assign c x v step location w =
          .error (.because (.undefinedVariable x) location) w)) ∧
    (∃ w', Effect.define c x v step spec w = .ok () w' ∧
      w.Sets c x
        (match w.scopes.own? c x with
          | some b => b.push v text step
          | none => { value := v, spec, history := #[⟨step, text⟩] }) w') ∧
    ∀ id < w.scopes.all.size, w.scopes.Resolves id := by
  intro w
  have htree : w.scopes.IsTree := World.isTree_performAll Scopes.IsTree.start h
  refine ⟨fun i hi => ?_, fun hnone => ?_, World.sets_define hc ht x step spec,
    fun id hid => htree.resolves hid⟩
  · have howner := (htree.owner?_eq_some_iff hc).2 hi
    obtain ⟨b, hb⟩ := Option.isSome_iff_exists.1 (Scopes.own?_of_owner? howner)
    refine ⟨b, w.write i x v text step, hb, ?_, World.sets_write hb⟩
    rw [Effect.assign_eq, howner]
    dsimp only
    rw [Effect.writeOwn_eq, ht]
  · have howner := (htree.owner?_eq_none_iff hc).2 hnone
    rw [Effect.assign_eq, howner]
    dsimp only
    constructor
    · intro hroot
      rw [if_pos (Scopes.isRoot_iff.2 hroot)]
      have hdefine := World.sets_define hc ht x step none
      rwa [Scopes.own?_of_owner?_eq_none howner] at hdefine
    · intro hinner
      rw [if_neg fun hroot => hinner (Scopes.isRoot_iff.1 hroot)]
      rfl

/-- A root and two scopes in it, of which one shadows a name and encloses a third. -/
def shadowing : List Operation := [
  .define 0 "x" (.text "a") 0 none,
  .extend 0,
  .define 1 "x" (.text "b") 1 none,
  .define 1 "y" .null 1 none,
  .extend 1,
  .extend 0,
  .assign 3 "y" .null 2,
  .define 2 "z" .null 2 none]

theorem performAll_resolution_shadowing :
    let w := World.performAll {} shadowing
    World.Placed {} shadowing ∧ 2 < w.scopes.all.size ∧ w.heap.format (.text "q") = .ok "\"q\"" ∧
    (∃ w', Effect.assign 2 "x" (.text "q") 3 none w = .ok () w' ∧
      w.Sets 1 "x" { value := .text "q", history := #[⟨1, "\"b\""⟩, ⟨3, "\"q\""⟩] } w') ∧
    Effect.assign 2 "u" (.text "q") 3 none w = .error (.because (.undefinedVariable "u") none) w ∧
    (∃ w', Effect.assign 0 "u" (.text "q") 3 none w = .ok () w' ∧
      w.Sets 0 "u" { value := .text "q", history := #[⟨3, "\"q\""⟩] } w') ∧
    w.scopes.names 2 = ["z", "x", "y"] := by
  intro w
  have hops : World.Placed {} shadowing := by decide
  have ht : w.heap.format (.text "q") = .ok "\"q\"" := rfl
  have hunbound : ∀ {c}, c < w.scopes.all.size → w.scopes.owner? c "u" = none →
      ∀ i, ¬ w.scopes.Nearest "u" c i :=
    fun hc => ((World.isTree_performAll Scopes.IsTree.start hops).owner?_eq_none_iff hc).1
  have hinner : 2 < w.scopes.all.size := by decide
  have hroot : 0 < w.scopes.all.size := by decide
  obtain ⟨hnear, -, -, hresolves⟩ := performAll_resolution shadowing hops hinner ht "x" 3 none none
  obtain ⟨b, w', hb, hw', hsets⟩ := hnear 1 (.outward rfl rfl (.here rfl))
  obtain ⟨-, hnone, -, -⟩ := performAll_resolution shadowing hops hinner ht "u" 3 none none
  obtain ⟨-, hnew, -, -⟩ := performAll_resolution shadowing hops hroot ht "u" 3 none none
  refine ⟨hops, hinner, ht, ⟨w', hw', ?_⟩, (hnone (hunbound hinner rfl)).2 (by decide),
    (hnew (hunbound hroot rfl)).1 rfl, (hresolves 2 hinner).order.trans rfl⟩
  cases hb
  exact hsets

end Chronicle
