import Chronicle.Store.World

/-!
# Bindings of scopes

What a scope owns after its binding of a name was changed (`own?_modify`) or added (`own?_add`), the
names that it owns (`ownNames`), and how the views of a scope are looked up: a view lists each
visible name once, in their order (`map_fst_view`), with what it says about the name's meaning
(`lookup_snapshot`, `lookup_changesAt`).
-/

set_option autoImplicit false

namespace Chronicle.Scopes

/-! ## Bindings in order -/

theorem lookup_modifyIn (name : String) (f : Binding → Binding) (n : String) :
    ∀ l : List (String × Binding),
      (modifyIn name f l).lookup n = if n = name then (l.lookup n).map f else l.lookup n
  | [] => by simp [modifyIn]
  | (k, b) :: rest => by
    unfold modifyIn
    by_cases hk : k = name
    · subst hk
      rw [beq_self_eq_true, if_pos rfl, List.lookup_cons, List.lookup_cons]
      by_cases hn : n = k
      · simp [hn]
      · have hnb : (n == k) = false := by simpa using hn
        simp [hn, hnb]
    · have hb : (k == name) = false := by simpa using hk
      rw [hb, if_neg Bool.false_ne_true, List.lookup_cons, List.lookup_cons]
      by_cases hn : n = k
      · subst hn
        simp [hk]
      · have hnb : (n == k) = false := by simpa using hn
        rw [hnb]
        exact lookup_modifyIn name f n rest

theorem map_fst_modifyIn (name : String) (f : Binding → Binding) :
    ∀ l : List (String × Binding), (modifyIn name f l).map Prod.fst = l.map Prod.fst
  | [] => rfl
  | (n, b) :: rest => by
    unfold modifyIn
    split
    · rfl
    · rw [List.map_cons, List.map_cons, map_fst_modifyIn name f rest]

/-! ## Single scopes -/

/-- A new scope owns nothing. -/
theorem scope_extend (s : Scopes) (id i : ScopeId) :
    (s.extend id).2.scope i = if i = s.all.size then { outer := s.chain id } else s.scope i := by
  unfold scope extend
  rw [Array.getElem?_push]
  split <;> rfl

theorem own?_extend (s : Scopes) (id i : ScopeId) (n : String) :
    (s.extend id).2.own? i n = s.own? i n := by
  unfold own?
  rw [scope_extend]
  split
  · rename_i hi
    simp [scope, hi]
  · rfl

/-- A new scope lies in the one that was extended. -/
theorem chain_extend (s : Scopes) (id i : ScopeId) :
    (s.extend id).2.chain i = if i = s.all.size then i :: s.chain id else s.chain i := by
  unfold chain
  rw [scope_extend]
  split <;> rfl

section
variable (s : Scopes) (id : ScopeId) (name : String)

theorem scope_modify (f : Binding → Binding) (i : ScopeId) :
    (s.modify id name f).scope i =
      if i = id then { s.scope i with bindings := modifyIn name f (s.scope i).bindings }
      else s.scope i := by
  unfold scope modify
  rw [Array.getElem?_modify]
  by_cases h : i = id
  · subst h
    cases hs : s.all[i]? <;> simp [modifyIn]
  · simp [h, Ne.symm h]

theorem scope_add (b : Binding) (i : ScopeId) :
    (s.add id name b).scope i =
      if i = id ∧ id < s.all.size then
        { s.scope i with bindings := (s.scope i).bindings ++ [(name, b)] }
      else s.scope i := by
  unfold scope add
  rw [Array.getElem?_modify]
  by_cases h : i = id
  · subst h
    by_cases hi : i < s.all.size
    · simp [hi]
    · simp [hi]
  · simp [h, Ne.symm h]

@[simp] theorem size_modify (f : Binding → Binding) :
    (s.modify id name f).all.size = s.all.size := by
  simp [modify]

@[simp] theorem size_add (b : Binding) : (s.add id name b).all.size = s.all.size := by
  simp [add]

@[simp] theorem chain_modify (f : Binding → Binding) (i : ScopeId) :
    (s.modify id name f).chain i = s.chain i := by
  unfold chain
  rw [scope_modify]
  split <;> rfl

@[simp] theorem chain_add (b : Binding) (i : ScopeId) : (s.add id name b).chain i = s.chain i := by
  unfold chain
  rw [scope_add]
  split <;> rfl

theorem own?_modify (f : Binding → Binding) (i : ScopeId) (n : String) :
    (s.modify id name f).own? i n =
      if i = id ∧ n = name then (s.own? i n).map f else s.own? i n := by
  unfold own?
  rw [scope_modify]
  by_cases hi : i = id
  · rw [if_pos hi, lookup_modifyIn]
    simp [hi]
  · rw [if_neg hi, if_neg (fun h => hi h.1)]

theorem own?_add {id : ScopeId} {name : String} (hid : id < s.all.size)
    (hn : s.own? id name = none) (b : Binding) (i : ScopeId) (n : String) :
    (s.add id name b).own? i n = if i = id ∧ n = name then some b else s.own? i n := by
  unfold own? at hn ⊢
  rw [scope_add]
  by_cases hi : i = id
  · subst hi
    rw [if_pos ⟨rfl, hid⟩, List.lookup_append]
    by_cases hnn : n = name
    · subst hnn
      simp [hn]
    · have hb : (n == name) = false := by simpa using hnn
      simp [hnn, List.lookup_cons, hb]
  · rw [if_neg (fun h => hi h.1), if_neg (fun h => hi h.1)]

/-- Nothing is added to a scope that is not there. -/
theorem own?_add_of_not_lt {id : ScopeId} (hid : ¬ id < s.all.size) (name : String) (b : Binding)
    (i : ScopeId) (n : String) : (s.add id name b).own? i n = s.own? i n := by
  unfold own?
  rw [scope_add, if_neg fun h => hid h.2]

theorem own?_of_owner? {s : Scopes} {id i : ScopeId} {name : String}
    (h : s.owner? id name = some i) : (s.own? i name).isSome := by
  unfold owner? at h
  simpa using List.find?_some h

/-- A scope owns no name that neither it nor any scope around it owns. -/
theorem own?_of_owner?_eq_none {s : Scopes} {id : ScopeId} {name : String}
    (h : s.owner? id name = none) : s.own? id name = none := by
  unfold owner? at h
  simpa using List.find?_eq_none.1 h id List.mem_cons_self

theorem isSome_owner? (s : Scopes) (id : ScopeId) (name : String) :
    (s.owner? id name).isSome = s.isBound id name := by
  unfold isBound lookup? owner?
  rw [Bool.eq_iff_iff, List.find?_isSome, List.findSome?_isSome_iff]

/-- What a name means is a binding of one of the scopes around it. -/
theorem own?_of_lookup? {s : Scopes} {id : ScopeId} {name : String} {b : Binding}
    (h : s.lookup? id name = some b) : ∃ i, s.own? i name = some b := by
  unfold lookup? at h
  obtain ⟨i, -, hi⟩ := List.exists_of_findSome?_eq_some h
  exact ⟨i, hi⟩

/-- What a name means is the binding of the nearest scope that owns it. -/
theorem lookup?_eq_bind (s : Scopes) (id : ScopeId) (name : String) :
    s.lookup? id name = (s.owner? id name).bind (s.own? · name) := by
  unfold lookup? owner?
  induction s.chain id with
  | nil => rfl
  | cons i l ih =>
    rw [List.findSome?_cons, List.find?_cons]
    cases hi : s.own? i name with
    | none => exact ih
    | some b => exact hi.symm

/-- In a scope that none encloses, a name means the scope's own binding. -/
theorem lookup?_of_chain {s : Scopes} {id : ScopeId} (h : s.chain id = [id]) (name : String) :
    s.lookup? id name = s.own? id name := by
  unfold lookup?
  rw [h]
  cases hs : s.own? id name <;> simp [hs]

end

theorem own?_add_ne (s : Scopes) (id : ScopeId) {name n : String} (b : Binding) (i : ScopeId)
    (hn : n ≠ name) : (s.add id name b).own? i n = s.own? i n := by
  unfold own?
  rw [scope_add]
  split
  · have hb : (n == name) = false := by simpa using hn
    simp [List.lookup_append, List.lookup_cons, hb]
  · rfl

/-! ## Names -/

/-- The names that a scope owns, in the order in which they were bound. -/
def ownNames (s : Scopes) (id : ScopeId) : List String :=
  (s.scope id).bindings.map Prod.fst

theorem ownNames_modify (s : Scopes) (id : ScopeId) (name : String) (f : Binding → Binding)
    (i : ScopeId) : (s.modify id name f).ownNames i = s.ownNames i := by
  unfold ownNames
  rw [scope_modify]
  split
  · exact map_fst_modifyIn name f _
  · rfl

theorem ownNames_add (s : Scopes) (id : ScopeId) (name : String) (b : Binding) (i : ScopeId) :
    (s.add id name b).ownNames i =
      s.ownNames i ++ if i = id ∧ id < s.all.size then [name] else [] := by
  unfold ownNames
  rw [scope_add]
  split
  · rw [List.map_append]
    rfl
  · rw [List.append_nil]

theorem names_of_chain {s : Scopes} {id : ScopeId} (h : s.chain id = [id]) :
    s.names id = (s.ownNames id).eraseDups := by
  unfold names ownNames
  rw [h, List.flatMap_cons, List.flatMap_nil, List.append_nil]

/-- Only a scope that is there owns names. -/
theorem lt_size_of_mem_ownNames {s : Scopes} {id : ScopeId} {name : String}
    (h : name ∈ s.ownNames id) : id < s.all.size := by
  refine Nat.lt_of_not_le fun hle => ?_
  simp [ownNames, scope, Array.getElem?_eq_none hle] at h

theorem isSome_own?_iff {s : Scopes} {id : ScopeId} {name : String} :
    (s.own? id name).isSome ↔ name ∈ s.ownNames id := by
  simp [own?, ownNames, List.lookup_isSome_iff]

theorem own?_eq_none_iff {s : Scopes} {id : ScopeId} {name : String} :
    s.own? id name = none ↔ name ∉ s.ownNames id := by
  rw [← isSome_own?_iff, Option.not_isSome_iff_eq_none]

/-- A scope that owns no name twice does so with a new one added. -/
theorem nodup_ownNames_add {s : Scopes} {id : ScopeId} {name : String}
    (hown : s.own? id name = none) (b : Binding) {i : ScopeId} (h : (s.ownNames i).Nodup) :
    ((s.add id name b).ownNames i).Nodup := by
  rw [ownNames_add]
  split
  · rename_i hi
    refine List.nodup_append.2 ⟨h, List.pairwise_singleton _ _, fun m hm n hn he => ?_⟩
    rw [hi.1] at hm
    exact own?_eq_none_iff.1 hown (List.mem_singleton.1 hn ▸ he ▸ hm)
  · rwa [List.append_nil]

theorem lt_size_of_own? {s : Scopes} {id : ScopeId} {name : String}
    (h : (s.own? id name).isSome) : id < s.all.size :=
  lt_size_of_mem_ownNames (isSome_own?_iff.1 h)

/-! ## Names without repetition -/

theorem eraseDups_of_nodup : ∀ {l : List String}, l.Nodup → l.eraseDups = l
  | [], _ => rfl
  | n :: l, h => by
    obtain ⟨hn, hl⟩ := List.nodup_cons.1 h
    have hkeep : l.filter (fun m => !m == n) = l :=
      List.filter_eq_self.2 fun m hm => by
        have : m ≠ n := fun he => hn (he ▸ hm)
        simpa using this
    rw [List.eraseDups_cons, hkeep, eraseDups_of_nodup hl]

/-- It does not matter whether names are left out before or after repetitions. -/
theorem filter_eraseDups (p : String → Bool) (l : List String) :
    (l.filter p).eraseDups = l.eraseDups.filter p := by
  cases l with
  | nil => rfl
  | cons n l =>
    have ih := filter_eraseDups p (l.filter fun m => !m == n)
    rw [List.filter_filter] at ih
    rw [List.eraseDups_cons]
    cases hn : p n with
    | true =>
      rw [List.filter_cons_of_pos hn, List.eraseDups_cons, List.filter_cons_of_pos hn, ← ih,
        List.filter_filter]
      simp only [Bool.and_comm]
    | false =>
      have hp : (fun m => p m && !m == n) = p := by
        funext m
        by_cases hm : m = n
        · simp [hm, hn]
        · simp [hm]
      rw [List.filter_cons_of_neg (by simp [hn]), List.filter_cons_of_neg (by simp [hn]), ← ih, hp]
termination_by l.length
decreasing_by exact Nat.lt_succ_of_le (List.length_filter_le _ _)

theorem nodup_eraseDups (l : List String) : l.eraseDups.Nodup := by
  cases l with
  | nil => exact .nil
  | cons n l =>
    rw [List.eraseDups_cons, List.nodup_cons]
    exact ⟨by simp [List.mem_eraseDups], nodup_eraseDups _⟩
termination_by l.length
decreasing_by exact Nat.lt_succ_of_le (List.length_filter_le _ _)

/-! ## Views -/

/-- Names listed with what `g` gives them, where it gives something. -/
theorem lookup_filterMap {α : Type} (g : String → Option α) (name : String) :
    ∀ l : List String,
      (l.filterMap fun n => (g n).map (n, ·)).lookup name = if name ∈ l then g name else none
  | [] => by simp
  | n :: l => by
    have ih := lookup_filterMap g name l
    by_cases hn : name = n
    · subst hn
      cases hg : g name with
      | none => simp [hg, ih]
      | some a => simp [hg]
    · have hb : (name == n) = false := by simpa using hn
      cases hg : g n with
      | none => simp [hg, ih, hn]
      | some a => simp [hg, ih, hn, List.lookup_cons, hb]

theorem nodup_names (s : Scopes) (id : ScopeId) : (s.names id).Nodup :=
  nodup_eraseDups _

theorem mem_names {s : Scopes} {id : ScopeId} {name : String} :
    name ∈ s.names id ↔ (s.lookup? id name).isSome := by
  unfold names lookup?
  rw [List.mem_eraseDups, List.mem_flatMap, List.findSome?_isSome_iff]
  constructor
  · rintro ⟨i, hi, hn⟩
    exact ⟨i, hi, by simpa [own?, List.lookup_isSome_iff] using hn⟩
  · rintro ⟨i, hi, hn⟩
    exact ⟨i, hi, by simpa [own?, List.lookup_isSome_iff] using hn⟩

section
variable (s : Scopes) (id : ScopeId) (f : Binding → Option String)

/-- A view that says `f` of each visible binding goes through the names in their order. -/
theorem view_eq :
    ((s.visible id).filterMap fun (n, b) => (f b).map (n, ·)) =
      (s.names id).filterMap fun n => ((s.lookup? id n).bind f).map (n, ·) := by
  unfold visible
  rw [List.filterMap_filterMap]
  congr 1
  funext n
  cases s.lookup? id n <;> rfl

/-- It says of a name what it says of the name's meaning. -/
theorem lookup_view (name : String) :
    ((s.visible id).filterMap fun (n, b) => (f b).map (n, ·)).lookup name =
      (s.lookup? id name).bind f := by
  rw [view_eq, lookup_filterMap]
  by_cases hn : name ∈ s.names id
  · rw [if_pos hn]
  · rw [if_neg hn]
    rw [mem_names, Option.not_isSome_iff_eq_none] at hn
    rw [hn]
    rfl

/-- It lists the names of whose meaning it says something. -/
theorem map_fst_view :
    ((s.visible id).filterMap fun (n, b) => (f b).map (n, ·)).map Prod.fst =
      (s.names id).filter fun n => ((s.lookup? id n).bind f).isSome := by
  rw [view_eq, List.map_filterMap, ← List.filterMap_eq_filter]
  congr 1
  funext n
  cases hn : (s.lookup? id n).bind f <;> simp [Option.guard, hn]

end

theorem lookup_snapshot (s : Scopes) (id : ScopeId) (t : Int) (name : String) :
    (s.snapshot id t).lookup name = (s.lookup? id name).bind (·.valueAt t) :=
  lookup_view s id (·.valueAt t) name

theorem lookup_changesAt (s : Scopes) (id : ScopeId) (t : Int) (name : String) :
    (s.changesAt id t).lookup name = (s.lookup? id name).bind (·.changeAt t) :=
  lookup_view s id (·.changeAt t) name

end Chronicle.Scopes
