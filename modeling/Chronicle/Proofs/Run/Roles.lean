import Mathlib.Data.List.Basic
import Chronicle.Grammar.Program
import Chronicle.Proofs.Locate
import Chronicle.Proofs.Run.Frame
import Chronicle.Proofs.Run.Parameters
import Chronicle.Proofs.Run.Throughout

/-!
# Parameters and variables of a run

A binding is a parameter's when it was added with a specification, and nothing that is written
later changes that: `Scopes.marks` lists the names of a scope with their roles, and a write leaves it
as it is (`marks_modify`).  `World.Roles ps new w`: the receiver stands first and is no parameter,
then come the parameters `ps`, then variables.  Binding parameters leads from no parameters to all of
them (`bindAll_roles`), evaluation adds variables only (`roles_lasting`), and so in every state of a
run parameters and variables are told apart (`execute_roles`).

The receiver is bound before the parameters.  A specification in its name writes it, and makes no
parameter of it.
-/

set_option autoImplicit false

namespace Chronicle

/-! ## Roles of names -/

namespace Scopes

/-- The names that a scope owns, in the order in which they were bound, and whether they are
parameters. -/
def marks (s : Scopes) (id : ScopeId) : List (String × Bool) :=
  (s.scope id).bindings.map fun x => (x.1, x.2.isParameter)

theorem marks_map_fst (s : Scopes) (id : ScopeId) :
    (s.marks id).map Prod.fst = s.ownNames id := by
  unfold marks ownNames
  rw [List.map_map]
  rfl

theorem marks_modifyIn {f : Binding → Binding} (hf : ∀ b, (f b).spec = b.spec) (name : String) :
    ∀ l : List (String × Binding), (modifyIn name f l).map (fun x => (x.1, x.2.isParameter)) =
      l.map fun x => (x.1, x.2.isParameter)
  | [] => rfl
  | (n, b) :: rest => by
    unfold modifyIn
    split
    · simp only [List.map_cons, Binding.isParameter, hf]
    · rw [List.map_cons, List.map_cons, marks_modifyIn hf name rest]

/-- A change of a binding that keeps its specification changes no role. -/
theorem marks_modify (s : Scopes) {f : Binding → Binding} (hf : ∀ b, (f b).spec = b.spec)
    (id : ScopeId) (name : String) (i : ScopeId) :
    (s.modify id name f).marks i = s.marks i := by
  unfold marks
  rw [scope_modify]
  split
  · exact marks_modifyIn hf name _
  · rfl

theorem marks_add {s : Scopes} {id : ScopeId} (hid : id < s.all.size) (name : String)
    (b : Binding) : (s.add id name b).marks id = s.marks id ++ [(name, b.isParameter)] := by
  unfold marks
  rw [scope_add, if_pos ⟨rfl, hid⟩, List.map_append]
  rfl

/-! ## Views of a scope by itself -/

theorem lookup_of_mem {l : List (String × Binding)} (h : (l.map Prod.fst).Nodup)
    {x : String × Binding} (hx : x ∈ l) : l.lookup x.1 = some x.2 := by
  induction l with
  | nil => cases hx
  | cons y l ih =>
    obtain ⟨hy, hl⟩ := List.nodup_cons.1 h
    rcases List.mem_cons.1 hx with rfl | hx
    · rw [List.lookup_cons, beq_self_eq_true]
    · have hne : x.1 ≠ y.1 := fun he => hy (List.mem_map.2 ⟨x, hx, he⟩)
      rw [List.lookup_cons, beq_false_of_ne hne]
      exact ih hl hx

section
variable {s : Scopes} {id : ScopeId} (hchain : s.chain id = [id]) (hnodup : (s.ownNames id).Nodup)
include hchain hnodup

/-- In a scope that none encloses, what is visible are its own bindings. -/
theorem visible_of_chain : s.visible id = (s.scope id).bindings := by
  have hlookup : ∀ x ∈ (s.scope id).bindings,
      ((fun name => (s.lookup? id name).map (name, ·)) ∘ Prod.fst) x = some x := by
    intro x hx
    rw [Function.comp_apply, lookup?_of_chain hchain, own?, lookup_of_mem hnodup hx]
    rfl
  unfold visible
  rw [names_of_chain hchain, eraseDups_of_nodup hnodup, ownNames, List.filterMap_map,
    List.filterMap_congr hlookup, List.filterMap_some]

theorem names_of_nodup : s.names id = (s.marks id).map Prod.fst := by
  rw [names_of_chain hchain, eraseDups_of_nodup hnodup, marks_map_fst]

theorem parameterNames_of_marks :
    s.parameterNames id = ((s.marks id).filter (·.2)).map Prod.fst := by
  unfold parameterNames marks
  rw [visible_of_chain hchain hnodup, List.filter_map, List.map_map]
  rfl

theorem variableNames_of_marks :
    s.variableNames id = ((s.marks id).filter (!·.2)).map Prod.fst := by
  unfold variableNames marks
  rw [visible_of_chain hchain hnodup, List.filter_map, List.map_map]
  rfl

end

end Scopes

/-- The receiver first, then the parameters `ps`, then the variables `new`. -/
structure World.Roles (ps new : List String) (w : World) : Prop where
  chain : w.scopes.chain 0 = [0]
  nodup : (w.scopes.ownNames 0).Nodup
  marks : w.scopes.marks 0 = (thisName, false) :: ps.map (·, true) ++ new.map (·, false)

namespace World.Roles

variable {ps new : List String} {w w' : World}

theorem modify (h : w.Roles ps new) {f : Binding → Binding} (hf : ∀ b, (f b).spec = b.spec)
    {id : ScopeId} {name : String} (hw' : w'.scopes = w.scopes.modify id name f) :
    w'.Roles ps new where
  chain := by rw [hw', Scopes.chain_modify, h.chain]
  nodup := by
    rw [hw', Scopes.ownNames_modify]
    exact h.nodup
  marks := by rw [hw', Scopes.marks_modify _ hf, h.marks]

theorem write (h : w.Roles ps new) (id : ScopeId) (name : String) (v : Value) (text : String)
    (step : Int) : (w.write id name v text step).Roles ps new :=
  h.modify (f := (·.push v text step)) (fun _ => rfl) rfl

theorem writeUnrendered (h : w.Roles ps new) (id : ScopeId) (name : String) (v : Value)
    (step : Int) : (w.writeUnrendered id name v step).Roles ps new := by
  refine h.modify (fun b => ?_) rfl
  unfold Binding.pushUnrendered
  split <;> rfl

/-- A new binding of the scope comes last, as a parameter when it has a specification. -/
theorem marks_add (h : w.Roles ps new) {name : String} (hown : w.scopes.own? 0 name = none)
    (v : Value) (text : String) (step : Int) (spec : Option ParameterSpec) :
    let w' := w.add 0 name v text step spec
    w'.scopes.chain 0 = [0] ∧ (w'.scopes.ownNames 0).Nodup ∧
      w'.scopes.marks 0 = w.scopes.marks 0 ++ [(name, spec.isSome)] := by
  have hthis : thisName ∈ w.scopes.ownNames 0 := by
    rw [← Scopes.marks_map_fst, h.marks]
    simp
  have hmarks : (w.add 0 name v text step spec).scopes.marks 0 =
      w.scopes.marks 0 ++ [(name, spec.isSome)] :=
    Scopes.marks_add (Scopes.lt_size_of_mem_ownNames hthis) name _
  refine ⟨?_, Scopes.nodup_ownNames_add hown _ h.nodup, hmarks⟩
  simpa only [World.add, Scopes.chain_add] using h.chain

/-- A new variable. -/
theorem addVariable (h : w.Roles ps new) {name : String} (hown : w.scopes.own? 0 name = none)
    (v : Value) (text : String) (step : Int) :
    (w.add 0 name v text step none).Roles ps (new ++ [name]) := by
  obtain ⟨hchain, hnodup, hmarks⟩ := h.marks_add hown v text step none
  exact ⟨hchain, hnodup, by simp [hmarks, h.marks]⟩

/-- A new parameter, before there are variables. -/
theorem addParameter (h : w.Roles ps []) {name : String} (hown : w.scopes.own? 0 name = none)
    (v : Value) (text : String) (step : Int) (spec : ParameterSpec) :
    (w.add 0 name v text step (some spec)).Roles (ps ++ [name]) [] := by
  obtain ⟨hchain, hnodup, hmarks⟩ := h.marks_add hown v text step (some spec)
  exact ⟨hchain, hnodup, by simp [hmarks, h.marks]⟩

end World.Roles

/-- Evaluation adds variables only, and changes no role. -/
theorem roles_lasting (ps : List String) (step : Int) :
    LastingOn (fun _ => True) 0 step (fun w => ∃ new, w.Roles ps new)
      fun w => ∃ new, w.Roles ps new where
  stop h := h
  note _ := fun ⟨new, h⟩ => ⟨new, h.chain, h.nodup, h.marks⟩
  store _ := fun ⟨new, h⟩ => ⟨new, h.chain, h.nodup, h.marks⟩
  write _ _ _ := fun ⟨new, h⟩ => ⟨new, h.write ..⟩
  writeUnrendered _ _ := fun ⟨new, h⟩ => ⟨new, h.writeUnrendered ..⟩
  add _ hown _ := fun ⟨new, h⟩ => ⟨new ++ [_], h.addVariable hown ..⟩
  addUnrendered _ _ := fun ⟨new, h⟩ => ⟨new, h.chain, h.nodup, h.marks⟩

/-! ## Binding -/

/-- The names that specifications make parameters of: all but the receiver's. -/
def parametersOf (specs : List ParameterSpec) : List String :=
  (specs.map ParameterSpec.name).filter (· ≠ thisName)

/-- Defining a parameter adds it, or writes the receiver. -/
theorem define_roles {done : List ParameterSpec} {spec : ParameterSpec} {w w' : World} {v : Value}
    {step : Int} (hw : w.Roles (parametersOf done) [])
    (hnew : spec.name ∉ done.map ParameterSpec.name)
    (h : Effect.define 0 spec.name v step (some spec) w = .ok () w') :
    w'.Roles (parametersOf (done ++ [spec])) [] := by
  have hbound : (w.scopes.own? 0 spec.name).isSome ↔ spec.name = thisName := by
    have hmem : spec.name ∉ parametersOf done := fun hp => hnew (List.mem_filter.1 hp).1
    rw [Scopes.isSome_own?_iff, ← Scopes.marks_map_fst, hw.marks]
    simp [hmem]
  rw [Effect.define_eq] at h
  by_cases hthis : spec.name = thisName
  · have hsame : parametersOf (done ++ [spec]) = parametersOf done := by
      simp [parametersOf, hthis]
    rw [if_pos (hbound.2 hthis), Effect.writeOwn_eq] at h
    split at h
    · cases h
      rw [hsame]
      exact hw.write ..
    · cases h
  · have hmore : parametersOf (done ++ [spec]) = parametersOf done ++ [spec.name] := by
      simp [parametersOf, hthis]
    rw [if_neg (mt hbound.1 hthis)] at h
    split at h
    · cases h
      rw [hmore]
      exact hw.addParameter (Option.not_isSome_iff_eq_none.1 (mt hbound.1 hthis)) ..
    · cases h

/-- Binding parameters one after the other makes a parameter of each. -/
theorem bindAll_roles {source : Heap} {step : Int} : ∀ {specs done : List ParameterSpec}
    {w w' : World}, w.Roles (parametersOf done) [] →
      ((done ++ specs).map ParameterSpec.name).Nodup →
      specs.forM (bindParameter 0 source step) w = .ok () w' →
      w'.Roles (parametersOf (done ++ specs)) []
  | [], done, w, w', hw, _, h => by
    cases h
    rwa [List.append_nil]
  | spec :: specs, done, w, w', hw, hnodup, h => by
    obtain ⟨_, u, hu, hrest⟩ := ok_of_bind h
    obtain ⟨v, u', hcopy, hdefine⟩ := ok_of_bind hu
    have hu' : u'.Roles (parametersOf done) [] := by
      cases hcopy
      exact ⟨hw.chain, hw.nodup, hw.marks⟩
    have hnew : spec.name ∉ done.map ParameterSpec.name := by
      rw [List.map_append, List.map_cons] at hnodup
      exact fun hmem => (List.nodup_append.1 hnodup).2.2 _ hmem _ List.mem_cons_self rfl
    rw [List.append_cons] at hnodup ⊢
    exact bindAll_roles (define_roles hu' hnew hdefine) hnodup hrest

/-- The receiver of a run is bound first, and nothing else is bound then. -/
theorem startWorld_roles : startWorld.Roles [] [] :=
  ⟨by decide, by decide, by decide⟩

/-- What a run does before its body: it binds the receiver, then the parameters. -/
def LocatedFunction.prepare (f : LocatedFunction) : Effect Unit := do
  let receiver ← Effect.newRecord []
  Effect.define 0 thisName receiver parameterStep none
  bindParameters 0 f.function.params f.heap f.params parameterStep

theorem prepare_roles {f : LocatedFunction} {w : World} (h : f.prepare {} = .ok () w) :
    w.Roles (parametersOf f.params) [] := by
  have hbind : bindParameters 0 f.function.params f.heap f.params parameterStep startWorld =
      .ok () w := h
  unfold bindParameters at hbind
  rcases checkParameters_cases f.function.params f.params with
    ⟨hcheck, hlined⟩ | ⟨⟨detail, location, hcheck⟩, -⟩
  · rw [hcheck] at hbind
    have hstart : startWorld.Roles (parametersOf []) [] := startWorld_roles
    have hbound := bindAll_roles hstart hlined.distinct hbind
    exact hbound
  · rw [hcheck] at hbind
    cases hbind

/-! ## Runs -/

/-- The names of specifications, but for the receiver's, are the parameters, in the order of the
specifications; all other names are variables, and the receiver is one of them. -/
structure Scopes.TellsApart (s : Scopes) (specs : List ParameterSpec) : Prop where
  parameters : s.parameterNames 0 = parametersOf specs
  others : s.variableNames 0 = (s.names 0).filter (· ∉ s.parameterNames 0)
  receiver : thisName ∈ s.variableNames 0

theorem World.Roles.tellsApart {specs : List ParameterSpec} {new : List String} {w : World}
    (h : w.Roles (parametersOf specs) new) : w.scopes.TellsApart specs := by
  have hnames : w.scopes.names 0 = thisName :: parametersOf specs ++ new := by
    rw [Scopes.names_of_nodup h.chain h.nodup, h.marks]
    simp [Function.comp_def]
  have hparameters : w.scopes.parameterNames 0 = parametersOf specs := by
    rw [Scopes.parameterNames_of_marks h.chain h.nodup, h.marks]
    simp [List.filter_map, Function.comp_def]
  have hvariables : w.scopes.variableNames 0 = thisName :: new := by
    rw [Scopes.variableNames_of_marks h.chain h.nodup, h.marks]
    simp [List.filter_map, Function.comp_def]
  have hnodup : (thisName :: parametersOf specs ++ new).Nodup := by
    rw [← hnames, Scopes.names_of_nodup h.chain h.nodup, Scopes.marks_map_fst]
    exact h.nodup
  obtain ⟨hthis, hapart⟩ := List.nodup_cons.1 hnodup
  have hnew : ∀ n ∈ new, n ∉ parametersOf specs := fun n hn hp =>
    (List.nodup_append.1 hapart).2.2 n hp n hn rfl
  refine ⟨hparameters, ?_, ?_⟩
  · have hkept : new.filter (· ∉ parametersOf specs) = new :=
      List.filter_eq_self.2 fun n hn => decide_eq_true (hnew n hn)
    have hdropped : (parametersOf specs).filter (· ∉ parametersOf specs) = [] :=
      List.filter_eq_nil_iff.2 fun n hn => by simpa using hn
    have hfirst : (thisName :: parametersOf specs).filter (· ∉ parametersOf specs) =
        [thisName] := by
      rw [List.filter_cons_of_pos, hdropped]
      exact decide_eq_true fun hp => hthis (List.mem_append_left _ hp)
    rw [hvariables, hnames, hparameters, List.filter_append, hfirst, hkept]
    rfl
  · rw [hvariables]
    exact List.mem_cons_self

theorem Watched.stateAfter_forget {α : Type} (r : EStateM.Result Stop Watched α) :
    stateAfter (Watched.forget r) = (stateAfter r).state := by
  cases r <;> rfl

/-- Once its parameters are bound, a run tells parameters and variables apart, under any limit: in
every state that it passes through from then on, and in the one it leaves, however it ends.  Each
specification has made a parameter, in their order, but one in the receiver's name. -/
theorem execute_roles (t : TracedFunction) (limit : Option Int) {w : World}
    (hprepare : t.located.prepare {} = .ok () w) :
    let rest := Watch.walkAll 0 limit t.located.function.body (.from { world := w })
    Watched.forget rest = t.located.run limit {} ∧
      (∀ x ∈ (stateAfter rest).seen, x.state.world.scopes.TellsApart t.located.params) ∧
      (t.execute limit).1.world.scopes.TellsApart t.located.params := by
  have hrun : t.located.run limit {} =
      walkAll 0 limit t.located.function.body { world := w } := by
    have hact : Walk.act t.located.prepare {} = .ok () { world := w } := by
      unfold Walk.act
      rw [hprepare]
    exact bind_of_ok hact
  have hforget : Watched.forget (Watch.walkAll 0 limit t.located.function.body
      (.from { world := w })) = t.located.run limit {} :=
    (walkAll_shows 0 limit t.located.function.body (.from { world := w })).trans hrun.symm
  have hsteady := LastingOn.steady fun step => roles_lasting (parametersOf t.located.params) step
  have hseen := seen_throughout hsteady limit t.located.function.body (s := { world := w })
    ⟨[], prepare_roles hprepare⟩
  refine ⟨hforget, fun x hx => ?_, ?_⟩
  · obtain ⟨new, hroles⟩ := hseen.seen x hx
    exact hroles.tellsApart
  · obtain ⟨new, hroles⟩ := hseen.now
    rw [(t.execute_state limit).2, ← hforget, Watched.stateAfter_forget]
    exact hroles.tellsApart

/-- The parameter is told apart from the receiver and the variable of the body. -/
theorem execute_roles_copying :
    ∃ w, copying.located.prepare {} = .ok () w ∧
      (copying.execute none).1.world.scopes.TellsApart copying.located.params ∧
      (copying.execute none).1.world.scopes.parameterNames 0 = ["a"] ∧
      (copying.execute none).1.world.scopes.variableNames 0 = ["this", "b"] := by
  have hbinds : (copying.located.prepare.run' {}).isSome := by decide +kernel
  obtain ⟨_, hu⟩ := Option.isSome_iff_exists.1 hbinds
  obtain ⟨w, hw⟩ := ok_of_run' hu
  exact ⟨w, hw, (execute_roles copying none hw).2.2, by decide +kernel, by decide +kernel⟩

/-- A function with one specification, of a part of its receiver. -/
def receiverSource : String :=
  "/**\n * @param \x7bObject\x7d this.x = 1\n */\nfunction f() \x7b\n  return this.x;\n\x7d\n"

/-- The specification is bound, and its name is that of a variable, not of a parameter. -/
theorem receiver_no_parameter :
    ∃ t log, locateSource Tree.ofSource receiverSource #[] = .ok [t] log ∧
      t.located.params.map ParameterSpec.name = ["this"] ∧
      (t.execute none).1.status = .completed ∧
      (t.execute none).1.world.scopes.parameterNames 0 = [] ∧
      (t.execute none).1.world.scopes.variableNames 0 = ["this"] := by
  have hrun : ((locateSource Tree.ofSource receiverSource).run' #[]).map (List.map fun t =>
      (t.located.params.map ParameterSpec.name, (t.execute none).1.status,
        (t.execute none).1.world.scopes.parameterNames 0,
        (t.execute none).1.world.scopes.variableNames 0)) =
      some [(["this"], .completed, [], ["this"])] := by
    decide +kernel
  obtain ⟨t, log, hl, ht⟩ := located_of_map hrun
  simp only [Prod.mk.injEq] at ht
  exact ⟨t, log, hl, ht⟩

end Chronicle
