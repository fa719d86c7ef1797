import Chronicle.Proofs.Run.Lasting
import Chronicle.Proofs.Store.World

/-!
# What a run leaves alone

After its parameters are bound (`LocatedFunction.entry`), a run writes only variables that are
targets of nodes of the body.  `Framed names w₀ w`: `w` comes from `w₀` by writes of variables of
`names` alone.  Evaluation of what writes `names` only keeps it (`framed_lasting`), and so does the
whole run of a body that does (`framed_run`).

`execute_frame` reads this off the function after a run, however the run ends: a name that is no
target means what it meant at entry, and the names that were bound stand first and in their order.
-/

set_option autoImplicit false

namespace Chronicle

open Effect Walk

/-! ## Worlds that differ in some variables -/

/-- `w` comes from `w₀` by writes of variables of `names`. -/
structure Framed (names : String → Prop) (w₀ w : World) : Prop where
  own : ∀ i {n}, ¬ names n → w.scopes.own? i n = w₀.scopes.own? i n
  bound : ∀ i, w₀.scopes.ownNames i <+: w.scopes.ownNames i
  chain : ∀ i, w.scopes.chain i = w₀.scopes.chain i

namespace Framed

variable {names : String → Prop} {w₀ w : World}

theorem refl (names : String → Prop) (w : World) : Framed names w w :=
  ⟨fun _ _ _ => rfl, fun _ => List.prefix_refl _, fun _ => rfl⟩

/-- A change of a binding under one of the names. -/
theorem modify {w' : World} {id : ScopeId} {name : String} {f : Binding → Binding}
    (h : Framed names w₀ w) (hn : names name) (hw' : w'.scopes = w.scopes.modify id name f) :
    Framed names w₀ w' where
  own i n hout := by
    have hne : n ≠ name := fun he => hout (he ▸ hn)
    rw [hw', Scopes.own?_modify, if_neg fun hin => hne hin.2]
    exact h.own i hout
  bound i := by
    rw [hw', Scopes.ownNames_modify]
    exact h.bound i
  chain i := by
    rw [hw', Scopes.chain_modify]
    exact h.chain i

/-- A new binding under one of the names. -/
theorem add {w' : World} {id : ScopeId} {name : String} {b : Binding} (h : Framed names w₀ w)
    (hn : names name) (hw' : w'.scopes = w.scopes.add id name b) : Framed names w₀ w' where
  own i n hout := by
    have hne : n ≠ name := fun he => hout (he ▸ hn)
    rw [hw', Scopes.own?_add_ne _ _ _ _ hne]
    exact h.own i hout
  bound i := by
    rw [hw', Scopes.ownNames_add]
    exact (h.bound i).trans (List.prefix_append ..)
  chain i := by
    rw [hw', Scopes.chain_add]
    exact h.chain i

/-- In a scope that none encloses, a name outside `names` means what it meant. -/
theorem lookup? (h : Framed names w₀ w) {id : ScopeId} (hid : w.scopes.chain id = [id])
    {name : String} (hn : ¬ names name) :
    w.scopes.lookup? id name = w₀.scopes.lookup? id name := by
  rw [Scopes.lookup?_of_chain hid, Scopes.lookup?_of_chain (h.chain id ▸ hid), h.own id hn]

/-- In a scope that none encloses, the names that were bound stand first. -/
theorem names_append (h : Framed names w₀ w) {id : ScopeId} (hid : w.scopes.chain id = [id]) :
    ∃ new, w.scopes.names id = w₀.scopes.names id ++ new := by
  obtain ⟨new, hnew⟩ := h.bound id
  rw [Scopes.names_of_chain hid, Scopes.names_of_chain (h.chain id ▸ hid), ← hnew,
    List.eraseDups_append]
  exact ⟨_, rfl⟩

end Framed

/-- Writes of variables of `names` are all that evaluation adds. -/
theorem framed_lasting (names : String → Prop) (step : Int) (w₀ : World) :
    LastingOn names 0 step (Framed names w₀) (Framed names w₀) where
  stop h := h
  note _ h := { h with }
  store _ h := { h with }
  write hn _ _ h := h.modify hn rfl
  writeUnrendered hn _ h := h.modify hn rfl
  add hn _ _ h := h.add hn rfl
  addUnrendered _ _ h := { h with }

/-! ## Runs -/

/-- The world of a run once its parameters are bound, or could not be. -/
def LocatedFunction.entry (f : LocatedFunction) : World :=
  let start : Effect Unit := do
    let receiver ← newRecord []
    define 0 thisName receiver parameterStep none
    bindParameters 0 f.function.params f.heap f.params parameterStep
  stateAfter (start {})

/-- A condition that holds at entry and is steady on what the body writes holds at the end. -/
theorem stateAfter_run {names : String → Prop} {A B E : RunState → Prop}
    (h : SteadyOn names 0 A B E) (f : LocatedFunction) (limit : Option Int)
    (hentry : A { world := f.entry })
    (hbody : Node.AllEverywhere (·.WritesOnly names) f.function.body) :
    E (stateAfter (f.run limit {})) := by
  rw [run_eq]
  have hstart : f.entry =
    stateAfter (bindParameters 0 f.function.params f.heap f.params parameterStep startWorld) := rfl
  cases hbind : bindParameters 0 f.function.params f.heap f.params parameterStep startWorld with
  | error x w =>
    have hact : act (bindParameters 0 f.function.params f.heap f.params parameterStep)
        { world := startWorld } = .error x { world := w } := by
      unfold act
      rw [hbind]
    rw [bind_of_error hact]
    rw [hstart, hbind] at hentry
    exact h.stop_now _ hentry
  | ok _ w =>
    have hact : act (bindParameters 0 f.function.params f.heap f.params parameterStep)
        { world := startWorld } = .ok () { world := w } := by
      unfold act
      rw [hbind]
    rw [bind_of_ok hact]
    rw [hstart, hbind] at hentry
    have hwalk := walkAll_keepsOn h limit f.function.body hbody { world := w } hentry
    cases hr : walkAll 0 limit f.function.body { world := w } with
    | ok _ s =>
      rw [hr] at hwalk
      exact h.stop_now s hwalk
    | error _ s =>
      rw [hr] at hwalk
      exact hwalk

/-- A run of a body that writes `names` only leaves all other variables as they were at entry. -/
theorem framed_run {names : String → Prop} (t : TracedFunction) (limit : Option Int)
    (hbody : Node.AllEverywhere (·.WritesOnly names) t.located.function.body) :
    Framed names t.located.entry (t.execute limit).1.world := by
  have h := stateAfter_run (LastingOn.steady fun step => framed_lasting names step t.located.entry)
    t.located limit (.refl names _) hbody
  have hscopes := (t.execute_state limit).2
  exact ⟨hscopes ▸ h.own, hscopes ▸ h.bound, hscopes ▸ h.chain⟩

/-- However a run ends, a name that is the target of no node of the body means after it what it
meant at entry, its whole history included, and the names that were bound at entry are bound still,
in their order and before all new ones. -/
theorem execute_frame (t : TracedFunction) (limit : Option Int) :
    (∀ name, Node.AllEverywhere (fun n => n.target? ≠ some name) t.located.function.body →
      (t.execute limit).1.world.scopes.lookup? 0 name =
        t.located.entry.scopes.lookup? 0 name) ∧
      ∃ new, (t.execute limit).1.world.scopes.names 0 = t.located.entry.scopes.names 0 ++ new := by
  have hchain := execute_chain t limit
  constructor
  · intro name hbody
    have hframed : Framed (· ≠ name) t.located.entry (t.execute limit).1.world :=
      framed_run t limit <| hbody.mono fun n hn m hm he => hn (he ▸ hm)
    exact hframed.lookup? hchain (not_not_intro rfl)
  · have hframed : Framed (fun _ => True) t.located.entry (t.execute limit).1.world :=
      framed_run t limit fun n _ => n.writesOnly_true
    exact hframed.names_append hchain

/-- A function with a parameter `a` that reads `a` into a new variable and writes the latter again. -/
def copying : TracedFunction where
  located := {
    name := "f"
    heap := {}
    params := [{ name := "a", kind := .boolean, initial := .boolean true }]
    function := {
      location := .unknown
      id := none
      params := [.identifier .unknown "a"]
      bodyLocation := .unknown
      body := [
        .declaration ⟨1, 0, 1, 0⟩ "let" [.declarator .unknown (.identifier .unknown "b")
          (some (.identifier .unknown "a"))],
        .expressionStatement ⟨2, 0, 2, 0⟩ (.assignment .unknown "=" (.identifier .unknown "b")
          (.literal .unknown (.boolean false) "false"))] } }

/-- The parameter is read and never written: it keeps its history, and the variable comes last. -/
theorem execute_frame_copying :
    Node.AllEverywhere (fun n => n.target? ≠ some "a") copying.located.function.body ∧
      ((copying.execute none).1.world.scopes.lookup? 0 "a").isSome ∧
      (copying.execute none).1.world.scopes.lookup? 0 "a" =
        copying.located.entry.scopes.lookup? 0 "a" ∧
      (copying.execute none).1.world.scopes.names 0 =
        copying.located.entry.scopes.names 0 ++ ["b"] := by
  have hleaf : ∀ n : Node, n.children = [] → n.target? = none →
      n.Everywhere fun n => n.target? ≠ some "a" := by
    intro n hchildren htarget
    refine .of ?_ ?_
    · rw [htarget]
      nofun
    · rw [hchildren]
      exact .nil
  have hbody : Node.AllEverywhere (fun n => n.target? ≠ some "a")
      copying.located.function.body := by
    refine .cons (.of (by decide) (.cons (.of (by decide) ?_) .nil))
      (.cons (.of (by decide) (.cons (.of (by decide) ?_) .nil)) .nil)
    · exact .cons (hleaf _ rfl rfl) (.cons (hleaf _ rfl rfl) .nil)
    · exact .cons (hleaf _ rfl rfl) (.cons (hleaf _ rfl rfl) .nil)
  obtain ⟨hsame, -⟩ := execute_frame copying none
  exact ⟨hbody, by decide +kernel, hsame "a" hbody, by decide +kernel⟩

end Chronicle
