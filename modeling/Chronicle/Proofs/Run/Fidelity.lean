import Chronicle.Proofs.Evaluation.Accounted
import Chronicle.Proofs.Run.Normal
import Chronicle.Proofs.Run.Stamps
import Chronicle.Proofs.Run.Throughout

/-!
# What histories say about values

A history keeps renderings, while sequences and records are shared by reference.  A change made
through one variable shows in every variable that reaches the same cell, and is written back to the
one variable that the receiver names.

At the end of a run the last entry of every variable renders its value as this was at the last write,
and every change through a receiver that names the variable was written back (`WrittenBack`).  So the
entry still renders the value, unless a change through another receiver has reached it since
(`ChangedElsewhere`); `aliased` is a function whose run makes one.
-/

set_option autoImplicit false

namespace Chronicle

/-! ## Runs -/

/-- A step that leaves the world as it is keeps the books. -/
theorem keeps_look_of_world {α : Type} {e : Walk α}
    (he : ∀ {s s' : RunState} {a : α}, e s = .ok a s' → s'.world = s.world) :
    Triple (Watched.Accounted nothingDue) (Watch.look e) (fun _ => Watched.Accounted nothingDue)
      fun _ _ => True := by
  intro w hw
  unfold Watch.look
  cases hr : e w.state with
  | ok a s =>
    have hsee := Accounts.see hw (he hr) none
    rw [← he hr] at hsee
    exact hsee
  | error x s => trivial

/-- Statements write back every change that they make through a receiver that names a variable. -/
theorem accounted_carries :
    Carries 0 (Watched.Accounted nothingDue) (Watched.Accounted nothingDue) (fun _ => True)
      (fun _ => Watched.Accounted nothingDue) fun _ => Watched.Accounted nothingDue where
  steps := keeps_look_of_world fun he => by cases he; rfl
  admits := accounted_admits
  admitsAhead k := accounted_admits (k + 1)
  between _ _ hw := hw
  turn _ _ hw := hw
  owed _ _ hw := hw
  ahead _ hw := hw
  stop _ _ := trivial
  record limit location kind outcome := keeps_look_of_world fun {s s' a} he => by
    rcases record_cases limit location kind outcome s with ⟨m, -, -, hr⟩ | ⟨-, hr⟩
    · rw [hr] at he
      cases he
    · rw [hr] at he
      cases he
      rfl
  keep v := keeps_look_of_world fun he => by cases he; rfl

theorem accounted_start : Watched.start.Accounted nothingDue where
  root := by decide
  chain := by decide
  past x hx := by
    rw [Watched.start, List.mem_toArray, List.mem_singleton] at hx
    exact hx ▸ Nat.le_refl _
  written n b _ _ x hx c hc := by
    rw [Watched.start, List.mem_toArray, List.mem_singleton] at hx
    rw [hx] at hc
    cases hc
  rendered n b hb := by
    have hroot : Scopes.root.own? 0 n = none := by simp [Scopes.own?, Scopes.scope, Scopes.root]
    rw [show Watched.start.state.world.scopes = .root from rfl, hroot] at hb
    cases hb

/-- The receiver and the parameters are bound to new cells. -/
theorem bindParameters_accounted (declared : List Node) (source : Heap)
    (specs : List ParameterSpec) (step : Int) :
    Keeps (Watched.Accounted nothingDue) (fun _ => True)
      (Watch.bindParameters 0 declared source specs step) := by
  unfold Watch.bindParameters
  cases checkParameters declared specs with
  | error e => exact keeps_throw (fun _ _ => trivial) _
  | ok u =>
    refine keeps_forM fun spec _ => Triple.bind (Q := fun _ => Watched.Accounted nothingDue)
      (triple_accounted fun {seen w w' a} h he s hs => ?_) fun v => ?_
    · cases he
      exact (h.extend (Heap.Extends.append w.heap source)).see hs none
    · exact triple_wrote (fun _ hn => hn.elim) fun hroot _ he =>
        wrote_of_define hroot he

theorem watch_accounted (f : LocatedFunction) (limit : Option Int) :
    Keeps (Watched.Accounted nothingDue) (fun _ => True) (f.watch limit) :=
  keeps_bind ((accounted_admits parameterStep).calm fun _ _ hP => hP.keeps_newRecord []) fun _ =>
    keeps_bind ((accounted_admits parameterStep).define thisName _) fun _ =>
      keeps_bind (bindParameters_accounted _ _ _ _) fun _ =>
        walkAll_carried accounted_carries limit _

/-- A run that has completed ends as the watched one. -/
theorem TracedFunction.watch_of_completed {t : TracedFunction} {limit : Option Int}
    (hc : (t.execute limit).1.status = .completed) :
    ∃ w, t.located.watch limit .start = .ok () w ∧ (t.execute limit).1.world = w.state.world := by
  obtain ⟨s, hr⟩ := run_of_completed hc
  have hshows : Watched.forget (t.located.watch limit .start) = t.located.run limit {} :=
    watch_shows t.located limit .start
  rw [hr] at hshows
  cases hw : t.located.watch limit .start with
  | ok u w =>
    rw [hw] at hshows
    cases hshows
    exact ⟨w, rfl, congrArg (·.1.world) (execute_of_ok hr)⟩
  | error x w =>
    rw [hw] at hshows
    cases hshows

/-! ## Fidelity -/

/-- Every change of cells through a receiver that names the variable is no later than the write. -/
def WrittenBack (seen : Array Sight) (name : String) (r : Write) : Prop :=
  ∀ x ∈ seen, ∀ c, x.change? = some c → c.receiver.Names name → ∀ cell, x.Changed c cell →
    x.heap.stores.size ≤ r.stores

/-- After the write, a change through a receiver that does not name the variable stored to a cell
that the value reached when it was written, in the heap `h`. -/
def ChangedElsewhere (seen : Array Sight) (name : String) (r : Write) (h : Heap) (v : Value) :
    Prop :=
  ∃ x ∈ seen, ∃ c, x.change? = some c ∧ ¬ c.receiver.Names name ∧
    r.stores ≤ c.before.stores.size ∧ ∃ cell, x.Changed c cell ∧ h.Reaches v cell

theorem Accounts.writtenBack {seen : Array Sight} {w : World} {name : String} {b : Binding}
    {r : Write} (h : Accounts nothingDue seen w) (hb : w.scopes.own? 0 name = some b)
    (hr : w.lastWrite? 0 name = some r) : WrittenBack seen name r := by
  intro x hx c hc hnames cell hcell
  obtain ⟨r', hr', hle⟩ := h.written name b id hb x hx c hc hnames cell hcell
  cases hr.symm.trans hr'
  exact hle

/-- A rendering that does not hold any more has been changed elsewhere: a change through the variable
itself would have been written back. -/
theorem Rendered.format_or_changed {seen : Array Sight} {w : World} {name : String} {b : Binding}
    {x : Sight} {e : HistoryEntry} {r : Write} (h : Rendered seen w name b x e r)
    (hback : WrittenBack seen name r) (hclosed : x.heap.Closed b.value) :
    w.heap.format b.value = .ok e.text ∨ ChangedElsewhere seen name r x.heap b.value := by
  by_cases hstale : ∃ cell ∈ w.heap.storesFrom x.heap.stores.size, x.heap.Reaches b.value cell
  · obtain ⟨cell, hstored, hreach⟩ := hstale
    obtain ⟨y, hy, c, hc, hle, hcell⟩ := h.since cell hstored (hclosed cell hreach)
    refine .inr ⟨y, hy, c, hc, fun hnames => ?_, h.stores ▸ hle, cell, hcell, hreach⟩
    have hwritten := hback y hy c hc hnames cell hcell
    have hlater := Heap.lt_of_mem_storesFrom hcell.stored
    rw [h.stores] at hwritten
    omega
  · have hout : ∀ cell, x.heap.Reaches b.value cell →
        cell ∉ w.heap.storesFrom x.heap.stores.size :=
      fun cell hreach hstored => hstale ⟨cell, hstored, hreach⟩
    exact .inl (h.grows.evolves.format_eq
      (fun cell hreach => hout cell (h.grows.evolves.reaches hout hreach)) h.format)

/-- What a completed run shows of a variable at its last step is the last entry of its history, and
this entry is the rendering that the variable's value had when the variable was last written.  Every
change of a sequence or record by a call or an assignment whose receiver names the variable has been
written back by then.  In a run of a normal function, as all located ones are, the entry is the
rendering of the value as it is now, unless since that write a call or an assignment whose receiver
does not name the variable has changed a sequence or record that the value reached. -/
theorem execute_fidelity :
    (∀ parse source log fs log', locateSource parse source log = .ok fs log' →
      ∀ t ∈ fs, t.located.Normal) ∧
    ∀ (t : TracedFunction) (limit : Option Int) (name : String) (b : Binding),
      (t.execute limit).1.status = .completed →
      (t.execute limit).1.world.scopes.lookup? 0 name = some b →
      let r := (t.execute limit).1
      let seen := (stateAfter (t.located.watch limit .start)).seen
      Watched.forget (t.located.watch limit .start) = t.located.run limit {} ∧
      ∃ e w h, b.history.back? = some e ∧ b.valueAt r.steps = some e.text ∧
        r.world.lastWrite? 0 name = some w ∧ w.text = some e.text ∧
        Heap.Evolves h r.world.heap ∧ h.stores.size = w.stores ∧ h.format b.value = .ok e.text ∧
        WrittenBack seen name w ∧
        (t.located.Normal → r.world.heap.format b.value = .ok e.text ∨
          ChangedElsewhere seen name w h b.value) := by
  refine ⟨fun _ _ _ _ _ h t ht => (normal_of_located h t ht).1, fun t limit name b hc hb => ?_⟩
  intro r seen
  have hown : r.world.scopes.own? 0 name = some b := by
    rw [← Scopes.lookup?_of_chain (execute_chain t limit)]
    exact hb
  obtain ⟨w, hw, hworld⟩ := TracedFunction.watch_of_completed hc
  have hbooks : Accounts nothingDue w.seen w.state.world := by
    have h := watch_accounted t.located limit .start accounted_start
    rw [hw] at h
    exact h
  rw [← hworld] at hbooks
  have hseen : seen = w.seen := by
    show (stateAfter (t.located.watch limit .start)).seen = w.seen
    rw [hw]
    rfl
  obtain ⟨x, e, last, hr⟩ := hbooks.rendered name b hown
  have hback := hbooks.writtenBack hown hr.write
  obtain ⟨e', he', hv⟩ := ((execute_stamped t limit).2 hc).valueAt_eq_back hown
  rw [hr.entry] at he'
  cases he'
  refine ⟨watch_shows t.located limit .start, e, last, x.heap, hr.entry, hv, hr.write, hr.text,
    hr.grows.evolves, hr.stores.symm, hr.format, hseen ▸ hback, fun ht => ?_⟩
  have hmem : x ∈ seen := hseen ▸ hr.mem
  have hnormal : x.heap.Normal b.value :=
    (seen_normal ht limit x hmem).state.bindings 0 name b hr.bound
  rw [hseen]
  exact hr.format_or_changed hback hnormal.closed

/-- `let a = [true]; let b = a; b.push(false);`, a statement a line. -/
def aliased : TracedFunction where
  located := {
    name := "f"
    heap := {}
    params := []
    function := {
      location := .unknown
      id := none
      params := []
      bodyLocation := .unknown
      body := [
        .declaration ⟨1, 0, 1, 0⟩ "let" [.declarator .unknown (.identifier .unknown "a")
          (some (.array .unknown [some (.literal .unknown (.boolean true) "true")]))],
        .declaration ⟨2, 0, 2, 0⟩ "let" [.declarator .unknown (.identifier .unknown "b")
          (some (.identifier .unknown "a"))],
        .expressionStatement ⟨3, 0, 3, 0⟩ (.call .unknown
          (.member .unknown (.identifier .unknown "b") (.identifier .unknown "push") false)
          [.literal .unknown (.boolean false) "false"])] } }

/-- The binding of `a` at the end: written once, before the push through `b`. -/
def aliasedBinding : Binding where
  value := .sequence 0
  history := #[⟨1, "[true]"⟩]

/-- The push through `b` shows in the value of `a`. -/
theorem aliased_format_ne {e : HistoryEntry} (he : aliasedBinding.history.back? = some e) :
    (aliased.execute none).1.world.heap.format aliasedBinding.value ≠ .ok e.text := by
  intro hf
  have hentry : e = ⟨1, "[true]"⟩ := Option.some.inj he.symm
  have hnow : (aliased.execute none).1.world.heap.format aliasedBinding.value =
      .ok "[true, false]" := rfl
  rw [hnow, hentry] at hf
  exact absurd (Except.ok.inj hf) (by decide)

/-- The last entry of a variable need not render what the variable holds: the push through `b` shows
in the value of `a` and not in its history. -/
theorem aliased_stale :
    ¬ ∀ (t : TracedFunction) (limit : Option Int) (name : String) (b : Binding),
      (t.execute limit).1.status = .completed →
      (t.execute limit).1.world.scopes.lookup? 0 name = some b →
      ∃ e, b.history.back? = some e ∧
        (t.execute limit).1.world.heap.format b.value = .ok e.text := by
  intro h
  obtain ⟨e, he, hf⟩ := h aliased none "a" aliasedBinding rfl rfl
  exact aliased_format_ne he hf

theorem aliased_normal : aliased.located.Normal where
  body := by
    have hleaf : ∀ {n : Node}, n.NormalLiteral → n.children = [] →
        n.Everywhere Node.NormalLiteral :=
      fun hn hnone => .of hn (hnone ▸ .nil)
    have hname : ∀ name, (Node.identifier .unknown name).Everywhere Node.NormalLiteral :=
      fun _ => hleaf trivial rfl
    have hboolean : ∀ b raw,
        (Node.literal .unknown (.boolean b) raw).Everywhere Node.NormalLiteral :=
      fun b _ => hleaf (Heap.normal_boolean b) rfl
    refine .cons (.of trivial (.cons (.of trivial ?_) .nil)) <|
      .cons (.of trivial (.cons (.of trivial ?_) .nil)) <|
      .cons (.of trivial (.cons (.of trivial ?_) .nil)) .nil
    · exact .cons (hname "a") (.cons (.of trivial (.cons (hboolean true "true") .nil)) .nil)
    · exact .cons (hname "b") (.cons (hname "a") .nil)
    · exact .cons (.of trivial (.cons (hname "b") (.cons (hname "push") .nil)))
        (.cons (hboolean false "false") .nil)
  params := nofun

/-- The push is a change after the last write of `a`, of a sequence that `a` reaches, and its receiver
does not name `a`. -/
theorem execute_fidelity_aliased :
    ∃ w h, (aliased.execute none).1.world.lastWrite? 0 "a" = some w ∧
      ChangedElsewhere (stateAfter (aliased.located.watch none .start)).seen "a" w h
        aliasedBinding.value := by
  obtain ⟨-, e, w, h, he, -, hw, -, -, -, -, -, hfidelity⟩ :=
    execute_fidelity.2 aliased none "a" aliasedBinding rfl rfl
  rcases hfidelity aliased_normal with hf | hchanged
  · exact absurd hf (aliased_format_ne he)
  · exact ⟨w, h, hw, hchanged⟩

end Chronicle
