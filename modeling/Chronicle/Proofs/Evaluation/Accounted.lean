import Chronicle.Proofs.Evaluation.Throughout
import Chronicle.Proofs.Store.Resolution

/-!
# Changes that are written back

Sequences and records are shared by reference, while a change is written back to the one variable
that the receiver names (`Node.Names`): a call on a sequence writes it once more, and an assignment
to a property writes it with the receiver.

`Accounts due seen w` keeps the books of this for the variables of the root.  Each of them was
rendered at its last write, in a state that was seen; all stores since, to cells of that state, are
changes that were seen; and a change through a receiver that names a variable is not later than its
last write, save for the names in `due`, whose write is still to come.  Evaluation keeps the books
with nothing due (`accounted_admits`).
-/

set_option autoImplicit false

namespace Chronicle

/-! ## Receivers -/

namespace Node

/-- A node that reads a variable: its name, or `this`. -/
inductive Reads : Node → String → Prop
  | name (location : Location) (name : String) : Reads (.identifier location name) name
  | this (location : Location) : Reads (.thisValue location) thisName

/-- A receiver that names a variable: it reads the variable, or a property of it. -/
inductive Names : Node → String → Prop
  | itself {n : Node} {name : String} (h : n.Reads name) : Names n name
  | property {location : Location} {object key : Node} {computed : Bool} {name : String}
    (h : object.Reads name) : Names (.member location object key computed) name

variable {n : Node} {name : String}

theorem receiverName?_eq_some_iff : n.receiverName? = some name ↔ n.Reads name := by
  constructor
  · intro h
    cases n with
    | identifier location _ =>
      cases h
      exact .name location name
    | thisValue location =>
      cases h
      exact .this location
    | _ => cases h
  · intro h
    cases h <;> rfl

theorem sequenceOwner?_eq_some_iff : n.sequenceOwner? = some name ↔ n.Names name := by
  constructor
  · intro h
    cases n with
    | identifier location _ =>
      cases h
      exact .itself (.name location name)
    | thisValue location =>
      cases h
      exact .itself (.this location)
    | member => exact .property (receiverName?_eq_some_iff.1 h)
    | _ => cases h
  · intro h
    cases h with
    | itself h => cases h <;> rfl
    | property h => exact receiverName?_eq_some_iff.2 h

/-- A receiver names one variable at most. -/
theorem Names.unique {name' : String} (h : n.Names name) (h' : n.Names name') : name = name' :=
  Option.some.inj ((sequenceOwner?_eq_some_iff.2 h).symm.trans (sequenceOwner?_eq_some_iff.2 h'))

end Node

/-! ## Changes -/

/-- The heap of what is seen. -/
abbrev Sight.heap (x : Sight) : Heap := x.state.world.heap

/-- A cell that was there before a change was stored to by it. -/
structure Sight.Changed (x : Sight) (c : Change) (cell : Cell) : Prop where
  stored : cell ∈ x.heap.storesFrom c.before.stores.size
  old : cell ∈ c.before.cells

/-- A cell was stored to by a change that was seen and began after `n` stores. -/
def ChangedSince (seen : Array Sight) (n : Nat) (cell : Cell) : Prop :=
  ∃ x ∈ seen, ∃ c, x.change? = some c ∧ n ≤ c.before.stores.size ∧ x.Changed c cell

theorem ChangedSince.mono {seen seen' : Array Sight} {n n' : Nat} {cell : Cell}
    (h : ChangedSince seen n cell) (hseen : ∀ x ∈ seen, x ∈ seen') (hn : n' ≤ n) :
    ChangedSince seen' n' cell := by
  obtain ⟨x, hx, c, hc, hle, hcell⟩ := h
  exact ⟨x, hseen x hx, c, hc, Nat.le_trans hn hle, hcell⟩

theorem Heap.Evolves.size_le {h h' : Heap} (he : h.Evolves h') :
    h.stores.size ≤ h'.stores.size := by
  obtain ⟨cells, hcells⟩ := he.stores
  have hlength := congrArg List.length hcells
  simp only [List.length_append, Array.length_toList] at hlength
  omega

theorem Heap.not_mem_storesFrom_size (h : Heap) (cell : Cell) : cell ∉ h.storesFrom h.stores.size := by
  have hnone : h.storesFrom h.stores.size = [] := List.drop_eq_nil_of_le (by simp)
  rw [hnone]
  exact List.not_mem_nil

/-- There is a store after those up to `n`, so there are more than `n`. -/
theorem Heap.lt_of_mem_storesFrom {h : Heap} {n : Nat} {cell : Cell} (hc : cell ∈ h.storesFrom n) :
    n < h.stores.size := by
  have hpos := List.length_pos_of_mem hc
  simp only [Heap.storesFrom, List.length_drop, Array.length_toList] at hpos
  omega

/-! ## Last writes -/

/-- The last write of a scope's own binding. -/
def World.lastWrite? (w : World) (id : ScopeId) (name : String) : Option Write :=
  (w.journal.toList.filter fun r => r.scope = id ∧ r.name = name).getLast?

theorem World.lastWrite?_journalWith {w w' : World} {id : ScopeId} {name : String} {step : Int}
    {text : Option String} (h : w'.journal = w.journalWith id name step text) (i : ScopeId)
    (n : String) :
    w'.lastWrite? i n =
      if i = id ∧ n = name then some ⟨id, name, step, text, w.heap.stores.size⟩
      else w.lastWrite? i n := by
  unfold World.lastWrite?
  rw [h, World.journalWith, Array.toList_push, List.filter_append]
  by_cases hin : i = id ∧ n = name
  · obtain ⟨rfl, rfl⟩ := hin
    simp
  · have hni : ¬(id = i ∧ name = n) := fun hc => hin ⟨hc.1.symm, hc.2.symm⟩
    simp [hin, hni]

/-- From one world to another, the root's binding of a name was written, and the last entry of its
history renders its value. -/
def World.Wrote (w : World) (name : String) (w' : World) : Prop :=
  ∃ b e step, w.Sets 0 name b w' ∧ w'.journal = w.journalWith 0 name step (some e.text) ∧
    w.heap.format b.value = .ok e.text ∧ b.history.back? = some e

namespace Effect

variable {w w' : World}

theorem ok_of_lift {α : Type} {r : Except Stop α} {a : α} (he : lift r w = .ok a w') :
    r = .ok a ∧ w' = w := by
  cases r with
  | ok b =>
    cases he
    exact ⟨rfl, rfl⟩
  | error x => cases he

theorem eq_of_read {α : Type} {f : Heap → Except Fault α} {a : α}
    (he : read f w = .ok a w') : w' = w := by
  unfold read at he
  rw [get_bind] at he
  cases hf : f w.heap with
  | ok b =>
    rw [hf] at he
    cases he
    rfl
  | error x =>
    rw [hf] at he
    cases he

theorem eq_of_valueOf {id : ScopeId} {name : String} {location : Option Location} {v : Value}
    (he : valueOf id name location w = .ok v w') : w' = w := by
  unfold valueOf at he
  rw [get_bind] at he
  cases hb : w.scopes.lookup? id name with
  | some b =>
    rw [hb] at he
    cases he
    rfl
  | none =>
    rw [hb] at he
    cases he

end Effect

section
variable {w w' : World} {name : String} {v : Value} {step : Int} {location : Option Location}

theorem wrote_of_writeOwn (hown : (w.scopes.own? 0 name).isSome)
    (he : Effect.writeOwn 0 name v step w = .ok () w') : w.Wrote name w' := by
  obtain ⟨b, hb⟩ := Option.isSome_iff_exists.1 hown
  rw [Effect.writeOwn_eq] at he
  cases hf : w.heap.format v with
  | ok text =>
    rw [hf] at he
    cases he
    exact ⟨b.push v text step, ⟨_, text⟩, step, World.sets_write hb, rfl, hf, Array.back?_push⟩
  | error f =>
    rw [hf] at he
    cases he

theorem wrote_of_define (hroot : 0 < w.scopes.all.size) {spec : Option ParameterSpec}
    (he : Effect.define 0 name v step spec w = .ok () w') : w.Wrote name w' := by
  rw [Effect.define_eq] at he
  by_cases hown : (w.scopes.own? 0 name).isSome
  · rw [if_pos hown] at he
    exact wrote_of_writeOwn hown he
  · rw [if_neg hown] at he
    rw [Option.not_isSome_iff_eq_none] at hown
    cases hf : w.heap.format v with
    | ok text =>
      rw [hf] at he
      cases he
      exact ⟨_, ⟨step, text⟩, step, World.sets_add hroot hown spec, rfl, hf, rfl⟩
    | error f =>
      rw [hf] at he
      cases he

theorem wrote_of_assign (hroot : 0 < w.scopes.all.size) (hchain : w.scopes.chain 0 = [0])
    (he : Effect.assign 0 name v step location w = .ok () w') : w.Wrote name w' := by
  rw [Effect.assign_eq] at he
  cases ho : w.scopes.owner? 0 name with
  | some i =>
    rw [ho] at he
    have hmem : i ∈ w.scopes.chain 0 := List.mem_of_find?_eq_some ho
    rw [hchain, List.mem_singleton] at hmem
    subst hmem
    exact wrote_of_writeOwn (Scopes.own?_of_owner? ho) he
  | none =>
    rw [ho] at he
    by_cases hr : w.scopes.isRoot 0
    · simp only [hr, if_true] at he
      exact wrote_of_define hroot he
    · simp only [hr] at he
      cases he

theorem wrote_of_updateVariable (hroot : 0 < w.scopes.all.size) (hchain : w.scopes.chain 0 = [0])
    {operator : String} {leading : Bool} {location : Location} {u : Value}
    (he : updateVariable 0 name operator leading step location w = .ok u w') : w.Wrote name w' := by
  unfold updateVariable at he
  obtain ⟨v, w₁, hv, h₁⟩ := ok_of_bind he
  obtain ⟨old, w₂, hold, h₂⟩ := ok_of_bind h₁
  obtain ⟨new, w₃, hnew, h₃⟩ := ok_of_bind h₂
  obtain ⟨_, w₄, hassign, h₄⟩ := ok_of_bind h₃
  -- the world is still the one it was when the variable is written, and is left as it is then
  obtain rfl := Effect.eq_of_valueOf hv
  obtain rfl := Effect.eq_of_read hold
  obtain rfl := Effect.eq_of_read hnew
  cases h₄
  exact wrote_of_assign hroot hchain hassign

/-- A change that is shown has written the variable that the receiver names, if it is bound. -/
theorem showCall_cases (hroot : 0 < w.scopes.all.size) (hchain : w.scopes.chain 0 = [0])
    {object : Node} {receiver : Value} (he : showCall 0 step object receiver w = .ok () w') :
    (∃ name, object.Names name ∧ w.Wrote name w') ∨
      w' = w ∧ (receiver.kind = .sequence → ∀ name, object.Names name →
        w.scopes.own? 0 name = none) := by
  unfold showCall at he
  by_cases hkind : receiver.kind = .sequence
  · rw [if_pos (beq_iff_eq.2 hkind)] at he
    unfold showChange at he
    cases howner : object.sequenceOwner? with
    | none =>
      rw [howner] at he
      cases he
      refine .inr ⟨rfl, fun _ name hname => ?_⟩
      rw [Node.sequenceOwner?_eq_some_iff.2 hname] at howner
      cases howner
    | some owner =>
      rw [howner] at he
      have hnames : object.Names owner := Node.sequenceOwner?_eq_some_iff.1 howner
      obtain ⟨bound, w₁, hbound, he⟩ := ok_of_bind he
      cases hbound
      by_cases hb : w.scopes.isBound 0 owner
      · rw [if_pos hb] at he
        obtain ⟨v, w₂, hv, hassign⟩ := ok_of_bind he
        obtain rfl := Effect.eq_of_valueOf hv
        exact .inl ⟨owner, hnames, wrote_of_assign hroot hchain hassign⟩
      · rw [if_neg hb] at he
        cases he
        refine .inr ⟨rfl, fun _ name hname => ?_⟩
        obtain rfl := hname.unique hnames
        rw [← Scopes.lookup?_of_chain hchain]
        exact Option.not_isSome_iff_eq_none.1 hb
  · rw [if_neg fun h => hkind (beq_iff_eq.1 h)] at he
    cases he
    exact .inr ⟨rfl, fun h => absurd h hkind⟩

end

/-! ## The books -/

/-- The binding of a variable is that of a state that was seen, where its last write rendered it, and
all stores since to cells of that state are changes that were seen. -/
structure Rendered (seen : Array Sight) (w : World) (name : String) (b : Binding) (x : Sight)
    (e : HistoryEntry) (r : Write) : Prop where
  mem : x ∈ seen
  bound : x.state.world.scopes.own? 0 name = some b
  grows : x.heap.Grows w.heap
  since : ∀ cell ∈ w.heap.storesFrom x.heap.stores.size, cell ∈ x.heap.cells →
    ChangedSince seen x.heap.stores.size cell
  format : x.heap.format b.value = .ok e.text
  entry : b.history.back? = some e
  write : w.lastWrite? 0 name = some r
  text : r.text = some e.text
  stores : r.stores = x.heap.stores.size

/-- Every variable of the root was rendered at its last write, and no change through a receiver that
names it is later than that, unless the write of this change is due. -/
structure Accounts (due : String → Prop) (seen : Array Sight) (w : World) : Prop where
  root : 0 < w.scopes.all.size
  chain : w.scopes.chain 0 = [0]
  past : ∀ x ∈ seen, x.heap.stores.size ≤ w.heap.stores.size
  written : ∀ name b, ¬ due name → w.scopes.own? 0 name = some b →
    ∀ x ∈ seen, ∀ c, x.change? = some c → c.receiver.Names name → ∀ cell, x.Changed c cell →
      ∃ r, w.lastWrite? 0 name = some r ∧ x.heap.stores.size ≤ r.stores
  rendered : ∀ name b, w.scopes.own? 0 name = some b → ∃ x e r, Rendered seen w name b x e r

/-- No write is due. -/
def nothingDue : String → Prop := fun _ => False

section
variable {due due' : String → Prop} {seen seen' : Array Sight} {w w' : World} {name : String}

/-- A rendering at the last write stays one as long as the name is not written, and stores go to new
cells or are changes that are seen. -/
theorem Rendered.step {b : Binding} {x : Sight} {e : HistoryEntry} {r : Write}
    (h : Rendered seen w name b x e r) (hseen : ∀ y ∈ seen, y ∈ seen')
    (hgrows : w.heap.Grows w'.heap)
    (hstores : ∀ cell ∈ w'.heap.storesFrom w.heap.stores.size, cell ∈ w.heap.cells →
      ChangedSince seen' w.heap.stores.size cell)
    (hlast : w'.lastWrite? 0 name = w.lastWrite? 0 name) : Rendered seen' w' name b x e r := by
  refine { h with
    mem := hseen x h.mem, grows := h.grows.trans hgrows, since := fun cell hcell hold => ?_
    write := hlast.trans h.write }
  rw [h.grows.evolves.storesFrom_eq hgrows.evolves, List.mem_append] at hcell
  rcases hcell with hcell | hcell
  · exact (h.since cell hcell hold).mono hseen (Nat.le_refl _)
  · exact (hstores cell hcell (h.grows.cells hold)).mono (fun _ hy => hy) h.grows.evolves.size_le

namespace Accounts

variable (h : Accounts due seen w)
include h

theorem mono (hdue : ∀ n, due n → due' n) : Accounts due' seen w :=
  { h with written := fun n b hn => h.written n b fun hd => hn (hdue n hd) }

/-- Names that are not bound are owed no write. -/
theorem settle (hdue : ∀ n, due n → w.scopes.own? 0 n = none) : Accounts nothingDue seen w := by
  refine { h with written := fun n b _ hb => h.written n b (fun hd => ?_) hb }
  rw [hdue n hd] at hb
  cases hb

theorem note (n : Notice) : Accounts due seen { w with log := w.log.push n } where
  root := h.root
  chain := h.chain
  past := h.past
  written := h.written
  rendered name b hb := by
    obtain ⟨x, e, r, hr⟩ := h.rendered name b hb
    exact ⟨x, e, r, { hr with }⟩

/-- New sequences and records are no changes. -/
theorem extend {heap : Heap} (he : w.heap.Extends heap) :
    Accounts due seen { w with heap } where
  root := h.root
  chain := h.chain
  past x hx := Nat.le_trans (h.past x hx) he.evolves.size_le
  written := h.written
  rendered name b hb := by
    obtain ⟨x, e, r, hr⟩ := h.rendered name b hb
    exact ⟨x, e, r, hr.step (fun _ hy => hy) he.grows
      (fun cell hcell hold => absurd hold (he.fresh cell hcell)) rfl⟩

omit h in
theorem calm : Calm (Accounts due seen) fun _ => True where
  stop _ := trivial
  note _ h := h.note _
  sequence _ h := h.extend (Heap.extends_newSequence _ _)
  record _ h := h.extend (Heap.extends_newRecord _ _)

/-- The present state is seen once more. -/
theorem see {s : RunState} (hs : s.world = w) (value? : Option Value) :
    Accounts due (seen.push ⟨s, value?, none⟩) w where
  root := h.root
  chain := h.chain
  past x hx := by
    rcases Array.mem_push.1 hx with hx | rfl
    · exact h.past x hx
    · exact hs ▸ Nat.le_refl _
  written n b hn hb x hx c hc := by
    rcases Array.mem_push.1 hx with hx | rfl
    · exact h.written n b hn hb x hx c hc
    · cases hc
  rendered n b hb := by
    obtain ⟨x, e, r, hr⟩ := h.rendered n b hb
    exact ⟨x, e, r, hr.step (fun _ hy => Array.mem_push_of_mem _ hy) (.refl _)
      (fun cell hcell => absurd hcell (w.heap.not_mem_storesFrom_size cell)) rfl⟩

/-- A change is seen.  If it stores to cells that were there, a write of the variable that its
receiver names is due. -/
theorem change {heap : Heap} (hg : w.heap.Grows heap) {s : RunState}
    (hs : s.world = { w with heap }) {receiver : Node}
    (hdue : ∀ n, receiver.Names n → w.heap.Extends heap ∨ due n) :
    Accounts due (seen.push ⟨s, none, some ⟨receiver, w.heap⟩⟩) { w with heap } where
  root := h.root
  chain := h.chain
  past x hx := by
    rcases Array.mem_push.1 hx with hx | rfl
    · exact Nat.le_trans (h.past x hx) hg.evolves.size_le
    · exact hs ▸ Nat.le_refl _
  written n b hn hb x hx c hc hnames cell hcell := by
    rcases Array.mem_push.1 hx with hx | rfl
    · exact h.written n b hn hb x hx c hc hnames cell hcell
    · cases hc
      rcases hdue n hnames with he | hd
      · have hstored := hcell.stored
        rw [Sight.heap, hs] at hstored
        exact absurd hcell.old (he.fresh cell hstored)
      · exact absurd hd hn
  rendered n b hb := by
    obtain ⟨x, e, r, hr⟩ := h.rendered n b hb
    refine ⟨x, e, r, hr.step (fun _ hy => Array.mem_push_of_mem _ hy) hg (fun cell hcell hold => ?_)
      rfl⟩
    refine ⟨_, Array.mem_push_self, _, rfl, Nat.le_refl _, ?_, hold⟩
    rw [Sight.heap, hs]
    exact hcell

/-- A variable is written, which is seen.  It is owed no write any more. -/
theorem write (hw : w.Wrote name w') {s : RunState} (hs : s.world = w') :
    Accounts (fun n => due n ∧ n ≠ name) (seen.push ⟨s, none, none⟩) w' := by
  obtain ⟨b', e, step, hsets, hjournal, hformat, hentry⟩ := hw
  have hlast := World.lastWrite?_journalWith hjournal 0
  have hheap : ({ state := s : Sight }).heap = w.heap := by rw [Sight.heap, hs, hsets.heap]
  refine ⟨hsets.size ▸ h.root, (hsets.chain 0).trans h.chain, fun x hx => ?_,
    fun n b hn hb x hx c hc hnames cell hcell => ?_, fun n b hb => ?_⟩
  · rw [hsets.heap]
    rcases Array.mem_push.1 hx with hx | rfl
    · exact h.past x hx
    · exact hheap ▸ Nat.le_refl _
  · rcases Array.mem_push.1 hx with hx | rfl
    · rw [hlast]
      by_cases hname : n = name
      · rw [if_pos ⟨rfl, hname⟩]
        exact ⟨_, rfl, h.past x hx⟩
      · rw [if_neg fun hc => hname hc.2]
        rw [hsets.elsewhere 0 n fun hc => hname hc.2] at hb
        exact h.written n b (fun hd => hn ⟨hd, hname⟩) hb x hx c hc hnames cell hcell
    · cases hc
  · by_cases hname : n = name
    · subst hname
      obtain rfl : b = b' := Option.some.inj (hb.symm.trans hsets.here)
      refine ⟨{ state := s }, e, ⟨0, n, step, some e.text, w.heap.stores.size⟩, ?_⟩
      exact {
        mem := Array.mem_push_self
        bound := hs ▸ hb
        grows := by rw [hheap, hsets.heap]; exact .refl _
        since := fun cell hcell => by
          rw [hheap, hsets.heap] at hcell
          exact absurd hcell (w.heap.not_mem_storesFrom_size cell)
        format := by rw [hheap]; exact hformat
        entry := hentry
        write := by rw [hlast, if_pos ⟨rfl, rfl⟩]
        text := rfl
        stores := by rw [hheap] }
    · rw [hsets.elsewhere 0 n fun hc => hname hc.2] at hb
      obtain ⟨x, e, r, hr⟩ := h.rendered n b hb
      refine ⟨x, e, r, hr.step (fun _ hy => Array.mem_push_of_mem _ hy) (hsets.heap ▸ .refl _)
        (fun cell hcell => ?_) ?_⟩
      · rw [hsets.heap] at hcell
        exact absurd hcell (w.heap.not_mem_storesFrom_size cell)
      · rw [hlast, if_neg fun hc => hname hc.2]

end Accounts

end

/-! ## Evaluation -/

/-- The books of a watched run. -/
def Watched.Accounted (due : String → Prop) (w : Watched) : Prop :=
  Accounts due w.seen w.state.world

section
variable {α : Type} {due due' : String → Prop}

/-- An effect with its end seen. -/
theorem triple_accounted {e : Effect α}
    (he : ∀ {seen : Array Sight} {w w' : World} {a : α}, Accounts due seen w → e w = .ok a w' →
      ∀ s : RunState, s.world = w' → Accounts due' (seen.push ⟨s, none, none⟩) w') :
    Triple (Watched.Accounted due) (Watch.effect e) (fun _ => Watched.Accounted due')
      fun _ _ => True := by
  intro w hw
  unfold Watch.effect Watch.look Walk.act
  cases hr : e w.state.world with
  | ok a w' => exact he hw hr _ rfl
  | error x w' => trivial

/-- A change with its end seen. -/
theorem triple_change {receiver : Node} {e : Effect α}
    (he : ∀ {w w' : World} {a : α}, e w = .ok a w' → ∃ heap, w' = { w with heap } ∧
      w.heap.Grows heap ∧ ∀ n, receiver.Names n → w.heap.Extends heap ∨ due n) :
    Triple (Watched.Accounted nothingDue) (Watch.change receiver e)
      (fun _ => Watched.Accounted due) fun _ _ => True := by
  intro w hw
  unfold Watch.change Watch.look Walk.act
  cases hr : e w.state.world with
  | ok a w' =>
    obtain ⟨heap, rfl, hg, hdue⟩ := he hr
    exact (Accounts.mono hw fun _ => False.elim).change hg rfl hdue
  | error x w' => trivial

/-- The effect of a write with its end seen. -/
theorem triple_wrote {name : String} {e : Effect α} (hdue : ∀ n, due n → n = name)
    (he : ∀ {w w' : World} {a : α}, 0 < w.scopes.all.size → w.scopes.chain 0 = [0] →
      e w = .ok a w' → w.Wrote name w') :
    Triple (Watched.Accounted due) (Watch.effect e) (fun _ => Watched.Accounted nothingDue)
      fun _ _ => True :=
  triple_accounted fun h hr _ hs =>
    (h.write (he h.root h.chain hr) hs).mono fun n hn => hn.2 (hdue n hn.1)

/-- A method stores to the sequence that it is called on, whose variable is then owed a write. -/
theorem invoke_accounted (object : Node) (receiver : Value) (method : String) (args : List Value)
    (location : Location) :
    Triple (Watched.Accounted nothingDue)
      (Watch.change object (invoke receiver method args location))
      (fun _ => Watched.Accounted fun n => receiver.kind = .sequence ∧ object.Names n)
      fun _ _ => True := by
  refine triple_change fun {w w' a} he => ?_
  obtain ⟨_, _, hget, he⟩ := ok_of_bind he
  cases hget
  obtain ⟨r, _, hcall, he⟩ := ok_of_bind he
  obtain ⟨hr, rfl⟩ := Effect.ok_of_lift hcall
  cases he
  refine ⟨r.2, rfl, grows_call hr, fun n hn => ?_⟩
  rcases call_stores hr with hextends | ⟨hkind, -⟩
  · exact .inl hextends
  · exact .inr ⟨hkind, hn⟩

theorem showCall_accounted (step : Int) (object : Node) (receiver : Value) :
    Triple (Watched.Accounted fun n => receiver.kind = .sequence ∧ object.Names n)
      (Watch.effect (showCall 0 step object receiver)) (fun _ => Watched.Accounted nothingDue)
      fun _ _ => True := by
  refine triple_accounted fun {seen w w' _} h he s hs => ?_
  rcases showCall_cases h.root h.chain he with ⟨name, hname, hwrote⟩ | ⟨rfl, hnone⟩
  · exact (h.write hwrote hs).mono fun n hn => hn.2 (hn.1.2.unique hname)
  · exact (h.settle fun n hn => hnone hn.1 n hn.2).see hs none

theorem writeProperty_accounted (object : Node) (receiver key v : Value) (location : Location) :
    Triple (Watched.Accounted nothingDue)
      (Watch.change object (writeProperty receiver key v location))
      (fun _ => Watched.Accounted object.Names) fun _ _ => True := by
  refine triple_change fun {w w' a} he => ?_
  obtain ⟨_, _, hget, he⟩ := ok_of_bind he
  cases hget
  obtain ⟨heap, _, hset, he⟩ := ok_of_bind he
  obtain ⟨hr, rfl⟩ := Effect.ok_of_lift hset
  cases he
  exact ⟨heap, rfl, grows_setProperty hr, fun n hn => .inr hn⟩

end

/-- Evaluation in the root writes every change back that it makes through a receiver that names a
variable. -/
theorem accounted_admits (step : Int) :
    Admits 0 step (Watched.Accounted nothingDue) fun _ => True where
  stop _ _ := trivial
  given _ v h := Accounts.see h rfl (some v)
  calm {α e} he := triple_accounted fun {seen w w' a} h hr s hs => by
    have hkept := he _ _ Accounts.calm w h
    rw [hr] at hkept
    exact hkept.see hs none
  define name v := triple_wrote (fun _ hn => hn.elim) fun hroot _ he =>
    wrote_of_define hroot he
  assign name v location := triple_wrote (fun _ hn => hn.elim) fun hroot hchain he =>
    wrote_of_assign hroot hchain he
  update name operator leading location :=
    triple_wrote (fun _ hn => hn.elim) fun hroot hchain he =>
      wrote_of_updateVariable hroot hchain he
  callMethod object receiver method args location :=
    (invoke_accounted object receiver method args location).bind fun v =>
      (showCall_accounted step object receiver).bind fun _ => keeps_pure v
  writeMember {object owner} howner receiver key v location := by
    have hnames : object.Names owner := .itself (Node.receiverName?_eq_some_iff.1 howner)
    refine (writeProperty_accounted object receiver key v location).bind fun _ => ?_
    refine Triple.bind (triple_wrote (fun n hn => hn.unique hnames) fun hroot hchain he =>
      wrote_of_assign hroot hchain he) fun _ => keeps_pure v

end Chronicle
