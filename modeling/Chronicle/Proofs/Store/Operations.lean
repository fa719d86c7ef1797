import Chronicle.Proofs.Evaluation.Lasting
import Chronicle.Proofs.Store.World

/-!
# Sequences of store operations

A program works on its variables by three operations: a scope is extended, a name is defined in a
scope, a name is assigned to.  Between them the sequences and records that values share may change
in any way.  `Operation.made` says which binding an operation writes and with what rendering, and
`World.made` collects these writes over a sequence of operations.

`Recorded w ms`: in `w`, every binding holds the value of the last of its writes `ms`, and its
history is what these writes leave (`entriesOf`): each at the highest step asked for so far.
`Recorded.perform` keeps it through one operation, `recorded_performAll` through a sequence, and
`performAll_histories` reads the histories off it.
-/

set_option autoImplicit false

namespace Chronicle

/-- An operation on the variables of a program. -/
inductive Operation where
  | extend (scope : ScopeId)
  | define (scope : ScopeId) (name : String) (v : Value) (step : Int) (spec : Option ParameterSpec)
  | assign (scope : ScopeId) (name : String) (v : Value) (step : Int)
  /-- Sequences and records change, in whatever way. -/
  | change (heap : Heap)

/-- A write that was made: the step asked for, the value, and its rendering at that time. -/
structure Made where
  step : Int
  value : Value
  text : String

/-! ## Operations and their writes -/

namespace World

/-- The world after an operation, which may have failed. -/
def perform (w : World) : Operation → World
  | .extend scope => { w with scopes := (w.scopes.extend scope).2 }
  | .define scope name v step spec => stateAfter (Effect.define scope name v step spec w)
  | .assign scope name v step => stateAfter (Effect.assign scope name v step none w)
  | .change heap => { w with heap }

/-- The world after operations in order. -/
def performAll (w : World) : List Operation → World
  | [] => w
  | op :: ops => (w.perform op).performAll ops

end World

namespace Operation

/-- The binding that an operation writes: the scope's own when it defines a name, the nearest one
when it assigns to it, and for an unbound name a new one in the root scope or none at all. -/
def target? (w : World) : Operation → Option (ScopeId × String)
  | .define scope name .. => if scope < w.scopes.all.size then some (scope, name) else none
  | .assign scope name .. =>
    match w.scopes.owner? scope name with
    | some i => some (i, name)
    | none =>
      if scope < w.scopes.all.size ∧ w.scopes.isRoot scope then some (scope, name) else none
  | .extend _ | .change _ => none

/-- What an operation writes, rendered in the heap of the moment. -/
def written? (w : World) : Operation → Option Made
  | .define _ _ v step _ | .assign _ _ v step =>
    match w.heap.format v with
    | .ok text => some ⟨step, v, text⟩
    | .error _ => none
  | .extend _ | .change _ => none

/-- The writes that an operation makes to a binding: one or none. -/
def made (op : Operation) (w : World) (id : ScopeId) (name : String) : List Made :=
  if op.target? w = some (id, name) then (op.written? w).toList else []

/-- The value of an operation has a rendering. -/
def Renderable (w : World) : Operation → Prop
  | .define _ _ v .. | .assign _ _ v _ => ∃ text, w.heap.format v = .ok text
  | .extend _ | .change _ => True

theorem made_eq {op : Operation} {w : World} {id : ScopeId} {name : String} {m : Made}
    (ht : op.target? w = some (id, name)) (hm : op.written? w = some m) (i : ScopeId) (n : String) :
    op.made w i n = if i = id ∧ n = name then [m] else [] := by
  unfold made
  rw [ht, hm]
  by_cases hin : i = id ∧ n = name
  · rw [if_pos hin, hin.1, hin.2, if_pos rfl]
    rfl
  · have hne : some (id, name) ≠ some (i, n) := by
      intro he
      cases he
      exact hin ⟨rfl, rfl⟩
    rw [if_neg hin, if_neg hne]

end Operation

namespace World

/-- The writes that operations make to a binding, in order. -/
def made (w : World) (id : ScopeId) (name : String) : List Operation → List Made
  | [] => []
  | op :: ops => op.made w id name ++ (w.perform op).made id name ops

/-- Every value has a rendering when it is written. -/
def Renderable (w : World) : List Operation → Prop
  | [] => True
  | op :: ops => op.Renderable w ∧ (w.perform op).Renderable ops

end World

/-- The highest step that writes ask for. -/
def highest? (ms : List Made) : Option Int :=
  (ms.map Made.step).max?

/-- The history that writes leave: each entry at the highest step asked for so far. -/
def entriesOf (ms : List Made) : List HistoryEntry :=
  ms.mapIdx fun i m => ⟨(highest? (ms.take (i + 1))).getD m.step, m.text⟩

/-! ## Entries -/

theorem highest?_concat (ms : List Made) (m : Made) :
    highest? (ms ++ [m]) = some (((highest? ms).map (max · m.step)).getD m.step) := by
  unfold highest?
  cases ms with
  | nil => rfl
  | cons a ms => simp [List.max?, List.foldl_append]

theorem entriesOf_concat (ms : List Made) (m : Made) :
    entriesOf (ms ++ [m]) =
      entriesOf ms ++ [⟨((highest? ms).map (max · m.step)).getD m.step, m.text⟩] := by
  unfold entriesOf
  rw [List.mapIdx_concat, List.take_of_length_le (by simp), highest?_concat]
  congr 1
  refine List.ext_getElem? fun i => ?_
  rw [List.getElem?_mapIdx, List.getElem?_mapIdx]
  cases hi : ms[i]? with
  | none => rfl
  | some a =>
    have hlt : i + 1 ≤ ms.length := (List.getElem?_eq_some_iff.1 hi).1
    rw [List.take_append_of_le_length hlt]

/-- The last entry stands at the highest step. -/
theorem getLast?_entriesOf (ms : List Made) :
    (entriesOf ms).getLast?.map HistoryEntry.step = highest? ms := by
  rcases List.eq_nil_or_concat ms with rfl | ⟨l, m, rfl⟩
  · rfl
  · rw [List.concat_eq_append, entriesOf_concat, highest?_concat, List.getLast?_concat]
    rfl

/-- A binding whose history writes have left keeps the next one at the highest step. -/
theorem Binding.stamp_of_entriesOf {b : Binding} {ms : List Made}
    (hb : b.history.toList = entriesOf ms) (step : Int) :
    b.stamp step = ((highest? ms).map (max · step)).getD step := by
  have hl : b.lastStep? = highest? ms := by rw [b.lastStep?_eq, hb, getLast?_entriesOf]
  unfold Binding.stamp Binding.isLate
  rw [hl]
  cases highest? ms with
  | none => rfl
  | some last =>
    by_cases h : step < last
    · simp [h]; omega
    · simp [h]; omega

/-! ## What an operation does -/

namespace World

variable {w : World} {op : Operation}

/-- A definition writes the scope's own binding, or adds one; in a scope that is not there it does
nothing. -/
theorem perform_define (scope : ScopeId) (name : String) {v : Value} (step : Int)
    (spec : Option ParameterSpec) {text : String} (ht : w.heap.format v = .ok text) :
    w.perform (.define scope name v step spec) =
      if (w.scopes.own? scope name).isSome then w.write scope name v text step
      else w.add scope name v text step spec := by
  show stateAfter (Effect.define scope name v step spec w) = _
  rw [Effect.define_eq, Effect.writeOwn_eq, ht]
  split <;> rfl

/-- An assignment writes the nearest binding; an unbound name is defined in a scope that none
encloses, and stays unbound in any other. -/
theorem perform_assign (scope : ScopeId) (name : String) {v : Value} (step : Int) {text : String}
    (ht : w.heap.format v = .ok text) :
    w.perform (.assign scope name v step) =
      match w.scopes.owner? scope name with
      | some i => w.write i name v text step
      | none =>
        if w.scopes.isRoot scope then w.perform (.define scope name v step none) else w := by
  show stateAfter (Effect.assign scope name v step none w) = _
  rw [Effect.assign_eq]
  cases w.scopes.owner? scope name with
  | some i =>
    simp only [Effect.writeOwn_eq, ht]
    rfl
  | none =>
    dsimp only
    split <;> rfl

/-- An operation writes a binding that is there, adds one to a scope that is there, or leaves all
bindings as they are. -/
theorem perform_cases (h : op.Renderable w) :
    (∃ id name m, op.target? w = some (id, name) ∧ op.written? w = some m ∧
      (w.scopes.own? id name).isSome ∧ w.perform op = w.write id name m.value m.text m.step) ∨
    (∃ id name m spec, op.target? w = some (id, name) ∧ op.written? w = some m ∧
      w.scopes.own? id name = none ∧ id < w.scopes.all.size ∧
      w.perform op = w.add id name m.value m.text m.step spec) ∨
    op.target? w = none ∧ ∀ i n, (w.perform op).scopes.own? i n = w.scopes.own? i n := by
  cases op with
  | extend scope => exact .inr (.inr ⟨rfl, fun i n => Scopes.own?_extend _ _ _ _⟩)
  | change heap => exact .inr (.inr ⟨rfl, fun _ _ => rfl⟩)
  | define scope name v step spec =>
    obtain ⟨text, ht⟩ := h
    have hw : (Operation.define scope name v step spec).written? w = some ⟨step, v, text⟩ := by
      simp only [Operation.written?, ht]
    have hp := perform_define scope name step spec ht
    by_cases hown : (w.scopes.own? scope name).isSome
    · rw [if_pos hown] at hp
      exact .inl ⟨scope, name, _, if_pos (Scopes.lt_size_of_own? hown), hw, hown, hp⟩
    · rw [if_neg hown] at hp
      rw [Option.not_isSome_iff_eq_none] at hown
      by_cases hlt : scope < w.scopes.all.size
      · exact .inr (.inl ⟨scope, name, _, spec, if_pos hlt, hw, hown, hlt, hp⟩)
      · refine .inr (.inr ⟨if_neg hlt, fun i n => ?_⟩)
        rw [hp]
        exact Scopes.own?_add_of_not_lt _ hlt _ _ _ _
  | assign scope name v step =>
    obtain ⟨text, ht⟩ := h
    have hw : (Operation.assign scope name v step).written? w = some ⟨step, v, text⟩ := by
      simp only [Operation.written?, ht]
    have hp := perform_assign scope name step ht
    have htarget : (Operation.assign scope name v step).target? w =
        match w.scopes.owner? scope name with
        | some i => some (i, name)
        | none =>
          if scope < w.scopes.all.size ∧ w.scopes.isRoot scope then some (scope, name)
          else none := rfl
    cases ho : w.scopes.owner? scope name with
    | some i =>
      simp only [ho] at hp htarget
      exact .inl ⟨i, name, _, htarget, hw, Scopes.own?_of_owner? ho, hp⟩
    | none =>
      have hown := Scopes.own?_of_owner?_eq_none ho
      simp only [ho] at hp htarget
      by_cases hr : w.scopes.isRoot scope
      · rw [if_pos hr, perform_define scope name step none ht, hown] at hp
        by_cases hlt : scope < w.scopes.all.size
        · rw [if_pos ⟨hlt, hr⟩] at htarget
          exact .inr (.inl ⟨scope, name, _, none, htarget, hw, hown, hlt, hp⟩)
        · rw [if_neg fun hc => hlt hc.1] at htarget
          refine .inr (.inr ⟨htarget, fun i n => ?_⟩)
          rw [hp]
          exact Scopes.own?_add_of_not_lt _ hlt _ _ _ _
      · rw [if_neg hr] at hp
        rw [if_neg fun hc => hr hc.2] at htarget
        exact .inr (.inr ⟨htarget, fun i n => by rw [hp]⟩)

end World

/-! ## What operations keep -/

/-- A condition on scopes that every write of a binding keeps, one without a rendering too. -/
structure Scopes.Kept (Q : Scopes → Prop) : Prop where
  push : ∀ {s id name v text step}, Q s → Q (s.modify id name (·.push v text step))
  pushUnrendered : ∀ {s id name v step}, Q s → Q (s.modify id name (·.pushUnrendered v step))
  add : ∀ {s id name v text step spec}, s.own? id name = none → Q s →
    Q (s.add id name (Binding.push { value := v, spec } v text step))

theorem Scopes.Kept.lasting {Q : Scopes → Prop} (hQ : Scopes.Kept Q) (scope : ScopeId)
    (step : Int) : Lasting scope step (fun w => Q w.scopes) fun w => Q w.scopes where
  stop h := h
  note _ h := h
  store _ h := h
  write _ _ h := hQ.push h
  writeUnrendered _ h := hQ.pushUnrendered h
  add hown _ h := hQ.add hown h
  addUnrendered _ h := h

/-- Operations keep what writes keep, failing ones included, when a new scope keeps it. -/
theorem Scopes.Kept.perform {Q : Scopes → Prop} (hQ : Scopes.Kept Q) {w : World} {op : Operation}
    (hextend : ∀ scope, op = .extend scope → Q (w.scopes.extend scope).2) (hw : Q w.scopes) :
    Q (w.perform op).scopes := by
  cases op with
  | extend scope => exact hextend scope rfl
  | define scope name v step spec =>
    exact ((hQ.lasting scope step).keeps_define name v spec).stateAfter hw
  | assign scope name v step =>
    exact (((hQ.lasting scope step).on fun _ => True).keeps_assign trivial v none).stateAfter hw
  | change heap => exact hw

/-! ## Recorded writes -/

/-- Every binding holds the value of its last write, and its history is what its writes have left;
a name without a binding has not been written. -/
structure Recorded (w : World) (ms : ScopeId → String → List Made) : Prop where
  history : ∀ {id name b}, w.scopes.own? id name = some b → b.history.toList = entriesOf (ms id name)
  value : ∀ {id name b}, w.scopes.own? id name = some b →
    (ms id name).getLast?.map Made.value = some b.value
  ordered : ∀ {id name b}, w.scopes.own? id name = some b → b.Ordered
  unwritten : ∀ {id name}, w.scopes.own? id name = none → ms id name = []

namespace Recorded

variable {w : World} {ms : ScopeId → String → List Made}

/-- A write of one binding, of all its entries and of no other. -/
theorem written {w' : World} {ms' : ScopeId → String → List Made} (h : Recorded w ms)
    {id : ScopeId} {name : String} {m : Made} {b : Binding}
    (hb : w'.scopes.own? id name = some b) (hvalue : b.value = m.value) (hordered : b.Ordered)
    (hhistory : b.history.toList = entriesOf (ms id name ++ [m]))
    (hms : ms' id name = ms id name ++ [m])
    (hother : ∀ {i n}, ¬(i = id ∧ n = name) →
      w'.scopes.own? i n = w.scopes.own? i n ∧ ms' i n = ms i n) : Recorded w' ms' := by
  have hcases : ∀ {i n b'}, w'.scopes.own? i n = some b' →
      (i = id ∧ n = name ∧ b' = b) ∨ w.scopes.own? i n = some b' ∧ ms' i n = ms i n := by
    intro i n b' hb'
    by_cases hin : i = id ∧ n = name
    · obtain ⟨rfl, rfl⟩ := hin
      rw [hb] at hb'
      exact .inl ⟨rfl, rfl, (Option.some.inj hb').symm⟩
    · obtain ⟨hown, hms⟩ := hother hin
      exact .inr ⟨hown ▸ hb', hms⟩
  refine ⟨fun hb' => ?_, fun hb' => ?_, fun hb' => ?_, fun {i n} hn => ?_⟩
  · rcases hcases hb' with ⟨rfl, rfl, rfl⟩ | ⟨hown, heq⟩
    · rw [hhistory, hms]
    · rw [heq, h.history hown]
  · rcases hcases hb' with ⟨rfl, rfl, rfl⟩ | ⟨hown, heq⟩
    · rw [hms, List.getLast?_concat, Option.map_some, hvalue]
    · rw [heq, h.value hown]
  · rcases hcases hb' with ⟨rfl, rfl, rfl⟩ | ⟨hown, -⟩
    · exact hordered
    · exact h.ordered hown
  · by_cases hin : i = id ∧ n = name
    · obtain ⟨rfl, rfl⟩ := hin
      rw [hb] at hn
      cases hn
    · obtain ⟨hown, heq⟩ := hother hin
      rw [heq, h.unwritten (hown ▸ hn)]

/-- One operation adds the writes that it makes. -/
theorem perform (h : Recorded w ms) {op : Operation} (hr : op.Renderable w) :
    Recorded (w.perform op) fun id name => ms id name ++ op.made w id name := by
  rcases World.perform_cases hr with
    ⟨id, name, m, ht, hm, hown, hp⟩ | ⟨id, name, m, spec, ht, hm, hown, hlt, hp⟩ | ⟨ht, hown⟩
  · have hmade := Operation.made_eq ht hm
    obtain ⟨b, hb⟩ := Option.isSome_iff_exists.1 hown
    have hb' : (w.perform op).scopes.own? id name = some (b.push m.value m.text m.step) := by
      rw [hp, World.own?_write, if_pos ⟨rfl, rfl⟩, hb]
      rfl
    refine h.written hb' rfl ((h.ordered hb).push _ _ _) ?_ (by rw [hmade, if_pos ⟨rfl, rfl⟩])
      fun hin => ⟨by rw [hp, World.own?_write, if_neg hin], by simp [hmade, hin]⟩
    rw [Binding.history_push, entriesOf_concat, h.history hb,
      Binding.stamp_of_entriesOf (h.history hb)]
  · have hmade := Operation.made_eq ht hm
    have hadd : ∀ i n, (w.perform op).scopes.own? i n =
        if i = id ∧ n = name then some { value := m.value, spec, history := #[⟨m.step, m.text⟩] }
        else w.scopes.own? i n := by
      intro i n
      rw [hp, World.own?_add _ _ _ _ _ _ _ _ _ hlt hown]
    refine h.written ((hadd id name).trans (if_pos ⟨rfl, rfl⟩)) rfl
      (List.pairwise_singleton _ _) ?_ (by rw [hmade, if_pos ⟨rfl, rfl⟩])
      fun hin => ⟨by rw [hadd, if_neg hin], by simp [hmade, hin]⟩
    rw [h.unwritten hown]
    rfl
  · have hms : (fun id name => ms id name ++ op.made w id name) = ms := by
      funext id name
      simp [Operation.made, ht]
    rw [hms]
    exact ⟨fun hb => h.history (hown _ _ ▸ hb), fun hb => h.value (hown _ _ ▸ hb),
      fun hb => h.ordered (hown _ _ ▸ hb), fun hn => h.unwritten (hown _ _ ▸ hn)⟩

/-- Operations add the writes that they make. -/
theorem performAll : ∀ {w : World} {ms : ScopeId → String → List Made} (ops : List Operation),
    Recorded w ms → w.Renderable ops →
      Recorded (w.performAll ops) fun id name => ms id name ++ w.made id name ops
  | w, ms, [], h, _ => by simpa [World.performAll, World.made] using h
  | w, ms, op :: ops, h, hr => by
    have := (h.perform hr.1).performAll ops hr.2
    simpa only [World.performAll, World.made, List.append_assoc] using this

/-- Before any operation nothing is bound and nothing written. -/
theorem empty : Recorded {} fun _ _ => [] := by
  have hroot : ∀ i n, (World.scopes {}).own? i n = none := by
    intro i n
    cases i <;> simp [Scopes.own?, Scopes.scope, Scopes.root]
  exact ⟨fun hb => absurd hb (by simp [hroot]), fun hb => absurd hb (by simp [hroot]),
    fun hb => absurd hb (by simp [hroot]), fun _ => rfl⟩

end Recorded

/-- The law of histories.  After any sequence of operations, a name is bound in a scope if it has
been written there.  Its binding holds the value of its last write; its history lists all its writes
in order, each at the highest step asked for so far and with its rendering of the time; and what it
held at a step is found by going through that list for the last entry up to the step. -/
theorem performAll_histories (ops : List Operation) (h : World.Renderable {} ops) (id : ScopeId)
    (name : String) :
    let w := World.performAll {} ops
    let ms := World.made {} id name ops
    (w.scopes.own? id name = none → ms = []) ∧
    ∀ b, w.scopes.own? id name = some b →
      ms ≠ [] ∧ ms.getLast?.map Made.value = some b.value ∧ b.history.toList = entriesOf ms ∧
      b.history.toList ≠ [] ∧ b.history.toList.Pairwise (fun e f => e.step ≤ f.step) ∧
      ∀ t, b.valueAt t =
        ((entriesOf ms).filter (·.step ≤ t)).getLast?.map HistoryEntry.text := by
  intro w ms
  have hrec : Recorded w fun id name => World.made {} id name ops := by
    simpa only [List.nil_append] using Recorded.empty.performAll ops h
  refine ⟨fun hn => hrec.unwritten hn, fun b hb => ?_⟩
  have hvalue : ms.getLast?.map Made.value = some b.value := hrec.value hb
  have hhistory : b.history.toList = entriesOf ms := hrec.history hb
  have hne : ms ≠ [] := by
    intro hnil
    rw [hnil] at hvalue
    cases hvalue
  refine ⟨hne, hvalue, hhistory, ?_, hrec.ordered hb, fun t => ?_⟩
  · intro hnil
    have hlen := congrArg List.length (hhistory.symm.trans hnil)
    simp [entriesOf, hne] at hlen
  · rw [Binding.valueAt_eq (hrec.ordered hb) t, Binding.upTo, hhistory]

/-- A sequence is shared by a scope and one inside it, written early, late and after a change, and
once under a name that is bound nowhere. -/
def sharedWrites : List Operation := [
  .change { sequences := #[[.text "p"]] },
  .define 0 "a" (.sequence 0) 5 none,
  .extend 0,
  .assign 1 "a" (.text "q") 3,
  .assign 1 "b" .null 4,
  .define 1 "a" (.sequence 0) 2 none,
  .change { sequences := #[[.text "p", .null]] },
  .assign 1 "a" (.sequence 0) 1,
  .assign 0 "a" (.sequence 0) 7]

theorem performAll_histories_shared :
    World.Renderable {} sharedWrites ∧
    (∃ b, (World.performAll {} sharedWrites).scopes.own? 0 "a" = some b ∧
      b.history.toList = [⟨5, "[\"p\"]"⟩, ⟨5, "\"q\""⟩, ⟨7, "[\"p\", null]"⟩] ∧
      b.valueAt 6 = some "\"q\"" ∧ b.valueAt 4 = none) ∧
    (∃ b, (World.performAll {} sharedWrites).scopes.own? 1 "a" = some b ∧
      b.history.toList = [⟨2, "[\"p\"]"⟩, ⟨2, "[\"p\", null]"⟩]) ∧
    World.made {} 1 "b" sharedWrites = [] := by
  have hr : World.Renderable {} sharedWrites :=
    ⟨trivial, ⟨_, rfl⟩, trivial, ⟨_, rfl⟩, ⟨_, rfl⟩, ⟨_, rfl⟩, trivial, ⟨_, rfl⟩, ⟨_, rfl⟩, trivial⟩
  obtain ⟨b, hb⟩ : ∃ b, (World.performAll {} sharedWrites).scopes.own? 0 "a" = some b := ⟨_, rfl⟩
  obtain ⟨c, hc⟩ : ∃ c, (World.performAll {} sharedWrites).scopes.own? 1 "a" = some c := ⟨_, rfl⟩
  obtain ⟨-, -, hbh, -, -, hbt⟩ := (performAll_histories sharedWrites hr 0 "a").2 b hb
  obtain ⟨-, -, hch, -⟩ := (performAll_histories sharedWrites hr 1 "a").2 c hc
  refine ⟨hr, ⟨b, hb, hbh.trans rfl, (hbt 6).trans rfl, (hbt 4).trans rfl⟩,
    ⟨c, hc, hch.trans rfl⟩, (performAll_histories sharedWrites hr 1 "b").1 rfl⟩

end Chronicle
