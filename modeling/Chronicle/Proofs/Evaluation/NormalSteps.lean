import Chronicle.Proofs.Evaluation.Lasting
import Chronicle.Proofs.Evaluation.Watched
import Chronicle.Proofs.Store.World
import Chronicle.Proofs.Value.NormalResults

/-!
# Steps that keep numbers in normal form

A world is normal when all values that names are bound to are.  `KeepsNormal V h e good`: from a
normal state whose heap upholds `h`, the computation `e` ends in a normal state, whose heap upholds
the one it started with; and if `e` gives a result, this is `good` in the heap that it ends with.
The heap `h` is the one in which the values that `e` mentions are known to be normal.

What follows a computation is looked at from the heap that it has left (`KeepsNormal.bind`), where
all values known before are still normal.
-/

set_option autoImplicit false

namespace Chronicle

/-! ## Normal states -/

/-- All values that names are bound to are normal. -/
def World.Normal (w : World) : Prop :=
  ∀ id name b, w.scopes.own? id name = some b → w.heap.Normal b.value

namespace World.Normal

variable {w : World} (hw : w.Normal)
include hw

theorem withHeap {h : Heap} (hh : w.heap.Upholds h) : World.Normal { w with heap := h } :=
  fun id name b hb => hh _ (hw id name b hb)

theorem write {v : Value} (hv : w.heap.Normal v) (id : ScopeId) (name text : String) (step : Int) :
    (w.write id name v text step).Normal := by
  intro i n b hb
  rw [own?_write] at hb
  split at hb
  · obtain ⟨b', -, rfl⟩ := Option.map_eq_some_iff.1 hb
    exact hv
  · exact hw i n b hb

theorem writeUnrendered {v : Value} (hv : w.heap.Normal v) (id : ScopeId) (name : String)
    (step : Int) : (w.writeUnrendered id name v step).Normal := by
  intro i n b hb
  rw [own?_writeUnrendered] at hb
  split at hb
  · obtain ⟨b', hb', rfl⟩ := Option.map_eq_some_iff.1 hb
    unfold Binding.pushUnrendered
    split
    · exact hw i n b' hb'
    · exact hv
  · exact hw i n b hb

theorem add {v : Value} (hv : w.heap.Normal v) {id : ScopeId} {name : String}
    (hown : w.scopes.own? id name = none) (text : String) (step : Int)
    (spec : Option ParameterSpec) : (w.add id name v text step spec).Normal := by
  intro i n b hb
  by_cases hid : id < w.scopes.all.size
  · rw [own?_add _ _ _ _ _ _ _ _ _ hid hown] at hb
    split at hb
    · cases hb
      exact hv
    · exact hw i n b hb
  · have hsame : (w.add id name v text step spec).scopes.own? i n = w.scopes.own? i n :=
      Scopes.own?_add_of_not_lt _ hid ..
    exact hw i n b (hsame ▸ hb)

end World.Normal

/-! ## Computations -/

/-- Where the states of a computation have their heap, and which of them are normal. -/
structure HeapView (σ : Type) where
  heap : σ → Heap
  Normal : σ → Prop

/-- The view of a world. -/
def World.view : HeapView World := ⟨World.heap, World.Normal⟩

section
variable {ε σ α β : Type}

/-- How a computation from a state with the heap `g` ends. -/
def EndsNormal (V : HeapView σ) (g : Heap) (good : Heap → α → Prop) :
    EStateM.Result ε σ α → Prop
  | .ok a s => V.Normal s ∧ g.Upholds (V.heap s) ∧ good (V.heap s) a
  | .error _ s => V.Normal s ∧ g.Upholds (V.heap s)

/-- From normal states whose heap upholds `h`, the computation ends in normal states whose heap
upholds the one before, with a result that is `good` there. -/
def KeepsNormal (V : HeapView σ) (h : Heap) (e : EStateM ε σ α) (good : Heap → α → Prop) : Prop :=
  ∀ s, V.Normal s → h.Upholds (V.heap s) → EndsNormal V (V.heap s) good (e s)

/-- Nothing is said of a result. -/
def anything (_ : Heap) (_ : α) : Prop := True

/-- The result is a number in normal form. -/
def normalNumber (_ : Heap) (n : Number) : Prop := n.IsNormal

/-- The result is a list of normal values. -/
def Heap.NormalAll (h : Heap) (vs : List Value) : Prop := ∀ v ∈ vs, h.Normal v

/-- The result is a list of fields with normal values. -/
def Heap.NormalFields (h : Heap) (fields : Fields) : Prop := ∀ field ∈ fields, h.Normal field.2

theorem Heap.NormalAll.upholds {h h' : Heap} (hh : h.Upholds h') {vs : List Value}
    (hvs : h.NormalAll vs) : h'.NormalAll vs :=
  fun v hv => hh v (hvs v hv)

theorem Heap.NormalFields.upholds {h h' : Heap} (hh : h.Upholds h') {fields : Fields}
    (hf : h.NormalFields fields) : h'.NormalFields fields :=
  fun field hfield => hh _ (hf field hfield)

theorem Heap.NormalAll.cons {h : Heap} {v : Value} {vs : List Value} (hv : h.Normal v)
    (hvs : h.NormalAll vs) : h.NormalAll (v :: vs) := by
  intro u hu
  rcases List.mem_cons.1 hu with rfl | hu
  · exact hv
  · exact hvs u hu

theorem Heap.NormalFields.insert {h : Heap} {fields : Fields} (hf : h.NormalFields fields)
    (name : String) {v : Value} (hv : h.Normal v) : h.NormalFields (fields.insert name v) := by
  intro field hfield
  rcases Fields.mem_insert hfield with he | hfield
  · exact he ▸ hv
  · exact hf field hfield

theorem Heap.NormalFields.update {h : Heap} {others : Fields} (ho : h.NormalFields others) :
    ∀ {fields : Fields}, h.NormalFields fields → h.NormalFields (fields.update others) := by
  unfold Fields.update
  induction others with
  | nil => exact fun hf => hf
  | cons field rest ih =>
    exact fun hf => ih (fun x hx => ho x (List.mem_cons_of_mem field hx))
      (hf.insert field.1 (ho field List.mem_cons_self))

variable {V : HeapView σ} {h : Heap} {good : Heap → α → Prop} {good' : Heap → β → Prop}

theorem EndsNormal.from {g g' : Heap} (hg : g.Upholds g') {r : EStateM.Result ε σ α}
    (hr : EndsNormal V g' good r) : EndsNormal V g good r := by
  cases r with
  | ok a s => exact ⟨hr.1, hg.trans hr.2.1, hr.2.2⟩
  | error x s => exact ⟨hr.1, hg.trans hr.2⟩

namespace KeepsNormal

theorem pure {a : α} (ha : ∀ g, h.Upholds g → good g a) :
    KeepsNormal V h (Pure.pure a : EStateM ε σ α) good :=
  fun _ hs hh => ⟨hs, .refl _, ha _ hh⟩

/-- A value that is known to be normal. -/
theorem value {v : Value} (hv : h.Normal v) :
    KeepsNormal V h (Pure.pure v : EStateM ε σ Value) Heap.Normal :=
  pure fun _ hh => hh v hv

theorem done (a : α) : KeepsNormal V h (Pure.pure a : EStateM ε σ α) anything :=
  pure fun _ _ => trivial

theorem throw (x : ε) : KeepsNormal V h (MonadExcept.throw x : EStateM ε σ α) good :=
  fun _ hs _ => ⟨hs, .refl _⟩

/-- The rest starts from a heap that upholds the one before, with a result that is good there. -/
theorem bind {e : EStateM ε σ α} {f : α → EStateM ε σ β} (he : KeepsNormal V h e good)
    (hf : ∀ a g, h.Upholds g → good g a → KeepsNormal V g (f a) good') :
    KeepsNormal V h (e >>= f) good' := by
  intro s hs hh
  have hr := he s hs hh
  cases hes : e s with
  | ok a s' =>
    rw [hes] at hr
    rw [bind_of_ok hes]
    obtain ⟨hs', hg, ha⟩ := hr
    exact (hf a (V.heap s') (hh.trans hg) ha s' hs' (.refl _)).from hg
  | error x s' =>
    rw [hes] at hr
    rw [bind_of_error hes]
    exact hr

theorem ite {c : Prop} [Decidable c] {e f : EStateM ε σ α} (he : KeepsNormal V h e good)
    (hf : KeepsNormal V h f good) : KeepsNormal V h (if c then e else f) good := by
  by_cases hc : c
  · rw [if_pos hc]
    exact he
  · rw [if_neg hc]
    exact hf

theorem forM {γ : Type} {f : γ → EStateM ε σ PUnit} :
    ∀ {l : List γ} {h : Heap},
      (∀ x ∈ l, ∀ g, h.Upholds g → KeepsNormal V g (f x) anything) →
      KeepsNormal V h (l.forM f) anything
  | [], _, _ => done _
  | x :: _, _, hf =>
    bind (hf x List.mem_cons_self _ (.refl _)) fun _ _ hg _ =>
      forM fun y hy g' hg' => hf y (List.mem_cons_of_mem x hy) g' (hg.trans hg')

theorem mapM {γ : Type} {f : γ → EStateM ε σ α} :
    ∀ {l : List γ} {h : Heap}, (∀ x ∈ l, ∀ g, KeepsNormal V g (f x) good) →
      KeepsNormal V h (l.mapM f) anything
  | [], _, _ => done _
  | x :: l, _, hf => by
    rw [List.mapM_cons]
    exact (hf x List.mem_cons_self _).bind fun _ _ _ _ =>
      (mapM fun y hy => hf y (List.mem_cons_of_mem x hy)).bind fun _ _ _ _ => done _

end KeepsNormal

end

/-! ## Effects -/

namespace KeepsNormal

variable {α β : Type} {h : Heap} {good : Heap → α → Prop} {v : Value}

/-- After reading the world, the rest starts from it. -/
theorem get_bind {f : World → Effect α}
    (hf : ∀ w, w.Normal → h.Upholds w.heap → KeepsNormal World.view w.heap (f w) good) :
    KeepsNormal World.view h (get >>= f) good :=
  fun w hw hh => hf w hw hh w hw (.refl _)

theorem fail (cause : Cause) (location : Option Location) :
    KeepsNormal World.view h (Effect.fail cause location : Effect α) good :=
  throw _

theorem lift {e : Except Stop α} (he : Yields e fun a => ∀ g, h.Upholds g → good g a) :
    KeepsNormal World.view h (Effect.lift e) good := by
  cases e with
  | ok a => exact pure (he a rfl)
  | error x => exact throw x

theorem liftValue {e : Except Stop Value} (he : Yields e h.Normal) :
    KeepsNormal World.view h (Effect.lift e) Heap.Normal :=
  lift fun a ha _ hg => hg a (he a ha)

theorem read {f : Heap → Except Fault α} (hf : ∀ g, Yields (f g) (good g)) :
    KeepsNormal World.view h (Effect.read f) good := by
  intro w hw _
  unfold Effect.read
  rw [Chronicle.get_bind]
  cases hr : f w.heap with
  | ok a => exact ⟨hw, .refl _, hf _ a hr⟩
  | error x => exact ⟨hw, .refl _⟩

theorem readAnything (f : Heap → Except Fault α) :
    KeepsNormal World.view h (Effect.read f) anything :=
  read fun _ _ _ => trivial

theorem note (n : Notice) : KeepsNormal World.view h (Effect.note n) anything :=
  fun _ hw _ => ⟨hw, .refl _, trivial⟩

theorem newSequence {items : List Value} (hitems : h.NormalAll items) :
    KeepsNormal World.view h (Effect.newSequence items) Heap.Normal := by
  intro w hw hh
  have hnew := Heap.newSequence_normal (hitems.upholds hh)
  exact ⟨hw.withHeap hnew.1, hnew.1, hnew.2⟩

theorem newRecord {fields : Fields} (hfields : h.NormalFields fields) :
    KeepsNormal World.view h (Effect.newRecord fields) Heap.Normal := by
  intro w hw hh
  have hnew := Heap.newRecord_normal (hfields.upholds hh)
  exact ⟨hw.withHeap hnew.1, hnew.1, hnew.2⟩

/-- A result that comes with a heap, which takes the place of the current one. -/
theorem set_of_lift {f : World → Except Stop α} {heap : α → Heap} {result : α → β}
    {good' : Heap → β → Prop}
    (hf : ∀ w, h.Upholds w.heap →
      Yields (f w) fun a => w.heap.Upholds (heap a) ∧ good' (heap a) (result a)) :
    KeepsNormal World.view h (do
      let w ← get
      let a ← Effect.lift (f w)
      set { w with heap := heap a }
      return result a) good' := by
  intro w hw hh
  rw [Chronicle.get_bind]
  cases hr : f w with
  | ok a =>
    obtain ⟨hg, ha⟩ := hf w hh a hr
    exact ⟨hw.withHeap hg, hg, ha⟩
  | error x => exact ⟨hw, .refl _⟩

/-! ### Variables -/

section
variable (id : ScopeId) (name : String) (step : Int) (location : Option Location)

theorem writeOwn (hv : h.Normal v) :
    KeepsNormal World.view h (Effect.writeOwn id name v step) anything := by
  intro w hw hh
  rw [Effect.writeOwn_eq]
  cases w.heap.format v with
  | ok text => exact ⟨hw.write (hh v hv) id name text step, .refl _, trivial⟩
  | error f => exact ⟨hw.writeUnrendered (hh v hv) id name step, .refl _⟩

theorem define (hv : h.Normal v) (spec : Option ParameterSpec) :
    KeepsNormal World.view h (Effect.define id name v step spec) anything := by
  intro w hw hh
  rw [Effect.define_eq]
  by_cases hown : (w.scopes.own? id name).isSome
  · rw [if_pos hown]
    exact writeOwn id name step hv w hw hh
  · rw [if_neg hown]
    rw [Option.not_isSome_iff_eq_none] at hown
    cases w.heap.format v with
    | ok text => exact ⟨hw.add (hh v hv) hown text step spec, .refl _, trivial⟩
    | error f => exact ⟨hw, .refl _⟩

theorem assign (hv : h.Normal v) :
    KeepsNormal World.view h (Effect.assign id name v step location) anything := by
  intro w hw hh
  rw [Effect.assign_eq]
  cases w.scopes.owner? id name with
  | some i => exact writeOwn i name step hv w hw hh
  | none =>
    dsimp only
    split
    · exact define id name step hv none w hw hh
    · exact ⟨hw, .refl _⟩

/-- What a name is bound to is normal. -/
theorem valueOf : KeepsNormal World.view h (Effect.valueOf id name location) Heap.Normal := by
  refine get_bind fun w hw _ => ?_
  cases hb : w.scopes.lookup? id name with
  | none => exact fail _ _
  | some b =>
    obtain ⟨i, hi⟩ := Scopes.own?_of_lookup? hb
    exact value (hw i name b hi)

theorem isBound : KeepsNormal World.view h (Effect.isBound id name) anything :=
  get_bind fun _ _ _ => done _

end

/-! ### Single steps -/

theorem recoverOperator (location : Location) {e : Except Stop Value} (he : Yields e h.Normal) :
    KeepsNormal World.view h (Chronicle.recoverOperator location e) Heap.Normal := by
  cases e with
  | ok v => exact value (he v rfl)
  | error x =>
    cases x with
    | error x => exact (note _).bind fun _ _ _ _ => value Heap.normal_undefined
    | fault f => exact throw _

theorem applyBinary (symbol : String) {a b : Value} (ha : h.Normal a) (hb : h.Normal b)
    (location : Location) :
    KeepsNormal World.view h (Chronicle.applyBinary symbol a b location) Heap.Normal :=
  get_bind fun _ _ hh => recoverOperator location (Heap.binary_normal symbol (hh a ha) (hh b hb))

theorem applyUnary (symbol : String) (v : Value) (location : Location) :
    KeepsNormal World.view h (Chronicle.applyUnary symbol v location) Heap.Normal :=
  get_bind fun w _ _ => recoverOperator location (w.heap.unary_normal symbol v)

theorem readProperty {receiver : Value} (hr : h.Normal receiver) (key : Value)
    (location : Location) :
    KeepsNormal World.view h (Chronicle.readProperty receiver key location) Heap.Normal :=
  get_bind fun _ _ hh => liftValue (Heap.getProperty_normal (hh receiver hr) key _)

theorem writeProperty {receiver : Value} (hr : h.Normal receiver) (key : Value)
    (hv : h.Normal v) (location : Location) :
    KeepsNormal World.view h (Chronicle.writeProperty receiver key v location) anything := by
  show KeepsNormal World.view h (do
    let w ← get
    let heap ← Effect.lift (w.heap.setProperty receiver key v (some location))
    set { w with heap }
    return ()) anything
  exact set_of_lift fun w hh heap he =>
    ⟨Heap.setProperty_upholds (hh receiver hr) key (hh v hv) _ heap he, trivial⟩

/-- The number before a step comes from a coercion, the one after it is normalized. -/
theorem updateVariable (scope : ScopeId) (name operator : String) (leading : Bool) (step : Int)
    (location : Location) :
    KeepsNormal World.view h (Chronicle.updateVariable scope name operator leading step location)
      Heap.Normal := by
  refine (valueOf scope name _).bind fun v g _ _ => ?_
  have hcoerced : KeepsNormal World.view g (Effect.read (·.toNumber v)) normalNumber :=
    read fun g => g.toNumber_isNormal v
  refine hcoerced.bind fun old g _ hold => ?_
  have hstepped : KeepsNormal World.view g (Effect.read fun _ => stepNumber operator old)
      normalNumber := read fun _ => stepNumber_isNormal operator old
  refine hstepped.bind fun new _ _ hnew => ?_
  refine (assign scope name step _ (Heap.normal_number.2 hnew)).bind fun _ _ _ _ => value ?_
  cases leading with
  | true => exact Heap.normal_number.2 hnew
  | false => exact Heap.normal_number.2 hold

theorem callGlobal (object method : String) (args : List Value) (location : Location) :
    KeepsNormal World.view h (Chronicle.callGlobal object method args location) Heap.Normal := by
  refine get_bind fun w _ _ => ?_
  have hr : KeepsNormal World.view w.heap
      (Effect.lift (Method.callGlobal w.heap object method args (some location)))
      fun g r => ∀ v, r = .value v → g.Normal v :=
    lift fun r hr _ hg v hv => hg v (Method.callGlobal_normal _ _ _ _ _ r hr v hv)
  refine hr.bind fun r _ _ hv => ?_
  cases r with
  | value v => exact value (hv v rfl)
  | logged line => exact (note _).bind fun _ _ _ _ => value Heap.normal_undefined

theorem invoke {receiver : Value} (hr : h.Normal receiver) {args : List Value}
    (hargs : h.NormalAll args) (method : String) (location : Location) :
    KeepsNormal World.view h (Chronicle.invoke receiver method args location) Heap.Normal :=
  set_of_lift fun _ hh =>
    Method.call_normal (hh receiver hr) (hargs.upholds hh) method (some location)

theorem showCall (scope : ScopeId) (step : Int) (object : Node) (receiver : Value) :
    KeepsNormal World.view h (Chronicle.showCall scope step object receiver) anything := by
  refine ite ?_ (done _)
  unfold showChange
  cases object.sequenceOwner? with
  | none => exact done _
  | some owner =>
    refine (isBound scope owner).bind fun bound _ _ _ => ite ?_ (done _)
    exact (valueOf scope owner none).bind fun v _ _ hv => assign scope owner step none hv

/-! ### Parts of expressions -/

theorem propertyName (property : Node) :
    KeepsNormal World.view h (Chronicle.propertyName property) anything := by
  unfold Chronicle.propertyName
  cases property.name? with
  | none => exact throw _
  | some name => exact done _

theorem plainKey (key : Effect Value) (property : Node) :
    KeepsNormal World.view h (Chronicle.keyOf false key property) Heap.Normal :=
  (propertyName property).bind fun name _ _ _ => value (Heap.normal_text name)

theorem currentOf (operator : String) {current : Effect Value}
    (hc : KeepsNormal World.view h current Heap.Normal) :
    KeepsNormal World.view h (Chronicle.currentOf operator current) Heap.Normal :=
  ite (value Heap.normal_undefined) hc

theorem receiverOf {held : Value} (hv : h.Normal held) :
    KeepsNormal World.view h (Chronicle.receiverOf held) Heap.Normal :=
  ite (newRecord nofun) (value hv)

theorem asksUnbound (scope : ScopeId) (operator : String) (argument : Node) :
    KeepsNormal World.view h (Chronicle.asksUnbound scope operator argument) anything := by
  unfold Chronicle.asksUnbound
  cases argument.name? with
  | none => exact done _
  | some name => exact ite ((isBound scope name).bind fun _ _ _ _ => done _) (done _)

theorem globalReceiver? (scope : ScopeId) (object : Node) :
    KeepsNormal World.view h (Chronicle.globalReceiver? scope object) anything := by
  unfold Chronicle.globalReceiver?
  cases object.name? with
  | none => exact done _
  | some name => exact (isBound scope name).bind fun _ _ _ _ => ite (done _) (done _)

theorem plainFieldName (value : Effect Value) (key : Node) :
    KeepsNormal World.view h (Chronicle.fieldName false value key) anything := by
  unfold Chronicle.fieldName
  cases key with
  | identifier _ name => exact done _
  | literal _ k _ => exact readAnything fun g => g.text k
  | _ => exact fail _ _

end KeepsNormal

end Chronicle
