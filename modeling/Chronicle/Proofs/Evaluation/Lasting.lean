import Chronicle.Proofs.Evaluation.Calm
import Chronicle.Proofs.Method.Stores
import Chronicle.Proofs.Node.Everywhere
import Chronicle.Proofs.Store.Scopes

/-!
# What evaluation keeps

`LastingOn names scope step P E`: the condition `P` on worlds survives everything that evaluation in
`scope` does at `step` as long as it writes variables of `names` only: a report, a store to the
heap, a write of a binding that is there, a new binding of the scope itself, which is no parameter's.
Where a value has no rendering the run stops, and `E` is what is left of `P` then.
`Lasting scope step P E` is the case of all names, and of parameters too.

The variables that an expression writes are the targets of its nodes (`Node.target?`).
`evaluate_keepsOn`: evaluation of an expression whose targets are in `names` keeps such a condition.
What single effects keep that write nothing is said once for all calm conditions (`LastingOn.calm`).
-/

set_option autoImplicit false

namespace Chronicle

open Effect

/-! ## Targets -/

namespace Node

/-- The variable that an assignment to a node writes: the node itself, or the one whose property it
is. -/
def assigned? : Node → Option String
  | .identifier _ name => some name
  | .member _ receiver _ _ => receiver.receiverName?
  | _ => none

/-- The variable that a call of a node may write again: the one that shows its receiver. -/
def called? : Node → Option String
  | .member _ receiver _ false => receiver.sequenceOwner?
  | _ => none

/-- The variable that a node writes by itself, apart from what the nodes below it write. -/
def target? : Node → Option String
  | .declarator _ id _ => id.name?
  | .update _ _ _ argument => argument.name?
  | .assignment _ _ left _ => left.assigned?
  | .returnStatement _ argument => argument.bind name?
  | .call _ callee _ => callee.called?
  | _ => none

/-- A node writes no variable by itself but those of `names`. -/
def WritesOnly (names : String → Prop) (n : Node) : Prop :=
  ∀ name, n.target? = some name → names name

/-- Every node writes variables of some name only. -/
theorem writesOnly_true (n : Node) : n.Everywhere (·.WritesOnly fun _ => True) :=
  everywhere_of_forall (fun _ _ _ => trivial) n

end Node

/-! ## Conditions on worlds -/

/-- A condition on worlds that evaluation in a scope at a step keeps, and what is left of it at a
stop, when all variables that are written are among `names`. -/
structure LastingOn (names : String → Prop) (scope : ScopeId) (step : Int) (P E : World → Prop) :
    Prop where
  stop : ∀ {w}, P w → E w
  note : ∀ {w n}, Notice.isLateWrite n = false → P w → P { w with log := w.log.push n }
  store : ∀ {w h}, w.heap.Evolves h → P w → P { w with heap := h }
  write : ∀ {w id name v text}, names name → (w.scopes.own? id name).isSome →
    w.heap.format v = .ok text → P w → P (w.write id name v text step)
  writeUnrendered : ∀ {w id name v}, names name → (w.scopes.own? id name).isSome → P w →
    E (w.writeUnrendered id name v step)
  add : ∀ {w name v text}, names name → w.scopes.own? scope name = none →
    w.heap.format v = .ok text → P w → P (w.add scope name v text step none)
  addUnrendered : ∀ {w name}, names name → w.scopes.own? scope name = none → P w →
    E (w.addUnrendered scope name step)

/-- A condition on worlds that evaluation in a scope at a step keeps, and what is left of it at a
stop.  It is kept when parameters are bound, too. -/
structure Lasting (scope : ScopeId) (step : Int) (P E : World → Prop) : Prop where
  stop : ∀ {w}, P w → E w
  note : ∀ {w n}, Notice.isLateWrite n = false → P w → P { w with log := w.log.push n }
  store : ∀ {w h}, w.heap.Evolves h → P w → P { w with heap := h }
  write : ∀ {w id name v text}, (w.scopes.own? id name).isSome → w.heap.format v = .ok text →
    P w → P (w.write id name v text step)
  writeUnrendered : ∀ {w id name v}, (w.scopes.own? id name).isSome → P w →
    E (w.writeUnrendered id name v step)
  add : ∀ {w name v text spec}, w.scopes.own? scope name = none → w.heap.format v = .ok text →
    P w → P (w.add scope name v text step spec)
  addUnrendered : ∀ {w name}, w.scopes.own? scope name = none → P w →
    E (w.addUnrendered scope name step)

/-- What lasts whatever is written lasts when only some names are. -/
theorem Lasting.on {scope : ScopeId} {step : Int} {P E : World → Prop} (hP : Lasting scope step P E)
    (names : String → Prop) : LastingOn names scope step P E where
  stop := hP.stop
  note := hP.note
  store := hP.store
  write _ := hP.write
  writeUnrendered _ := hP.writeUnrendered
  add _ := hP.add
  addUnrendered _ := hP.addUnrendered

/-! ## Single effects -/

namespace Effect

variable (id : ScopeId) (name : String) (v : Value) (step : Int) (w : World)

theorem writeOwn_eq :
    writeOwn id name v step w = match w.heap.format v with
      | .ok text => .ok () (w.write id name v text step)
      | .error f => .error (.fault f) (w.writeUnrendered id name v step) := by
  unfold writeOwn
  rw [get_bind]
  cases w.heap.format v <;> rfl

theorem define_eq (spec : Option ParameterSpec) :
    define id name v step spec w =
      if (w.scopes.own? id name).isSome then writeOwn id name v step w
      else match w.heap.format v with
        | .ok text => .ok () (w.add id name v text step spec)
        | .error f => .error (.fault f) (w.addUnrendered id name step) := by
  unfold define
  rw [get_bind]
  by_cases h : (w.scopes.own? id name).isSome
  · rw [if_pos h, if_pos h]
  · rw [if_neg h, if_neg h]
    cases w.heap.format v <;> rfl

theorem assign_eq (location : Option Location) :
    assign id name v step location w = match w.scopes.owner? id name with
      | some i => writeOwn i name v step w
      | none =>
        if w.scopes.isRoot id then define id name v step none w
        else fail (.undefinedVariable name) location w := by
  unfold assign
  rw [get_bind]
  cases w.scopes.owner? id name with
  | some i => rfl
  | none => by_cases h : w.scopes.isRoot id <;> simp only [h] <;> rfl

theorem read_of_ok {α : Type} {f : Heap → Except Fault α} {a : α} (h : f w.heap = .ok a) :
    Effect.read f w = .ok a w := by
  unfold Effect.read
  rw [get_bind, h]
  rfl

theorem valueOf_of_lookup? {b : Binding} (h : w.scopes.lookup? id name = some b)
    (location : Option Location) : valueOf id name location w = .ok b.value w := by
  unfold valueOf
  rw [get_bind, h]
  rfl

/-- The location is that of the error for a name that is not bound. -/
theorem assign_of_isBound (h : w.scopes.isBound id name) (location : Option Location) :
    assign id name v step location w = assign id name v step none w := by
  rw [assign_eq, assign_eq]
  cases ho : w.scopes.owner? id name with
  | some i => rfl
  | none =>
    rw [← Scopes.isSome_owner?, ho] at h
    cases h

end Effect

namespace LastingOn

variable {names : String → Prop} {scope : ScopeId} {step : Int} {P E : World → Prop}
variable (hP : LastingOn names scope step P E)
include hP

/-- What writes nothing keeps a lasting condition: new sequences and records are stores. -/
theorem calm : Calm P E where
  stop := hP.stop
  note := hP.note
  sequence items := hP.store (Heap.evolves_newSequence _ items)
  record fields := hP.store (Heap.evolves_newRecord _ fields)

/-! ### Variables -/

/-- A write of a binding that is there. -/
theorem triple_writeOwn {name : String} (hn : names name) (id : ScopeId) (v : Value) :
    Triple (fun w => P w ∧ (w.scopes.own? id name).isSome) (writeOwn id name v step) (fun _ => P)
      fun _ => E := by
  rintro w ⟨hw, hown⟩
  rw [writeOwn_eq]
  cases hf : w.heap.format v with
  | ok text => exact hP.write hn hown hf hw
  | error f => exact hP.writeUnrendered hn hown hw

theorem keeps_define {name : String} (hn : names name) (v : Value) :
    Keeps P E (define scope name v step none) := by
  intro w hw
  rw [define_eq]
  by_cases hown : (w.scopes.own? scope name).isSome
  · rw [if_pos hown]
    exact hP.triple_writeOwn hn scope v w ⟨hw, hown⟩
  · rw [if_neg hown]
    rw [Option.not_isSome_iff_eq_none] at hown
    cases hf : w.heap.format v with
    | ok text => exact hP.add hn hown hf hw
    | error f => exact hP.addUnrendered hn hown hw

theorem keeps_assign {name : String} (hn : names name) (v : Value) (location : Option Location) :
    Keeps P E (assign scope name v step location) := by
  intro w hw
  rw [assign_eq]
  cases ho : w.scopes.owner? scope name with
  | some i => exact hP.triple_writeOwn hn i v w ⟨hw, Scopes.own?_of_owner? ho⟩
  | none =>
    by_cases hr : w.scopes.isRoot scope
    · simp only [hr, if_true]
      exact hP.keeps_define hn v w hw
    · simp only [hr]
      exact hP.stop hw

/-! ### Single steps -/

/-- A heap that the current one evolves into may take its place. -/
theorem keeps_set_of_lift {α β : Type} {f : World → Except Stop α} {heap : α → Heap}
    {rest : α → Effect β} (hf : ∀ w a, f w = .ok a → w.heap.Evolves (heap a))
    (hr : ∀ a, Keeps P E (rest a)) :
    Keeps P E (do
      let w ← get
      let a ← lift (f w)
      set { w with heap := heap a }
      rest a) := by
  refine keeps_get_bind fun w hw w' hw' => ?_
  subst hw'
  simp only [bind, EStateM.bind]
  cases he : f w' with
  | error x => exact hP.stop hw
  | ok a => exact hr a _ (hP.store (hf w' a he) hw)

theorem keeps_writeProperty (receiver key v : Value) (location : Location) :
    Keeps P E (writeProperty receiver key v location) := by
  show Keeps P E (do
    let w ← get
    let heap ← lift (w.heap.setProperty receiver key v (some location))
    set { w with heap }
    pure ())
  exact hP.keeps_set_of_lift (fun _ _ he => (grows_setProperty he).evolves) fun _ => keeps_pure _

theorem keeps_updateVariable {name : String} (hn : names name) (operator : String) (leading : Bool)
    (location : Location) :
    Keeps P E (updateVariable scope name operator leading step location) :=
  keeps_bind (hP.calm.keeps_valueOf _ _) fun _ =>
    keeps_bind (hP.calm.keeps_read _) fun _ =>
      keeps_bind (hP.calm.keeps_read _) fun _ =>
        keeps_bind (hP.keeps_assign hn _ _) fun _ => keeps_pure _

theorem keeps_showChange {object : Node} (hn : ∀ name, object.sequenceOwner? = some name →
    names name) : Keeps P E (showChange scope step object) := by
  unfold showChange
  cases howner : object.sequenceOwner? with
  | none => exact keeps_pure ()
  | some owner =>
    refine keeps_bind (keeps_isBound owner) fun bound => keeps_ite ?_ (keeps_pure ())
    exact keeps_bind (hP.calm.keeps_valueOf owner none) fun v =>
      hP.keeps_assign (hn owner howner) v none

theorem keeps_callMethod {object : Node} (hn : ∀ name, object.sequenceOwner? = some name →
    names name) (receiver : Value) (method : String) (args : List Value) (location : Location) :
    Keeps P E (callMethod scope object receiver method args step location) := by
  rw [callMethod_eq]
  refine hP.keeps_set_of_lift (fun _ _ he => (grows_call he).evolves) fun result => ?_
  exact keeps_bind (keeps_ite (hP.keeps_showChange hn) (keeps_pure ())) fun _ => keeps_pure _

/-! ### Parts of expressions -/

/-- A call of a function of a global object, or of a method of the receiver. -/
theorem keeps_callOn {object : Node} (hn : ∀ name, object.sequenceOwner? = some name → names name)
    (method : String) (location : Location) {receiver : Effect Value}
    {args : Effect (List Value)} (hr : Keeps P E receiver) (ha : Keeps P E args) :
    Keeps P E (callOn scope step object method location receiver args) := by
  refine keeps_bind (keeps_globalReceiver? object) fun name? => ?_
  cases name? with
  | some name => exact keeps_bind ha fun _ => hP.calm.keeps_callGlobal _ _ _ _
  | none => exact keeps_bind hr fun _ => keeps_bind ha fun _ => hP.keeps_callMethod hn _ _ _ _

end LastingOn

/-- Defining a variable, a parameter too, keeps every condition that lasts whatever is written. -/
theorem Lasting.keeps_define {scope : ScopeId} {step : Int} {P E : World → Prop}
    (hP : Lasting scope step P E) (name : String) (v : Value) (spec : Option ParameterSpec) :
    Keeps P E (Effect.define scope name v step spec) := by
  intro w hw
  rw [Effect.define_eq]
  by_cases hown : (w.scopes.own? scope name).isSome
  · rw [if_pos hown]
    exact (hP.on fun _ => True).triple_writeOwn trivial scope v w ⟨hw, hown⟩
  · rw [if_neg hown]
    rw [Option.not_isSome_iff_eq_none] at hown
    cases hf : w.heap.format v with
    | ok text => exact hP.add hown hf hw
    | error f => exact hP.addUnrendered hown hw

/-! ## Expressions -/

section
variable {names : String → Prop} {scope : ScopeId} {step : Int} {P E : World → Prop}

mutual

/-- Evaluation of an expression that writes `names` only keeps every condition lasting on them. -/
theorem evaluate_keepsOn (hP : LastingOn names scope step P E) :
    ∀ node : Node, node.Everywhere (·.WritesOnly names) → Keeps P E (evaluate scope step node)
  | .literal .., _ => keeps_pure _
  | .identifier .., _ => hP.calm.keeps_valueOf _ _
  | .thisValue .., _ => hP.calm.keeps_valueOf _ _
  | .declarator _ target init, hn => by
    cases target with
    | identifier location name =>
      refine keeps_bind (evaluateOption_keepsOn hP init fun c hc => hn.child ?_) fun v =>
        keeps_bind (hP.keeps_define (hn.here name rfl) v) fun _ => keeps_pure _
      exact List.mem_cons_of_mem _ (Option.mem_toList.2 hc)
    | _ => exact hP.calm.keeps_fail _ _
  | .array _ elements, hn =>
    keeps_bind (evaluateElements_keepsOn hP elements hn.children) fun _ =>
      hP.calm.keeps_newSequence _
  | .object _ properties, hn =>
    keeps_bind (evaluateProperties_keepsOn hP properties hn.children []) fun _ =>
      hP.calm.keeps_newRecord _
  | .new _ callee [], _ => hP.calm.keeps_newRecord _
  | .new _ callee [argument], hn => by
    simp only [evaluate]
    split
    · refine keeps_bind (evaluate_keepsOn hP argument (hn.child (by simp [Node.children])))
        fun _ => keeps_bind (hP.calm.keeps_read _) fun length => ?_
      cases length with
      | some n => exact hP.calm.keeps_newSequence _
      | none => exact hP.calm.keeps_fail _ _
    · exact hP.calm.keeps_fail _ _
  | .new _ callee (_ :: _ :: _), _ => hP.calm.keeps_fail _ _
  | .update _ operator leading argument, hn => by
    cases argument with
    | identifier _ name => exact hP.keeps_updateVariable (hn.here name rfl) _ _ _
    | _ => exact hP.calm.keeps_fail _ _
  | .unary location operator argument, hn => by
    have hargument := evaluate_keepsOn hP argument (hn.child (by simp [Node.children]))
    rw [evaluate_unary]
    exact keeps_bind (keeps_asksUnbound _ _) fun _ => keeps_ite (keeps_pure _) <|
      keeps_bind hargument fun _ => hP.calm.keeps_applyUnary _ _ _
  | .binary _ operator left right, hn => by
    have hleft := evaluate_keepsOn hP left (hn.child (by simp [Node.children]))
    have hright := evaluate_keepsOn hP right (hn.child (by simp [Node.children]))
    exact keeps_bind hleft fun _ => keeps_ite (keeps_pure _) <|
      keeps_bind hright fun _ => hP.calm.keeps_applyBinary _ _ _ _
  | .assignment location operator left right, hn => by
    have hright := evaluate_keepsOn hP right (hn.child (by simp [Node.children]))
    cases left with
    | identifier targetLocation name =>
      rw [evaluate_assign_name]
      refine keeps_bind (keeps_currentOf _ (hP.calm.keeps_valueOf _ _)) fun _ => ?_
      exact keeps_bind (hP.calm.keeps_compound _ _ _ hright) fun _ =>
        keeps_bind (hP.keeps_assign (hn.here name rfl) _ _) fun _ => keeps_pure _
    | member targetLocation object property computed =>
      cases howner : object.receiverName? with
      | none =>
        simp only [evaluate, howner]
        exact hP.calm.keeps_fail _ _
      | some owner =>
        have hmember := hn.child (c := .member targetLocation object property computed)
          (by simp [Node.children])
        have hkey := evaluate_keepsOn hP property (hmember.child (by simp [Node.children]))
        rw [evaluate_assign_member _ _ _ _ _ _ _ _ _ howner]
        refine keeps_bind (hP.calm.keeps_valueOf _ _) fun held => ?_
        refine keeps_bind (hP.calm.keeps_receiverOf held) fun receiver => ?_
        refine keeps_bind (hP.calm.keeps_keyOf hkey property) fun key => ?_
        refine keeps_bind (keeps_currentOf _ (hP.calm.keeps_readProperty _ _ _)) fun _ => ?_
        refine keeps_bind (hP.calm.keeps_compound _ _ _ hright) fun v => ?_
        refine keeps_bind (hP.keeps_writeProperty receiver key v _) fun _ => ?_
        exact keeps_bind (hP.keeps_assign (hn.here owner howner) receiver _) fun _ => keeps_pure v
    | _ => exact hP.calm.keeps_fail _ _
  | .member _ object property computed, hn => by
    have hobject := evaluate_keepsOn hP object (hn.child (by simp [Node.children]))
    have hproperty := evaluate_keepsOn hP property (hn.child (by simp [Node.children]))
    rw [evaluate_member]
    exact keeps_bind hobject fun _ => keeps_bind (hP.calm.keeps_keyOf hproperty property) fun _ =>
      hP.calm.keeps_readProperty _ _ _
  | .call location callee arguments, hn => by
    cases callee with
    | member calleeLocation object property computed =>
      cases computed with
      | true => exact hP.calm.keeps_fail _ _
      | false =>
        have hmember := hn.child (c := .member calleeLocation object property false)
          (by simp [Node.children])
        have hobject := evaluate_keepsOn hP object (hmember.child (by simp [Node.children]))
        have harguments := evaluateAll_keepsOn hP arguments fun c hc =>
          hn.child (List.mem_cons_of_mem _ hc)
        rw [evaluate_call]
        exact keeps_bind (hP.calm.keeps_propertyName _) fun method =>
          keeps_ite (hP.calm.keeps_fail _ _)
            (hP.keeps_callOn hn.here method location hobject harguments)
    | _ => exact hP.calm.keeps_fail _ _
  | .program .., _ | .block .., _ | .functionDeclaration .., _ | .declaration .., _
  | .ifStatement .., _ | .whileStatement .., _ | .forStatement .., _
  | .expressionStatement .., _ | .returnStatement .., _ | .continueStatement .., _
  | .property .., _ | .functionExpression .., _ | .arrowFunction .., _ | .unsupported .., _ =>
    hP.calm.keeps_fail _ _

theorem evaluateOption_keepsOn (hP : LastingOn names scope step P E) :
    ∀ node : Option Node, (∀ n, node = some n → n.Everywhere (·.WritesOnly names)) →
      Keeps P E (evaluateOption scope step node)
  | none, _ => keeps_pure _
  | some node, hn => evaluate_keepsOn hP node (hn node rfl)

theorem evaluateAll_keepsOn (hP : LastingOn names scope step P E) :
    ∀ nodes : List Node, Node.AllEverywhere (·.WritesOnly names) nodes →
      Keeps P E (evaluateAll scope step nodes)
  | [], _ => keeps_pure _
  | node :: rest, hn =>
    keeps_bind (evaluate_keepsOn hP node hn.head) fun _ =>
      keeps_bind (evaluateAll_keepsOn hP rest hn.tail) fun _ => keeps_pure _

theorem evaluateElements_keepsOn (hP : LastingOn names scope step P E) :
    ∀ elements : List (Option Node),
      Node.AllEverywhere (·.WritesOnly names) (elements.flatMap Option.toList) →
      Keeps P E (evaluateElements scope step elements)
  | [], _ => keeps_pure _
  | element :: rest, hn => by
    rw [List.flatMap_cons] at hn
    have helement := evaluateOption_keepsOn hP element fun n he =>
      hn n (List.mem_append_left _ (Option.mem_toList.2 he))
    have hrest := evaluateElements_keepsOn hP rest fun n he => hn n (List.mem_append_right _ he)
    exact keeps_bind helement fun _ => keeps_bind hrest fun _ => keeps_pure _

theorem evaluateProperties_keepsOn (hP : LastingOn names scope step P E) :
    ∀ properties : List Node, Node.AllEverywhere (·.WritesOnly names) properties →
      ∀ fields : Fields, Keeps P E (evaluateProperties scope step fields properties)
  | [], _, _ => keeps_pure _
  | node :: rest, hn, fields => by
    have hrest := evaluateProperties_keepsOn hP rest hn.tail
    by_cases hfield : ∃ l key value computed shorthand,
        node = .property l key (some value) "init" computed shorthand
    · obtain ⟨l, key, value, computed, shorthand, rfl⟩ := hfield
      have hvalue := evaluate_keepsOn hP value (hn.head.child (by simp [Node.children]))
      have hkey := evaluate_keepsOn hP key (hn.head.child (by simp [Node.children]))
      rw [evaluateProperties_cons]
      exact keeps_bind hvalue fun v => keeps_bind (hP.calm.keeps_fieldName hkey key) fun name =>
        hrest _
    · have hskip : ∀ l key value computed shorthand,
          node ≠ .property l key (some value) "init" computed shorthand :=
        fun l k v c s he => hfield ⟨l, k, v, c, s, he⟩
      rw [evaluateProperties_skip _ _ _ _ hskip]
      exact hrest fields

end

end

end Chronicle
