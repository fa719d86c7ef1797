import Chronicle.Proofs.Abreast
import Chronicle.Proofs.Evaluation.Above
import Chronicle.Proofs.Evaluation.Parts
import Chronicle.Proofs.Node.Everywhere
import Chronicle.Proofs.Store.Scopes

/-!
# Expressions in two worlds

`World.Alike below w w'`: the heap of `w'` lies above `below` as that of `w` lies above nothing, and
both worlds bind the same names, in scopes of the same shape, to the same values up to that move.
`Parallel below scope step step' W` says that a relation `W` between such worlds is kept by all that
evaluation does to both of them: by notices, stores and writes, stamped `step` in one and `step'` in
the other.

`evaluate_abreast` carries `W` through every expression: what evaluation does depends on the values
that names hold, and on nothing else that a world keeps.
-/

set_option autoImplicit false

namespace Chronicle

open Effect

/-- Two worlds with the same values in the same scopes, the second above `below`. -/
structure World.Alike (below : Heap) (w w' : World) : Prop where
  heap : below.Above w.heap w'.heap
  size : w'.scopes.all.size = w.scopes.all.size
  chain : ∀ i, w'.scopes.chain i = w.scopes.chain i
  value : ∀ i n, (w'.scopes.own? i n).map Binding.value =
    (w.scopes.own? i n).map fun b => below.shiftValue b.value

namespace World.Alike

variable {below : Heap} {w w' : World} (h : w.Alike below w')
include h

theorem isSome_own? (i : ScopeId) (n : String) :
    (w'.scopes.own? i n).isSome = (w.scopes.own? i n).isSome := by
  have hv := congrArg Option.isSome (h.value i n)
  rwa [Option.isSome_map, Option.isSome_map] at hv

theorem owner? (id : ScopeId) (n : String) : w'.scopes.owner? id n = w.scopes.owner? id n := by
  unfold Scopes.owner?
  simp only [h.chain, h.isSome_own?]

theorem isRoot (id : ScopeId) : w'.scopes.isRoot id = w.scopes.isRoot id := by
  have houter : (w'.scopes.scope id).outer = (w.scopes.scope id).outer :=
    List.tail_eq_of_cons_eq (h.chain id)
  unfold Scopes.isRoot
  rw [houter]

theorem lookup? (id : ScopeId) (n : String) :
    (w'.scopes.lookup? id n).map Binding.value =
      (w.scopes.lookup? id n).map fun b => below.shiftValue b.value := by
  unfold Scopes.lookup?
  rw [h.chain]
  induction w.scopes.chain id with
  | nil => rfl
  | cons i rest ih =>
    have hv := h.value i n
    rw [List.findSome?_cons, List.findSome?_cons]
    cases hb : w.scopes.own? i n with
    | none =>
      rw [hb, Option.map_none, Option.map_eq_none_iff] at hv
      rw [hv]
      exact ih
    | some b =>
      rw [hb, Option.map_some, Option.map_eq_some_iff] at hv
      obtain ⟨b', hb', hv⟩ := hv
      rw [hb']
      exact congrArg some hv

theorem isBound (id : ScopeId) (n : String) : w'.scopes.isBound id n = w.scopes.isBound id n := by
  have hv := congrArg Option.isSome (h.lookup? id n)
  rwa [Option.isSome_map, Option.isSome_map] at hv

end World.Alike

/-- A relation between worlds that are alike, kept by what evaluation does to both of them. -/
structure Parallel (below : Heap) (scope : ScopeId) (step step' : Int)
    (W : World → World → Prop) : Prop where
  alike : ∀ {w w'}, W w w' → w.Alike below w'
  note : ∀ {w w'} (n : Notice), W w w' →
    W { w with log := w.log.push n } { w' with log := w'.log.push n }
  store : ∀ {w w' h h'}, below.Above h h' → W w w' → W { w with heap := h } { w' with heap := h' }
  write : ∀ {w w' id name v text}, (w.scopes.own? id name).isSome → W w w' →
    W (w.write id name v text step) (w'.write id name (below.shiftValue v) text step')
  add : ∀ {w w' name v text spec}, w.scopes.own? scope name = none → W w w' →
    W (w.add scope name v text step spec) (w'.add scope name (below.shiftValue v) text step' spec)

/-- A literal's value stays where it is. -/
def Node.Settled (below : Heap) (n : Node) : Prop :=
  ∀ location value raw, n = .literal location value raw → below.shiftValue value = value

namespace Parallel

variable {below : Heap} {scope : ScopeId} {step step' : Int} {W : World → World → Prop}
variable (h : Parallel below scope step step' W)
include h

/-! ## Reading and storing -/

theorem note_abreast (n : Notice) : Abreast W id (Effect.note n) (Effect.note n) :=
  fun _ _ hw => .ok () (h.note n hw)

/-- What is read off the heaps is the same. -/
theorem read_abreast {α : Type} {f f' : Heap → Except Fault α}
    (hf : ∀ {k k' : Heap}, below.Above k k' → f' k' = f k) :
    Abreast W id (read f) (read f') := by
  refine .get_bind fun w w' hw => ?_
  rw [hf (h.alike hw).heap]
  cases f w.heap with
  | ok a => exact .ok a hw
  | error x => exact .fault x

theorem newSequence_abreast (items : List Value) :
    Abreast W below.shiftValue (newSequence items) (newSequence (items.map below.shiftValue)) := by
  intro w w' hw
  obtain ⟨hv, ha⟩ := (h.alike hw).heap.newSequence items
  have hend := EndsAlike.ok (g := below.shiftValue) (w.heap.newSequence items).1 (h.store ha hw)
  rw [← hv] at hend
  exact hend

theorem newRecord_abreast (fields : Fields) :
    Abreast W below.shiftValue (newRecord fields) (newRecord (fields.shift below)) := by
  intro w w' hw
  obtain ⟨hv, ha⟩ := (h.alike hw).heap.newRecord fields
  have hend := EndsAlike.ok (g := below.shiftValue) (w.heap.newRecord fields).1 (h.store ha hw)
  rw [← hv] at hend
  exact hend

/-! ## Variables -/

theorem valueOf_abreast (name : String) (location : Option Location) :
    Abreast W below.shiftValue (valueOf scope name location) (valueOf scope name location) := by
  refine .get_bind fun w w' hw => ?_
  have hv := (h.alike hw).lookup? scope name
  cases hb : w.scopes.lookup? scope name with
  | none =>
    rw [hb, Option.map_none, Option.map_eq_none_iff] at hv
    rw [hv]
    exact .error _ hw
  | some b =>
    rw [hb, Option.map_some, Option.map_eq_some_iff] at hv
    obtain ⟨b', hb', hv⟩ := hv
    rw [hb']
    dsimp only
    rw [hv]
    exact .ok b.value hw

theorem isBound_abreast (name : String) : Abreast W id (isBound scope name) (isBound scope name) := by
  refine .get_bind fun w w' hw => ?_
  rw [(h.alike hw).isBound]
  exact .ok _ hw

theorem writeOwn_endsAlike {w w' : World} {i : ScopeId} {name : String}
    (hown : (w.scopes.own? i name).isSome) (v : Value) (hw : W w w') :
    EndsAlike W id (writeOwn i name v step w) (writeOwn i name (below.shiftValue v) step' w') := by
  unfold writeOwn
  rw [get_bind, get_bind, (h.alike hw).heap.format_shift]
  cases w.heap.format v with
  | ok text => exact .ok () (h.write hown hw)
  | error f => exact .fault f

theorem define_abreast (name : String) (v : Value) (spec : Option ParameterSpec) :
    Abreast W id (define scope name v step spec)
      (define scope name (below.shiftValue v) step' spec) := by
  refine .get_bind fun w w' hw => ?_
  rw [(h.alike hw).isSome_own?]
  by_cases hown : (w.scopes.own? scope name).isSome
  · rw [if_pos hown, if_pos hown]
    exact h.writeOwn_endsAlike hown v hw
  · rw [if_neg hown, if_neg hown, (h.alike hw).heap.format_shift]
    cases w.heap.format v with
    | ok text => exact .ok () (h.add (Option.not_isSome_iff_eq_none.1 hown) hw)
    | error f => exact .fault f

theorem assign_abreast (name : String) (v : Value) (location : Option Location) :
    Abreast W id (assign scope name v step location)
      (assign scope name (below.shiftValue v) step' location) := by
  refine .get_bind fun w w' hw => ?_
  rw [(h.alike hw).owner?, (h.alike hw).isRoot]
  cases howner : w.scopes.owner? scope name with
  | some i => exact h.writeOwn_endsAlike (Scopes.own?_of_owner? howner) v hw
  | none =>
    dsimp only
    split
    · exact h.define_abreast name v none w w' hw
    · exact .error _ hw

/-! ## Single steps -/

theorem recoverOperator_abreast (location : Location) (e : Except Stop Value) :
    Abreast W below.shiftValue (recoverOperator location e)
      (recoverOperator location (e.map below.shiftValue)) := by
  cases e with
  | ok v => exact .pure v rfl
  | error x =>
    cases x with
    | error x => exact (h.note_abreast _).bind fun _ => .pure Value.undefined rfl
    | fault f => exact .throw _

theorem applyBinary_abreast (symbol : String) (a b : Value) (location : Location) :
    Abreast W below.shiftValue (applyBinary symbol a b location)
      (applyBinary symbol (below.shiftValue a) (below.shiftValue b) location) := by
  refine .get_bind fun w w' hw => ?_
  rw [(h.alike hw).heap.binary_shift]
  exact h.recoverOperator_abreast location _ w w' hw

theorem applyUnary_abreast (symbol : String) (v : Value) (location : Location) :
    Abreast W below.shiftValue (applyUnary symbol v location)
      (applyUnary symbol (below.shiftValue v) location) := by
  refine .get_bind fun w w' hw => ?_
  rw [(h.alike hw).heap.unary_shift]
  exact h.recoverOperator_abreast location _ w w' hw

omit h in
theorem lift_abreast {α : Type} {g : α → α} (e : Except Stop α) :
    Abreast W g (lift e) (lift (e.map g)) := by
  cases e with
  | ok a => exact .pure a rfl
  | error x => exact .throw x

theorem readProperty_abreast (receiver key : Value) (location : Location) :
    Abreast W below.shiftValue (readProperty receiver key location)
      (readProperty (below.shiftValue receiver) (below.shiftValue key) location) := by
  refine .get_bind fun w w' hw => ?_
  rw [(h.alike hw).heap.getProperty_shift]
  exact lift_abreast _ w w' hw

theorem writeProperty_abreast (receiver key v : Value) (location : Location) :
    Abreast W id (writeProperty receiver key v location)
      (writeProperty (below.shiftValue receiver) (below.shiftValue key) (below.shiftValue v)
        location) := by
  refine .get_bind fun w w' hw => ?_
  have hset := (h.alike hw).heap.setProperty receiver key v (some location)
  generalize w.heap.setProperty .. = r at hset
  generalize w'.heap.setProperty .. = r' at hset
  cases hset with
  | ok ha => exact .ok () (h.store ha hw)
  | error x => exact Abreast.throw x w w' hw

theorem updateVariable_abreast (name operator : String) (leading : Bool) (location : Location) :
    Abreast W below.shiftValue (updateVariable scope name operator leading step location)
      (updateVariable scope name operator leading step' location) := by
  refine (h.valueOf_abreast name _).bind fun v => ?_
  refine (h.read_abreast fun ha => ha.toNumber_shift v).bind fun old => ?_
  refine (h.read_abreast fun _ => rfl).bind fun new => ?_
  exact (h.assign_abreast name (.number new) _).bind fun _ => .pure _ rfl

theorem callGlobal_abreast (object method : String) (args : List Value) (location : Location) :
    Abreast W below.shiftValue (callGlobal object method args location)
      (callGlobal object method (args.map below.shiftValue) location) := by
  refine .get_bind fun w w' hw => ?_
  rw [(h.alike hw).heap.callGlobal_shift]
  cases hr : Method.callGlobal w.heap object method args (some location) with
  | error x => exact Abreast.throw x w w' hw
  | ok r =>
    cases r with
    | value v =>
      obtain ⟨n, rfl⟩ := number_of_callGlobal hr
      exact .ok (Value.number n) hw
    | logged line => exact (h.note_abreast _).returning Value.undefined w w' hw

theorem showChange_abreast (object : Node) :
    Abreast W id (showChange scope step object) (showChange scope step' object) := by
  unfold showChange
  cases object.sequenceOwner? with
  | none => exact .pure () rfl
  | some owner =>
    refine (h.isBound_abreast owner).bind fun bound => .ite ?_ (.pure _ rfl)
    exact (h.valueOf_abreast owner none).bind fun v => h.assign_abreast owner v none

theorem callMethod_abreast (object : Node) (receiver : Value) (method : String)
    (args : List Value) (location : Location) :
    Abreast W below.shiftValue (callMethod scope object receiver method args step location)
      (callMethod scope object (below.shiftValue receiver) method (args.map below.shiftValue)
        step' location) := by
  rw [callMethod_eq, callMethod_eq, kind_shiftValue]
  refine .get_bind fun w w' hw => ?_
  have hcall := (h.alike hw).heap.call receiver method args (some location)
  generalize Method.call w.heap .. = r at hcall
  generalize Method.call w'.heap .. = r' at hcall
  cases hcall with
  | error x => exact Abreast.throw x w w' hw
  | @ok a b hr =>
    obtain ⟨v, k⟩ := a
    obtain ⟨v', k'⟩ := b
    obtain ⟨rfl, ha⟩ := hr
    have hshow : Abreast W id
        (if receiver.kind == .sequence then showChange scope step object else pure ())
        (if receiver.kind == .sequence then showChange scope step' object else pure ()) :=
      .ite (h.showChange_abreast object) (.pure () rfl)
    exact hshow.returning v _ _ (h.store ha hw)

omit h in
theorem shortCircuits_shift (symbol : String) (v : Value) :
    shortCircuits symbol (below.shiftValue v) = shortCircuits symbol v := by
  unfold shortCircuits
  rw [isTruthy_shiftValue, isNullish_shiftValue]

theorem compound_abreast (operator : String) (current : Value) {right right' : Effect Value}
    (location : Location) (hr : Abreast W below.shiftValue right right') :
    Abreast W below.shiftValue (compound operator current right location)
      (compound operator (below.shiftValue current) right' location) := by
  simp only [compound, shortCircuits_shift]
  refine .ite hr (.ite (.pure _ rfl) (hr.bind fun v => ?_))
  exact h.applyBinary_abreast _ current v location

/-! ## Parts of expressions -/

omit h in
theorem propertyName_abreast (property : Node) :
    Abreast W id (propertyName property) (propertyName property) := by
  unfold propertyName
  split
  · exact .pure _ rfl
  · exact .throw _

omit h in
theorem keyOf_abreast {computed : Bool} {key key' : Effect Value} (property : Node)
    (hk : Abreast W below.shiftValue key key') :
    Abreast W below.shiftValue (keyOf computed key property) (keyOf computed key' property) :=
  .ite hk ((propertyName_abreast property).bind fun name => .pure (Value.text name) rfl)

omit h in
theorem currentOf_abreast {operator : String} {current current' : Effect Value}
    (hc : Abreast W below.shiftValue current current') :
    Abreast W below.shiftValue (currentOf operator current) (currentOf operator current') :=
  .ite (.pure Value.undefined rfl) hc

theorem receiverOf_abreast (held : Value) :
    Abreast W below.shiftValue (receiverOf held) (receiverOf (below.shiftValue held)) := by
  unfold receiverOf
  rw [isNullish_shiftValue]
  exact .ite (h.newRecord_abreast []) (.pure held rfl)

theorem asksUnbound_abreast (operator : String) (argument : Node) :
    Abreast W id (asksUnbound scope operator argument) (asksUnbound scope operator argument) := by
  unfold asksUnbound
  cases argument.name? with
  | none => exact .pure _ rfl
  | some name => exact .ite ((h.isBound_abreast name).bind fun _ => .pure _ rfl) (.pure _ rfl)

theorem globalReceiver?_abreast (object : Node) :
    Abreast W id (globalReceiver? scope object) (globalReceiver? scope object) := by
  unfold globalReceiver?
  cases object.name? with
  | none => exact .pure _ rfl
  | some name =>
    exact (h.isBound_abreast name).bind fun bound => .ite (.pure _ rfl) (.pure _ rfl)

theorem fieldName_abreast {computed : Bool} {value value' : Effect Value} {key : Node}
    (hv : Abreast W below.shiftValue value value') (hk : key.Settled below) :
    Abreast W id (fieldName computed value key) (fieldName computed value' key) := by
  refine .ite (hv.bind fun v => h.read_abreast fun ha => ha.text_shift v) ?_
  cases key with
  | identifier _ name => exact .pure name rfl
  | literal location k raw =>
    refine h.read_abreast fun {w w'} ha => ?_
    have htext := ha.text_shift k
    rwa [hk location k raw rfl] at htext
  | _ => exact .throw _

theorem callOn_abreast (object : Node) (method : String) (location : Location)
    {receiver receiver' : Effect Value} {args args' : Effect (List Value)}
    (hr : Abreast W below.shiftValue receiver receiver')
    (ha : Abreast W (List.map below.shiftValue) args args') :
    Abreast W below.shiftValue (callOn scope step object method location receiver args)
      (callOn scope step' object method location receiver' args') := by
  refine (h.globalReceiver?_abreast object).bind fun name? => ?_
  cases name? with
  | some name => exact ha.bind fun vs => h.callGlobal_abreast name method vs location
  | none => exact hr.bind fun r => ha.bind fun vs => h.callMethod_abreast object r method vs location

end Parallel

/-! ## Expressions -/

section
variable {below : Heap} {scope : ScopeId} {step step' : Int} {W : World → World → Prop}

mutual

/-- An expression goes the same way in two worlds that are alike. -/
theorem evaluate_abreast (h : Parallel below scope step step' W) :
    ∀ node : Node, node.Everywhere (Node.Settled below) →
      Abreast W below.shiftValue (evaluate scope step node) (evaluate scope step' node)
  | .literal location value raw, hn => .pure value (hn.here location value raw rfl).symm
  | .identifier .., _ => h.valueOf_abreast _ _
  | .thisValue .., _ => h.valueOf_abreast _ _
  | .declarator _ target init, hn => by
    cases target with
    | identifier location name =>
      refine (evaluateOption_abreast h init fun c hc => hn.child ?_).bind fun v =>
        (h.define_abreast name v none).returning Value.undefined
      exact List.mem_cons_of_mem _ (Option.mem_toList.2 hc)
    | _ => exact .throw _
  | .array _ elements, hn =>
    (evaluateElements_abreast h elements hn.children).bind fun vs => h.newSequence_abreast vs
  | .object _ properties, hn =>
    (evaluateProperties_abreast h properties hn.children []).bind fun fields =>
      h.newRecord_abreast fields
  | .new _ callee [], _ => h.newRecord_abreast []
  | .new _ callee [argument], hn => by
    simp only [evaluate]
    split
    · refine (evaluate_abreast h argument (hn.child (by simp [Node.children]))).bind fun size =>
        (h.read_abreast fun _ => ?_).bind fun length => ?_
      · cases size <;> rfl
      · cases length with
        | none => exact .throw _
        | some n =>
          have hnew := h.newSequence_abreast (List.replicate n .undefined)
          rw [List.map_replicate] at hnew
          exact hnew
    · exact .throw _
  | .new _ callee (_ :: _ :: _), _ => .throw _
  | .update _ operator leading argument, _ => by
    cases argument with
    | identifier _ name => exact h.updateVariable_abreast name operator leading _
    | _ => exact .throw _
  | .unary location operator argument, hn => by
    rw [evaluate_unary, evaluate_unary]
    refine (h.asksUnbound_abreast operator argument).bind fun unbound => ?_
    cases unbound with
    | true => exact .pure (Value.text "undefined") rfl
    | false =>
      exact (evaluate_abreast h argument (hn.child (by simp [Node.children]))).bind fun v =>
        h.applyUnary_abreast operator v location
  | .binary location operator left right, hn => by
    have hleft := evaluate_abreast h left (hn.child (by simp [Node.children]))
    have hright := evaluate_abreast h right (hn.child (by simp [Node.children]))
    refine hleft.bind fun a => ?_
    rw [Parallel.shortCircuits_shift]
    exact .ite (.pure a rfl) (hright.bind fun b => h.applyBinary_abreast operator a b location)
  | .assignment location operator left right, hn => by
    have hright := evaluate_abreast h right (hn.child (by simp [Node.children]))
    cases left with
    | identifier targetLocation name =>
      rw [evaluate_assign_name, evaluate_assign_name]
      refine (Parallel.currentOf_abreast (h.valueOf_abreast name _)).bind fun current => ?_
      refine (h.compound_abreast operator current location hright).bind fun v => ?_
      exact (h.assign_abreast name v _).returning v
    | member targetLocation object property computed =>
      cases howner : object.receiverName? with
      | none =>
        simp only [evaluate, howner]
        exact .throw _
      | some owner =>
        have hmember := hn.child (c := .member targetLocation object property computed)
          (by simp [Node.children])
        have hkey := evaluate_abreast h property (hmember.child (by simp [Node.children]))
        rw [evaluate_assign_member _ _ _ _ _ _ _ _ _ howner,
          evaluate_assign_member _ _ _ _ _ _ _ _ _ howner]
        refine (h.valueOf_abreast owner _).bind fun held => ?_
        refine (h.receiverOf_abreast held).bind fun receiver => ?_
        refine (Parallel.keyOf_abreast property hkey).bind fun key => ?_
        refine (Parallel.currentOf_abreast (h.readProperty_abreast receiver key _)).bind
          fun current => ?_
        refine (h.compound_abreast operator current location hright).bind fun v => ?_
        refine (h.writeProperty_abreast receiver key v _).bind fun _ => ?_
        exact (h.assign_abreast owner receiver _).returning v
    | _ => exact .throw _
  | .member location object property computed, hn => by
    rw [evaluate_member, evaluate_member]
    have hobject := evaluate_abreast h object (hn.child (by simp [Node.children]))
    have hproperty := evaluate_abreast h property (hn.child (by simp [Node.children]))
    exact hobject.bind fun receiver => (Parallel.keyOf_abreast property hproperty).bind fun key =>
      h.readProperty_abreast receiver key location
  | .call location callee arguments, hn => by
    cases callee with
    | member calleeLocation object property computed =>
      cases computed with
      | true => exact .throw _
      | false =>
        have hmember := hn.child (c := .member calleeLocation object property false)
          (by simp [Node.children])
        have hobject := evaluate_abreast h object (hmember.child (by simp [Node.children]))
        have harguments := evaluateAll_abreast h arguments fun c hc =>
          hn.child (List.mem_cons_of_mem _ hc)
        rw [evaluate_call, evaluate_call]
        exact (Parallel.propertyName_abreast property).bind fun method =>
          .ite (.throw _) (h.callOn_abreast object method location hobject harguments)
    | _ => exact .throw _
  | .program .., _ | .block .., _ | .functionDeclaration .., _ | .declaration .., _
  | .ifStatement .., _ | .whileStatement .., _ | .forStatement .., _
  | .expressionStatement .., _ | .returnStatement .., _ | .continueStatement .., _
  | .property .., _ | .functionExpression .., _ | .arrowFunction .., _ | .unsupported .., _ =>
    .throw _

theorem evaluateOption_abreast (h : Parallel below scope step step' W) :
    ∀ node : Option Node, (∀ n, node = some n → n.Everywhere (Node.Settled below)) →
      Abreast W below.shiftValue (evaluateOption scope step node) (evaluateOption scope step' node)
  | none, _ => .pure Value.undefined rfl
  | some node, hn => evaluate_abreast h node (hn node rfl)

theorem evaluateAll_abreast (h : Parallel below scope step step' W) :
    ∀ nodes : List Node, Node.AllEverywhere (Node.Settled below) nodes →
      Abreast W (List.map below.shiftValue) (evaluateAll scope step nodes)
        (evaluateAll scope step' nodes)
  | [], _ => .pure [] rfl
  | node :: rest, hn =>
    (evaluate_abreast h node hn.head).bind fun v =>
      (evaluateAll_abreast h rest hn.tail).bind fun vs => .pure (v :: vs) rfl

theorem evaluateElements_abreast (h : Parallel below scope step step' W) :
    ∀ elements : List (Option Node),
      Node.AllEverywhere (Node.Settled below) (elements.flatMap Option.toList) →
      Abreast W (List.map below.shiftValue) (evaluateElements scope step elements)
        (evaluateElements scope step' elements)
  | [], _ => .pure [] rfl
  | element :: rest, hn => by
    rw [List.flatMap_cons] at hn
    have helement := evaluateOption_abreast h element fun n he =>
      hn n (List.mem_append_left _ (Option.mem_toList.2 he))
    have hrest := evaluateElements_abreast h rest fun n he => hn n (List.mem_append_right _ he)
    exact helement.bind fun v => hrest.bind fun vs => .pure (v :: vs) rfl

theorem evaluateProperties_abreast (h : Parallel below scope step step' W) :
    ∀ properties : List Node, Node.AllEverywhere (Node.Settled below) properties →
      ∀ fields : Fields,
      Abreast W (Fields.shift below) (evaluateProperties scope step fields properties)
        (evaluateProperties scope step' (fields.shift below) properties)
  | [], _, fields => .pure fields rfl
  | node :: rest, hn, fields => by
    have hrest := evaluateProperties_abreast h rest hn.tail
    by_cases hfield : ∃ l key value computed shorthand,
        node = .property l key (some value) "init" computed shorthand
    · obtain ⟨l, key, value, computed, shorthand, rfl⟩ := hfield
      have hvalue := evaluate_abreast h value (hn.head.child (by simp [Node.children]))
      have hkey := hn.head.child (c := key) (by simp [Node.children])
      rw [evaluateProperties_cons, evaluateProperties_cons]
      refine hvalue.bind fun v =>
        (h.fieldName_abreast (evaluate_abreast h key hkey) hkey.here).bind fun name => ?_
      rw [id_eq, Fields.insert_shift]
      exact hrest _
    · have hskip : ∀ l key value computed shorthand,
          node ≠ .property l key (some value) "init" computed shorthand :=
        fun l k v c s he => hfield ⟨l, k, v, c, s, he⟩
      rw [evaluateProperties_skip _ _ _ _ hskip, evaluateProperties_skip _ _ _ _ hskip]
      exact hrest fields

end

end

end Chronicle
