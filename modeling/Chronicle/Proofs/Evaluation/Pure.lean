import Chronicle.Proofs.Evaluation.Lasting

/-!
# Expressions that write nothing, and writes that fail

A pure expression (`Node.IsPure`) has no assignment, increment, declaration or call in it.  It keeps
every calm condition (`evaluate_keepsPure`): it writes no variable and changes no sequence or record
that is there (`World.Untouched`), though it may make new ones and report operators.

A write whose operands are pure (`Node.HasPureOperands`) evaluates them, then changes a sequence or
record, then writes a variable.  The change fails before it begins, and the variable of a change is
bound, so that only a fault can stop its write: when a write stops with an error of the run nothing
has been touched (`failing_write_untouched`).
-/

set_option autoImplicit false

namespace Chronicle

open Effect

/-! ## Pure expressions -/

namespace Node

/-- Whether a node is of a form that writes nothing by itself. -/
def isPureForm : Node → Bool
  | .literal .. | .identifier .. | .thisValue .. | .array .. | .object .. | .property .. | .new ..
  | .unary .. | .binary .. | .member .. => true
  | _ => false

/-- An expression that is built of such forms alone. -/
def IsPure (n : Node) : Prop :=
  n.Everywhere (·.isPureForm)

/-- A declarator, increment, assignment or call whose operands are pure: the initial value, the key,
the right side, the receiver and the arguments. -/
def HasPureOperands : Node → Prop
  | .declarator _ _ init => ∀ n, init = some n → n.IsPure
  | .update .. => True
  | .assignment _ _ (.member _ _ key true) right => key.IsPure ∧ right.IsPure
  | .assignment _ _ _ right => right.IsPure
  | .call _ (.member _ receiver _ _) arguments => receiver.IsPure ∧ ∀ n ∈ arguments, n.IsPure
  | .call .. => True
  | _ => False

end Node

section
variable {scope : ScopeId} {step : Int} {P E : World → Prop}

mutual

/-- A pure expression keeps every calm condition. -/
theorem evaluate_keepsPure (hP : Calm P E) :
    ∀ node : Node, node.IsPure → Keeps P E (evaluate scope step node)
  | .literal .., _ => keeps_pure _
  | .identifier .., _ => hP.keeps_valueOf _ _
  | .thisValue .., _ => hP.keeps_valueOf _ _
  | .array _ elements, hn =>
    keeps_bind (evaluateElements_keepsPure hP elements hn.children) fun _ => hP.keeps_newSequence _
  | .object _ properties, hn =>
    keeps_bind (evaluateProperties_keepsPure hP properties hn.children []) fun _ =>
      hP.keeps_newRecord _
  | .new _ callee [], _ => hP.keeps_newRecord _
  | .new _ callee [argument], hn => by
    have hargument := evaluate_keepsPure hP argument (hn.child (by simp [Node.children]))
    rw [evaluate_new]
    refine keeps_ite (keeps_bind hargument fun _ => keeps_bind (hP.keeps_read _) fun length => ?_)
      (hP.keeps_fail _ _)
    cases length with
    | some n => exact hP.keeps_newSequence _
    | none => exact hP.keeps_fail _ _
  | .new _ callee (_ :: _ :: _), _ => hP.keeps_fail _ _
  | .unary _ operator argument, hn => by
    have hargument := evaluate_keepsPure hP argument (hn.child (by simp [Node.children]))
    rw [evaluate_unary]
    exact keeps_bind (keeps_asksUnbound _ _) fun _ => keeps_ite (keeps_pure _) <|
      keeps_bind hargument fun _ => hP.keeps_applyUnary _ _ _
  | .binary _ operator left right, hn => by
    have hleft := evaluate_keepsPure hP left (hn.child (by simp [Node.children]))
    have hright := evaluate_keepsPure hP right (hn.child (by simp [Node.children]))
    exact keeps_bind hleft fun _ => keeps_ite (keeps_pure _) <|
      keeps_bind hright fun _ => hP.keeps_applyBinary _ _ _ _
  | .member _ object property computed, hn => by
    have hobject := evaluate_keepsPure hP object (hn.child (by simp [Node.children]))
    have hproperty := evaluate_keepsPure hP property (hn.child (by simp [Node.children]))
    rw [evaluate_member]
    exact keeps_bind hobject fun _ => keeps_bind (hP.keeps_keyOf hproperty property) fun _ =>
      hP.keeps_readProperty _ _ _
  | .property .., _ => hP.keeps_fail _ _
  | .declarator .., hn | .update .., hn | .assignment .., hn | .call .., hn | .program .., hn
  | .block .., hn | .functionDeclaration .., hn | .declaration .., hn | .ifStatement .., hn
  | .whileStatement .., hn | .forStatement .., hn | .expressionStatement .., hn
  | .returnStatement .., hn | .continueStatement .., hn | .functionExpression .., hn
  | .arrowFunction .., hn | .unsupported .., hn => absurd hn.here Bool.false_ne_true

theorem evaluateOption_keepsPure (hP : Calm P E) :
    ∀ node : Option Node, (∀ n, node = some n → n.IsPure) →
      Keeps P E (evaluateOption scope step node)
  | none, _ => keeps_pure _
  | some node, hn => evaluate_keepsPure hP node (hn node rfl)

theorem evaluateAll_keepsPure (hP : Calm P E) :
    ∀ nodes : List Node, (∀ n ∈ nodes, n.IsPure) → Keeps P E (evaluateAll scope step nodes)
  | [], _ => keeps_pure _
  | node :: rest, hn =>
    keeps_bind (evaluate_keepsPure hP node (hn node List.mem_cons_self)) fun _ =>
      keeps_bind (evaluateAll_keepsPure hP rest fun n h => hn n (List.mem_cons_of_mem _ h))
        fun _ => keeps_pure _

theorem evaluateElements_keepsPure (hP : Calm P E) :
    ∀ elements : List (Option Node), (∀ n ∈ elements.flatMap Option.toList, n.IsPure) →
      Keeps P E (evaluateElements scope step elements)
  | [], _ => keeps_pure _
  | element :: rest, hn => by
    rw [List.flatMap_cons] at hn
    have helement := evaluateOption_keepsPure hP element fun n he =>
      hn n (List.mem_append_left _ (Option.mem_toList.2 he))
    have hrest := evaluateElements_keepsPure hP rest fun n he => hn n (List.mem_append_right _ he)
    exact keeps_bind helement fun _ => keeps_bind hrest fun _ => keeps_pure _

theorem evaluateProperties_keepsPure (hP : Calm P E) :
    ∀ properties : List Node, (∀ n ∈ properties, n.IsPure) →
      ∀ fields : Fields, Keeps P E (evaluateProperties scope step fields properties)
  | [], _, _ => keeps_pure _
  | node :: rest, hn, fields => by
    have hnode := hn node List.mem_cons_self
    have hrest := evaluateProperties_keepsPure hP rest fun n h => hn n (List.mem_cons_of_mem _ h)
    by_cases hfield : ∃ l key value computed shorthand,
        node = .property l key (some value) "init" computed shorthand
    · obtain ⟨l, key, value, computed, shorthand, rfl⟩ := hfield
      have hvalue := evaluate_keepsPure hP value (hnode.child (by simp [Node.children]))
      have hkey := evaluate_keepsPure hP key (hnode.child (by simp [Node.children]))
      rw [evaluateProperties_cons]
      exact keeps_bind hvalue fun v => keeps_bind (hP.keeps_fieldName hkey key) fun name =>
        hrest _
    · have hskip : ∀ l key value computed shorthand,
          node ≠ .property l key (some value) "init" computed shorthand :=
        fun l k v c s he => hfield ⟨l, k, v, c, s, he⟩
      rw [evaluateProperties_skip _ _ _ _ hskip]
      exact hrest fields

end

end

/-! ## What is not touched -/

/-- `w` has the bindings of `w₀`, with their histories, and its sequences and records with what they
hold; it may have more sequences and records, and more reports. -/
structure World.Untouched (w₀ w : World) : Prop where
  scopes : w.scopes = w₀.scopes
  journal : w.journal = w₀.journal
  sequences : ∀ {a : Address} {items : List Value}, w₀.heap.sequences[a]? = some items →
    w.heap.sequences[a]? = some items
  records : ∀ {a : Address} {fields : Fields}, w₀.heap.records[a]? = some fields →
    w.heap.records[a]? = some fields

theorem World.Untouched.refl (w : World) : w.Untouched w :=
  ⟨rfl, rfl, id, id⟩

theorem getElem?_push_of_eq_some {α : Type} {xs : Array α} {i : Nat} {x : α} (h : xs[i]? = some x)
    (y : α) : (xs.push y)[i]? = some x := by
  obtain ⟨hi, -⟩ := Array.getElem?_eq_some_iff.1 h
  rw [Array.getElem?_push, if_neg (Nat.ne_of_lt hi), h]

/-- Reports and new sequences and records touch nothing. -/
theorem untouched_calm (w₀ : World) : Calm w₀.Untouched w₀.Untouched where
  stop h := h
  note _ h := { h with }
  sequence _ h := { h with
    sequences := fun ha => getElem?_push_of_eq_some (h.sequences ha) _ }
  record _ h := { h with
    records := fun ha => getElem?_push_of_eq_some (h.records ha) _ }

/-! ## Writes that are stopped -/

/-- A stop below the interpreted program. -/
def Stop.IsFault : Stop → Prop
  | .fault _ => True
  | .error _ => False

/-- `e` leaves `P` when it is stopped by an error of the run. -/
def Aborts {α : Type} (P : World → Prop) (e : Effect α) : Prop :=
  Triple P e (fun _ _ => True) fun x w => x.IsFault ∨ P w

/-- Only a fault stops `e` in a world with `P`. -/
def OnlyFaults {α : Type} (P : World → Prop) (e : Effect α) : Prop :=
  Triple P e (fun _ _ => True) fun x _ => x.IsFault

section
variable {α β : Type} {P : World → Prop} {e : Effect α} {f : α → Effect β}

theorem Aborts.of_keeps (he : Keeps P P e) : Aborts P e :=
  he.weaken (fun _ => id) (fun _ _ _ => trivial) fun _ _ => .inr

theorem Aborts.bind (he : Keeps P P e) (hf : ∀ a, Aborts P (f a)) : Aborts P (e >>= f) :=
  Triple.bind (he.weaken (fun _ => id) (fun _ _ => id) fun _ _ => .inr) hf

/-- A change that is made or leaves `P`, and after it what faults alone can stop. -/
theorem Aborts.change {Q : World → Prop} (he : Triple P e (fun _ => Q) fun _ => P)
    (hf : ∀ a, OnlyFaults Q (f a)) : Aborts P (e >>= f) :=
  Triple.bind (he.weaken (fun _ => id) (fun _ _ => id) fun _ _ => .inr)
    fun a => (hf a).weaken (fun _ => id) (fun _ _ => id) fun _ _ => .inl

theorem OnlyFaults.aborts (he : OnlyFaults P e) : Aborts P e :=
  he.weaken (fun _ => id) (fun _ _ => id) fun _ _ => .inl

theorem OnlyFaults.returning (he : OnlyFaults P e) (b : β) :
    OnlyFaults P (e >>= fun _ => pure b) :=
  Triple.bind he fun _ _ _ => trivial

end

section
variable {scope : ScopeId} {step : Int}

theorem writeOwn_onlyFaults (P : World → Prop) (id : ScopeId) (name : String) (v : Value) :
    OnlyFaults P (writeOwn id name v step) := by
  intro w _
  rw [writeOwn_eq]
  cases w.heap.format v <;> trivial

theorem define_onlyFaults (P : World → Prop) (name : String) (v : Value) :
    OnlyFaults P (define scope name v step none) := by
  intro w hw
  rw [define_eq]
  by_cases hown : (w.scopes.own? scope name).isSome
  · rw [if_pos hown]
    exact writeOwn_onlyFaults P scope name v w hw
  · rw [if_neg hown]
    cases w.heap.format v <;> trivial

/-- An assignment to a bound name is stopped by faults alone. -/
theorem assign_onlyFaults {name : String} (v : Value) (location : Option Location) :
    OnlyFaults (fun w => w.scopes.isBound scope name) (assign scope name v step location) := by
  intro w hw
  rw [assign_eq]
  cases ho : w.scopes.owner? scope name with
  | some i => exact writeOwn_onlyFaults (fun w => w.scopes.isBound scope name) i name v w hw
  | none =>
    rw [← Scopes.isSome_owner?, ho] at hw
    cases hw

theorem assign_aborts (P : World → Prop) (name : String) (v : Value) (location : Option Location) :
    Aborts P (assign scope name v step location) := by
  intro w hw
  rw [assign_eq]
  cases w.scopes.owner? scope name with
  | some i => exact (writeOwn_onlyFaults P i name v).aborts w hw
  | none =>
    by_cases hr : w.scopes.isRoot scope
    · simp only [hr, if_true]
      exact (define_onlyFaults P name v).aborts w hw
    · simp only [hr]
      exact .inr hw

/-- Showing a change writes a variable only where it is bound. -/
theorem showChange_onlyFaults (object : Node) :
    OnlyFaults (fun _ => True) (showChange scope step object) := by
  intro w _
  unfold showChange
  cases object.sequenceOwner? with
  | none => trivial
  | some owner =>
    dsimp only
    have hbound : isBound scope owner w = .ok (w.scopes.isBound scope owner) w := rfl
    rw [bind_of_ok hbound]
    by_cases hb : w.scopes.isBound scope owner
    · obtain ⟨b, hlookup⟩ := Option.isSome_iff_exists.1 hb
      rw [if_pos hb, bind_of_ok (valueOf_of_lookup? _ _ _ hlookup none)]
      exact assign_onlyFaults b.value none w hb
    · rw [if_neg hb]
      trivial

/-! ## Single writes -/

section
variable (w₀ : World)

/-- A property write is refused before it changes anything, and leaves the variables. -/
theorem triple_writeProperty (receiver key v : Value) (location : Location) :
    Triple w₀.Untouched (writeProperty receiver key v location)
      (fun _ w => w.scopes = w₀.scopes) fun _ => w₀.Untouched := by
  intro w hw
  unfold writeProperty
  rw [get_bind]
  cases hr : w.heap.setProperty receiver key v (some location) with
  | error x => exact hw
  | ok heap => exact hw.scopes

/-- A method is refused before it changes anything, and then its change is shown. -/
theorem callMethod_aborts (object : Node) (receiver : Value) (method : String) (args : List Value)
    (location : Location) :
    Aborts w₀.Untouched (callMethod scope object receiver method args step location) := by
  rw [callMethod_eq]
  intro w hw
  rw [get_bind]
  cases hr : Method.call w.heap receiver method args (some location) with
  | error x => exact .inr hw
  | ok r =>
    have hshow : OnlyFaults (fun _ => True)
        (if receiver.kind == .sequence then showChange scope step object else pure ()) := by
      split
      · exact showChange_onlyFaults object
      · exact fun _ _ => trivial
    exact ((hshow.returning r.1).weaken (fun _ => id) (fun _ _ => id) fun _ _ => .inl)
      { w with heap := r.2 } trivial

/-- A name that is read is bound. -/
theorem triple_valueOf (name : String) (location : Option Location) :
    Triple w₀.Untouched (valueOf scope name location)
      (fun _ w => w₀.Untouched w ∧ w₀.scopes.isBound scope name) fun _ => w₀.Untouched := by
  intro w hw
  unfold valueOf
  rw [get_bind]
  cases hb : w.scopes.lookup? scope name with
  | none => exact hw
  | some b =>
    refine ⟨hw, ?_⟩
    rw [← hw.scopes]
    exact Option.isSome_of_eq_some hb

/-- Writing a property, then the variable that it belongs to. -/
theorem writeBack_aborts {owner : String} (howner : w₀.scopes.isBound scope owner)
    (receiver key v : Value) (location : Location) :
    Aborts w₀.Untouched (do
      writeProperty receiver key v location
      assign scope owner receiver step (some location)
      return v) := by
  refine .change (triple_writeProperty w₀ receiver key v location) fun _ => ?_
  refine ((assign_onlyFaults receiver (some location)).returning v).weaken (fun w hw => ?_)
    (fun _ _ => id) fun _ _ => id
  rw [hw]
  exact howner

end

/-! ## Expressions that write -/

theorem assignment_aborts (w₀ : World) (location : Location) (operator : String) (left right : Node)
    (h : (Node.assignment location operator left right).HasPureOperands) :
    Aborts w₀.Untouched (evaluate scope step (.assignment location operator left right)) := by
  have hcalm := untouched_calm w₀
  cases left with
  | identifier targetLocation name =>
    have hright : Keeps w₀.Untouched w₀.Untouched (evaluate scope step right) :=
      evaluate_keepsPure hcalm right h
    rw [evaluate_assign_name]
    refine .bind (keeps_currentOf _ (hcalm.keeps_valueOf name _)) fun current => ?_
    refine .bind (hcalm.keeps_compound operator current location hright) fun v => ?_
    exact Triple.bind (assign_aborts _ name v _) fun _ _ _ => trivial
  | member targetLocation object property computed =>
    cases howner : object.receiverName? with
    | none =>
      simp only [evaluate, howner]
      exact .of_keeps (hcalm.keeps_fail _ _)
    | some owner =>
      obtain ⟨hkey, hright⟩ : (computed = true → property.IsPure) ∧ right.IsPure := by
        cases computed with
        | true => exact ⟨fun _ => h.1, h.2⟩
        | false => exact ⟨nofun, h⟩
      have hright : Keeps w₀.Untouched w₀.Untouched (evaluate scope step right) :=
        evaluate_keepsPure hcalm right hright
      have hkey : Keeps w₀.Untouched w₀.Untouched
          (keyOf computed (evaluate scope step property) property) := by
        cases computed with
        | true => exact evaluate_keepsPure hcalm property (hkey rfl)
        | false =>
          -- a key that is written out is not evaluated
          show Keeps _ _ (keyOf false (pure .undefined) property)
          exact hcalm.keeps_keyOf (keeps_pure _) property
      rw [evaluate_assign_member _ _ _ _ _ _ _ _ _ howner]
      refine Triple.bind ((triple_valueOf w₀ owner _).weaken (fun _ => id) (fun _ _ => id)
        fun _ _ => .inr) fun held w ⟨hw, hbound⟩ => ?_
      refine Aborts.bind (hcalm.keeps_receiverOf held) (fun receiver => ?_) w hw
      refine .bind hkey fun key => ?_
      refine .bind (keeps_currentOf _ (hcalm.keeps_readProperty receiver key _)) fun current => ?_
      refine .bind (hcalm.keeps_compound operator current location hright) fun v => ?_
      exact writeBack_aborts w₀ hbound receiver key v targetLocation
  | _ => exact .of_keeps (hcalm.keeps_fail _ _)

theorem call_aborts (w₀ : World) (location : Location) (callee : Node) (arguments : List Node)
    (h : (Node.call location callee arguments).HasPureOperands) :
    Aborts w₀.Untouched (evaluate scope step (.call location callee arguments)) := by
  have hcalm := untouched_calm w₀
  cases callee with
  | member calleeLocation object property computed =>
    cases computed with
    | true => exact .of_keeps (hcalm.keeps_fail _ _)
    | false =>
      have hobject : Keeps w₀.Untouched w₀.Untouched (evaluate scope step object) :=
        evaluate_keepsPure hcalm object h.1
      have harguments : Keeps w₀.Untouched w₀.Untouched (evaluateAll scope step arguments) :=
        evaluateAll_keepsPure hcalm arguments h.2
      rw [evaluate_call]
      refine .bind (hcalm.keeps_propertyName property) fun method => ?_
      split
      · exact .of_keeps (hcalm.keeps_fail _ _)
      · refine .bind (keeps_globalReceiver? object) fun name? => ?_
        cases name? with
        | some name =>
          exact .bind harguments fun _ => .of_keeps (hcalm.keeps_callGlobal _ _ _ _)
        | none =>
          exact .bind hobject fun receiver => .bind harguments fun args =>
            callMethod_aborts w₀ object receiver method args location
  | _ => exact .of_keeps (hcalm.keeps_fail _ _)

/-- A write with pure operands that an error of the run stops has touched nothing. -/
theorem evaluate_aborts (w₀ : World) (node : Node) (h : node.HasPureOperands) :
    Aborts w₀.Untouched (evaluate scope step node) := by
  have hcalm := untouched_calm w₀
  cases node with
  | declarator location target init =>
    cases target with
    | identifier _ name =>
      exact .bind (evaluateOption_keepsPure hcalm init h) fun v =>
        ((define_onlyFaults _ name v).returning Value.undefined).aborts
    | _ => exact .of_keeps (hcalm.keeps_fail _ _)
  | update location operator leading argument =>
    cases argument with
    | identifier _ name =>
      refine .bind (hcalm.keeps_valueOf name _) fun v => .bind (hcalm.keeps_read _) fun old => ?_
      refine .bind (hcalm.keeps_read _) fun new => ?_
      exact Triple.bind (assign_aborts _ name (.number new) _) fun _ _ _ => trivial
    | _ => exact .of_keeps (hcalm.keeps_fail _ _)
  | assignment location operator left right =>
    exact assignment_aborts w₀ location operator left right h
  | call location callee arguments => exact call_aborts w₀ location callee arguments h
  | _ => exact h.elim

end

/-- A pure expression touches nothing, however its evaluation ends, and neither does a write with
pure operands that an error of the run stops. -/
theorem failing_write_untouched (scope : ScopeId) (step : Int) (w : World) :
    (∀ node : Node, node.IsPure → w.Untouched (stateAfter (evaluate scope step node w))) ∧
    ∀ (node : Node) (e : RunError) (w' : World), node.HasPureOperands →
      evaluate scope step node w = .error (.error e) w' → w.Untouched w' := by
  refine ⟨fun node hnode => ?_, fun node e w' hnode hrun => ?_⟩
  · exact (evaluate_keepsPure (untouched_calm w) node hnode).stateAfter (.refl w)
  · have haborts : Aborts w.Untouched (evaluate scope step node) := evaluate_aborts w node hnode
    have habort := haborts w (.refl w)
    rw [hrun] at habort
    exact habort.resolve_left id

/-- A scope inside the one where `s` is bound, to a sequence. -/
def enclosed : World where
  heap := { sequences := #[[.boolean true]] }
  scopes := ⟨#[{ bindings := [("s", { value := .sequence 0 })] }, { outer := [0] }]⟩

/-- The write `s["x"] = [s]`, whose key is no index. -/
def misplaced : Node :=
  .assignment .unknown "="
    (.member .unknown (.identifier .unknown "s") (.literal .unknown (.text "x") "\"x\"") true)
    (.array .unknown [some (.identifier .unknown "s")])

/-- The new sequence is made before the write is refused; `s` keeps its elements. -/
theorem failing_write_untouched_misplaced :
    misplaced.HasPureOperands ∧ ∃ e w', evaluate 1 4 misplaced enclosed = .error (.error e) w' ∧
      w'.heap.sequences = #[[.boolean true], [.sequence 0]] ∧ enclosed.Untouched w' := by
  have hpure : misplaced.HasPureOperands :=
    ⟨.of rfl .nil, .of rfl (.cons (.of rfl .nil) .nil)⟩
  obtain ⟨e, w', hrun, hmade⟩ : ∃ e w', evaluate 1 4 misplaced enclosed = .error (.error e) w' ∧
      w'.heap.sequences = #[[.boolean true], [.sequence 0]] := ⟨_, _, rfl, rfl⟩
  have huntouched := (failing_write_untouched 1 4 enclosed).2 misplaced e w' hpure hrun
  exact ⟨hpure, e, w', hrun, hmade, huntouched⟩

end Chronicle
