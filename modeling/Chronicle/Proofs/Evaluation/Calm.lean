import Chronicle.Proofs.Evaluation.Parts
import Chronicle.Proofs.Triple

/-!
# Reading, reporting and making

Most of what evaluation does writes nothing that is there already: it reads names and properties,
applies operators, reports one that does not apply, makes new sequences and records.  `Calm P E`:
the condition `P` on worlds survives all this, and `E` is what is left of it at a stop.  The single
effects of this kind keep a calm condition, and so do the parts of expressions made of them.
-/

set_option autoImplicit false

namespace Chronicle

open Effect

/-- Whether a report is that of a write stamped before the last recorded one. -/
def Notice.isLateWrite : Notice → Bool
  | .lateWrite .. => true
  | _ => false

/-- A condition on worlds that reports and new sequences and records keep, and what is left of it at
a stop. -/
structure Calm (P E : World → Prop) : Prop where
  stop : ∀ {w}, P w → E w
  note : ∀ {w n}, Notice.isLateWrite n = false → P w → P { w with log := w.log.push n }
  sequence : ∀ {w} (items : List Value), P w → P { w with heap := (w.heap.newSequence items).2 }
  record : ∀ {w} (fields : Fields), P w → P { w with heap := (w.heap.newRecord fields).2 }

/-! ## Looking at names -/

section
variable {scope : ScopeId} {P E : World → Prop}

theorem keeps_isBound (name : String) : Keeps P E (isBound scope name) :=
  keeps_bind keeps_get fun _ => keeps_pure _

theorem keeps_currentOf (operator : String) {current : Effect Value} (hc : Keeps P E current) :
    Keeps P E (currentOf operator current) :=
  keeps_ite (keeps_pure _) hc

theorem keeps_asksUnbound (operator : String) (argument : Node) :
    Keeps P E (asksUnbound scope operator argument) := by
  unfold asksUnbound
  cases argument.name? with
  | none => exact keeps_pure _
  | some name =>
    exact keeps_ite (keeps_bind (keeps_isBound name) fun _ => keeps_pure _) (keeps_pure _)

theorem keeps_globalReceiver? (object : Node) : Keeps P E (globalReceiver? scope object) := by
  unfold globalReceiver?
  cases object.name? with
  | none => exact keeps_pure _
  | some name =>
    exact keeps_bind (keeps_isBound name) fun _ => keeps_ite (keeps_pure _) (keeps_pure _)

end

namespace Calm

variable {scope : ScopeId} {P E : World → Prop} (hP : Calm P E)
include hP

/-! ## Single effects -/

theorem keeps_fail {α : Type} (cause : Cause) (location : Option Location) :
    Keeps P E (fail cause location : Effect α) :=
  keeps_throw (fun _ => hP.stop) _

theorem keeps_note {n : Notice} (hn : n.isLateWrite = false) : Keeps P E (Effect.note n) :=
  fun _ hw => hP.note hn hw

theorem keeps_lift {α : Type} : ∀ r : Except Stop α, Keeps P E (lift r)
  | .ok _ => keeps_pure _
  | .error _ => keeps_throw (fun _ => hP.stop) _

theorem keeps_read {α : Type} (f : Heap → Except Fault α) : Keeps P E (Effect.read f) := by
  unfold Effect.read
  refine keeps_bind keeps_get fun w => ?_
  split
  · exact keeps_pure _
  · exact keeps_throw (fun _ => hP.stop) _

theorem keeps_newSequence (items : List Value) : Keeps P E (newSequence items) :=
  fun _ hw => hP.sequence items hw

theorem keeps_newRecord (fields : Fields) : Keeps P E (newRecord fields) :=
  fun _ hw => hP.record fields hw

theorem keeps_valueOf (name : String) (location : Option Location) :
    Keeps P E (valueOf scope name location) := by
  unfold valueOf
  refine keeps_bind keeps_get fun w => ?_
  split
  · exact keeps_pure _
  · exact hP.keeps_fail _ _

theorem keeps_recoverOperator (location : Location) :
    ∀ r : Except Stop Value, Keeps P E (recoverOperator location r)
  | .ok _ => keeps_pure _
  | .error (.error _) => keeps_bind (hP.keeps_note rfl) fun _ => keeps_pure _
  | .error (.fault _) => keeps_throw (fun _ => hP.stop) _

theorem keeps_applyBinary (symbol : String) (left right : Value) (location : Location) :
    Keeps P E (applyBinary symbol left right location) :=
  keeps_bind keeps_get fun _ => hP.keeps_recoverOperator _ _

theorem keeps_applyUnary (symbol : String) (v : Value) (location : Location) :
    Keeps P E (applyUnary symbol v location) :=
  keeps_bind keeps_get fun _ => hP.keeps_recoverOperator _ _

theorem keeps_readProperty (receiver key : Value) (location : Location) :
    Keeps P E (readProperty receiver key location) :=
  keeps_bind keeps_get fun _ => hP.keeps_lift _

theorem keeps_callGlobal (object method : String) (args : List Value) (location : Location) :
    Keeps P E (callGlobal object method args location) := by
  refine keeps_bind keeps_get fun _ => keeps_bind (hP.keeps_lift _) fun r => ?_
  cases r with
  | value v => exact keeps_pure _
  | logged line => exact keeps_bind (hP.keeps_note rfl) fun _ => keeps_pure _

/-! ## Parts of expressions -/

theorem keeps_compound (operator : String) (current : Value) {right : Effect Value}
    (location : Location) (hr : Keeps P E right) :
    Keeps P E (compound operator current right location) :=
  keeps_ite hr <| keeps_ite (keeps_pure _) <|
    keeps_bind hr fun _ => hP.keeps_applyBinary _ _ _ _

theorem keeps_propertyName (property : Node) : Keeps P E (propertyName property) := by
  unfold propertyName
  split
  · exact keeps_pure _
  · exact keeps_throw (fun _ => hP.stop) _

theorem keeps_keyOf {computed : Bool} {key : Effect Value} (hk : Keeps P E key) (property : Node) :
    Keeps P E (keyOf computed key property) :=
  keeps_ite hk <| keeps_bind (hP.keeps_propertyName property) fun _ => keeps_pure _

theorem keeps_receiverOf (held : Value) : Keeps P E (receiverOf held) :=
  keeps_ite (hP.keeps_newRecord []) (keeps_pure held)

theorem keeps_fieldName {computed : Bool} {value : Effect Value} (hv : Keeps P E value)
    (key : Node) : Keeps P E (fieldName computed value key) := by
  refine keeps_ite (keeps_bind hv fun _ => hP.keeps_read _) ?_
  cases key with
  | identifier _ name => exact keeps_pure name
  | literal _ k _ => exact hP.keeps_read _
  | _ => exact hP.keeps_fail _ _

end Calm

end Chronicle
