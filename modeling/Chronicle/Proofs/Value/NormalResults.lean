import Chronicle.Evaluation.Expression
import Chronicle.Proofs.Value.Faults
import Chronicle.Proofs.Value.Normal

/-!
# Normal results

Numerals, coercions, arithmetic, steps and the functions of `Math` give numbers in normal form.
Operators, properties and methods give normal values on normal operands, and the heaps they leave
uphold those they found (`setProperty_upholds`, `call_normal`).
-/

set_option autoImplicit false

namespace Chronicle

/-! ## Numbers -/

/-- A numeral denotes an integer, or a number that is normalized. -/
theorem Number.ofLiteral_isNormal (literal : String) : Yields (ofLiteral literal) IsNormal := by
  refine .ite (.map fun n _ => isNormal_int n) ?_
  split
  · exact .pure (isNormal_int _)
  · split
    · exact .pure (isNormal_normalize _)
    · exact .throw _

/-- Every coercion to a number normalizes. -/
theorem Heap.toNumber_isNormal (h : Heap) (v : Value) : Yields (h.toNumber v) Number.IsNormal := by
  cases v with
  | number n => exact .pure n.isNormal_normalize
  | boolean b => exact .pure (Number.isNormal_ofBool b)
  | null => exact .pure (Number.isNormal_int 0)
  | text s => exact .pure (Number.isNormal_ofText s)
  | sequence a => exact .map fun s _ => Number.isNormal_ofText s
  | undefined | record _ => exact .pure Number.isNormal_nan

theorem Number.complement_isNormal (n : Number) : Yields n.complement IsNormal := by
  unfold complement
  exact .after _ fun _ => .after _ fun _ => .pure (isNormal_int _)

theorem stepNumber_isNormal (operator : String) (old : Number) :
    Yields (stepNumber operator old) Number.IsNormal := by
  unfold stepNumber
  exact .ite (.after _ fun new => .pure new.isNormal_normalize)
    (.after _ fun new => .pure new.isNormal_normalize)

/-- Special values are in normal form already, and all others are brought to it. -/
theorem Method.MathFunction.apply_isNormal (f : MathFunction) {n : Number} (hn : n.IsNormal) :
    Yields (f.apply n) Number.IsNormal := by
  unfold apply
  exact .after _ fun _ => .ite (.pure hn) (.after _ fun m => .pure m.isNormal_normalize)

namespace Heap

variable {h : Heap}

/-! ## Operators -/

theorem yields_orFault {α : Type} {e : Except Fault α} {P : α → Prop} (he : Yields e P) :
    Yields (orFault e) P := by
  cases e with
  | ok a => exact .pure (he a rfl)
  | error f => exact .throw _

theorem yields_orOperatorError {α : Type} {e : Except Fault α} {P : α → Prop} (symbol : String)
    (a b : Value) (he : Yields e P) : Yields (orOperatorError symbol a b e) P := by
  cases e with
  | ok x => exact .pure (he x rfl)
  | error f => exact .ite (.throw _) (.throw _)

/-- A logical operator chooses an operand, and all others make a value of their own. -/
theorem binary_normal (symbol : String) {a b : Value} (ha : h.Normal a) (hb : h.Normal b) :
    Yields (h.binary symbol a b) h.Normal := by
  unfold binary
  cases BinaryOp.ofSymbol? symbol with
  | none => exact .throw _
  | some op =>
    cases op with
    | equality op => exact yields_orFault (.map fun b _ => normal_boolean b)
    | logic op =>
      refine .pure ?_
      unfold Logic.apply
      split <;> split <;> first | exact ha | exact hb
    | arithmetic op =>
      cases OperandClass.of symbol a.kind b.kind with
      | text => exact yields_orFault (.after _ fun _ => .after _ fun _ => .pure (normal_text _))
      | numeric =>
        exact yields_orOperatorError symbol a b <| .after _ fun _ => .after _ fun _ =>
          .after _ fun n => .pure (normal_number.2 n.isNormal_normalize)
    | relation op =>
      cases OperandClass.of symbol a.kind b.kind with
      | text => exact yields_orFault (.after _ fun _ => .after _ fun _ => .pure (normal_boolean _))
      | numeric =>
        exact yields_orOperatorError symbol a b <| .after _ fun _ => .after _ fun _ =>
          .pure (normal_boolean _)

theorem unary_normal (h : Heap) (symbol : String) (v : Value) :
    Yields (h.unary symbol v) h.Normal := by
  unfold unary
  cases UnaryOp.ofSymbol? symbol with
  | none => exact .throw _
  | some op =>
    refine yields_orFault ?_
    cases op with
    | minus => exact .after _ fun n => .pure (normal_number.2 n.negate.isNormal_normalize)
    | plus => exact (h.toNumber_isNormal v).bind fun n hn => .pure (normal_number.2 hn)
    | not => exact .pure (normal_boolean _)
    | complement =>
      exact .after _ fun n => n.complement_isNormal.bind fun m hm => .pure (normal_number.2 hm)
    | typeOf => exact .pure (normal_text _)
    | discard => exact .pure normal_undefined

/-! ## Properties -/

theorem elementAt_normal (name : String) (key : Value) (length : Nat) {get : Nat → Option Value}
    (hget : ∀ i v, get i = some v → h.Normal v) :
    Yields (elementAt name key length get) h.Normal := by
  unfold elementAt
  refine .ite (.pure (normal_int _)) (.after _ fun i? => ?_)
  cases i? with
  | none => exact .pure normal_undefined
  | some i =>
    refine .pure ?_
    cases hi : get i with
    | none => exact normal_undefined
    | some v => exact hget i v hi

theorem getProperty_normal {receiver : Value} (hr : h.Normal receiver) (key : Value)
    (location : Option Location) : Yields (h.getProperty receiver key location) h.Normal := by
  unfold getProperty
  cases h.text key with
  | error f => exact .throw _
  | ok name =>
    cases receiver with
    | null | undefined => exact .throw _
    | number _ | boolean _ => exact .pure normal_undefined
    | sequence a =>
      have helement : Yields (elementAt name key (h.items a).length ((h.items a)[·]?)) h.Normal :=
        elementAt_normal name key _ fun i v hv => hr.item (List.mem_of_getElem? hv)
      dsimp only
      cases he : elementAt name key (h.items a).length ((h.items a)[·]?) with
      | ok v => exact .pure (helement v he)
      | error f => exact .throw _
    | text s =>
      dsimp only
      cases he : elementAt name key s.toList.length fun i =>
        (s.toList[i]?).map fun c => .text (String.ofList [c]) with
      | ok v =>
        refine .pure (elementAt_normal name key _ (fun i v hv => ?_) v he)
        obtain ⟨c, -, rfl⟩ := Option.map_eq_some_iff.1 hv
        exact normal_text _
      | error f => exact .throw _
    | record a =>
      refine .pure ?_
      cases hv : (h.fields a).get? name with
      | none => exact normal_undefined
      | some v => exact hr.field (Fields.mem_of_get? hv)

theorem mem_writeAt {items : List Value} {i : Nat} {v u : Value} (hu : u ∈ writeAt items i v) :
    u = v ∨ u = .undefined ∨ u ∈ items := by
  unfold writeAt at hu
  split at hu
  · rcases List.mem_or_eq_of_mem_set hu with hu | hu
    · exact .inr (.inr hu)
    · exact .inl hu
  · simp only [List.mem_append, List.mem_replicate, List.mem_singleton] at hu
    rcases hu with (hu | hu) | hu
    · exact .inr (.inr hu)
    · exact .inr (.inl hu.2)
    · exact .inl hu

/-- A write of a normal value upholds the heap. -/
theorem setProperty_upholds {receiver v : Value} (hr : h.Normal receiver) (key : Value)
    (hv : h.Normal v) (location : Option Location) :
    Yields (h.setProperty receiver key v location) h.Upholds := by
  unfold setProperty
  cases receiver with
  | record a =>
    dsimp only
    cases h.text key with
    | error f => exact .throw _
    | ok name =>
      refine .pure (upholds_setFields fun field hf => ?_)
      rcases Fields.mem_insert hf with he | hf
      · exact he ▸ hv
      · exact hr.field hf
  | sequence a =>
    dsimp only
    cases key.index? with
    | error f => exact .throw _
    | ok i? =>
      cases i? with
      | none => cases h.text key <;> exact .throw _
      | some i =>
        refine .ite (.throw _) (.pure (upholds_setItems fun u hu => ?_))
        rcases mem_writeAt hu with rfl | rfl | hu
        · exact hv
        · exact normal_undefined
        · exact hr.item hu
  | number _ | text _ | boolean _ | null | undefined => cases h.text key <;> exact .throw _

end Heap

/-! ## Methods -/

namespace Method

open Heap

variable {h : Heap} {args : List Value}

/-- A normal value of a heap that upholds `h`. -/
def NormalResult (h : Heap) (r : Value × Heap) : Prop :=
  h.Upholds r.2 ∧ r.2.Normal r.1

theorem normalResult_same {v : Value} (hv : h.Normal v) : NormalResult h (v, h) :=
  ⟨.refl h, hv⟩

theorem normalResult_setItems {a : Address} {items : List Value} {v : Value}
    (hitems : ∀ u ∈ items, h.Normal u) (hv : h.Normal v) : NormalResult h (v, h.setItems a items) :=
  ⟨upholds_setItems hitems, upholds_setItems hitems v hv⟩

theorem slice_mem {α : Type} (h : Heap) (args : List Value) (xs : List α) :
    Yields (slice h args xs) fun ys => ∀ y ∈ ys, y ∈ xs :=
  .after _ fun _ => .after _ fun _ => .pure fun _ hy => List.mem_of_mem_take (List.mem_of_mem_drop hy)

theorem mem_concatenated {items : List Value} (hitems : ∀ v ∈ items, h.Normal v)
    (hargs : ∀ v ∈ args, h.Normal v) : ∀ v ∈ OfSequence.concatenated h items args, h.Normal v := by
  cases args with
  | nil => exact hitems
  | cons v rest =>
    have hv : h.Normal v := hargs v List.mem_cons_self
    intro u hu
    cases v with
    | sequence a =>
      rcases List.mem_append.1 hu with hu | hu
      · exact hitems u hu
      · exact hv.item hu
    | number _ | text _ | boolean _ | null | undefined | record _ =>
      rcases List.mem_append.1 hu with hu | hu
      · exact hitems u hu
      · cases List.mem_singleton.1 hu
        exact hv

theorem ofSequence_normal {a : Address} (ha : h.Normal (.sequence a))
    (hargs : ∀ v ∈ args, h.Normal v) (method : OfSequence) :
    Yields (method.apply h a args) (NormalResult h) := by
  have hitems : ∀ v ∈ h.items a, h.Normal v := fun v hv => ha.item hv
  cases method with
  | push =>
    refine .pure (normalResult_setItems (fun u hu => ?_) (normal_int _))
    exact (List.mem_append.1 hu).elim (hitems u) (hargs u)
  | unshift =>
    refine .pure (normalResult_setItems (fun u hu => ?_) (normal_int _))
    exact (List.mem_append.1 hu).elim (hargs u) (hitems u)
  | pop =>
    refine .pure (normalResult_setItems (fun u hu => hitems u (List.mem_of_mem_dropLast hu)) ?_)
    cases hl : (h.items a).getLast? with
    | none => exact normal_undefined
    | some v => exact hitems v (List.mem_of_getLast? hl)
  | shift =>
    refine .pure (normalResult_setItems (fun u hu => hitems u (List.mem_of_mem_tail hu)) ?_)
    cases hl : (h.items a).head? with
    | none => exact normal_undefined
    | some v => exact hitems v (List.mem_of_mem_head? hl)
  | reverse =>
    exact .pure (normalResult_setItems (fun u hu => hitems u (List.mem_reverse.1 hu)) ha)
  | indexOf => exact .pure (normalResult_same (normal_int _))
  | includes => exact .pure (normalResult_same (normal_boolean _))
  | join => exact .after _ fun _ => .pure (normalResult_same (normal_text _))
  | concat => exact .pure (newSequence_normal (mem_concatenated hitems hargs))
  | slice =>
    exact (slice_mem h args (h.items a)).bind fun items hi =>
      .pure (newSequence_normal fun v hv => hitems v (hi v hv))

theorem ofText_normal (h : Heap) (args : List Value) (s : String) (method : OfText) :
    Yields (method.apply h s args) (NormalResult h) := by
  have hpieces : ∀ pieces : List String, NormalResult h (h.newSequence (pieces.map .text)) := by
    intro pieces
    refine newSequence_normal fun v hv => ?_
    obtain ⟨t, -, rfl⟩ := List.mem_map.1 hv
    exact normal_text t
  cases method with
  | charAt | replicate =>
    exact .after _ fun _ => .after _ fun _ => .pure (normalResult_same (normal_text _))
  | indexOf => exact .after _ fun _ => .pure (normalResult_same (normal_int _))
  | includes | startsWith | endsWith =>
    exact .after _ fun _ => .pure (normalResult_same (normal_boolean _))
  | split =>
    unfold OfText.apply
    dsimp only
    split
    · exact .pure (hpieces _)
    · exact .after _ fun _ => .pure (hpieces _)
  | concat | slice => exact .after _ fun _ => .pure (normalResult_same (normal_text _))
  | toUpperCase | toLowerCase | trim => exact .pure (normalResult_same (normal_text _))

theorem ofNumber_normal (h : Heap) (args : List Value) (n : Number) (method : OfNumber) :
    Yields (method.apply h n args) (NormalResult h) := by
  cases method with
  | toFixed => exact .after _ fun _ => .after _ fun _ => .pure (normalResult_same (normal_text _))
  | toString =>
    unfold OfNumber.apply
    dsimp only
    split
    · exact .after _ fun _ => .pure (normalResult_same (normal_text _))
    · exact .after _ fun _ => .after _ fun _ => .pure (normalResult_same (normal_text _))

theorem ofRecord_normal (h : Heap) (args : List Value) (a : Address) (method : OfRecord) :
    Yields (method.apply h a args) (NormalResult h) := by
  cases method with
  | hasOwnProperty => exact .after _ fun _ => .pure (normalResult_same (normal_boolean _))

/-- A method gives a normal value on a normal receiver with normal arguments. -/
theorem call_normal {receiver : Value} (hr : h.Normal receiver) (hargs : ∀ v ∈ args, h.Normal v)
    (method : String) (location : Option Location) :
    Yields (call h receiver method args location) (NormalResult h) := by
  have hfind : ∀ outcome, find? h receiver method args = some outcome →
      Yields outcome (NormalResult h) := by
    intro outcome ho
    cases receiver with
    | sequence a =>
      obtain ⟨m, -, rfl⟩ := Option.map_eq_some_iff.1 ho
      exact ofSequence_normal hr hargs m
    | text s =>
      obtain ⟨m, -, rfl⟩ := Option.map_eq_some_iff.1 ho
      exact ofText_normal h args s m
    | number n =>
      obtain ⟨m, -, rfl⟩ := Option.map_eq_some_iff.1 ho
      exact ofNumber_normal h args n m
    | record a =>
      obtain ⟨m, -, rfl⟩ := Option.map_eq_some_iff.1 ho
      exact ofRecord_normal h args a m
    | boolean _ | null | undefined => cases ho
  unfold call
  cases ho : find? h receiver method args with
  | none => exact .throw _
  | some outcome =>
    cases outcome with
    | ok r => exact .pure (hfind _ ho r rfl)
    | error f => exact .ite (.throw _) (.throw _)

/-- The value of a function of `Math` is a number in normal form. -/
theorem callGlobal_normal (h : Heap) (object method : String) (args : List Value)
    (location : Option Location) :
    Yields (callGlobal h object method args location) fun r => ∀ v, r = .value v → h.Normal v := by
  unfold callGlobal
  dsimp only
  split
  · split
    · exact .throw _
    · rename_i f _
      refine yields_orFault ((h.toNumber_isNormal _).bind fun n hn =>
        (f.apply_isNormal hn).bind fun m hm => .pure ?_)
      rintro _ ⟨⟩
      exact normal_number.2 hm
  · refine .ite (yields_orFault (.after _ fun _ => .pure ?_)) (.throw _)
    rintro _ ⟨⟩
  · exact .throw _

end Method

end Chronicle
