import Chronicle.Evaluation.Expression
import Chronicle.Proofs.Value.Faults

/-!
# Faults of operators, properties and methods

Numeric operators turn faults into an operator that does not apply, and methods turn those of values
into a call that fails.  `Fault.isUnhandled` lists the faults that come up where nothing does so:
each operator, property and method gives an error of the run or one of these (`binary_raises`,
`unary_raises`, `getProperty_raises`, `setProperty_raises`, `call_raises`, `callGlobal_raises`).
-/

set_option autoImplicit false

namespace Chronicle

/-- Faults that come up where no handler turns them into an error of the run. -/
def Fault.isUnhandled : Fault → Bool
  | .writtenDigits | .readDigits _ | .integerText 10 _ | .infinityToInteger | .integerToFloat
  | .indexSize | .textSize | .endlessNesting => true
  | _ => false

/-- An error of the run, or a fault that no handler turns into one. -/
def Stop.Allowed : Stop → Prop
  | .error _ => True
  | .fault f => f.isUnhandled = true

theorem Fault.OfWriting.isUnhandled {f : Fault} (h : f.OfWriting) : f.isUnhandled = true := by
  rcases h with rfl | rfl <;> rfl

/-! ## Operators -/

namespace Heap

variable (h : Heap)

theorem binary_raises (symbol : String) (a b : Value) :
    Raises Stop.Allowed (h.binary symbol a b) := by
  have htext : ∀ v, Raises (fun f => f.isUnhandled = true) (h.text v) :=
    fun v => (h.text_raises v).mono fun _ hf => hf.isUnhandled
  have hnumber : ∀ v, Raises (fun f => f.nature = .bound → f.isUnhandled = true) (h.toNumber v) :=
    fun v => (h.toNumber_raises v).mono fun _ hf _ => hf.isUnhandled
  unfold binary
  cases BinaryOp.ofSymbol? symbol with
  | none => exact .error trivial
  | some op =>
    cases op with
    | equality op => exact .orFault ((h.equality_of_text op (htext a) (htext b)).map _)
    | logic op => exact .ok _
    | arithmetic op =>
      dsimp only
      cases OperandClass.of symbol a.kind b.kind with
      | text =>
        exact .orFault ((htext a).bind fun _ _ => (htext b).bind fun _ _ => .pure _)
      | numeric =>
        refine .orOperatorError symbol a b ?_ fun _ _ _ => trivial
        refine (hnumber a).bind fun m _ => (hnumber b).bind fun n _ => ?_
        refine ((op.apply_range m n).mono fun f hf hbound => ?_).bind fun _ _ => .pure _
        rw [hf] at hbound
        cases hbound
    | relation op =>
      dsimp only
      cases OperandClass.of symbol a.kind b.kind with
      | text =>
        exact .orFault ((htext a).bind fun _ _ => (htext b).bind fun _ _ => .pure _)
      | numeric =>
        exact .orOperatorError symbol a b
          ((hnumber a).bind fun _ _ => (hnumber b).bind fun _ _ => .pure _) fun _ _ _ => trivial

theorem unary_raises (symbol : String) (v : Value) : Raises Stop.Allowed (h.unary symbol v) := by
  have hnumber := (h.toNumber_raises v).mono fun _ hf => hf.isUnhandled
  unfold unary
  cases UnaryOp.ofSymbol? symbol with
  | none => exact .error trivial
  | some op =>
    refine .orFault ?_
    cases op with
    | minus | plus => exact hnumber.bind fun _ _ => .pure _
    | complement =>
      exact hnumber.bind fun n _ =>
        (n.complement_raises.mono fun _ hf => hf ▸ rfl).bind fun _ _ => .pure _
    | not | typeOf | discard => exact .ok _

/-! ## Properties -/

theorem readDecimal_raises (s : String) :
    Raises (fun f => f.isUnhandled = true) (Number.readDecimal s) := by
  unfold Number.readDecimal
  dsimp only
  exact .ite (fun _ => .error rfl) fun _ => .ite (fun _ => .error rfl) fun _ => .ok _

theorem index?_raises (key : Value) : Raises (fun f => f.isUnhandled = true) key.index? := by
  cases key with
  | text s => exact .ite (fun _ => .ok _) fun _ => (readDecimal_raises s).map _
  | number n =>
    cases n with
    | int n => exact .ok _
    | float x =>
      unfold Value.index?
      dsimp only
      split <;> exact .ok _
  | _ => exact .ok _

theorem elementAt_raises (name : String) (key : Value) (length : Nat) (get : Nat → Option Value) :
    Raises (fun f => f.isUnhandled = true) (elementAt name key length get) := by
  refine .ite (fun _ => .pure _) fun _ => (index?_raises key).bind fun i _ => ?_
  cases i <;> exact .pure _

theorem getProperty_raises (receiver key : Value) (location : Option Location) :
    Raises Stop.Allowed (h.getProperty receiver key location) := by
  have htext := h.text_raises key
  unfold getProperty
  cases hname : h.text key with
  | error f => exact .error (htext f hname).isUnhandled
  | ok name =>
    have helement := elementAt_raises name key
    cases receiver with
    | sequence a =>
      dsimp only
      cases he : elementAt name key _ fun i => (h.items a)[i]? with
      | ok v => exact .ok v
      | error f => exact .error (helement _ _ f he)
    | text s =>
      dsimp only
      cases he : elementAt name key _ fun i => (s.toList[i]?).map fun c => .text (String.ofList [c])
        with
      | ok v => exact .ok v
      | error f => exact .error (helement _ _ f he)
    | null | undefined => exact .error trivial
    | _ => exact .ok _

theorem setProperty_raises (receiver key v : Value) (location : Option Location) :
    Raises Stop.Allowed (h.setProperty receiver key v location) := by
  have htext := h.text_raises key
  have hindex := index?_raises key
  unfold setProperty
  cases receiver with
  | record a =>
    dsimp only
    cases hname : h.text key with
    | ok name => exact .ok _
    | error f => exact .error (htext f hname).isUnhandled
  | sequence a =>
    dsimp only
    cases hi : key.index? with
    | error f => exact .error (hindex f hi)
    | ok i =>
      cases i with
      | some i => exact .ite (fun _ => .error rfl) fun _ => .ok _
      | none =>
        dsimp only
        cases hname : h.text key with
        | ok name => exact .error trivial
        | error f => exact .error (htext f hname).isUnhandled
  | _ =>
    dsimp only
    cases hname : h.text key with
    | ok name => exact .error trivial
    | error f => exact .error (htext f hname).isUnhandled

end Heap

/-! ## Increments and lengths -/

theorem stepNumber_raises (operator : String) (old : Number) :
    Raises (fun x => x.isUnhandled = true) (stepNumber operator old) := by
  have hlift : ∀ (f : Int → Int → Int) (g : Float → Float → Float),
      Raises (fun x => x.isUnhandled = true) (Number.lift f g old (.int 1)) :=
    fun f g => (Number.lift_raises f g old (.int 1)).mono fun _ hf => hf ▸ rfl
  unfold stepNumber
  dsimp only
  split
  · exact (hlift _ _).bind fun _ _ => .pure _
  · exact (hlift _ _).bind fun _ _ => .pure _

theorem sequenceLength?_raises (size : Value) :
    Raises (fun x => x.isUnhandled = true) (sequenceLength? size) := by
  cases size with
  | number n =>
    refine (n.toFloat_raises.mono fun _ hf => hf ▸ rfl).bind fun _ _ => .ite (fun hn => ?_)
      fun _ => .pure _
    have hintegral := n.truncate_raises_of_isIntegral (Bool.and_eq_true_iff.1 hn).1
    exact (hintegral.mono fun _ hf => hf.elim).bind fun _ _ =>
      .ite (fun _ => .error rfl) fun _ => .pure _
  | _ => exact .ok _

/-! ## Methods -/

/-- A fault that fails the call of a method, or passes it. -/
def Fault.OfMethod (f : Fault) : Prop :=
  Method.failsCall f = true ∨ f.isUnhandled = true

theorem Fault.OfWriting.ofMethod {f : Fault} (h : f.OfWriting) : f.OfMethod :=
  .inr h.isUnhandled

namespace Number

variable (n : Number)

theorem truncate_ofMethod : Raises Fault.OfMethod n.truncate := by
  refine n.truncate_raises.mono fun f hf => ?_
  rcases hf with ⟨rfl, -⟩ | ⟨rfl, -⟩
  · exact .inl rfl
  · exact .inr rfl

theorem text_ofMethod : Raises Fault.OfMethod n.text :=
  n.text_raises.mono fun _ hf => hf ▸ .inl rfl

theorem toFloat_ofMethod : Raises Fault.OfMethod n.toFloat :=
  n.toFloat_raises.mono fun _ hf => hf ▸ .inr rfl

theorem floatIsNaN_ofMethod : Raises Fault.OfMethod n.floatIsNaN :=
  n.floatIsNaN_raises.mono fun _ hf => hf ▸ .inr rfl

end Number

namespace Method

variable (h : Heap) (args : List Value)

theorem text_ofMethod (v : Value) : Raises Fault.OfMethod (h.text v) :=
  (h.text_raises v).mono fun _ hf => hf.ofMethod

theorem toNumber_ofMethod (v : Value) : Raises Fault.OfMethod (h.toNumber v) :=
  (h.toNumber_raises v).mono fun _ hf => hf.ofMethod

theorem position_raises (i length default : Nat) :
    Raises Fault.OfMethod (position h args i length default) := by
  have hresolve : ∀ v, Raises Fault.OfMethod (do
      let n ← h.toNumber v
      if (← n.floatIsNaN) then return 0
      return resolveIndex length (← n.truncate)) :=
    fun v => (toNumber_ofMethod h v).bind fun n _ => n.floatIsNaN_ofMethod.bind fun _ _ =>
      .ite (fun _ => .pure _) fun _ => n.truncate_ofMethod.bind fun _ _ => .pure _
  unfold position
  split
  · exact .pure _
  · exact .pure _
  · exact .pure _
  · exact hresolve _

theorem slice_raises {α : Type} (xs : List α) : Raises Fault.OfMethod (slice h args xs) :=
  (position_raises h args _ _ _).bind fun _ _ => (position_raises h args _ _ _).bind fun _ _ =>
    .pure _

theorem joined_raises (items : List Value) (separator : Value) :
    Raises Fault.OfMethod (OfSequence.joined h items separator) := by
  have hparts : ∀ s, Raises Fault.OfMethod (do
      let parts ← items.mapM fun v => if v.isNullish then .ok "" else h.text v
      return Text.join s parts) :=
    fun s => Raises.bind (.mapM fun v _ => .ite (fun _ => .ok _) fun _ => text_ofMethod h v)
      fun _ _ => .pure _
  unfold OfSequence.joined
  split
  · exact hparts _
  · exact (text_ofMethod h _).bind fun s _ => hparts s

theorem ofSequence_raises (a : Address) (method : OfSequence) :
    Raises Fault.OfMethod (method.apply h a args) := by
  cases method with
  | join => exact (joined_raises h _ _).bind fun _ _ => .pure _
  | slice => exact (slice_raises h args _).bind fun _ _ => .pure _
  | _ => exact .ok _

theorem replicated_raises (s : String) (count : Number) :
    Raises Fault.OfMethod (OfText.replicated s count) := by
  refine count.floatIsNaN_ofMethod.bind fun _ _ => .ite (fun _ => ?_) fun _ => ?_
  · exact count.text_ofMethod.bind fun _ _ => .error (.inl rfl)
  · refine count.truncate_ofMethod.bind fun _ _ => ?_
    exact .ite (fun _ => .error (.inr rfl)) fun _ => .ite (fun _ => .error (.inr rfl)) fun _ =>
      .ite (fun _ => .pure _) fun _ => .pure _

theorem ofText_raises (s : String) (method : OfText) :
    Raises Fault.OfMethod (method.apply h s args) := by
  cases method with
  | charAt =>
    exact (toNumber_ofMethod h _).bind fun n _ => n.truncate_ofMethod.bind fun _ _ => .pure _
  | indexOf | includes | startsWith | endsWith =>
    exact (text_ofMethod h _).bind fun _ _ => .pure _
  | split =>
    simp only [OfText.apply]
    split
    · exact .ok _
    · exact (text_ofMethod h _).bind fun _ _ => .pure _
  | concat => exact (Raises.mapM fun v _ => text_ofMethod h v).bind fun _ _ => .pure _
  | slice => exact (slice_raises h args _).bind fun _ _ => .pure _
  | replicate =>
    exact (toNumber_ofMethod h _).bind fun n _ => (replicated_raises s n).bind fun _ _ => .pure _
  | toUpperCase | toLowerCase | trim => exact .ok _

theorem fixed_raises (n places : Number) : Raises Fault.OfMethod (OfNumber.fixed n places) := by
  refine places.truncate_ofMethod.bind fun k _ => .ite (fun _ => ?_) fun _ => ?_
  · exact n.toFloat_ofMethod.bind fun _ _ => .pure _
  · exact ((Number.writeInt_raises k).mono fun _ hf => hf ▸ .inl rfl).bind fun _ _ =>
      .error (.inl rfl)

theorem inBase_raises (n base : Number) : Raises Fault.OfMethod (OfNumber.inBase n base) := by
  have hrest : ∀ (k : Int) (unsupported : Bool), Raises Fault.OfMethod
      (if unsupported then do
        .error (.radix (← Number.writeInt k))
      else do
        return Number.radixText k.toNat (← n.truncate)) :=
    fun k unsupported => .ite
      (fun _ => ((Number.writeInt_raises k).mono fun _ hf => hf ▸ .inl rfl).bind fun _ _ =>
        .error (.inl rfl))
      fun _ => n.truncate_ofMethod.bind fun _ _ => .pure _
  refine .ite (fun _ => n.text_ofMethod) fun _ => base.truncate_ofMethod.bind fun k _ => ?_
  dsimp only
  refine .ite (fun _ => ?_) fun _ => (Raises.pure true).bind fun b _ => hrest k b
  exact n.toFloat_ofMethod.bind fun _ _ => (Raises.pure _).bind fun b _ => hrest k b

theorem ofNumber_raises (n : Number) (method : OfNumber) :
    Raises Fault.OfMethod (method.apply h n args) := by
  cases method with
  | toFixed =>
    exact (toNumber_ofMethod h _).bind fun places _ =>
      (fixed_raises n places).bind fun _ _ => .pure _
  | toString =>
    simp only [OfNumber.apply]
    split
    · exact n.text_ofMethod.bind fun _ _ => .pure _
    · exact (toNumber_ofMethod h _).bind fun base _ =>
        (inBase_raises n base).bind fun _ _ => .pure _

theorem find?_raises {receiver : Value} {method : String} {r : Outcome}
    (hr : find? h receiver method args = some r) : Raises Fault.OfMethod r := by
  cases receiver with
  | sequence a =>
    obtain ⟨m, -, rfl⟩ := Option.map_eq_some_iff.1 hr
    exact ofSequence_raises h args a m
  | text s =>
    obtain ⟨m, -, rfl⟩ := Option.map_eq_some_iff.1 hr
    exact ofText_raises h args s m
  | number n =>
    obtain ⟨m, -, rfl⟩ := Option.map_eq_some_iff.1 hr
    exact ofNumber_raises h args n m
  | record a =>
    obtain ⟨m, -, rfl⟩ := Option.map_eq_some_iff.1 hr
    cases m with
    | hasOwnProperty => exact (text_ofMethod h _).bind fun _ _ => .pure _
  | boolean _ | null | undefined => cases hr

theorem call_raises (receiver : Value) (method : String) (location : Option Location) :
    Raises Stop.Allowed (call h receiver method args location) := by
  unfold call
  cases hr : find? h receiver method args with
  | none => exact .error trivial
  | some r =>
    have hfault := find?_raises h args hr
    cases r with
    | ok result => exact .ok result
    | error f =>
      refine .ite (fun _ => .error trivial) fun hf => .error ?_
      exact (hfault f rfl).resolve_left hf

/-- Functions of `Math` give special values back, so only the double of an integer can be
missing. -/
theorem mathFunction_raises (f : MathFunction) (n : Number) :
    Raises (· = Fault.integerToFloat) (f.apply n) := by
  have hfinite : Raises (· = Fault.integerToFloat) (f.atFinite n) := by
    cases f with
    | round => exact n.toFloat_raises.bind fun _ _ => .pure _
    | sqrt => exact .ite (fun _ => .ok _) fun _ => n.toFloat_raises.bind fun _ _ => .pure _
    | _ => exact .ok _
  exact n.floatIsNaN_raises.bind fun _ _ => .ite (fun _ => .pure _) fun _ =>
    hfinite.bind fun _ _ => .pure _

theorem callGlobal_raises (object method : String) (location : Option Location) :
    Raises Stop.Allowed (callGlobal h object method args location) := by
  have htext : ∀ v, Raises (fun f => f.isUnhandled = true) (h.text v) :=
    fun v => (h.text_raises v).mono fun _ hf => hf.isUnhandled
  have hnumber := (h.toNumber_raises (argument args 0)).mono fun _ hf => hf.isUnhandled
  unfold callGlobal
  dsimp only
  split
  · cases MathFunction.ofName? method with
    | none => exact .error trivial
    | some f =>
      exact .orFault (hnumber.bind fun n _ =>
        ((mathFunction_raises f n).mono fun _ hf => hf ▸ rfl).bind fun _ _ => .pure _)
  · refine .ite (fun _ => ?_) fun _ => .error trivial
    exact .orFault ((Raises.mapM fun v _ => htext v).bind fun _ _ => .pure _)
  · exact .error trivial

end Method

end Chronicle
