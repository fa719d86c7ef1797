import Chronicle.Evaluation.Property
import Chronicle.Method.Call
import Chronicle.Method.Global
import Chronicle.Operator.Unary
import Chronicle.Proofs.Value.Above

/-!
# Operators, properties and methods above other heaps

Where the heap lies does not show in what operators, properties and built-in methods give: on moved
values, they fail alike or give the moved result (`Above.binary_shift`, `Above.getProperty_shift`,
`Above.setProperty`, `Above.call`).
-/

set_option autoImplicit false

namespace Chronicle

/-- Both fail with the same error, or give related results. -/
inductive Matching {ε α β : Type} (R : α → β → Prop) : Except ε α → Except ε β → Prop
  | ok {a : α} {b : β} (h : R a b) : Matching R (.ok a) (.ok b)
  | error (e : ε) : Matching R (.error e) (.error e)

namespace Matching

variable {ε α β γ δ : Type} {R : α → β → Prop} {S : γ → δ → Prop}

theorem bind {e : Except ε α} {e' : Except ε β} {f : α → Except ε γ} {f' : β → Except ε δ}
    (he : Matching R e e') (hf : ∀ a b, R a b → Matching S (f a) (f' b)) :
    Matching S (e >>= f) (e' >>= f') := by
  cases he with
  | ok h => exact hf _ _ h
  | error e => exact .error e

/-- The same reading first. -/
theorem after (e : Except ε α) {f : α → Except ε γ} {f' : α → Except ε δ}
    (hf : ∀ a, Matching S (f a) (f' a)) : Matching S (e >>= f) (e >>= f') := by
  cases e with
  | ok a => exact hf a
  | error x => exact .error x

end Matching

/-! ## Results that stay where they are -/

/-- A result, if there is one, that is no sequence or record, or stays where it is. -/
def Fixed (below : Heap) {ε : Type} (e : Except ε Value) : Prop :=
  e.map below.shiftValue = e

namespace Fixed

variable {below : Heap} {ε α : Type}

theorem pure {v : Value} (hv : below.shiftValue v = v) : Fixed below (Pure.pure v : Except ε Value) :=
  congrArg Except.ok hv

theorem bind (e : Except ε α) {f : α → Except ε Value} (hf : ∀ a, Fixed below (f a)) :
    Fixed below (e >>= f) := by
  cases e with
  | ok a => exact hf a
  | error x => exact rfl

theorem orFault {e : Except Fault Value} (he : Fixed below e) :
    Fixed below (Chronicle.orFault e) := by
  cases e with
  | ok v => exact congrArg Except.ok (Except.ok.inj he)
  | error x => exact rfl

theorem orOperatorError {e : Except Fault Value} (he : Fixed below e) (symbol : String)
    (a b : Value) : Fixed below (Chronicle.orOperatorError symbol a b e) := by
  cases e with
  | ok v => exact congrArg Except.ok (Except.ok.inj he)
  | error x =>
    simp only [Chronicle.orOperatorError]
    cases x.nature == .bound <;> exact rfl

end Fixed

namespace Heap.Above

variable {below h h' : Heap} (ha : Above below h h')
include ha

/-! ## Operators -/

theorem equality_shift (op : Equality) (a b : Value) :
    op.apply h' (below.shiftValue a) (below.shiftValue b) = op.apply h a b := by
  cases op <;> simp only [Equality.apply, ha.looseEquals_shift, strictEquals_shiftValue]

omit ha in
theorem logic_shift (op : Logic) (a b : Value) :
    op.apply (below.shiftValue a) (below.shiftValue b) = below.shiftValue (op.apply a b) := by
  cases op
  all_goals
    simp only [Logic.apply, isTruthy_shiftValue, isNullish_shiftValue]
    split <;> rfl

omit ha in
theorem orOperatorError_shift {α : Type} (symbol : String) (a b : Value) (e : Except Fault α) :
    orOperatorError symbol (below.shiftValue a) (below.shiftValue b) e =
      orOperatorError symbol a b e := by
  cases e <;> simp only [orOperatorError, kind_shiftValue]

theorem binary_shift (symbol : String) (a b : Value) :
    h'.binary symbol (below.shiftValue a) (below.shiftValue b) =
      (h.binary symbol a b).map below.shiftValue := by
  unfold binary
  simp only [kind_shiftValue, ha.text_shift, ha.toNumber_shift, orOperatorError_shift]
  cases BinaryOp.ofSymbol? symbol with
  | none => rfl
  | some op =>
    cases op with
    | equality op =>
      dsimp only
      rw [ha.equality_shift]
      refine (Fixed.orFault (e := (op.apply h a b).map .boolean) ?_).symm
      cases op.apply h a b <;> exact rfl
    | logic op => exact congrArg Except.ok (logic_shift op a b)
    | arithmetic op =>
      cases OperandClass.of symbol a.kind b.kind with
      | text => exact (Fixed.orFault (.bind _ fun _ => .bind _ fun _ => .pure rfl)).symm
      | numeric =>
        refine (Fixed.orOperatorError (.bind _ fun _ => .bind _ fun _ => .bind _ fun _ => ?_)
          symbol a b).symm
        exact .pure rfl
    | relation op =>
      cases OperandClass.of symbol a.kind b.kind with
      | text => exact (Fixed.orFault (.bind _ fun _ => .bind _ fun _ => .pure rfl)).symm
      | numeric =>
        exact (Fixed.orOperatorError (.bind _ fun _ => .bind _ fun _ => .pure rfl) symbol a b).symm

theorem unary_shift (symbol : String) (v : Value) :
    h'.unary symbol (below.shiftValue v) = (h.unary symbol v).map below.shiftValue := by
  unfold unary
  cases UnaryOp.ofSymbol? symbol with
  | none => simp only [kind_shiftValue]; rfl
  | some op =>
    have hop : op.apply h' (below.shiftValue v) = op.apply h v := by
      cases op <;>
        simp only [UnaryOp.apply, ha.toNumber_shift, isTruthy_shiftValue, typeName_shiftValue]
    dsimp only
    rw [hop]
    refine (Fixed.orFault ?_).symm
    cases op with
    | minus | plus => exact .bind _ fun _ => .pure rfl
    | complement => exact .bind _ fun _ => .bind _ fun _ => .pure rfl
    | not | typeOf | discard => exact rfl

/-! ## Properties -/

omit ha in
@[simp] theorem index?_shift (v : Value) : (below.shiftValue v).index? = v.index? := by
  cases v <;> rfl

omit ha in
/-- An element by its index: both lists have the same length and hold moved elements. -/
theorem elementAt_shift (name : String) (key : Value) (length : Nat) (get : Nat → Option Value)
    {get' : Nat → Option Value} (hget : ∀ i, get' i = (get i).map below.shiftValue) :
    elementAt name (below.shiftValue key) length get' =
      (elementAt name key length get).map below.shiftValue := by
  unfold elementAt
  rw [index?_shift]
  cases name == "length" with
  | true => rfl
  | false =>
    simp only [Bool.false_eq_true, if_false]
    cases key.index? with
    | error f => rfl
    | ok i =>
      cases i with
      | none => rfl
      | some i =>
        show Except.ok ((get' i).getD .undefined) = Except.ok (below.shiftValue _)
        rw [hget]
        cases get i <;> rfl

theorem getProperty_shift (receiver key : Value) (location : Option Location) :
    h'.getProperty (below.shiftValue receiver) (below.shiftValue key) location =
      (h.getProperty receiver key location).map below.shiftValue := by
  unfold getProperty
  rw [ha.text_shift]
  cases h.text key with
  | error f => rfl
  | ok name =>
    cases receiver with
    | sequence a =>
      simp only [shiftValue_sequence, ha.items_shift, List.length_map]
      rw [elementAt_shift name key _ (fun i => (h.items a)[i]?) fun i => List.getElem?_map ..]
      cases elementAt name key _ fun i => (h.items a)[i]? <;> rfl
    | text s =>
      simp only [shiftValue_text]
      rw [elementAt_shift name key _
        (fun i => (s.toList[i]?).map fun c => .text (String.ofList [c])) fun i => ?_]
      · cases elementAt name key _ fun i => (s.toList[i]?).map fun c => .text (String.ofList [c]) <;>
          rfl
      · cases s.toList[i]? <;> rfl
    | record a =>
      simp only [shiftValue_record, ha.fields_shift, Fields.get?_shift]
      cases (h.fields a).get? name <;> rfl
    | number _ | boolean _ | null | undefined => rfl

omit ha in
theorem writeAt_shift (items : List Value) (i : Nat) (v : Value) :
    writeAt (items.map below.shiftValue) i (below.shiftValue v) =
      (writeAt items i v).map below.shiftValue := by
  unfold writeAt
  rw [List.length_map]
  split
  · rw [List.map_set]
  · simp only [List.map_append, List.map_replicate, List.map_cons, List.map_nil]
    rfl

theorem setProperty (receiver key v : Value) (location : Option Location) :
    Matching (Above below) (h.setProperty receiver key v location)
      (h'.setProperty (below.shiftValue receiver) (below.shiftValue key) (below.shiftValue v)
        location) := by
  unfold Heap.setProperty
  simp only [ha.text_shift, index?_shift]
  cases receiver with
  | record a =>
    simp only [shiftValue_record, ha.fields_shift, Fields.insert_shift]
    cases h.text key with
    | ok name => exact .ok (ha.setFields a _)
    | error f => exact .error _
  | sequence a =>
    simp only [shiftValue_sequence, ha.items_shift, List.length_map, writeAt_shift]
    cases key.index? with
    | error f => exact .error _
    | ok i =>
      cases i with
      | none => cases h.text key <;> exact .error _
      | some i =>
        dsimp only
        split
        · exact .error _
        · exact .ok (ha.setItems a _)
  | number _ | text _ | boolean _ | null | undefined =>
    cases h.text key <;> exact .error _

/-! ## Methods -/

omit ha in
theorem getD_shift (args : List Value) (i : Nat) (default : Value)
    (hd : below.shiftValue default = default) :
    (args.map below.shiftValue).getD i default = below.shiftValue (args.getD i default) := by
  simp only [List.getD_eq_getElem?_getD, List.getElem?_map]
  cases args[i]? with
  | none => exact hd.symm
  | some v => rfl

omit ha in
theorem argument_shift (args : List Value) (i : Nat) :
    Method.argument (args.map below.shiftValue) i = below.shiftValue (Method.argument args i) :=
  getD_shift args i .undefined rfl

theorem position_shift (args : List Value) (i length default : Nat) :
    Method.position h' (args.map below.shiftValue) i length default =
      Method.position h args i length default := by
  unfold Method.position
  rw [List.getElem?_map]
  cases args[i]? with
  | none => rfl
  | some v =>
    cases v with
    | sequence a =>
      have hnumber := ha.toNumber_shift (.sequence a)
      simp only [Option.map_some, shiftValue_sequence] at hnumber ⊢
      rw [hnumber]
    | _ => rfl

/-- The part of a list that two positions name is the same part of the moved list. -/
theorem slice_shift {α β : Type} (args : List Value) (xs : List α) (f : α → β) :
    Method.slice h' (args.map below.shiftValue) (xs.map f) =
      (Method.slice h args xs).map (·.map f) := by
  unfold Method.slice
  simp only [ha.position_shift, List.length_map]
  cases Method.position h args 0 xs.length 0 with
  | error e => rfl
  | ok start =>
    cases Method.position h args 1 xs.length xs.length with
    | error e => rfl
    | ok stop =>
      simp only [bind, Except.bind, Method.part, ← List.map_take, ← List.map_drop]
      rfl

theorem mapM_text_shift (args : List Value) :
    (args.map below.shiftValue).mapM h'.text = args.mapM h.text := by
  rw [List.mapM_map]
  congr 1
  exact funext ha.text_shift

omit ha in
theorem indexOf?_shift (items : List Value) (v : Value) :
    Method.OfSequence.indexOf? (items.map below.shiftValue) (below.shiftValue v) =
      Method.OfSequence.indexOf? items v := by
  unfold Method.OfSequence.indexOf?
  rw [List.findIdx?_map]
  congr 1
  funext u
  exact strictEquals_shiftValue below u v

theorem joined_shift (items : List Value) (separator : Value) :
    Method.OfSequence.joined h' (items.map below.shiftValue) (below.shiftValue separator) =
      Method.OfSequence.joined h items separator := by
  have hitem : (fun u => if u.isNullish then .ok "" else h'.text u) ∘ below.shiftValue =
      fun u => if u.isNullish then .ok "" else h.text u := by
    funext u
    simp only [Function.comp_apply, isNullish_shiftValue, ha.text_shift]
  unfold Method.OfSequence.joined
  rw [List.mapM_map, hitem]
  have htext := ha.text_shift separator
  cases separator with
  | undefined => rfl
  | _ =>
    dsimp only [shiftValue] at htext ⊢
    rw [htext]

theorem concatenated_shift (items args : List Value) :
    Method.OfSequence.concatenated h' (items.map below.shiftValue) (args.map below.shiftValue) =
      (Method.OfSequence.concatenated h items args).map below.shiftValue := by
  cases args with
  | nil => rfl
  | cons v rest =>
    cases v with
    | sequence a =>
      simp only [List.map_cons, shiftValue_sequence, Method.OfSequence.concatenated,
        ha.items_shift, List.map_append]
    | _ =>
      simp only [List.map_cons, Method.OfSequence.concatenated, List.map_append, List.map_nil]
      rfl

omit ha in
/-- A value and the heap after it, and the same moved up. -/
def Moved (below : Heap) (r r' : Value × Heap) : Prop :=
  r'.1 = below.shiftValue r.1 ∧ Above below r.2 r'.2

theorem ofSequence (a : Address) (args : List Value) (method : Method.OfSequence) :
    Matching (Moved below) (method.apply h a args)
      (method.apply h' (below.sequences.size + a) (args.map below.shiftValue)) := by
  have hitems := ha.items_shift a
  cases method with
  | push =>
    simp only [Method.OfSequence.apply, hitems, ← List.map_append, List.length_map]
    exact .ok ⟨rfl, ha.setItems a _⟩
  | pop =>
    simp only [Method.OfSequence.apply, hitems, ← List.map_dropLast, List.getLast?_map]
    exact .ok ⟨by cases (h.items a).getLast? <;> rfl, ha.setItems a _⟩
  | shift =>
    simp only [Method.OfSequence.apply, hitems, ← List.map_tail, List.head?_map]
    exact .ok ⟨by cases (h.items a).head? <;> rfl, ha.setItems a _⟩
  | unshift =>
    simp only [Method.OfSequence.apply, hitems, ← List.map_append, List.length_map]
    exact .ok ⟨rfl, ha.setItems a _⟩
  | indexOf =>
    simp only [Method.OfSequence.apply, hitems, argument_shift, indexOf?_shift]
    exact .ok ⟨rfl, ha⟩
  | includes =>
    simp only [Method.OfSequence.apply, hitems, argument_shift, indexOf?_shift]
    exact .ok ⟨rfl, ha⟩
  | join =>
    simp only [Method.OfSequence.apply, hitems, argument_shift, ha.joined_shift]
    exact .after _ fun _ => .ok ⟨rfl, ha⟩
  | concat =>
    simp only [Method.OfSequence.apply, hitems, ha.concatenated_shift]
    exact .ok (ha.newSequence _)
  | slice =>
    simp only [Method.OfSequence.apply, hitems, ha.slice_shift]
    cases Method.slice h args (h.items a) with
    | error f => exact .error f
    | ok items => exact .ok (ha.newSequence items)
  | reverse =>
    simp only [Method.OfSequence.apply, hitems, ← List.map_reverse]
    exact .ok ⟨rfl, ha.setItems a _⟩

omit ha in
theorem map_text_shift (pieces : List String) :
    (pieces.map Value.text).map below.shiftValue = pieces.map Value.text := by
  rw [List.map_map]
  rfl

theorem ofText (s : String) (args : List Value) (method : Method.OfText) :
    Matching (Moved below) (method.apply h s args)
      (method.apply h' s (args.map below.shiftValue)) := by
  cases method with
  | charAt | replicate =>
    simp only [Method.OfText.apply, getD_shift args 0 (.int 0) rfl, ha.toNumber_shift]
    exact .after _ fun _ => .after _ fun _ => .ok ⟨rfl, ha⟩
  | indexOf | includes | startsWith | endsWith =>
    simp only [Method.OfText.apply, argument_shift, ha.text_shift]
    exact .after _ fun _ => .ok ⟨rfl, ha⟩
  | split =>
    simp only [Method.OfText.apply, argument_shift]
    have htext := ha.text_shift (Method.argument args 0)
    cases hv : Method.argument args 0 with
    | undefined =>
      have hnew := ha.newSequence ((Method.OfText.pieces s none).map .text)
      rw [map_text_shift] at hnew
      exact .ok hnew
    | _ =>
      rw [hv] at htext
      dsimp only [shiftValue] at htext ⊢
      rw [htext]
      refine .after _ fun t => ?_
      have hnew := ha.newSequence ((Method.OfText.pieces s (some t)).map .text)
      rw [map_text_shift] at hnew
      exact .ok hnew
  | concat =>
    simp only [Method.OfText.apply, ha.mapM_text_shift]
    exact .after _ fun _ => .ok ⟨rfl, ha⟩
  | slice =>
    have hslice := ha.slice_shift args s.toList id
    simp only [List.map_id] at hslice
    simp only [Method.OfText.apply, hslice]
    cases Method.slice h args s.toList with
    | error f => exact .error f
    | ok cs => exact .ok ⟨rfl, ha⟩
  | toUpperCase | toLowerCase | trim => exact .ok ⟨rfl, ha⟩

theorem ofNumber (n : Number) (args : List Value) (method : Method.OfNumber) :
    Matching (Moved below) (method.apply h n args)
      (method.apply h' n (args.map below.shiftValue)) := by
  cases method with
  | toFixed =>
    simp only [Method.OfNumber.apply, getD_shift args 0 (.int 0) rfl, ha.toNumber_shift]
    exact .after _ fun _ => .after _ fun _ => .ok ⟨rfl, ha⟩
  | toString =>
    simp only [Method.OfNumber.apply, argument_shift]
    have hnumber := ha.toNumber_shift (Method.argument args 0)
    cases hv : Method.argument args 0 with
    | undefined => exact .after _ fun _ => .ok ⟨rfl, ha⟩
    | _ =>
      rw [hv] at hnumber
      dsimp only [shiftValue] at hnumber ⊢
      rw [hnumber]
      exact .after _ fun _ => .after _ fun _ => .ok ⟨rfl, ha⟩

theorem ofRecord (a : Address) (args : List Value) (method : Method.OfRecord) :
    Matching (Moved below) (method.apply h a args)
      (method.apply h' (below.records.size + a) (args.map below.shiftValue)) := by
  cases method with
  | hasOwnProperty =>
    simp only [Method.OfRecord.apply, argument_shift, ha.text_shift, ha.fields_shift,
      Fields.get?_shift, Option.isSome_map]
    exact .after _ fun _ => .ok ⟨rfl, ha⟩

/-- The method of a name, if there is one, gives the moved result on a moved receiver. -/
theorem find?_cases (receiver : Value) (method : String) (args : List Value) :
    (Method.find? h receiver method args = none ∧
        Method.find? h' (below.shiftValue receiver) method (args.map below.shiftValue) = none) ∨
      ∃ r r', Method.find? h receiver method args = some r ∧
        Method.find? h' (below.shiftValue receiver) method (args.map below.shiftValue) = some r' ∧
        Matching (Moved below) r r' := by
  cases receiver with
  | sequence a =>
    simp only [Method.find?, shiftValue_sequence]
    cases Method.OfSequence.ofName? method with
    | none => exact .inl ⟨rfl, rfl⟩
    | some m => exact .inr ⟨_, _, rfl, rfl, ha.ofSequence a args m⟩
  | text s =>
    simp only [Method.find?, shiftValue_text]
    cases Method.OfText.ofName? method with
    | none => exact .inl ⟨rfl, rfl⟩
    | some m => exact .inr ⟨_, _, rfl, rfl, ha.ofText s args m⟩
  | number n =>
    simp only [Method.find?, shiftValue]
    cases Method.OfNumber.ofName? method with
    | none => exact .inl ⟨rfl, rfl⟩
    | some m => exact .inr ⟨_, _, rfl, rfl, ha.ofNumber n args m⟩
  | record a =>
    simp only [Method.find?, shiftValue_record]
    cases Method.OfRecord.ofName? method with
    | none => exact .inl ⟨rfl, rfl⟩
    | some m => exact .inr ⟨_, _, rfl, rfl, ha.ofRecord a args m⟩
  | boolean _ | null | undefined => exact .inl ⟨rfl, rfl⟩

theorem call (receiver : Value) (method : String) (args : List Value)
    (location : Option Location) :
    Matching (Moved below) (Method.call h receiver method args location)
      (Method.call h' (below.shiftValue receiver) method (args.map below.shiftValue) location) := by
  unfold Method.call
  rw [kind_shiftValue]
  rcases ha.find?_cases receiver method args with ⟨hf, hf'⟩ | ⟨r, r', hf, hf', hr⟩
  · rw [hf, hf']
    exact .error _
  · rw [hf, hf']
    cases hr with
    | ok h => exact .ok h
    | error f =>
      dsimp only
      split <;> exact .error _

/-- Functions of global objects give numbers or lines of the log, which do not show where the heap
lies. -/
theorem callGlobal_shift (object method : String) (args : List Value)
    (location : Option Location) :
    Method.callGlobal h' object method (args.map below.shiftValue) location =
      Method.callGlobal h object method args location := by
  unfold Method.callGlobal
  simp only [argument_shift, ha.toNumber_shift, ha.mapM_text_shift]

end Heap.Above

theorem orFault_eq_ok {α : Type} {e : Except Fault α} {a : α} (h : orFault e = .ok a) :
    e = .ok a := by
  cases e with
  | ok b => exact congrArg Except.ok (Except.ok.inj h)
  | error f => cases h

/-- A function of a global object that gives a value gives a number. -/
theorem number_of_callGlobal {h : Heap} {object method : String} {args : List Value}
    {location : Option Location} {v : Value}
    (hv : Method.callGlobal h object method args location = .ok (.value v)) :
    ∃ n, v = .number n := by
  unfold Method.callGlobal at hv
  split at hv
  · cases hf : Method.MathFunction.ofName? method with
    | none =>
      rw [hf] at hv
      cases hv
    | some f =>
      rw [hf] at hv
      obtain ⟨n, -, hn⟩ := bind_eq_ok (orFault_eq_ok hv)
      obtain ⟨m, -, hm⟩ := bind_eq_ok hn
      cases hm
      exact ⟨m, rfl⟩
  · split at hv
    · obtain ⟨texts, -, htexts⟩ := bind_eq_ok (orFault_eq_ok hv)
      cases htexts
    · cases hv
  · cases hv

end Chronicle
