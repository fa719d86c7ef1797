import Chronicle.Proofs.Evaluation.Lasting
import Chronicle.Proofs.Operator.Class

/-!
# Compound assignments and what they abbreviate

`x op= e` is `x = x op e`, and `r.p op= e` is `r.p = r.p op e`: both read the target, leave out the
right side where the operator keeps its left operand, and write the target (`compound_expands`).
The two forms share the computation that `compound` names: a binary expression is its left side
followed by it (`evaluate_binary`), and the current value of a compound assignment is what the left
side of the binary expression gives.
-/

set_option autoImplicit false

namespace Chronicle

open Effect

section
variable {operator : String}

theorem operator_ne_plain (h : operator ≠ "") : operator ++ "=" ≠ "=" := by
  intro he
  have hlist := congrArg String.toList he
  rw [String.toList_append] at hlist
  exact h (String.toList_eq_nil_iff.1 (List.append_left_eq_self.1 hlist))

/-- What follows the current value of a compound assignment is what a binary operator makes of its
left operand. -/
theorem compound_operator (h : operator ≠ "") (current : Value) (right : Effect Value)
    (location : Location) :
    compound (operator ++ "=") current right location =
      (do
        if shortCircuits operator current then return current
        let v ← right
        applyBinary operator current v location) := by
  have hplain : (operator ++ "=" == "=") = false := beq_false_of_ne (operator_ne_plain h)
  have hsymbol : String.ofList (operator ++ "=").toList.dropLast = operator := by
    rw [String.toList_append]
    simp
  unfold compound
  rw [hplain, hsymbol]
  rfl

theorem compound_plain (current : Value) (right : Effect Value) (location : Location) :
    compound "=" current right location = right := rfl

theorem currentOf_plain (current : Effect Value) : currentOf "=" current = pure .undefined := rfl

theorem currentOf_operator (h : operator ≠ "") (current : Effect Value) :
    currentOf (operator ++ "=") current = current :=
  if_neg (by simpa using operator_ne_plain h)

section
variable (scope : ScopeId) (step : Int) (location : Location)

theorem evaluate_binary (h : operator ≠ "") (left right : Node) :
    evaluate scope step (.binary location operator left right) = (do
      let current ← evaluate scope step left
      compound (operator ++ "=") current (evaluate scope step right) location) := by
  simp only [evaluate, compound_operator h]

/-- A compound assignment to a variable. -/
theorem evaluate_compound_name (h : operator ≠ "") (targetLocation : Location) (name : String)
    (right : Node) :
    evaluate scope step
        (.assignment location (operator ++ "=") (.identifier targetLocation name) right) =
      evaluate scope step (.assignment location "=" (.identifier targetLocation name)
        (.binary location operator (.identifier targetLocation name) right)) := by
  have hread : evaluate scope step (.identifier targetLocation name) =
      valueOf scope name (some targetLocation) := rfl
  rw [evaluate_assign_name, evaluate_assign_name, evaluate_binary scope step location h, hread]
  simp only [currentOf_operator h, currentOf_plain, compound_plain, pure_bind, bind_assoc]

theorem evaluate_receiver {object : Node} {owner : String}
    (ho : object.receiverName? = some owner) :
    evaluate scope step object = valueOf scope owner (some object.location) := by
  cases object with
  | identifier l name =>
    cases ho
    rfl
  | thisValue l =>
    cases ho
    rfl
  | _ => cases ho

/-- A compound assignment to a property of a variable that holds a value. -/
theorem evaluate_compound_member (h : operator ≠ "") (targetLocation : Location)
    {object property : Node} {owner : String} (ho : object.receiverName? = some owner)
    (right : Node) {w : World} {b : Binding} (hb : w.scopes.lookup? scope owner = some b)
    (hvalue : b.value.isNullish = false) :
    evaluate scope step (.assignment location (operator ++ "=")
        (.member targetLocation object property false) right) w =
      evaluate scope step (.assignment location "=" (.member targetLocation object property false)
        (.binary location operator (.member targetLocation object property false) right)) w := by
  have hheld := valueOf_of_lookup? scope owner w hb (some object.location)
  have hreceiver : receiverOf b.value = pure b.value := by
    unfold receiverOf
    rw [hvalue]
    rfl
  rw [evaluate_assign_member _ _ _ _ _ _ _ _ _ ho, evaluate_assign_member _ _ _ _ _ _ _ _ _ ho,
    evaluate_binary scope step location h, evaluate_member, evaluate_receiver scope step ho,
    bind_of_ok hheld, bind_of_ok hheld, hreceiver, pure_bind, pure_bind]
  unfold keyOf propertyName
  cases property.name? with
  | none => rfl
  | some name =>
    simp only [Bool.false_eq_true, if_false, pure_bind, currentOf_operator h, currentOf_plain,
      compound_plain, bind_assoc]
    rw [bind_of_ok hheld]

end

end

/-! ## Decrements -/

theorem Number.subtract_one (n : Number) : ∃ m, n.subtract (.int 1) = .ok m := by
  cases n with
  | int i => exact ⟨_, rfl⟩
  | float x => exact ⟨_, rfl⟩

theorem Heap.binary_subtract {h : Heap} {v : Value} {n m : Number} (hn : h.toNumber v = .ok n)
    (hm : n.subtract (.int 1) = .ok m) : h.binary "-" v (.int 1) = .ok (.number m.normalize) := by
  have hop : BinaryOp.ofSymbol? "-" = some (.arithmetic .subtract) := by decide
  have hm : Arithmetic.subtract.apply n (.int 1) = .ok m := hm
  rw [Heap.binary_arithmetic hop h nofun, hn]
  show orOperatorError "-" v (.int 1) (do
    let k ← Arithmetic.subtract.apply n (.int 1)
    return Value.number k.normalize) = _
  rw [hm]
  rfl

/-- A decrement in front of a variable that holds a number, or what is coerced to one. -/
theorem evaluate_decrement {scope : ScopeId} (step : Int) {name : String} {w : World} {b : Binding}
    {n : Number} (hb : w.scopes.lookup? scope name = some b) (hn : w.heap.toNumber b.value = .ok n)
    (location argumentLocation location' targetLocation oneLocation : Location) (raw : String) :
    evaluate scope step (.update location "--" true (.identifier argumentLocation name)) w =
      evaluate scope step (.assignment location' "-=" (.identifier targetLocation name)
        (.literal oneLocation (.int 1) raw)) w := by
  obtain ⟨m, hm⟩ := n.subtract_one
  have hvalue := valueOf_of_lookup? scope name w hb
  have hbound : w.scopes.isBound scope name := Option.isSome_of_eq_some hb
  have hnumber := read_of_ok (f := fun h => h.toNumber b.value) w hn
  have hstep : stepNumber "--" n = .ok m.normalize := by
    unfold stepNumber
    rw [if_neg (by decide), hm]
    rfl
  have happly : applyBinary "-" b.value (.int 1) location' w = .ok (.number m.normalize) w := by
    unfold applyBinary
    rw [get_bind, Heap.binary_subtract hn hm]
    rfl
  have hwritten : ∀ l, (assign scope name (.number m.normalize) step l >>= fun _ =>
        pure (Value.number m.normalize)) w =
      (assign scope name (.number m.normalize) step none >>= fun _ =>
        pure (Value.number m.normalize)) w :=
    fun l => bind_eq_of_eq (assign_of_isBound scope name _ step w hbound l)
  have hupdate : evaluate scope step
      (.update location "--" true (.identifier argumentLocation name)) w =
      (assign scope name (.number m.normalize) step none >>= fun _ =>
        pure (Value.number m.normalize)) w := by
    show updateVariable scope name "--" true step location w = _
    unfold updateVariable
    rw [bind_of_ok (hvalue _), bind_of_ok hnumber, bind_of_ok (read_of_ok w hstep)]
    exact hwritten _
  have hassignment : evaluate scope step (.assignment location' "-="
      (.identifier targetLocation name) (.literal oneLocation (.int 1) raw)) w =
      (assign scope name (.number m.normalize) step none >>= fun _ =>
        pure (Value.number m.normalize)) w := by
    have hoperator : "-=" = "-" ++ "=" := rfl
    have hcompound : compound ("-" ++ "=") b.value
        (evaluate scope step (.literal oneLocation (.int 1) raw)) location' =
        applyBinary "-" b.value (.int 1) location' := by
      rw [compound_operator (by decide)]
      rfl
    rw [evaluate_assign_name, hoperator, currentOf_operator (by decide), bind_of_ok (hvalue _),
      hcompound, bind_of_ok happly]
    exact hwritten _
  rw [hupdate, hassignment]

/-! ## All three -/

/-- Where `r` is a variable that holds a value: a compound assignment gives the value or the error,
and leaves the world, of the assignment that it abbreviates.  Where a variable can be read as a
number, a decrement in front of it is the subtraction of one. -/
theorem compound_expands (scope : ScopeId) (step : Int) (w : World) :
    (∀ (operator : String) (location targetLocation : Location) (name : String) (right : Node),
      operator ≠ "" →
      evaluate scope step
          (.assignment location (operator ++ "=") (.identifier targetLocation name) right) w =
        evaluate scope step (.assignment location "=" (.identifier targetLocation name)
          (.binary location operator (.identifier targetLocation name) right)) w) ∧
    (∀ (operator : String) (location targetLocation : Location) (object property right : Node)
        (owner : String) (b : Binding),
      operator ≠ "" → object.receiverName? = some owner →
      w.scopes.lookup? scope owner = some b → b.value.isNullish = false →
      evaluate scope step (.assignment location (operator ++ "=")
          (.member targetLocation object property false) right) w =
        evaluate scope step (.assignment location "="
          (.member targetLocation object property false)
          (.binary location operator (.member targetLocation object property false) right)) w) ∧
    ∀ (location argumentLocation location' targetLocation oneLocation : Location)
        (name raw : String) (b : Binding) (n : Number),
      w.scopes.lookup? scope name = some b → w.heap.toNumber b.value = .ok n →
      evaluate scope step (.update location "--" true (.identifier argumentLocation name)) w =
        evaluate scope step (.assignment location' "-=" (.identifier targetLocation name)
          (.literal oneLocation (.int 1) raw)) w := by
  refine ⟨fun operator location targetLocation name right h => ?_,
    fun operator location targetLocation object property right owner b h howner hb hvalue => ?_,
    fun location argumentLocation location' targetLocation oneLocation name raw b n hb hn => ?_⟩
  · rw [evaluate_compound_name scope step location h targetLocation name right]
  · exact evaluate_compound_member scope step location h targetLocation howner right hb hvalue
  · exact evaluate_decrement step hb hn location argumentLocation location' targetLocation
      oneLocation raw

/-- A variable `x`, and a receiver that is a record. -/
def receiving : World where
  heap := { records := #[[("p", .boolean true)]] }
  scopes := ⟨#[{ bindings :=
    [("x", { value := .boolean true }), (thisName, { value := .record 0 })] }]⟩

/-- The expression `x = null`. -/
def clearing : Node :=
  .assignment .unknown "=" (.identifier .unknown "x") (.literal .unknown .null "null")

/-- The expression `this.p`. -/
def receivedProperty : Node :=
  .member .unknown (.thisValue .unknown) (.identifier .unknown "p") false

/-- The right sides `x = null` write the target of `x -= (x = null)`, and are left out of
`this.p ||= (x = null)`. -/
theorem compound_expands_clearing :
    evaluate 0 2 (.assignment .unknown ("-" ++ "=") (.identifier .unknown "x") clearing)
        receiving =
      evaluate 0 2 (.assignment .unknown "=" (.identifier .unknown "x")
        (.binary .unknown "-" (.identifier .unknown "x") clearing)) receiving ∧
    (∃ b, receiving.scopes.lookup? 0 thisName = some b ∧ b.value.isNullish = false ∧
      evaluate 0 2 (.assignment .unknown ("||" ++ "=") receivedProperty clearing) receiving =
        evaluate 0 2 (.assignment .unknown "=" receivedProperty
          (.binary .unknown "||" receivedProperty clearing)) receiving) ∧
    ∃ b n, receiving.scopes.lookup? 0 "x" = some b ∧ receiving.heap.toNumber b.value = .ok n ∧
      evaluate 0 2 (.update .unknown "--" true (.identifier .unknown "x")) receiving =
        evaluate 0 2 (.assignment .unknown "-=" (.identifier .unknown "x")
          (.literal .unknown (.int 1) "1")) receiving := by
  obtain ⟨hname, hmember, hdecrement⟩ := compound_expands 0 2 receiving
  exact ⟨hname _ _ _ _ _ (by decide),
    ⟨_, rfl, rfl, hmember _ _ _ _ _ _ thisName _ (by decide) rfl rfl rfl⟩,
    ⟨_, _, rfl, rfl, hdecrement _ _ _ _ _ _ _ _ _ rfl rfl⟩⟩

end Chronicle
