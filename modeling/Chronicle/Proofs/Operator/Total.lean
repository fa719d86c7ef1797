import Chronicle.Evaluation.Expression
import Chronicle.Proofs.Operator.Class
import Chronicle.Proofs.Value.Cycles
import Chronicle.Proofs.Value.Faults
import Chronicle.Proofs.Value.NormalResults

/-!
# Results of binary operators

A binary operator gives a value of its kind (`BinaryOp.Gives`): equalities and orders a truth value,
logical operators an operand, sums of texts a text, and everything else a number in normal form, a
word where it works on words.  Operators that coerce their operands read them as numbers or texts, and
no value that contains itself can be read.  On moderate values that is all that can go wrong
(`binary_total`).
-/

set_option autoImplicit false

namespace Chronicle

-- powers of naturals and integers are repeated products
attribute [local instance (high)] instPowNat

/-! ## What operators give -/

/-- Whether an equality goes by the primitives of its operands. -/
def Equality.coerces : Equality → Value → Value → Bool
  | .loose, a, b | .notLoose, a, b => a.kind != b.kind && !(a.isNullish || b.isNullish)
  | .strict, _, _ | .notStrict, _, _ => false

/-- Whether an operator reads its operands as numbers or texts. -/
def BinaryOp.coerces : BinaryOp → Value → Value → Bool
  | .arithmetic _, _, _ | .relation _, _, _ => true
  | .equality op, a, b => op.coerces a b
  | .logic _, _, _ => false

/-- The range of an operator: the signed words, the unsigned words, or all numbers. -/
def Arithmetic.InRange : Arithmetic → Number → Prop
  | .bitAnd, n | .bitOr, n | .bitXor, n | .shiftLeft, n | .shiftRight, n =>
    ∃ k : Int, n = .int k ∧ -2 ^ 31 ≤ k ∧ k < 2 ^ 31
  | .shiftRightZero, n => ∃ k : Int, n = .int k ∧ 0 ≤ k ∧ k < 2 ^ 32
  | _, _ => True

/-- `v` is what an operator, written `symbol`, may give on `a` and `b`. -/
def BinaryOp.Gives (h : Heap) (symbol : String) (a b v : Value) : BinaryOp → Prop
  | .equality _ | .relation _ => v.kind = .boolean
  | .logic _ =>
    (shortCircuits symbol a = true → v = a) ∧ (shortCircuits symbol a = false → v = b)
  | .arithmetic op =>
    (op = .add ∧ (a.IsTextual ∨ b.IsTextual) →
      ∃ s t, h.text a = .ok s ∧ h.text b = .ok t ∧ v = .text (s ++ t)) ∧
    (¬ (op = .add ∧ (a.IsTextual ∨ b.IsTextual)) →
      ∃ n, v = .number n ∧ n.IsNormal ∧ op.InRange n)

theorem symbol_of_logic {symbol : String} {op : Logic}
    (hop : BinaryOp.ofSymbol? symbol = some (.logic op)) :
    symbol = "&&" ∧ op = .both ∨ symbol = "||" ∧ op = .either ∨ symbol = "??" ∧ op = .coalesce := by
  obtain ⟨before, after, hsplit, -⟩ := List.lookup_eq_some_iff.1 hop
  have hmem : (symbol, BinaryOp.logic op) ∈ BinaryOp.symbols := by
    rw [hsplit]
    exact List.mem_append_right before List.mem_cons_self
  simpa [BinaryOp.symbols] using hmem

/-- Where the right operand is not evaluated, the operator chooses the left one; otherwise it chooses
the right one. -/
theorem Logic.apply_eq {symbol : String} {op : Logic}
    (hop : BinaryOp.ofSymbol? symbol = some (.logic op)) (a b : Value) :
    op.apply a b = if shortCircuits symbol a then a else b := by
  unfold shortCircuits
  rcases symbol_of_logic hop with ⟨rfl, rfl⟩ | ⟨rfl, rfl⟩ | ⟨rfl, rfl⟩
  · cases ha : a.isTruthy <;> simp [Logic.apply, ha]
  · cases ha : a.isTruthy <;> simp [Logic.apply, ha]
  · cases ha : a.isNullish <;> simp [Logic.apply, ha]

/-! ## Ranges -/

/-- Operators on words give words, whatever their operands. -/
theorem Arithmetic.inRange_normalize (op : Arithmetic) (m n : Number) :
    Yields (op.apply m n) fun r => op.InRange r.normalize := by
  have hsigned : ∀ {e : Except Fault Int}, Yields e (fun k => -2 ^ 31 ≤ k ∧ k < 2 ^ 31) →
      Yields (do return Number.int (← e) : Except Fault Number) fun r =>
        ∃ k : Int, r.normalize = .int k ∧ -2 ^ 31 ≤ k ∧ k < 2 ^ 31 :=
    fun he => he.bind fun k hk => .pure ⟨k, rfl, hk⟩
  cases op with
  | bitAnd | bitOr | bitXor =>
    exact .after _ fun _ => .after _ fun _ => hsigned (Number.toInt32_bounds _)
  | shiftLeft => exact .after _ fun _ => .after _ fun _ => hsigned (Number.toInt32_bounds _)
  | shiftRight =>
    refine m.toInt32_bounds.bind fun x hx => .after _ fun k => .pure ⟨_, rfl, ?_⟩
    exact Number.shiftRight_bounds hx k
  | shiftRightZero =>
    refine m.toUInt32_bounds.bind fun x hx => .after _ fun k => .pure ⟨_, rfl, ?_⟩
    exact Number.shiftRightZero_bounds hx k
  | add | subtract | multiply | divide | remainder | power => exact fun _ _ => trivial

namespace Heap

variable (h : Heap)

/-! ## Readings of values that do not contain themselves -/

theorem acyclic_of_kind_ne {v : Value} (hv : v.kind ≠ .sequence) : h.Acyclic v := by
  have hnone : ∀ u, ¬ h.IsElement u v := by
    rintro u ⟨a, rfl, -⟩
    exact hv rfl
  intro u hu hcycle
  rcases Relation.reflTransGen_iff_eq_or_transGen.1 hu with rfl | hu
  · obtain ⟨w, -, hw⟩ := Relation.TransGen.tail'_iff.1 hcycle
    exact hnone w hw
  · obtain ⟨w, -, hw⟩ := Relation.TransGen.tail'_iff.1 hu
    exact hnone w hw

/-- A value that can be read as a number does not contain itself. -/
theorem acyclic_of_toNumber (v : Value) : Yields (h.toNumber v) fun _ => h.Acyclic v := by
  cases v with
  | sequence a => exact .map fun s hs => h.acyclic_of_text hs
  | _ => exact fun _ _ => h.acyclic_of_kind_ne nofun

/-- A value that has a primitive does not contain itself. -/
theorem acyclic_of_primitive? {v : Value} {p? : Except Fault Primitive}
    (hp : h.primitive? v = some p?) : Yields p? fun _ => h.Acyclic v := by
  cases v with
  | sequence a =>
    cases hp
    exact .map fun s hs => h.acyclic_of_text hs
  | _ => exact fun _ _ => h.acyclic_of_kind_ne nofun

/-- Loose equality reads its operands if their kinds differ and neither is `null` or `undefined`. -/
theorem acyclic_of_looseEquals {a b : Value} (hc : Equality.loose.coerces a b = true) :
    Yields (h.looseEquals a b) fun _ => h.Acyclic a ∧ h.Acyclic b := by
  obtain ⟨hkind, hnull⟩ : a.kind ≠ b.kind ∧ (a.isNullish || b.isNullish) = false := by
    simpa [Equality.coerces] using hc
  rw [looseEquals_eq, if_neg hkind, Bool.or_eq_false_iff] at *
  unfold equalByPrimitives
  rw [← h.isNone_primitive? a, ← h.isNone_primitive? b] at hnull
  cases hp : h.primitive? a with
  | none =>
    rw [hp] at hnull
    cases hnull.1
  | some p? =>
    cases hq : h.primitive? b with
    | none =>
      rw [hq] at hnull
      cases hnull.2
    | some q? =>
      exact (h.acyclic_of_primitive? hp).bind fun _ ha =>
        .map fun _ hq' => ⟨ha, h.acyclic_of_primitive? hq _ hq'⟩

theorem looseEquals_of_not_coerces {p : Fault → Prop} {a b : Value}
    (hc : Equality.loose.coerces a b = false) : Raises p (h.looseEquals a b) := by
  by_cases hkind : a.kind = b.kind
  · rw [h.looseEquals_of_kind_eq hkind]
    exact .ok _
  · have hnull : (a.kind != b.kind && !(a.isNullish || b.isNullish)) = false := hc
    rw [bne_iff_ne.2 hkind, Bool.true_and, Bool.not_eq_false'] at hnull
    rw [h.looseEquals_of_isNullish hkind hnull]
    exact .ok _

theorem acyclic_of_equality {op : Equality} {a b : Value} (hc : op.coerces a b = true) :
    Yields (op.apply h a b) fun _ => h.Acyclic a ∧ h.Acyclic b := by
  cases op with
  | loose => exact h.acyclic_of_looseEquals hc
  | notLoose => exact .map (h.acyclic_of_looseEquals hc)
  | strict | notStrict => cases hc

/-- An equality that does not coerce its operands gives a result whatever they are. -/
theorem equality_of_coerces {p : Fault → Prop} (op : Equality) {a b : Value}
    (hta : op.coerces a b = true → Raises p (h.text a))
    (htb : op.coerces a b = true → Raises p (h.text b)) : Raises p (op.apply h a b) := by
  cases hc : op.coerces a b with
  | true => exact h.equality_of_text op (hta hc) (htb hc)
  | false =>
    cases op with
    | strict | notStrict => exact .ok _
    | loose => exact h.looseEquals_of_not_coerces hc
    | notLoose => exact (h.looseEquals_of_not_coerces hc).map _

/-! ## Moderate values -/

/-- The integers in a value, and its own integer when it is read as a number, are moderate. -/
structure Moderate (v : Value) : Prop where
  held : ∀ n : Int, h.Holds v (.int n) → n.natAbs < Number.moderateBound
  number : ∀ n : Int, h.toNumber v = .ok (.int n) → n.natAbs < Number.moderateBound

namespace Moderate

variable {h} {v : Value} (hv : h.Moderate v)
include hv

theorem text_of_held {n : Number} (hn : h.Holds v (.number n)) : Raises (fun _ => False) n.text := by
  have hmoderate : n.IsModerate := by
    cases n with
    | int n => exact hv.held n hn
    | float x => trivial
  exact hmoderate.text_total

theorem isModerate {n : Number} (hn : h.toNumber v = .ok n) : n.IsModerate := by
  cases n with
  | int n => exact hv.number n hn
  | float x => trivial

/-- The text of a moderate value is endless or found. -/
theorem text_raises : Raises (fun f => f = .endlessNesting) (h.text v) := by
  refine h.textWithin_of_numbers (p := (· = .endlessNesting)) rfl _ fun n hn => ?_
  exact (hv.text_of_held hn).mono fun _ hnone => hnone.elim

theorem text_total (hacyclic : h.Acyclic v) : Raises (fun _ => False) (h.text v) :=
  h.text_raises_of_acyclic hacyclic fun _ => hv.text_of_held

end Moderate

/-! ## From symbols to results -/

section
variable {symbol : String} {op : BinaryOp} (hop : BinaryOp.ofSymbol? symbol = some op)
include hop

/-- On moderate values, an operator faults as the texts of the operands that it coerces do. -/
theorem binary_of_text {p : Fault → Prop} (hp : ∀ f, p f → f.nature = .bound) {a b : Value}
    (ha : h.Moderate a) (hb : h.Moderate b) (hta : op.coerces a b = true → Raises p (h.text a))
    (htb : op.coerces a b = true → Raises p (h.text b)) :
    Raises (fun stop => ∃ f, p f ∧ stop = .fault f) (h.binary symbol a b) := by
  have hstops : ∀ {e : Except Fault Value}, Raises p e →
      Raises (fun stop => ∃ f, p f ∧ stop = .fault f) (orFault e) :=
    fun he => .orFault (he.mono fun f hf => ⟨f, hf, rfl⟩)
  have hpasses : ∀ {e : Except Fault Value}, Raises p e →
      Raises (fun stop => ∃ f, p f ∧ stop = .fault f) (orOperatorError symbol a b e) :=
    fun he => .orOperatorError symbol a b (he.mono fun f hf _ => ⟨f, hf, rfl⟩)
      (he.mono fun f hf hne => absurd (hp f hf) hne)
  cases op with
  | logic op =>
    unfold binary
    rw [hop]
    exact .ok _
  | equality op =>
    unfold binary
    rw [hop]
    exact hstops ((h.equality_of_coerces op hta htb).map _)
  | arithmetic op =>
    by_cases htext : op = .add ∧ (a.IsTextual ∨ b.IsTextual)
    · rw [binary_sum hop h htext]
      exact hstops ((hta rfl).bind fun _ _ => (htb rfl).bind fun _ _ => .pure _)
    · rw [binary_arithmetic hop h htext]
      refine hpasses ((h.toNumber_of_text (hta rfl)).bind fun m hm =>
        (h.toNumber_of_text (htb rfl)).bind fun n hn => ?_)
      have htotal := op.apply_total (ha.isModerate hm) (hb.isModerate hn)
      exact (htotal.mono fun _ => False.elim).bind fun _ _ => .pure _
  | relation op =>
    unfold binary
    rw [hop]
    dsimp only
    cases OperandClass.of symbol a.kind b.kind with
    | text => exact hstops ((hta rfl).bind fun _ _ => (htb rfl).bind fun _ _ => .pure _)
    | numeric =>
      exact hpasses ((h.toNumber_of_text (hta rfl)).bind fun _ _ =>
        (h.toNumber_of_text (htb rfl)).bind fun _ _ => .pure _)

/-- A result is of the operator's kind, and only comes of operands that could be read. -/
theorem binary_gives (a b : Value) : Yields (h.binary symbol a b) fun v =>
    op.Gives h symbol a b v ∧ (op.coerces a b = true → h.Acyclic a ∧ h.Acyclic b) := by
  cases op with
  | logic op =>
    unfold binary
    rw [hop]
    refine .pure ⟨?_, nofun⟩
    unfold BinaryOp.Gives
    rw [Logic.apply_eq hop]
    cases shortCircuits symbol a <;> simp
  | equality op =>
    unfold binary
    rw [hop]
    refine yields_orFault (.map fun r hr => ⟨rfl, fun hc => ?_⟩)
    exact h.acyclic_of_equality hc r hr
  | arithmetic op =>
    by_cases htext : op = .add ∧ (a.IsTextual ∨ b.IsTextual)
    · rw [binary_sum hop h htext]
      refine yields_orFault (.bind .self fun s hs => .bind .self fun t ht =>
        .pure ⟨⟨fun _ => ?_, fun hnumeric => absurd htext hnumeric⟩, fun _ => ?_⟩)
      · exact ⟨s, t, hs, ht, rfl⟩
      · exact ⟨h.acyclic_of_text hs, h.acyclic_of_text ht⟩
    · rw [binary_arithmetic hop h htext]
      refine yields_orOperatorError symbol a b ((h.acyclic_of_toNumber a).bind fun m ha =>
        (h.acyclic_of_toNumber b).bind fun n hb => (op.inRange_normalize m n).bind fun r hr =>
          .pure ⟨⟨fun htext' => absurd htext' htext, fun _ => ?_⟩, fun _ => ⟨ha, hb⟩⟩)
      exact ⟨r.normalize, rfl, r.isNormal_normalize, hr⟩
  | relation op =>
    unfold binary
    rw [hop]
    dsimp only
    cases OperandClass.of symbol a.kind b.kind with
    | text =>
      exact yields_orFault (.bind .self fun s hs => .bind .self fun t ht =>
        .pure ⟨rfl, fun _ => ⟨h.acyclic_of_text hs, h.acyclic_of_text ht⟩⟩)
    | numeric =>
      exact yields_orOperatorError symbol a b ((h.acyclic_of_toNumber a).bind fun m ha =>
        (h.acyclic_of_toNumber b).bind fun n hb => .pure ⟨rfl, fun _ => ⟨ha, hb⟩⟩)

end

/-- On moderate values, an operator fails exactly where it coerces its operands and one of them
contains itself.  Otherwise it gives a value of its kind. -/
theorem binary_total {symbol : String} {op : BinaryOp}
    (hop : BinaryOp.ofSymbol? symbol = some op) {a b : Value} (ha : h.Moderate a)
    (hb : h.Moderate b) :
    (op.coerces a b = true → ¬ (h.Acyclic a ∧ h.Acyclic b) →
      h.binary symbol a b = .error (.fault .endlessNesting)) ∧
    ((op.coerces a b = true → h.Acyclic a ∧ h.Acyclic b) →
      ∃ v, h.binary symbol a b = .ok v ∧ op.Gives h symbol a b v) := by
  constructor
  · intro hc hcyclic
    -- a result would mean that both operands could be read
    cases hr : h.binary symbol a b with
    | ok v => exact absurd ((h.binary_gives hop a b v hr).2 hc) hcyclic
    | error stop =>
      have hraises := h.binary_of_text hop (fun f (hf : f = .endlessNesting) => hf ▸ rfl) ha hb
        (fun _ => ha.text_raises) fun _ => hb.text_raises
      obtain ⟨f, rfl, rfl⟩ := hraises stop hr
      rfl
  · intro hacyclic
    obtain ⟨v, hv⟩ := Raises.exists_ok <|
      (h.binary_of_text hop (fun _ => False.elim) ha hb
        (fun hc => ha.text_total (hacyclic hc).1)
        (fun hc => hb.text_total (hacyclic hc).2)).mono fun _ ⟨_, hf, _⟩ => hf
    exact ⟨v, hv, (h.binary_gives hop a b v hv).1⟩

/-- A sequence of one text. -/
def withSequence : Heap := (empty.newSequence [.text "0x10"]).2

/-- A sequence that is read as a number, and a missing value that counts as zero. -/
theorem binary_total_subtract :
    withSequence.Moderate (.sequence 0) ∧ withSequence.Moderate .null ∧
    ∃ v, withSequence.binary "-" (.sequence 0) .null = .ok v ∧ v = .int 16 := by
  have hop : BinaryOp.ofSymbol? "-" = some (.arithmetic .subtract) := rfl
  have hread : Number.ofText "0x10" = .int 16 := by decide +kernel
  have htext : withSequence.text (.sequence 0) = .ok "0x10" := rfl
  have hnumber : withSequence.toNumber (.sequence 0) = .ok (.int 16) := by
    show (withSequence.text (.sequence 0)).map Number.ofText = _
    rw [htext]
    exact congrArg Except.ok hread
  have ha : withSequence.Moderate (.sequence 0) := by
    refine ⟨fun n hn => ?_, fun n hn => ?_⟩
    · cases hn with
      | item hmem hn =>
        cases List.mem_singleton.1 hmem
        cases hn
    · cases hnumber.symm.trans hn
      exact Number.lt_moderateBound (by decide)
  have hb : withSequence.Moderate .null := by
    refine ⟨fun n hn => (by cases hn), fun n hn => ?_⟩
    cases hn
    exact Number.lt_moderateBound (by decide)
  obtain ⟨v, hv, -⟩ := (withSequence.binary_total hop ha hb).2 fun _ =>
    ⟨withSequence.acyclic_of_toNumber _ _ hnumber, withSequence.acyclic_of_kind_ne nofun⟩
  have heval : withSequence.binary "-" (.sequence 0) .null = .ok (.int 16) := by
    rw [binary_arithmetic hop _ nofun, hnumber]
    rfl
  exact ⟨ha, hb, v, hv, Except.ok.inj (hv.symm.trans heval)⟩

/-- A sequence whose only element is itself. -/
def tangled : Heap where
  sequences := #[[.sequence 0]]

/-- Loose equality of a sequence that contains itself and a number fails, although no large integer
is in sight. -/
theorem binary_of_tangled :
    tangled.Moderate (.sequence 0) ∧ tangled.Moderate (.int 1) ∧
    BinaryOp.ofSymbol? "==" = some (.equality .loose) ∧
    tangled.binary "==" (.sequence 0) (.int 1) = .error (.fault .endlessNesting) := by
  have hheld : ∀ u, tangled.Holds (.sequence 0) u → u = .sequence 0 := fun u hu =>
    hu.hands_on (p := fun v => v = .sequence 0)
      (fun a ha v hv => by
        cases ha
        exact List.mem_singleton.1 hv)
      (fun a ha => by cases ha) rfl
  have hloose : tangled.looseEquals (.sequence 0) (.int 1) = .error .endlessNesting := by
    rw [looseEquals_eq]
    rfl
  refine ⟨⟨fun n hn => ?_, fun n hn => ?_⟩, ⟨fun n hn => ?_, fun n hn => ?_⟩, rfl, ?_⟩
  · cases hheld _ hn
  · cases hn
  · cases hn
    exact Number.lt_moderateBound (by decide)
  · cases hn
    exact Number.lt_moderateBound (by decide)
  · show orFault ((tangled.looseEquals (.sequence 0) (.int 1)).map Value.boolean) = _
    rw [hloose]
    rfl

end Heap

end Chronicle
