import Mathlib.Algebra.Order.Field.Power
import Mathlib.Data.Rat.Cast.Order
import Mathlib.Data.String.Basic
import Mathlib.Tactic.Positivity
import Mathlib.Order.Compare
import Mathlib.Order.WithBot
import Chronicle.Proofs.Operator.Class
import Chronicle.Proofs.Value.Equality
import Chronicle.Proofs.Value.Stores

/-!
# The order of values

The relation operators ask one question, how two values compare (`Heap.compare?`): as texts when
both are textual, else as numbers.  Texts compare by their code points from the front
(`Text.before_iff`), numbers as the extended rationals that they are (`Exact.compare?_eq`), and a
number that is none compares with nothing.  Turning the operands round turns the answer round
(`compare?_swap`), so the four operators agree with each other (`relations_cohere`).
-/

set_option autoImplicit false

namespace Chronicle

/-! ## Relations -/

namespace Relation

/-- The symbol of a relation. -/
def symbol : Relation → String
  | .less => "<"
  | .greater => ">"
  | .atMost => "<="
  | .atLeast => ">="

/-- The same relation with its operands the other way round. -/
def converse : Relation → Relation
  | .less => .greater
  | .greater => .less
  | .atMost => .atLeast
  | .atLeast => .atMost

/-- Whether a relation holds of operands that compare so.  None holds of operands that do not
compare. -/
def holds : Relation → Option Ordering → Bool
  | .less, o => o == some .lt
  | .greater, o => o == some .gt
  | .atMost, o => o == some .lt || o == some .eq
  | .atLeast, o => o == some .gt || o == some .eq

theorem ofSymbol?_symbol (op : Relation) : BinaryOp.ofSymbol? op.symbol = some (.relation op) := by
  cases op <;> rfl

theorem holds_converse (op : Relation) (o : Option Ordering) :
    op.converse.holds (o.map Ordering.swap) = op.holds o := by
  rcases o with _ | _ | _ | _ <;> cases op <;> rfl

theorem ofNumbers_eq (op : Relation) (m n : Number) :
    op.ofNumbers m n = op.holds (m.compare? n) := by
  have hswap : n.compare? m = (m.compare? n).map Ordering.swap := Number.Exact.compare?_swap ..
  cases op with
  | less | atMost => rfl
  | greater | atLeast =>
    simp only [ofNumbers, Number.less, Number.atMost, Number.equals, holds, hswap]
    rcases m.compare? n with _ | _ | _ | _ <;> rfl

end Relation

/-! ## Texts -/

namespace Text

/-- The code points of a text. -/
def codePoints (s : String) : List Nat :=
  s.toList.map Char.toNat

/-- One text before another: it is a proper beginning of the other, or has the smaller code point
where the two first differ. -/
def Before (s t : String) : Prop :=
  List.Lex (· < ·) (codePoints s) (codePoints t)

theorem lex_map_toNat : ∀ l k : List Char,
    List.Lex (· < ·) (l.map Char.toNat) (k.map Char.toNat) ↔ List.Lex (· < ·) l k
  | [], [] => by simp
  | [], _ :: _ => ⟨fun _ => .nil, fun _ => .nil⟩
  | _ :: _, [] => by simp
  | c :: l, d :: k => by
    rw [List.map_cons, List.map_cons, List.cons_lex_cons_iff, List.cons_lex_cons_iff,
      lex_map_toNat l k]
    exact or_congr Iff.rfl (and_congr_left' Char.toNat_inj)

theorem before_iff {s t : String} : Before s t ↔ s < t := by
  unfold Before codePoints
  rw [lex_map_toNat, List.lex_lt, String.lt_iff_toList_lt]

end Text

theorem Relation.ofTexts_eq (op : Relation) (s t : String) :
    op.ofTexts s t = op.holds (some (cmp s t)) := by
  rcases lt_trichotomy s t with h | rfl | h
  · rw [(cmp_eq_lt_iff s t).2 h]
    cases op <;> simp [ofTexts, holds, h, h.asymm]
  · rw [cmp_self_eq_eq]
    cases op <;> simp [ofTexts, holds]
  · rw [(cmp_eq_gt_iff s t).2 h]
    cases op <;> simp [ofTexts, holds, h, h.asymm]

/-! ## Numbers -/

namespace Number

/-- The extended rational that an exact value is; none for the value that is no number. -/
def Exact.extended? : Exact → Option (WithBot (WithTop ℚ))
  | .nan => none
  | .infinite true => some ⊥
  | .infinite false => some ⊤
  | .dyadic n e => some (((n * 2 ^ e : ℚ) : WithTop ℚ) : WithBot (WithTop ℚ))

/-- The extended rational that a number is. -/
def extended? (n : Number) : Option (WithBot (WithTop ℚ)) :=
  n.exact.extended?

theorem extended?_eq_none_iff {n : Number} : n.extended? = none ↔ n.isNaN = true := by
  unfold extended? isNaN
  rcases n.exact with _ | (_ | _) | ⟨_, _⟩ <;> simp [Exact.extended?]

/-- Two dyadic rationals compare as their numerators do over a common exponent. -/
theorem compare_dyadic (m d n e : Int) :
    compare (m * 2 ^ (d - min d e).toNat) (n * 2 ^ (e - min d e).toNat) =
      cmp ((m : ℚ) * 2 ^ d) ((n : ℚ) * 2 ^ e) := by
  have hmono : StrictMono fun k : Int => (k : ℚ) * 2 ^ min d e := fun j k hjk =>
    mul_lt_mul_of_pos_right (Int.cast_lt.2 hjk) (by positivity)
  have hscale : ∀ k c : Int, min d e ≤ c →
      ((k * 2 ^ (c - min d e).toNat : Int) : ℚ) * 2 ^ min d e = k * 2 ^ c := by
    intro k c hc
    have hexp : (((c - min d e).toNat : Int)) + min d e = c := by omega
    push_cast
    rw [mul_assoc, ← zpow_natCast, ← zpow_add₀ two_ne_zero, hexp]
  rw [← hscale m d (min_le_left d e), ← hscale n e (min_le_right d e), hmono.cmp_map_eq,
    cmp_eq_compare]

/-- Exact values compare as extended rationals. -/
theorem Exact.compare?_eq : ∀ {a b : Exact} {x y : WithBot (WithTop ℚ)}, a.extended? = some x →
    b.extended? = some y → a.compare? b = some (cmp x y)
  | .infinite true, .infinite true, _, _, rfl, rfl
  | .infinite false, .infinite false, _, _, rfl, rfl => congrArg some (cmp_self_eq_eq _).symm
  | .infinite true, .infinite false, _, _, rfl, rfl =>
    congrArg some ((cmp_eq_lt_iff _ _).2 bot_lt_top).symm
  | .infinite false, .infinite true, _, _, rfl, rfl =>
    congrArg some ((cmp_eq_gt_iff _ _).2 bot_lt_top).symm
  | .infinite true, .dyadic _ _, _, _, rfl, rfl =>
    congrArg some ((cmp_eq_lt_iff _ _).2 (WithBot.bot_lt_coe _)).symm
  | .dyadic _ _, .infinite true, _, _, rfl, rfl =>
    congrArg some ((cmp_eq_gt_iff _ _).2 (WithBot.bot_lt_coe _)).symm
  | .infinite false, .dyadic _ _, _, _, rfl, rfl =>
    congrArg some ((cmp_eq_gt_iff _ _).2 (WithBot.coe_lt_coe.2 (WithTop.coe_lt_top _))).symm
  | .dyadic _ _, .infinite false, _, _, rfl, rfl =>
    congrArg some ((cmp_eq_lt_iff _ _).2 (WithBot.coe_lt_coe.2 (WithTop.coe_lt_top _))).symm
  | .dyadic m d, .dyadic n e, _, _, rfl, rfl => by
    have hmono : StrictMono fun q : ℚ => ((q : WithTop ℚ) : WithBot (WithTop ℚ)) := fun _ _ hpq =>
      WithBot.coe_lt_coe.2 (WithTop.coe_lt_coe.2 hpq)
    rw [hmono.cmp_map_eq, ← compare_dyadic]
    rfl

/-- A number that is none compares with nothing. -/
theorem compare?_of_isNaN {m n : Number} (h : m.isNaN = true ∨ n.isNaN = true) :
    m.compare? n = none := by
  have hnan : ∀ {k : Number}, k.isNaN = true → k.exact = .nan := by
    intro k hk
    unfold isNaN at hk
    cases he : k.exact <;> simp_all
  unfold compare?
  rcases h with h | h <;> rw [hnan h]
  · rfl
  · cases m.exact <;> rfl

end Number
/-! ## Values -/

/-- What each relation says of two operands that compare in a linear order. -/
theorem Relation.holds_cmp {α : Type} [LinearOrder α] (x y : α) :
    (less.holds (some (cmp x y)) = true ↔ x < y) ∧
    (greater.holds (some (cmp x y)) = true ↔ y < x) ∧
    (atMost.holds (some (cmp x y)) = true ↔ x ≤ y) ∧
    (atLeast.holds (some (cmp x y)) = true ↔ y ≤ x) := by
  rcases lt_trichotomy x y with h | rfl | h
  · rw [(cmp_eq_lt_iff x y).2 h]
    simp [holds, h, h.le, h.not_gt, h.not_ge]
  · rw [cmp_self_eq_eq]
    simp [holds]
  · rw [(cmp_eq_gt_iff x y).2 h]
    simp [holds, h, h.le, h.not_gt, h.not_ge]

namespace Heap

variable (h : Heap)

/-- How two values compare: as texts when both are textual, else as numbers. -/
def compare? (a b : Value) : Except Fault (Option Ordering) :=
  if a.kind.isNumberLike || b.kind.isNumberLike then do
    let m ← h.toNumber a
    let n ← h.toNumber b
    return m.compare? n
  else do
    let s ← h.text a
    let t ← h.text b
    return some (cmp s t)

section
variable {a b : Value} (hab : a.IsTextual ∧ b.IsTextual)
include hab

theorem compare?_texts :
    h.compare? a b = (do
      let s ← h.text a
      let t ← h.text b
      return some (cmp s t)) := by
  unfold compare?
  rw [Value.isNumberLike_eq_false.2 hab.1, Value.isNumberLike_eq_false.2 hab.2]
  rfl

theorem binary_texts (op : Relation) :
    h.binary op.symbol a b =
      orFault ((h.compare? a b).map fun o => .boolean (op.holds o)) := by
  have hclass : OperandClass.of op.symbol a.kind b.kind = .text := by
    unfold OperandClass.of
    rw [op.ofSymbol?_symbol, Value.isNumberLike_eq_false.2 hab.1,
      Value.isNumberLike_eq_false.2 hab.2]
    rfl
  rw [h.compare?_texts hab]
  unfold binary
  rw [op.ofSymbol?_symbol]
  dsimp only
  rw [hclass]
  cases h.text a with
  | error f => rfl
  | ok s =>
    cases h.text b with
    | error f => rfl
    | ok t => exact congrArg (fun r => Except.ok (Value.boolean r)) (op.ofTexts_eq s t)

end

section
variable {a b : Value} (hab : ¬ (a.IsTextual ∧ b.IsTextual))
include hab

theorem isNumberLike_of_not_textual : (a.kind.isNumberLike || b.kind.isNumberLike) = true := by
  rw [← Bool.not_eq_false, Bool.or_eq_false_iff]
  simpa only [Value.isNumberLike_eq_false] using hab

theorem compare?_numbers :
    h.compare? a b = (do
      let m ← h.toNumber a
      let n ← h.toNumber b
      return m.compare? n) := by
  unfold compare?
  rw [isNumberLike_of_not_textual hab, if_pos rfl]

theorem binary_numbers (op : Relation) :
    h.binary op.symbol a b =
      orOperatorError op.symbol a b ((h.compare? a b).map fun o => .boolean (op.holds o)) := by
  have hclass : OperandClass.of op.symbol a.kind b.kind = .numeric := by
    unfold OperandClass.of
    rw [op.ofSymbol?_symbol]
    dsimp only
    rw [← Bool.not_or, isNumberLike_of_not_textual hab]
    rfl
  rw [h.compare?_numbers hab]
  unfold binary
  rw [op.ofSymbol?_symbol]
  simp only [hclass, op.ofNumbers_eq]
  cases h.toNumber a <;> cases h.toNumber b <;> rfl

end

variable {h} {a b : Value} {o : Option Ordering}

/-- Turning the operands round turns the answer round. -/
theorem compare?_swap (ho : h.compare? a b = .ok o) :
    h.compare? b a = .ok (o.map Ordering.swap) := by
  by_cases hab : a.IsTextual ∧ b.IsTextual
  · rw [h.compare?_texts hab] at ho
    obtain ⟨s, hs, ho⟩ := bind_eq_ok ho
    obtain ⟨t, ht, ho⟩ := bind_eq_ok ho
    rw [h.compare?_texts hab.symm, hs, ht, ← Except.ok.inj ho]
    exact congrArg (fun o => Except.ok (some o)) (cmp_swap s t).symm
  · rw [h.compare?_numbers hab] at ho
    obtain ⟨m, hm, ho⟩ := bind_eq_ok ho
    obtain ⟨n, hn, ho⟩ := bind_eq_ok ho
    rw [h.compare?_numbers fun hba => hab hba.symm, hm, hn, ← Except.ok.inj ho]
    exact congrArg Except.ok (Number.Exact.compare?_swap ..)

/-- A relation has a result where its operands can be compared, and tells how they do. -/
theorem binary_relation (op : Relation) {r : Value} :
    h.binary op.symbol a b = .ok r ↔
      ∃ o, h.compare? a b = .ok o ∧ r = .boolean (op.holds o) := by
  have hmap : ∀ {e : Except Fault (Option Ordering)},
      (e.map fun o => Value.boolean (op.holds o)) = .ok r ↔
        ∃ o, e = .ok o ∧ r = .boolean (op.holds o) := by
    intro e
    cases e <;> simp [Except.map, eq_comm]
  by_cases hab : a.IsTextual ∧ b.IsTextual
  · rw [h.binary_texts hab, ← hmap]
    cases h.compare? a b <;> simp [orFault, Except.map]
  · rw [h.binary_numbers hab, ← hmap]
    cases h.compare? a b with
    | ok o => simp [orOperatorError, Except.map]
    | error f =>
      simp only [orOperatorError, Except.map]
      split <;> exact ⟨nofun, nofun⟩

end Heap

/-! ## Coherence -/

namespace Relation

/-- The relations order two texts by their code points: exactly one of less, equal and greater
holds, and the other two relations are what is left of it. -/
structure OrdersTexts (truth : Relation → Bool) (s t : String) : Prop where
  less : truth .less = true ↔ Text.Before s t
  greater : truth .greater = true ↔ Text.Before t s
  one : (truth .less = true ∧ s ≠ t ∧ truth .greater = false) ∨
    (truth .less = false ∧ s = t ∧ truth .greater = false) ∨
    (truth .less = false ∧ s ≠ t ∧ truth .greater = true)
  atMost : truth .atMost = !truth .greater
  atLeast : truth .atLeast = !truth .less

/-- The relations order two numbers as extended rationals, and none holds of a number that is
none. -/
structure OrdersNumbers (truth : Relation → Bool) (m n : Number) : Prop where
  order : ∀ x y, m.extended? = some x → n.extended? = some y →
    (truth .less = true ↔ x < y) ∧ (truth .greater = true ↔ y < x) ∧
    (truth .atMost = true ↔ x ≤ y) ∧ (truth .atLeast = true ↔ y ≤ x)
  apart : m.isNaN = true ∨ n.isNaN = true → ∀ op, truth op = false
  atMost : m.isNaN = false → n.isNaN = false → truth .atMost = !truth .greater
  atLeast : m.isNaN = false → n.isNaN = false → truth .atLeast = !truth .less

/-- A linear order leaves nothing between at most and greater, nor between at least and less. -/
theorem holds_some (o : Ordering) :
    atMost.holds (some o) = !greater.holds (some o) ∧
      atLeast.holds (some o) = !less.holds (some o) := by
  cases o <;> exact ⟨rfl, rfl⟩

theorem ordersTexts (s t : String) : OrdersTexts (fun op => op.holds (some (cmp s t))) s t := by
  obtain ⟨hless, hgreater, -, -⟩ := holds_cmp s t
  refine ⟨hless.trans Text.before_iff.symm, hgreater.trans Text.before_iff.symm, ?_,
    (holds_some _).1, (holds_some _).2⟩
  rcases lt_trichotomy s t with h | rfl | h
  · exact .inl ⟨hless.2 h, h.ne, Bool.eq_false_iff.2 fun hg => h.asymm (hgreater.1 hg)⟩
  · exact .inr (.inl ⟨Bool.eq_false_iff.2 fun hl => (hless.1 hl).ne rfl, rfl,
      Bool.eq_false_iff.2 fun hg => (hgreater.1 hg).ne rfl⟩)
  · exact .inr (.inr ⟨Bool.eq_false_iff.2 fun hl => h.asymm (hless.1 hl), h.ne', hgreater.2 h⟩)

theorem ordersNumbers (m n : Number) : OrdersNumbers (fun op => op.holds (m.compare? n)) m n := by
  have hcmp : ∀ {x y}, m.extended? = some x → n.extended? = some y →
      m.compare? n = some (cmp x y) := Number.Exact.compare?_eq
  have hsome : m.isNaN = false → n.isNaN = false → ∃ o, m.compare? n = some o := by
    intro hm hn
    obtain ⟨x, hx⟩ := Option.ne_none_iff_exists'.1 fun hx =>
      Bool.eq_false_iff.1 hm (Number.extended?_eq_none_iff.1 hx)
    obtain ⟨y, hy⟩ := Option.ne_none_iff_exists'.1 fun hy =>
      Bool.eq_false_iff.1 hn (Number.extended?_eq_none_iff.1 hy)
    exact ⟨_, hcmp hx hy⟩
  refine ⟨fun x y hx hy => ?_, fun hnan op => ?_, fun hm hn => ?_, fun hm hn => ?_⟩
  · have hholds := holds_cmp x y
    rw [← hcmp hx hy] at hholds
    exact hholds
  · simp only [Number.compare?_of_isNaN hnan]
    cases op <;> rfl
  · obtain ⟨o, ho⟩ := hsome hm hn
    simp only [ho]
    exact (holds_some o).1
  · obtain ⟨o, ho⟩ := hsome hm hn
    simp only [ho]
    exact (holds_some o).2

end Relation

namespace Heap

/-- The relations are coherent wherever one of them evaluates.  All of them do then, and each says
the same of its operands as its converse says of them the other way round.  Two textual operands are
ordered as their texts, and any others as their numbers. -/
theorem relations_cohere (h : Heap) {op : Relation} {a b r : Value}
    (hr : h.binary op.symbol a b = .ok r) :
    ∃ truth : Relation → Bool,
      (∀ op, h.binary op.symbol a b = .ok (.boolean (truth op)) ∧
        h.binary op.converse.symbol b a = .ok (.boolean (truth op))) ∧
      (a.IsTextual ∧ b.IsTextual → ∃ s t, h.text a = .ok s ∧ h.text b = .ok t ∧
        Relation.OrdersTexts truth s t) ∧
      (¬ (a.IsTextual ∧ b.IsTextual) → ∃ m n, h.toNumber a = .ok m ∧ h.toNumber b = .ok n ∧
        Relation.OrdersNumbers truth m n) := by
  obtain ⟨o, ho, -⟩ := (binary_relation op).1 hr
  refine ⟨fun op => op.holds o, fun op => ⟨(binary_relation op).2 ⟨o, ho, rfl⟩, ?_⟩,
    fun hab => ?_, fun hab => ?_⟩
  · exact (binary_relation op.converse).2 ⟨_, compare?_swap ho, by rw [op.holds_converse]⟩
  · rw [h.compare?_texts hab] at ho
    obtain ⟨s, hs, ho⟩ := bind_eq_ok ho
    obtain ⟨t, ht, ho⟩ := bind_eq_ok ho
    cases ho
    exact ⟨s, t, hs, ht, Relation.ordersTexts s t⟩
  · rw [h.compare?_numbers hab] at ho
    obtain ⟨m, hm, ho⟩ := bind_eq_ok ho
    obtain ⟨n, hn, ho⟩ := bind_eq_ok ho
    cases ho
    exact ⟨m, n, hm, hn, Relation.ordersNumbers m n⟩

/-- A sequence of a text and a truth value. -/
def listed : Heap := (empty.newSequence [.text "b", .boolean true]).2

/-- The text of the sequence comes after a longer one. -/
theorem relations_cohere_sequence :
    listed.binary ">" (.sequence 0) (.text "b,100000") = .ok (.boolean true) ∧
    listed.binary "<" (.text "b,100000") (.sequence 0) = .ok (.boolean true) ∧
    listed.binary "<=" (.sequence 0) (.text "b,100000") = .ok (.boolean false) ∧
    Text.Before "b,100000" "b,true" := by
  have hr : listed.binary Relation.greater.symbol (.sequence 0) (.text "b,100000") =
      .ok (.boolean true) := rfl
  obtain ⟨truth, htruth, htexts, -⟩ := relations_cohere listed hr
  obtain ⟨s, t, hs, ht, horders⟩ := htexts ⟨.inr (.inl rfl), .inl rfl⟩
  cases hs
  cases ht
  have hgreater : truth .greater = true :=
    Value.boolean.inj (Except.ok.inj ((htruth .greater).1.symm.trans hr))
  have hconverse := (htruth .greater).2
  have hatMost := (htruth .atMost).1
  rw [hgreater] at hconverse
  rw [horders.atMost, hgreater] at hatMost
  exact ⟨hr, hconverse, hatMost, horders.greater.1 hgreater⟩

end Heap

end Chronicle
