import Chronicle.Error
import Chronicle.Number.Arithmetic
import Chronicle.Value.Equality

/-!
# Binary operators

The binary operators by what they do with their operands.  Equality and logic take values of any
kind.  A sum is taken of numbers when both operands are number-like and of texts otherwise; an order
is that of texts when both operands are text-like and of numbers otherwise; everything else takes
numbers.  A numeric operation that faults is an operator that does not apply.
-/

set_option autoImplicit false

namespace Chronicle

/-- Operators on two numbers that give a number. -/
inductive Arithmetic where
  | add | subtract | multiply | divide | remainder | power
  | bitAnd | bitOr | bitXor | shiftLeft | shiftRight | shiftRightZero
  deriving DecidableEq, Repr

/-- The number that an arithmetic operator gives. -/
def Arithmetic.apply : Arithmetic → Number → Number → Except Fault Number
  | .add => Number.add
  | .subtract => Number.subtract
  | .multiply => Number.multiply
  | .divide => Number.divide
  | .remainder => Number.remainder
  | .power => Number.power
  | .bitAnd => Number.bitwise Bits.land
  | .bitOr => Number.bitwise Bits.lor
  | .bitXor => Number.bitwise Bits.lxor
  | .shiftLeft => Number.shiftLeft
  | .shiftRight => Number.shiftRight
  | .shiftRightZero => Number.shiftRightZero

/-- Operators that order two values. -/
inductive Relation where
  | less | greater | atMost | atLeast
  deriving DecidableEq, Repr

/-- An order of two numbers; none holds of the number that is none. -/
def Relation.ofNumbers : Relation → Number → Number → Bool
  | .less, a, b => a.less b
  | .greater, a, b => b.less a
  | .atMost, a, b => a.atMost b
  | .atLeast, a, b => b.atMost a

/-- An order of two texts, by their characters. -/
def Relation.ofTexts : Relation → String → String → Bool
  | .less, a, b => a < b
  | .greater, a, b => b < a
  | .atMost, a, b => !(b < a)
  | .atLeast, a, b => !(a < b)

/-- Equality operators. -/
inductive Equality where
  | loose | notLoose | strict | notStrict
  deriving DecidableEq, Repr

/-- The truth value that an equality operator gives. -/
def Equality.apply (h : Heap) : Equality → Value → Value → Except Fault Bool
  | .loose, a, b => h.looseEquals a b
  | .notLoose, a, b => (h.looseEquals a b).map (!·)
  | .strict, a, b => .ok (a.strictEquals b)
  | .notStrict, a, b => .ok (!a.strictEquals b)

/-- Operators that choose one of their operands. -/
inductive Logic where
  | both | either | coalesce
  deriving DecidableEq, Repr

/-- The operand that a logical operator chooses. -/
def Logic.apply : Logic → Value → Value → Value
  | .both, a, b => if a.isTruthy then b else a
  | .either, a, b => if a.isTruthy then a else b
  | .coalesce, a, b => if a.isNullish then b else a

/-- The binary operators. -/
inductive BinaryOp where
  | arithmetic (op : Arithmetic)
  | relation (op : Relation)
  | equality (op : Equality)
  | logic (op : Logic)
  deriving DecidableEq, Repr

/-- The operators and their symbols. -/
def BinaryOp.symbols : List (String × BinaryOp) := [
  ("==", .equality .loose), ("!=", .equality .notLoose),
  ("===", .equality .strict), ("!==", .equality .notStrict),
  ("&&", .logic .both), ("||", .logic .either), ("??", .logic .coalesce),
  ("+", .arithmetic .add), ("-", .arithmetic .subtract), ("*", .arithmetic .multiply),
  ("/", .arithmetic .divide), ("%", .arithmetic .remainder), ("**", .arithmetic .power),
  ("<", .relation .less), (">", .relation .greater),
  ("<=", .relation .atMost), (">=", .relation .atLeast),
  ("&", .arithmetic .bitAnd), ("|", .arithmetic .bitOr), ("^", .arithmetic .bitXor),
  ("<<", .arithmetic .shiftLeft), (">>", .arithmetic .shiftRight),
  (">>>", .arithmetic .shiftRightZero)]

/-- The operator of a symbol. -/
def BinaryOp.ofSymbol? (symbol : String) : Option BinaryOp :=
  BinaryOp.symbols.lookup symbol

/-! ## Operand classes -/

/-- How an operator reads its operands. -/
inductive OperandClass where
  | numeric
  | text
  deriving DecidableEq, Repr

/-- The name of an operand class. -/
def OperandClass.name : OperandClass → String
  | .numeric => "numeric"
  | .text => "text"

/-- Kinds whose values are added as numbers. -/
def Kind.isNumberLike : Kind → Bool
  | .number | .boolean | .null | .undefined => true
  | .text | .sequence | .record => false

/-- How the operator of a symbol reads operands of two kinds. -/
def OperandClass.of (symbol : String) (a b : Kind) : OperandClass :=
  match BinaryOp.ofSymbol? symbol with
  | some (.arithmetic .add) => if a.isNumberLike && b.isNumberLike then .numeric else .text
  | some (.relation _) => if !a.isNumberLike && !b.isNumberLike then .text else .numeric
  | _ => .numeric

/-! ## Evaluation -/

/-- The error of an operator that does not apply. -/
def operatorError (symbol : String) (operands : List Kind) : Stop :=
  .because (.operator symbol operands) none

/-- The result of a numeric operation; faults mean that the operator does not apply, other than
those of the interpreter itself. -/
def orOperatorError (symbol : String) (a b : Value) {α : Type} : Except Fault α → Except Stop α
  | .ok x => .ok x
  | .error f =>
    if f.nature == .bound then .error (.fault f)
    else .error (operatorError symbol [a.kind, b.kind])

/-- A result whose faults stop the run. -/
def orFault {α : Type} : Except Fault α → Except Stop α
  | .ok x => .ok x
  | .error f => .error (.fault f)

/-- The value of a binary operator on two values. -/
def Heap.binary (h : Heap) (symbol : String) (a b : Value) : Except Stop Value :=
  match BinaryOp.ofSymbol? symbol with
  | none => .error (operatorError symbol [a.kind, b.kind])
  | some (.equality op) => orFault ((op.apply h a b).map .boolean)
  | some (.logic op) => .ok (op.apply a b)
  | some (.arithmetic op) =>
    match OperandClass.of symbol a.kind b.kind with
    | .text => orFault do
      let s ← h.text a
      let t ← h.text b
      return .text (s ++ t)
    | .numeric => orOperatorError symbol a b do
      let m ← h.toNumber a
      let n ← h.toNumber b
      return .number (← op.apply m n).normalize
  | some (.relation op) =>
    match OperandClass.of symbol a.kind b.kind with
    | .text => orFault do
      let s ← h.text a
      let t ← h.text b
      return .boolean (op.ofTexts s t)
    | .numeric => orOperatorError symbol a b do
      let m ← h.toNumber a
      let n ← h.toNumber b
      return .boolean (op.ofNumbers m n)

end Chronicle
