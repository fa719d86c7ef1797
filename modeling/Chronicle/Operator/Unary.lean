import Chronicle.Operator.Binary

/-!
# Unary operators

The operators on one value: opposite, number, negation, complement, type and discarding.
-/

set_option autoImplicit false

namespace Chronicle

/-- The unary operators. -/
inductive UnaryOp where
  | minus | plus | not | complement | typeOf | discard
  deriving DecidableEq, Repr

/-- The operators and their symbols. -/
def UnaryOp.symbols : List (String × UnaryOp) :=
  [("-", .minus), ("+", .plus), ("!", .not), ("~", .complement), ("typeof", .typeOf),
    ("void", .discard)]

/-- The operator of a symbol. -/
def UnaryOp.ofSymbol? (symbol : String) : Option UnaryOp :=
  UnaryOp.symbols.lookup symbol

/-- The value of a unary operator on a value. -/
def UnaryOp.apply (h : Heap) : UnaryOp → Value → Except Fault Value
  | .minus, v => return .number (← h.toNumber v).negate.normalize
  | .plus, v => return .number (← h.toNumber v)
  | .not, v => .ok (.boolean !v.isTruthy)
  | .complement, v => do return .number (← (← h.toNumber v).complement)
  | .typeOf, v => .ok (.text v.typeName)
  | .discard, _ => .ok .undefined

/-- The value of the operator of a symbol. -/
def Heap.unary (h : Heap) (symbol : String) (v : Value) : Except Stop Value :=
  match UnaryOp.ofSymbol? symbol with
  | none => .error (operatorError symbol [v.kind])
  | some op => orFault (op.apply h v)

end Chronicle
