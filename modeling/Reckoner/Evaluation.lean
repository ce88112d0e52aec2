/-
# The value of an expression

A byte sequence is read as the operation of the first expression in it, and that operation is
carried out exactly.  If the first expression is refused, no later one is tried.
-/
import Reckoner.Fault
import Reckoner.Occurrence

namespace Reckoner

/-- Reads a group of `input` as an operand. -/
def readOperand (input : Bytes) (g : Group) : Except Fault Int64 :=
  match Decimal.toInt64 g.text with
  | .ok n => .ok n
  | .error _ => .error (.operandTooLarge g.text g.span input)

namespace Operation

/-- The operation of two operands and the symbol between them; the left operand is read first,
the symbol last. -/
def ofGroups (input : Bytes) (left symbol right : Group) : Except Fault Operation := do
  let lhs ← readOperand input left
  let rhs ← readOperand input right
  match Operator.ofSymbol? symbol.text with
  | some op => return ⟨lhs, op, rhs⟩
  | none => throw (.unknownOperator symbol.text)

/-- The operation of the first expression in a byte sequence.  Whatever stands around the
expression is ignored. -/
def parse (input : Bytes) : Except Fault Operation :=
  match Pattern.expression.groups? input with
  | some [left, symbol, right] => ofGroups input left symbol right
  | _ => .error (.noExpression input)

/-- Carries out an operation on 64 bits. -/
def apply (o : Operation) : Except Fault Int64 :=
  if o.operator = .div ∧ o.rhs = 0 then .error .divisionByZero
  else match o.operator.checked o.lhs o.rhs with
    | some value => .ok value
    | none => .error (.overflow o)

end Operation

/-- The value of the first expression in a byte sequence. -/
def evaluate (input : Bytes) : Except Fault Int64 :=
  (Operation.parse input).bind Operation.apply

end Reckoner
