/-
# Operations on 64-bit integers

An operation is two signed 64-bit operands with an operator between them.  It is carried out on
64 bits, with overflow noticed; its exact value is an integer without bound.
-/
import Reckoner.Checked
import Reckoner.Decimal
import Reckoner.Text.Lossy

namespace Reckoner

/-- The four operators. -/
inductive Operator where
  | add
  | sub
  | mul
  | div
deriving DecidableEq, Repr

namespace Operator

/-- The byte that denotes an operator. -/
def byte : Operator → UInt8
  | add => 0x2B
  | sub => 0x2D
  | mul => 0x2A
  | div => 0x2F

/-- The character that denotes an operator. -/
def symbol (op : Operator) : Char := Char.ofUInt8 op.byte

/-- The operator that a byte denotes. -/
def ofByte? (b : UInt8) : Option Operator :=
  if b = 0x2B then some add
  else if b = 0x2D then some sub
  else if b = 0x2A then some mul
  else if b = 0x2F then some div
  else none

/-- The operator that a sequence of bytes denotes: only a single byte denotes one. -/
def ofSymbol? : Bytes → Option Operator
  | [b] => ofByte? b
  | _ => none

@[simp] theorem ofByte?_byte (op : Operator) : ofByte? op.byte = some op := by
  cases op <;> rfl

/-- The exact value over the integers.  Division truncates toward zero; dividing by zero gives
zero here. -/
def exact : Operator → Int → Int → Int
  | add, x, y => x + y
  | sub, x, y => x - y
  | mul, x, y => x * y
  | div, x, y => x.tdiv y

/-- The value on 64 bits, if there is one and it does not overflow. -/
def checked : Operator → Int64 → Int64 → Option Int64
  | add => Checked.add
  | sub => Checked.sub
  | mul => Checked.mul
  | div => Checked.div

/-- There is a value on 64 bits exactly if the exact value fits, and then it is the exact one. -/
theorem checked_eq {op : Operator} {x y : Int64} (h : ¬(op = div ∧ y = 0)) :
    op.checked x y = Checked.exactly (op.exact x.toInt y.toInt) := by
  cases op with
  | add => exact Checked.add_eq x y
  | sub => exact Checked.sub_eq x y
  | mul => exact Checked.mul_eq x y
  | div => exact Checked.div_eq fun hy => h ⟨rfl, hy⟩

end Operator

/-- Two operands and the operator between them. -/
structure Operation where
  lhs : Int64
  operator : Operator
  rhs : Int64
deriving DecidableEq, Repr

namespace Operation

/-- The written form: operand, operator, operand, with one space around the operator. -/
def written (o : Operation) : Bytes :=
  Decimal.ofInt o.lhs.toInt ++
    Bytes.space :: o.operator.byte :: Bytes.space :: Decimal.ofInt o.rhs.toInt

def text (o : Operation) : String := Text.lossy o.written

end Operation
end Reckoner
