/-
# Expressions in a line

An expression is a run of digits, an operator and a run of digits, with any number of blanks
on either side of the operator.  `Pattern.expression` says the same to the search.  An
occurrence of an expression in a byte sequence is a way to cut the sequence: it keeps all parts,
so that putting them together again gives the sequence back.  Different occurrences may overlap.
-/
import Reckoner.Operation
import Reckoner.Pattern

namespace Reckoner

/-- The symbols that may stand between two operands. -/
def Operator.isSymbol (b : UInt8) : Bool := b == 0x2D || b == 0x2B || b == 0x2A || b == 0x2F

/-- Digits, an operator and digits, with blanks around the operator; the operands and the
operator are groups. -/
def Pattern.expression : Pattern :=
  [⟨Decimal.isDigit, .some, true⟩,
    ⟨Bytes.isBlank, .any, false⟩,
    ⟨Operator.isSymbol, .one, true⟩,
    ⟨Bytes.isBlank, .any, false⟩,
    ⟨Decimal.isDigit, .some, true⟩]

/-- A byte sequence cut at an expression in it. -/
structure Occurrence where
  /-- The bytes in front of the expression. -/
  before : Bytes
  /-- The digits of the left operand. -/
  left : Bytes
  /-- The blanks between the left operand and the operator. -/
  leftGap : Bytes
  operator : Operator
  /-- The blanks between the operator and the right operand. -/
  rightGap : Bytes
  /-- The digits of the right operand. -/
  right : Bytes
  /-- The bytes behind the expression. -/
  after : Bytes
deriving DecidableEq, Repr

namespace Occurrence

/-- The parts are what their names say, and neither operand is empty.  The digits of an operand
need not go as far as they could. -/
structure Valid (o : Occurrence) : Prop where
  left_ne_nil : o.left ≠ []
  isDigit_left : ∀ b ∈ o.left, Decimal.isDigit b = true
  isBlank_leftGap : ∀ b ∈ o.leftGap, Bytes.isBlank b = true
  isBlank_rightGap : ∀ b ∈ o.rightGap, Bytes.isBlank b = true
  right_ne_nil : o.right ≠ []
  isDigit_right : ∀ b ∈ o.right, Decimal.isDigit b = true

/-- The bytes of the expression itself. -/
def expression (o : Occurrence) : Bytes :=
  o.left ++ o.leftGap ++ o.operator.byte :: (o.rightGap ++ o.right)

/-- The byte sequence that was cut. -/
def whole (o : Occurrence) : Bytes := o.before ++ o.expression ++ o.after

/-- Where the left operand stands. -/
def leftSpan (o : Occurrence) : Span := ⟨o.before.length, o.left.length⟩

/-- Where the right operand stands. -/
def rightSpan (o : Occurrence) : Span :=
  ⟨o.before.length + o.left.length + o.leftGap.length + 1 + o.rightGap.length, o.right.length⟩

/-- The occurrence cuts this byte sequence, and its parts are what their names say. -/
structure In (o : Occurrence) (bytes : Bytes) : Prop where
  valid : o.Valid
  whole_eq : o.whole = bytes

/-- The occurrence that a search from the left finds: none begins in front of it, and its right
operand goes as far as there are digits. -/
structure FirstIn (o : Occurrence) (bytes : Bytes) : Prop extends o.In bytes where
  leftmost : ∀ o' : Occurrence, o'.In bytes → o.before.length ≤ o'.before.length
  not_isDigit_after : ∀ b ∈ o.after.head?, Decimal.isDigit b = false

end Occurrence
end Reckoner
