/-
# Why an expression has no value
-/
import Reckoner.Decimal.Bounded
import Reckoner.Operation
import Reckoner.Diagnostic

namespace Reckoner

/-- The reasons for which a byte sequence has no value. -/
inductive Fault where
  | noExpression (input : Bytes)
  /-- An operand, standing at a place of the input, is too large for 64 bits. -/
  | operandTooLarge (digits : Bytes) (span : Span) (input : Bytes)
  | divisionByZero
  | unknownOperator (symbol : Bytes)
  /-- The exact value of the operation is too large for 64 bits. -/
  | overflow (operation : Operation)
deriving DecidableEq, Repr

namespace Fault

def message : Fault → String
  | noExpression input => "invalid expression: " ++ Text.lossy input
  | operandTooLarge digits _ _ => "invalid number: " ++ Text.lossy digits
  | divisionByZero => "division by zero"
  | unknownOperator symbol => "unsupported operator: " ++ Text.lossy symbol
  | overflow operation => "`" ++ operation.text ++ "` does not fit in a 64-bit integer"

def code : Fault → String
  | noExpression _ => "line_calc::invalid_expression"
  | operandTooLarge .. => "line_calc::invalid_number"
  | divisionByZero => "line_calc::division_by_zero"
  | unknownOperator _ => "line_calc::unsupported_operator"
  | overflow _ => "line_calc::overflow"

/-- The text that labels of the fault refer to. -/
def source? : Fault → Option String
  | operandTooLarge _ _ input => some (Text.lossy input)
  | _ => none

/-- The message of the error behind a fault: an operand is refused for what reading it says. -/
def cause? : Fault → Option String
  | operandTooLarge digits _ _ =>
    match Decimal.toInt64 digits with
    | .ok _ => none
    | .error f => some f.message
  | _ => none

def diagnostic (f : Fault) : Diagnostic :=
  match f with
  | noExpression _ =>
    ⟨f.message, f.code, some "expected `<int> <op> <int>` where op is one of `+ - * /`",
      none, []⟩
  | operandTooLarge _ span _ =>
    ⟨f.message, f.code, none, f.cause?, [⟨"this operand", span⟩]⟩
  | divisionByZero | unknownOperator _ | overflow _ => ⟨f.message, f.code, none, none, []⟩

end Fault
end Reckoner
