/-
# Reading 64-bit decimal numbers

`Decimal.toInt64` reads an optional sign and a non-empty run of digits, from left to right and
without leaving 64 bits: it gives up at the first digit with which the number no longer fits.
-/
import Reckoner.Checked
import Reckoner.Decimal

namespace Reckoner

/-- Why bytes are not read as a 64-bit number. -/
inductive NumberFault where
  /-- There is nothing to read. -/
  | empty
  /-- There is something else than a digit, or nothing but a sign. -/
  | strangeByte
  /-- The number is above the range. -/
  | tooLarge
  /-- The number is below the range. -/
  | tooSmall
deriving DecidableEq, Repr

def NumberFault.message : NumberFault → String
  | empty => "cannot parse integer from empty string"
  | strangeByte => "invalid digit found in string"
  | tooLarge => "number too large to fit in target type"
  | tooSmall => "number too small to fit in target type"

namespace Decimal

def plusSign : UInt8 := 0x2B

/-- Reads digits behind a number `n` that was read already.  Each digit is joined to ten times
the number in front of it, and the number that no longer fits has the given fault. -/
def readOn (join : Int64 → Int64 → Option Int64) (fault : NumberFault) (n : Int64) :
    Bytes → Except NumberFault Int64
  | [] => .ok n
  | b :: rest =>
    if isDigit b then
      match (Checked.mul n 10).bind fun tens => join tens (Int64.ofNat (digitValue b)) with
      | some n => readOn join fault n rest
      | none => .error fault
    else .error .strangeByte

/-- Reads an optional sign and a non-empty run of digits. -/
def toInt64 : Bytes → Except NumberFault Int64
  | [] => .error .empty
  | b :: rest =>
    if b = plusSign ∧ rest ≠ [] then readOn Checked.add .tooLarge 0 rest
    else if b = minusSign ∧ rest ≠ [] then readOn Checked.sub .tooSmall 0 rest
    else readOn Checked.add .tooLarge 0 (b :: rest)

end Decimal
end Reckoner
