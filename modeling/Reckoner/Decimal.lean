/-
# Decimal numbers

Digits are the ten ASCII digits.  `Decimal.value` reads a run of them, leading zeros allowed,
with no bound on the number.  `Decimal.ofInt` writes the canonical form: no leading zero, a
minus sign before a negative number, never `-0`.  `Decimal.toInt?` reads an optional minus sign
and a non-empty run of digits; the main statement is that it gives back every written number.
-/
import Reckoner.Bytes

namespace Reckoner.Decimal

def minusSign : UInt8 := 0x2D

/-- The ASCII digits. -/
def isDigit (b : UInt8) : Bool := 0x30 ≤ b && b ≤ 0x39

/-- The digit of a number below ten. -/
def digit (n : Nat) : UInt8 := UInt8.ofNat (0x30 + n)

/-- The number that one digit stands for. -/
def digitValue (b : UInt8) : Nat := b.toNat - 0x30

/-- The number that a run of digits stands for. -/
def value (digits : Bytes) : Nat := digits.foldl (fun n b => n * 10 + digitValue b) 0

/-- The digits of a number, without leading zeros; zero has one digit. -/
def ofNat (n : Nat) : Bytes :=
  if n < 10 then [digit n] else ofNat (n / 10) ++ [digit (n % 10)]

/-- The canonical decimal form of an integer. -/
def ofInt (n : Int) : Bytes :=
  if n < 0 then minusSign :: ofNat n.natAbs else ofNat n.natAbs

/-- Reads a non-empty run of digits and nothing else. -/
def toNat? (bytes : Bytes) : Option Nat :=
  if bytes ≠ [] ∧ bytes.all isDigit then some (value bytes) else none

/-- Reads an optional minus sign and a non-empty run of digits. -/
def toInt? : Bytes → Option Int
  | [] => none
  | b :: rest =>
    if b = minusSign then (toNat? rest).map fun n => -(n : Int)
    else (toNat? (b :: rest)).map fun n => (n : Int)

/-! ## What is written reads back -/

theorem isDigit_iff {b : UInt8} : isDigit b = true ↔ 0x30 ≤ b.toNat ∧ b.toNat ≤ 0x39 := by
  simp [isDigit, UInt8.le_iff_toNat_le]

theorem toNat_digit {n : Nat} (h : n < 10) : (digit n).toNat = 0x30 + n := by
  simp [digit]; omega

theorem isDigit_digit {n : Nat} (h : n < 10) : isDigit (digit n) = true := by
  rw [isDigit_iff, toNat_digit h]; omega

@[simp] theorem digitValue_digit {n : Nat} (h : n < 10) : digitValue (digit n) = n := by
  rw [digitValue, toNat_digit h]; omega

@[simp] theorem value_nil : value [] = 0 := rfl

@[simp] theorem value_append_singleton (ds : Bytes) (b : UInt8) :
    value (ds ++ [b]) = value ds * 10 + digitValue b := by
  simp [value]

theorem ofNat_of_lt {n : Nat} (h : n < 10) : ofNat n = [digit n] := by
  rw [ofNat, if_pos h]

theorem ofNat_of_le {n : Nat} (h : 10 ≤ n) : ofNat n = ofNat (n / 10) ++ [digit (n % 10)] := by
  rw [ofNat, if_neg (by omega)]

@[simp] theorem ofNat_ne_nil (n : Nat) : ofNat n ≠ [] := by
  rw [ofNat]; split <;> simp

@[simp] theorem value_ofNat (n : Nat) : value (ofNat n) = n := by
  induction n using Nat.strongRecOn with
  | _ n ih =>
    by_cases h : n < 10
    · rw [ofNat_of_lt h, ← List.nil_append [digit n], value_append_singleton, value_nil,
        digitValue_digit h]
      omega
    · rw [ofNat_of_le (by omega), value_append_singleton, ih (n / 10) (by omega),
        digitValue_digit (by omega)]
      omega

theorem isDigit_of_mem_ofNat {n : Nat} {b : UInt8} (h : b ∈ ofNat n) : isDigit b = true := by
  induction n using Nat.strongRecOn with
  | _ n ih =>
    by_cases hn : n < 10
    · rw [ofNat_of_lt hn, List.mem_singleton] at h
      exact h ▸ isDigit_digit hn
    · rw [ofNat_of_le (by omega), List.mem_append, List.mem_singleton] at h
      rcases h with h | rfl
      · exact ih (n / 10) (by omega) h
      · exact isDigit_digit (by omega)

@[simp] theorem toNat?_ofNat (n : Nat) : toNat? (ofNat n) = some n := by
  have h : (ofNat n).all isDigit = true := List.all_eq_true.mpr fun _ => isDigit_of_mem_ofNat
  simp [toNat?, h]

@[simp] theorem ofInt_ne_nil (n : Int) : ofInt n ≠ [] := by
  unfold ofInt
  split <;> simp

/-- A written integer consists of digits and of the minus sign. -/
theorem notMem_ofInt {b : UInt8} (hdigit : isDigit b = false) (hsign : b ≠ minusSign) (n : Int) :
    b ∉ ofInt n := by
  have hdigits : b ∉ ofNat n.natAbs := fun h => by
    rw [isDigit_of_mem_ofNat h] at hdigit
    cases hdigit
  unfold ofInt
  split <;> simp [hdigits, hsign]

/-- The first digit of a number is no minus sign, so the sign of a written number is seen in
its first byte. -/
theorem toInt?_ofNat (n : Nat) : toInt? (ofNat n) = some (n : Int) := by
  cases h : ofNat n with
  | nil => exact absurd h (ofNat_ne_nil n)
  | cons b rest =>
    have hb : isDigit b = true := isDigit_of_mem_ofNat (n := n) (by simp [h])
    have hne : b ≠ minusSign := by rintro rfl; simp [isDigit, minusSign] at hb
    rw [toInt?, if_neg hne, ← h, toNat?_ofNat]
    rfl

/-- Every written integer reads back. -/
@[simp] theorem toInt?_ofInt (n : Int) : toInt? (ofInt n) = some n := by
  by_cases h : n < 0
  · rw [ofInt, if_pos h, toInt?, if_pos rfl, toNat?_ofNat]
    show some (-(n.natAbs : Int)) = some n
    congr 1
    omega
  · rw [ofInt, if_neg h, toInt?_ofNat]
    congr 1
    omega

end Reckoner.Decimal
