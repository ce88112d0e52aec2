/-
# Reading runs of digits on 64 bits

`Decimal.toInt64` works on 64 bits and gives up early.  On a run of digits it nevertheless agrees
with the value of the whole run: it gives that value if it fits, and says that the number is too
large if it does not (`Decimal.toInt64_digits`).  Leading zeros, however many, do not
change the value (`Decimal.value_leadingZeros`).  A written integer is a run of digits with
perhaps a sign in front of it (`Decimal.ofInt_eq_sign_append`).
-/
import Mathlib.Tactic.Common
import Reckoner.Decimal.Bounded

namespace Reckoner.Decimal

/-- The number that digits stand for when they follow the digits of `n`. -/
def valueFrom (n : Nat) (digits : Bytes) : Nat := digits.foldl (fun n b => n * 10 + digitValue b) n

@[simp] lemma valueFrom_nil (n : Nat) : valueFrom n [] = n := rfl

lemma valueFrom_cons (n : Nat) (b : UInt8) (digits : Bytes) :
    valueFrom n (b :: digits) = valueFrom (n * 10 + digitValue b) digits := by
  rw [valueFrom, List.foldl_cons, valueFrom]

lemma value_eq_valueFrom (digits : Bytes) : value digits = valueFrom 0 digits := rfl

lemma le_valueFrom (n : Nat) (digits : Bytes) : n ≤ valueFrom n digits := by
  induction digits generalizing n with
  | nil => exact Nat.le_refl n
  | cons b digits ih =>
    calc n ≤ n * 10 + digitValue b := by omega
      _ ≤ valueFrom (n * 10 + digitValue b) digits := ih _

/-! ## One digit -/

lemma digitValue_lt {b : UInt8} (h : isDigit b = true) : digitValue b < 10 := by
  rw [isDigit_iff] at h
  unfold digitValue
  omega

lemma exactly_natCast (n : Nat) :
    Checked.exactly n = if FitsInt64 n then some (Int64.ofNat n) else none := by
  rw [Checked.exactly, Int64.ofInt_eq_ofNat]

/-- Joining a digit to a number that is read already gives the longer number, or nothing if that
does not fit. -/
lemma join_digit {n : Nat} (hn : FitsInt64 n) {b : UInt8} (hb : isDigit b = true) :
    ((Checked.mul (Int64.ofNat n) 10).bind fun tens =>
        Checked.add tens (Int64.ofNat (digitValue b))) =
      if FitsInt64 (n * 10 + digitValue b : Nat) then
        some (Int64.ofNat (n * 10 + digitValue b))
      else none := by
  have hdigit : FitsInt64 (digitValue b) := by
    have hten : FitsInt64 (10 : Nat) := by decide
    exact hten.of_le (Nat.le_of_lt (digitValue_lt hb))
  have hmul : Checked.mul (Int64.ofNat n) 10 = Checked.exactly (n * 10 : Nat) := by
    rw [Checked.mul_eq, hn.toInt_ofNat]
    rfl
  rw [hmul, exactly_natCast]
  by_cases htens : FitsInt64 (n * 10 : Nat)
  · rw [if_pos htens, Option.bind_some, Checked.add_eq, htens.toInt_ofNat, hdigit.toInt_ofNat,
      ← exactly_natCast]
    rfl
  · rw [if_neg htens, if_neg fun hsum => htens (hsum.of_le (Nat.le_add_right _ _))]
    rfl

/-! ## Runs of digits -/

/-- Reading on behind a number: the number of all digits, if that fits.  The digit with which the
reading stops early is one that no further digit can make good. -/
lemma readOn_digits {digits : Bytes} (h : ∀ b ∈ digits, isDigit b = true) {n : Nat}
    (hn : FitsInt64 n) :
    readOn Checked.add .tooLarge (Int64.ofNat n) digits =
      if FitsInt64 (valueFrom n digits) then .ok (Int64.ofNat (valueFrom n digits))
      else .error .tooLarge := by
  induction digits generalizing n with
  | nil => rw [readOn, valueFrom_nil, if_pos hn]
  | cons b digits ih =>
    have hb : isDigit b = true := h b (by simp)
    have hdigits : ∀ x ∈ digits, isDigit x = true := fun x hx => h x (by simp [hx])
    rw [readOn, if_pos hb, join_digit hn hb, valueFrom_cons]
    by_cases hfits : FitsInt64 (n * 10 + digitValue b : Nat)
    · rw [if_pos hfits]
      exact ih hdigits hfits
    · have hle := le_valueFrom (n * 10 + digitValue b) digits
      rw [if_neg hfits, if_neg fun hall => hfits (hall.of_le hle)]

/-- **A run of digits is read as its value,** and refused as too large exactly if the value does
not fit. -/
lemma toInt64_digits {digits : Bytes} (hne : digits ≠ []) (h : ∀ b ∈ digits, isDigit b = true) :
    toInt64 digits =
      if FitsInt64 (value digits) then .ok (Int64.ofNat (value digits))
      else .error .tooLarge := by
  cases digits with
  | nil => exact absurd rfl hne
  | cons b rest =>
    have hb : isDigit b = true := h b (by simp)
    have hplus : b ≠ plusSign := by rintro rfl; exact absurd hb (by decide)
    have hminus : b ≠ minusSign := by rintro rfl; exact absurd hb (by decide)
    rw [toInt64, if_neg fun hc => hplus hc.1, if_neg fun hc => hminus hc.1]
    exact readOn_digits h (by decide)

/-! ## Leading zeros -/

def zero : UInt8 := digit 0

/-- Zeros in front of a run of digits do not change its value. -/
lemma value_leadingZeros (k : Nat) (digits : Bytes) :
    value (List.replicate k zero ++ digits) = value digits := by
  induction k with
  | zero => rfl
  | succ k ih =>
    rw [List.replicate_succ, List.cons_append, value_eq_valueFrom, valueFrom_cons]
    exact ih

/-! ## Signs -/

/-- What is written in front of the digits of an integer. -/
def sign (n : Int) : Bytes := if n < 0 then [minusSign] else []

lemma ofInt_eq_sign_append (n : Int) : ofInt n = sign n ++ ofNat n.natAbs := by
  unfold ofInt sign
  split <;> rfl

lemma sign_of_nonneg {n : Int} (h : 0 ≤ n) : sign n = [] := if_neg (Int.not_lt.mpr h)

lemma sign_of_neg {n : Int} (h : n < 0) : sign n = [minusSign] := if_pos h

lemma eq_minusSign_of_mem_sign {n : Int} {b : UInt8} (h : b ∈ sign n) : b = minusSign := by
  unfold sign at h
  split at h
  · exact List.mem_singleton.mp h
  · cases h

lemma not_isDigit_sign {n : Int} : ∀ b ∈ sign n, isDigit b = false := by
  intro b hb
  rw [eq_minusSign_of_mem_sign hb]
  rfl

end Reckoner.Decimal
