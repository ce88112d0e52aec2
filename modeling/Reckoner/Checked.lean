/-
# Arithmetic on 64-bit integers that notices overflow

The operations of `Int64` wrap around.  Those of `Checked` give nothing where the exact result
is too large for 64 bits, and what the wrapping operation gives otherwise.  The main statements
say the same over the integers: there is a result exactly if the exact one fits, and then it is
the exact one.
-/

namespace Reckoner

/-- A 64-bit integer can hold this value: the bounds are `-2 ^ 63` and `2 ^ 63`. -/
def FitsInt64 (n : Int) : Prop := -0x8000000000000000 ≤ n ∧ n < 0x8000000000000000

instance (n : Int) : Decidable (FitsInt64 n) := inferInstanceAs (Decidable (_ ∧ _))

theorem FitsInt64.toInt_ofInt {n : Int} (h : FitsInt64 n) : (Int64.ofInt n).toInt = n :=
  Int64.toInt_ofInt_of_le h.1 h.2

theorem FitsInt64.toInt_ofNat {n : Nat} (h : FitsInt64 n) : (Int64.ofNat n).toInt = n := by
  rw [← Int64.ofInt_eq_ofNat]
  exact h.toInt_ofInt

theorem fitsInt64_toInt (x : Int64) : FitsInt64 x.toInt :=
  ⟨x.le_toInt, x.toInt_lt⟩

/-- A number that is not negative fits if a larger one does. -/
theorem FitsInt64.of_le {m n : Nat} (h : FitsInt64 n) (hle : m ≤ n) : FitsInt64 m := by
  unfold FitsInt64 at *
  omega

namespace Checked

/-- A result, unless computing it overflowed. -/
def guarded (overflow : Bool) (x : Int64) : Option Int64 := if overflow then none else some x

def add (x y : Int64) : Option Int64 := guarded (x.toBitVec.saddOverflow y.toBitVec) (x + y)

def sub (x y : Int64) : Option Int64 := guarded (x.toBitVec.ssubOverflow y.toBitVec) (x - y)

def mul (x y : Int64) : Option Int64 := guarded (x.toBitVec.smulOverflow y.toBitVec) (x * y)

/-- The quotient, truncated toward zero.  There is none by zero, and only one that overflows. -/
def div (x y : Int64) : Option Int64 :=
  guarded (y == 0 || x == Int64.minValue && y == -1) (x / y)

/-- A 64-bit integer that holds `n`, if there is one. -/
def exactly (n : Int) : Option Int64 := if FitsInt64 n then some (Int64.ofInt n) else none

/-- A result that is the exact one up to wrapping is the exact one if that fits. -/
theorem eq_ofInt_of_bmod {x : Int64} {n : Int} (h : FitsInt64 n)
    (hx : x.toInt = n.bmod Int64.size) : x = Int64.ofInt n := by
  apply Int64.toInt.inj
  rw [hx, h.toInt_ofInt]
  obtain ⟨h₁, h₂⟩ := h
  have hsize : (Int64.size : Int) = 2 * 0x8000000000000000 := rfl
  exact Int.bmod_eq_of_le (by omega) (by omega)

/-- What the operations have in common: an overflow is noticed exactly if the exact result does
not fit, and the result wraps around. -/
theorem guarded_eq {overflow : Bool} {x : Int64} {n : Int}
    (hov : overflow = true ↔ ¬FitsInt64 n) (hx : x.toInt = n.bmod Int64.size) :
    guarded overflow x = exactly n := by
  unfold guarded exactly
  by_cases h : FitsInt64 n
  · have hnone : ¬overflow = true := fun h' => hov.mp h' h
    rw [if_neg hnone, if_pos h, eq_ofInt_of_bmod h hx]
  · rw [if_pos (hov.mpr h), if_neg h]

theorem add_eq (x y : Int64) : add x y = exactly (x.toInt + y.toInt) := by
  refine guarded_eq ?_ (Int64.toInt_add x y)
  simp only [BitVec.saddOverflow, Int64.toInt_toBitVec, Bool.or_eq_true, decide_eq_true_eq,
    FitsInt64]
  omega

theorem sub_eq (x y : Int64) : sub x y = exactly (x.toInt - y.toInt) := by
  refine guarded_eq ?_ (Int64.toInt_sub x y)
  simp only [BitVec.ssubOverflow, Int64.toInt_toBitVec, Bool.or_eq_true, decide_eq_true_eq,
    FitsInt64]
  omega

theorem mul_eq (x y : Int64) : mul x y = exactly (x.toInt * y.toInt) := by
  refine guarded_eq ?_ (Int64.toInt_mul x y)
  simp only [BitVec.smulOverflow, Int64.toInt_toBitVec, Bool.or_eq_true, decide_eq_true_eq,
    FitsInt64]
  omega

theorem div_eq {x y : Int64} (hy : y ≠ 0) : div x y = exactly (x.toInt.tdiv y.toInt) := by
  refine guarded_eq ?_ (Int64.toInt_div x y)
  by_cases hov : x = Int64.minValue ∧ y = -1
  · obtain ⟨rfl, rfl⟩ := hov
    decide
  · -- every other quotient is the value of a 64-bit integer
    have hexact : (x / y).toInt = x.toInt.tdiv y.toInt := by
      by_cases hx : x = Int64.minValue
      · exact Int64.toInt_div_of_ne_right x y fun h => hov ⟨hx, h⟩
      · exact Int64.toInt_div_of_ne_left x y hx
    have hfits : FitsInt64 (x.toInt.tdiv y.toInt) := hexact ▸ fitsInt64_toInt (x / y)
    simp [hy, hov, hfits]

end Checked
end Reckoner
