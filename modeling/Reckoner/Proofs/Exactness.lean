/-
# Carrying out an operation on any two operands

The operands of an operation are any two 64-bit integers, negative ones included.  An operation
comes to its exact value over the integers if that is a 64-bit integer again, and overflows if not:
`Operation.CarriedOut`.  The range of these integers reaches one further down than up, so that one
quotient of all does not fit.  A quotient is rounded toward zero and not down, which makes a
difference as soon as one of the operands is negative.

No operand that is read from bytes is negative, and of two such operands the difference and the
quotient always fit.
-/
import Reckoner.Proofs.WrittenForm

namespace Reckoner

/-! ## Quotients -/

/-- `q` is the quotient of `n` by `d`, rounded toward zero: what is left over is smaller than `d`,
and it is zero or on the same side of zero as `n`. -/
def RoundedTowardZero (n d q : Int) : Prop :=
  ∃ m, n = q * d + m ∧ m.natAbs < d.natAbs ∧ (m = 0 ∨ m.sign = n.sign)

lemma roundedTowardZero_tdiv (n : Int) {d : Int} (hd : d ≠ 0) :
    RoundedTowardZero n d (n.tdiv d) := by
  refine ⟨n.tmod d, ?_, ?_, ?_⟩
  · rw [Int.mul_comm, Int.mul_tdiv_add_tmod]
  · rw [Int.natAbs_tmod]
    exact Nat.mod_lt _ (Int.natAbs_pos.mpr hd)
  · by_cases hdvd : d ∣ n
    · exact .inl (Int.tmod_eq_zero_of_dvd hdvd)
    · right
      rw [Int.sign_tmod, if_neg hdvd]

/-- The quotient of the smallest number by minus one is the only one that is out of range. -/
lemma fitsInt64_tdiv_iff {n d : Int} (hn : FitsInt64 n) (hd : d ≠ 0) :
    FitsInt64 (n.tdiv d) ↔ ¬(n = -0x8000000000000000 ∧ d = -1) := by
  constructor
  · rintro hfits ⟨rfl, rfl⟩
    exact absurd hfits (by decide)
  · intro hne
    by_cases hunit : d.natAbs = 1
    · rcases show d = 1 ∨ d = -1 by omega with rfl | rfl
      · rwa [Int.tdiv_one]
      · rw [Int.tdiv_neg, Int.tdiv_one]
        unfold FitsInt64 at *
        omega
    · -- any other divisor at least halves the number
      have hhalf : n.natAbs / d.natAbs ≤ n.natAbs / 2 :=
        Nat.div_le_div_left (by omega) (by decide)
      have habs : (n.tdiv d).natAbs = n.natAbs / d.natAbs := Int.natAbs_tdiv n d
      unfold FitsInt64 at *
      omega

namespace Operation

/-! ## Operations -/

/-- The value of an operation over the integers, without bound. -/
def exact (o : Operation) : Int := o.operator.exact o.lhs.toInt o.rhs.toInt

variable {o : Operation}

lemma apply_of_fits (hzero : ¬(o.operator = .div ∧ o.rhs = 0)) (h : FitsInt64 o.exact) :
    o.apply = .ok (Int64.ofInt o.exact) := by
  rw [apply_eq, if_neg hzero]
  exact if_pos h

lemma apply_of_not_fits (hzero : ¬(o.operator = .div ∧ o.rhs = 0)) (h : ¬FitsInt64 o.exact) :
    o.apply = .error (.overflow o) := by
  rw [apply_eq, if_neg hzero]
  exact if_neg h

lemma apply_eq_divisionByZero_iff :
    o.apply = .error .divisionByZero ↔ o.operator = .div ∧ o.rhs = 0 := by
  constructor
  · intro h
    by_contra hzero
    by_cases hfits : FitsInt64 o.exact
    · rw [apply_of_fits hzero hfits] at h
      cases h
    · rw [apply_of_not_fits hzero hfits] at h
      cases h
  · intro hzero
    rw [apply_eq, if_pos hzero]

/-- An overflow is always that of the operation itself, and its exact value does not fit. -/
lemma apply_eq_overflow_iff {p : Operation} :
    o.apply = .error (.overflow p) ↔
      p = o ∧ ¬(o.operator = .div ∧ o.rhs = 0) ∧ ¬FitsInt64 o.exact := by
  by_cases hzero : o.operator = .div ∧ o.rhs = 0
  · rw [apply_eq_divisionByZero_iff.mpr hzero]
    simp [hzero]
  · by_cases hfits : FitsInt64 o.exact
    · rw [apply_of_fits hzero hfits]
      simp [hfits]
    · rw [apply_of_not_fits hzero hfits]
      constructor
      · intro h
        cases h
        exact ⟨rfl, hzero, hfits⟩
      · rintro ⟨rfl, -⟩
        rfl

lemma exact_of_div (h : o.operator = .div) : o.exact = o.lhs.toInt.tdiv o.rhs.toInt := by
  rw [exact, h]
  rfl

lemma toInt_ne_zero {x : Int64} (h : x ≠ 0) : x.toInt ≠ 0 := fun heq =>
  h (Int64.toInt_inj.mp heq)

/-- Without a negative operand a difference or a quotient is no further from zero than the
operands are. -/
lemma fits_of_nonneg (hl : 0 ≤ o.lhs) (hr : 0 ≤ o.rhs)
    (hop : o.operator = .sub ∨ o.operator = .div) : FitsInt64 o.exact := by
  have hl' := toInt_nonneg hl
  have hr' := toInt_nonneg hr
  obtain ⟨-, hlt⟩ := fitsInt64_toInt o.lhs
  obtain ⟨-, hrt⟩ := fitsInt64_toInt o.rhs
  rcases hop with hsub | hdiv
  · have hexact : o.exact = o.lhs.toInt - o.rhs.toInt := by
      rw [exact, hsub]
      rfl
    rw [hexact]
    unfold FitsInt64
    omega
  · have hle := Int.tdiv_le_self o.rhs.toInt hl'
    have hpos := Int.tdiv_nonneg hl' hr'
    rw [exact_of_div hdiv]
    unfold FitsInt64
    omega

/-- What carrying out an operation comes to. -/
structure CarriedOut (o : Operation) : Prop where
  divisionByZero_iff : o.apply = .error .divisionByZero ↔ o.operator = .div ∧ o.rhs = 0
  ok_of_fits : ¬(o.operator = .div ∧ o.rhs = 0) → FitsInt64 o.exact →
    ∃ value, o.apply = .ok value ∧ value.toInt = o.exact
  overflow_of_not_fits : ¬(o.operator = .div ∧ o.rhs = 0) → ¬FitsInt64 o.exact →
    o.apply = .error (.overflow o)
  rounded : o.operator = .div → o.rhs ≠ 0 →
    RoundedTowardZero o.lhs.toInt o.rhs.toInt o.exact
  overflow_div_iff : o.operator = .div → ∀ p,
    o.apply = .error (.overflow p) ↔ p = o ∧ o.lhs = Int64.minValue ∧ o.rhs = -1
  no_overflow : 0 ≤ o.lhs → 0 ≤ o.rhs → o.operator = .sub ∨ o.operator = .div →
    ∀ p, o.apply ≠ .error (.overflow p)

lemma carriedOut (o : Operation) : o.CarriedOut where
  divisionByZero_iff := apply_eq_divisionByZero_iff
  ok_of_fits := fun hzero hfits => ⟨_, apply_of_fits hzero hfits, hfits.toInt_ofInt⟩
  overflow_of_not_fits := apply_of_not_fits
  rounded := fun hop hrhs => by
    rw [exact_of_div hop]
    exact roundedTowardZero_tdiv _ (toInt_ne_zero hrhs)
  overflow_div_iff := fun hop p => by
    rw [apply_eq_overflow_iff]
    by_cases hrhs : o.rhs = 0
    · simp [hop, hrhs]
    · have hmin : o.lhs.toInt = -0x8000000000000000 ↔ o.lhs = Int64.minValue :=
        Int64.toInt_inj (y := Int64.minValue)
      have hunit : o.rhs.toInt = -1 ↔ o.rhs = -1 := Int64.toInt_inj (y := -1)
      rw [exact_of_div hop,
        fitsInt64_tdiv_iff (fitsInt64_toInt o.lhs) (toInt_ne_zero hrhs), not_not, hmin, hunit]
      simp [hrhs]
  no_overflow := fun hl hr hop p h =>
    (apply_eq_overflow_iff.mp h).2.2 (fits_of_nonneg hl hr hop)

/-- **An operation comes to its exact value, or overflows if that does not fit.**  So it is for
every two operands.  An operation that was read from bytes has no negative operand, and then it
cannot overflow as a difference or as a quotient. -/
theorem apply_exact :
    (∀ o : Operation, o.CarriedOut) ∧
      ∀ (bytes : Bytes) (o : Operation), parse bytes = .ok o →
        0 ≤ o.lhs ∧ 0 ≤ o.rhs ∧
          (o.operator = .sub ∨ o.operator = .div → ∀ p, o.apply ≠ .error (.overflow p)) := by
  refine ⟨carriedOut, ?_⟩
  intro bytes o h
  obtain ⟨hl, hr⟩ := nonneg_of_parse h
  exact ⟨hl, hr, o.carriedOut.no_overflow hl hr⟩

/-- The quotient that overflows, one that is rounded up since it is negative, and a difference
that is read and cannot overflow. -/
theorem apply_exact_at_bounds :
    let largest : Operation := ⟨Int64.minValue, .div, -1⟩
    let negative : Operation := ⟨-7, .div, 2⟩
    let difference : Bytes := [0x37, 0x2D, 0x39]
    largest.apply = .error (.overflow largest) ∧
      RoundedTowardZero (-7) 2 (-3) ∧ negative.apply = .ok (-3) ∧
      parse difference = .ok ⟨7, .sub, 9⟩ ∧
      ∀ p, Operation.apply ⟨7, .sub, 9⟩ ≠ .error (.overflow p) := by
  intro largest negative difference
  obtain ⟨hall, hread⟩ := apply_exact
  have hoverflow : largest.apply = .error (.overflow largest) :=
    ((hall largest).overflow_div_iff rfl largest).mpr ⟨rfl, rfl, rfl⟩
  have hlhs : negative.lhs.toInt = -7 := by decide
  have hrhs : negative.rhs.toInt = 2 := by decide
  have hexact : negative.exact = -3 := by decide
  have hrounded := (hall negative).rounded rfl (by decide)
  rw [hlhs, hrhs, hexact] at hrounded
  obtain ⟨value, hvalue, htoInt⟩ := (hall negative).ok_of_fits (by decide) (by decide)
  have hthree : value = -3 := Int64.toInt_inj.mp (htoInt.trans hexact)
  have hparse : parse difference = .ok ⟨7, .sub, 9⟩ := rfl
  obtain ⟨-, -, hnone⟩ := hread difference _ hparse
  exact ⟨hoverflow, hrounded, hthree ▸ hvalue, hparse, hnone (.inl rfl)⟩

end Operation
end Reckoner
