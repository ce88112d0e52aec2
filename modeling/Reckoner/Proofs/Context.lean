/-
# An expression in its surroundings

What stands around an expression is ignored, the blanks around its operator are ignored, and so
are zeros in front of its operands: `Operation.parse_padded` compares an expression with all of
these to the bare one.  There are two limits to it.  The digits of the operands have to end where
the surroundings begin, and the bytes in front must not take the left operand for themselves, as
`5 * ` does in front of `3+4`.  They do not if nothing is read of them with one digit behind them,
whichever digit that is.
-/
import Reckoner.Proofs.Outcome

namespace Reckoner

namespace Occurrence

variable {o : Occurrence}

/-- The expression by itself, without blanks. -/
def bare (o : Occurrence) : Occurrence :=
  { o with before := [], leftGap := [], rightGap := [], after := [] }

lemma Valid.bare (h : o.Valid) : o.bare.Valid :=
  { h with
    isBlank_leftGap := by simp [Occurrence.bare]
    isBlank_rightGap := by simp [Occurrence.bare] }

/-- Nothing begins in front of the beginning. -/
lemma Valid.firstIn_of_before_eq_nil (h : o.Valid) (hbefore : o.before = [])
    (hafter : ∀ b ∈ o.after.head?, Decimal.isDigit b = false) : o.FirstIn o.whole where
  valid := h
  whole_eq := rfl
  leftmost := fun _ _ => by
    rw [hbefore]
    exact Nat.zero_le _
  not_isDigit_after := hafter

/-- An occurrence is the first if its operands end where the surroundings begin, and if there is
none in the bytes in front of it with one digit behind them. -/
lemma Valid.firstIn (h : o.Valid) {d : UInt8} (hd : Decimal.isDigit d = true)
    (hbefore : ∀ b ∈ o.before.getLast?, Decimal.isDigit b = false)
    (hafter : ∀ b ∈ o.after.head?, Decimal.isDigit b = false)
    (hnone : ¬∃ o' : Occurrence, o'.In (o.before ++ [d])) : o.FirstIn o.whole := by
  refine ⟨⟨h, rfl⟩, ?_, hafter⟩
  intro o' hin
  by_contra hlt
  rw [Nat.not_le] at hlt
  obtain ⟨c, rest, hwhole, hc⟩ := h.exists_whole_eq
  rw [hwhole] at hin
  obtain ⟨o'', hin', -⟩ := hin.congr_behind hlt hbefore hc hd []
  exact hnone ⟨o'', hin'⟩

lemma not_in_of_parse {bytes input : Bytes}
    (h : Operation.parse bytes = .error (.noExpression input)) :
    ¬∃ o : Occurrence, o.In bytes := by
  intro hin
  obtain ⟨o, hfirst⟩ := exists_firstIn hin
  rw [hfirst.parse_eq] at h
  exact o.operation_ne_noExpression bytes input h

/-! ## The two readings -/

/-- The bytes of the expression by itself, without blanks. -/
def bareBytes (o : Occurrence) : Bytes := o.left ++ o.operator.byte :: o.right

/-- The bytes of the expression with all that is around and in it, and with `i` zeros in front of
its left operand and `j` zeros in front of its right one. -/
def paddedBytes (o : Occurrence) (i j : Nat) : Bytes :=
  o.before ++ List.replicate i Decimal.zero ++ o.left ++ o.leftGap ++
    o.operator.byte :: o.rightGap ++ List.replicate j Decimal.zero ++ o.right ++ o.after

/-- An operand is refused in `bytes`, where it stands at `offset`, and in `bytes'`, where there are
`zeros` zeros in front of its digits and it stands `inserted` bytes further to the right. -/
structure RefusedIn (bytes bytes' digits : Bytes) (offset inserted zeros : Nat) : Prop where
  parse_eq : Operation.parse bytes =
    .error (.operandTooLarge digits ⟨offset, digits.length⟩ bytes)
  parse_eq' : Operation.parse bytes' =
    .error (.operandTooLarge (List.replicate zeros Decimal.zero ++ digits)
      ⟨offset + inserted, zeros + digits.length⟩ bytes')

/-- The bare and the padded expression are read as the same operation, or the same operand of both
is refused; so they have the same value, or the same fault up to how an operand is quoted. -/
structure ReadAlike (o : Occurrence) (i j : Nat) : Prop where
  parse_eq : (∃ p, Operation.parse o.bareBytes = .ok p ∧
      Operation.parse (o.paddedBytes i j) = .ok p) ∨
    RefusedIn o.bareBytes (o.paddedBytes i j) o.left 0 o.before.length i ∨
    RefusedIn o.bareBytes (o.paddedBytes i j) o.right (o.left.length + 1)
      (o.before.length + i + o.leftGap.length + o.rightGap.length) j
  sameOutcome : SameOutcome (evaluate o.bareBytes) (evaluate (o.paddedBytes i j))

lemma whole_bare (o : Occurrence) : o.bare.whole = o.bareBytes := by
  simp [whole, expression, bare, bareBytes]

lemma whole_pad (o : Occurrence) (i j : Nat) : (o.pad i j).whole = o.paddedBytes i j := by
  simp [whole, expression, pad, paddedBytes]

lemma leftSpan_pad (o : Occurrence) (i j : Nat) :
    (o.pad i j).leftSpan = ⟨0 + o.before.length, i + o.left.length⟩ := by
  simp [leftSpan, pad]

lemma rightSpan_pad (o : Occurrence) (i j : Nat) :
    (o.pad i j).rightSpan =
      ⟨o.left.length + 1 + (o.before.length + i + o.leftGap.length + o.rightGap.length),
        j + o.right.length⟩ := by
  simp only [rightSpan, pad, List.length_append, List.length_replicate, Span.mk.injEq, and_true]
  omega

/-- What an occurrence is read as is decided by the values of its operands, and these are those of
the bare expression. -/
lemma readAlike_of_firstIn {i j : Nat} (h : o.bare.FirstIn o.bareBytes)
    (h' : (o.pad i j).FirstIn (o.paddedBytes i j)) : o.ReadAlike i j where
  parse_eq := by
    by_cases hl : FitsInt64 (Decimal.value o.left)
    · have hl' : FitsInt64 (Decimal.value (o.pad i j).left) := by rwa [value_left_pad]
      by_cases hr : FitsInt64 (Decimal.value o.right)
      · have hr' : FitsInt64 (Decimal.value (o.pad i j).right) := by rwa [value_right_pad]
        refine .inl ⟨_, h.parse_eq.trans (operation_of_fits (o := o.bare) hl hr _), ?_⟩
        rw [h'.parse_eq, operation_of_fits hl' hr', value_left_pad, value_right_pad]
        rfl
      · have hr' : ¬FitsInt64 (Decimal.value (o.pad i j).right) := by rwa [value_right_pad]
        refine .inr (.inr ⟨?_, ?_⟩)
        · rw [h.parse_eq, operation_of_right_too_large (o := o.bare) hl hr]
          simp [bare, rightSpan]
        · rw [h'.parse_eq, operation_of_right_too_large hl' hr', rightSpan_pad]
          rfl
    · have hl' : ¬FitsInt64 (Decimal.value (o.pad i j).left) := by rwa [value_left_pad]
      refine .inr (.inl ⟨?_, ?_⟩)
      · rw [h.parse_eq, operation_of_left_too_large (o := o.bare) hl]
        simp [bare, leftSpan]
      · rw [h'.parse_eq, operation_of_left_too_large hl', leftSpan_pad]
        rfl
  sameOutcome := by
    rw [h.evaluate_eq, h'.evaluate_eq]
    exact sameOutcome_of_value (o := o.bare) (o.value_left_pad i j).symm rfl
      (o.value_right_pad i j).symm _ _

end Occurrence

/-- **The surroundings of an expression, the blanks and the leading zeros make no difference.** -/
theorem Operation.parse_padded {o : Occurrence} (h : o.Valid)
    (hbefore : ∀ b ∈ o.before.getLast?, Decimal.isDigit b = false)
    (hafter : ∀ b ∈ o.after.head?, Decimal.isDigit b = false)
    (hnone : parse (o.before ++ [Decimal.zero]) =
      .error (.noExpression (o.before ++ [Decimal.zero])))
    (i j : Nat) : o.ReadAlike i j := by
  have hbare : o.bare.FirstIn o.bareBytes := by
    rw [← o.whole_bare]
    exact h.bare.firstIn_of_before_eq_nil rfl (by simp [Occurrence.bare])
  have hpadded : (o.pad i j).FirstIn (o.paddedBytes i j) := by
    rw [← o.whole_pad]
    exact (h.pad i j).firstIn (by decide) hbefore hafter (Occurrence.not_in_of_parse hnone)
  exact Occurrence.readAlike_of_firstIn hbare hpadded

/-- The bytes `5*x ` leave the expression behind them alone: its right operand is refused with
blanks, zeros and more bytes behind it as it is without. -/
theorem Operation.parse_padded_refused :
    let o : Occurrence :=
      { before := [0x35, 0x2A, 0x78, Bytes.space]
        left := [0x37]
        leftGap := [0x09]
        operator := .div
        rightGap := [Bytes.carriageReturn, Bytes.lineFeed]
        right := List.replicate 19 0x39
        after := [0x2B, 0x31] }
    o.Valid ∧ (∀ b ∈ o.before.getLast?, Decimal.isDigit b = false) ∧
      (∀ b ∈ o.after.head?, Decimal.isDigit b = false) ∧
      parse (o.before ++ [Decimal.zero]) =
        .error (.noExpression (o.before ++ [Decimal.zero])) ∧
      o.ReadAlike 2 1 := by
  intro o
  have h : o.Valid :=
    ⟨by decide, List.all_eq_true.mp rfl, List.all_eq_true.mp rfl, List.all_eq_true.mp rfl,
      by decide, List.all_eq_true.mp rfl⟩
  have hbefore : ∀ b ∈ o.before.getLast?, Decimal.isDigit b = false := by
    rintro b ⟨⟩
    rfl
  have hafter : ∀ b ∈ o.after.head?, Decimal.isDigit b = false := by
    rintro b ⟨⟩
    rfl
  have hnone : parse (o.before ++ [Decimal.zero]) =
      .error (.noExpression (o.before ++ [Decimal.zero])) := rfl
  exact ⟨h, hbefore, hafter, hnone, parse_padded h hbefore hafter hnone 2 1⟩

/-- The bytes `5 * ` take the left operand of `3+4` for themselves. -/
example : Operation.parse [0x35, 0x20, 0x2A, 0x20, 0x33, 0x2B, 0x34] = .ok ⟨5, .mul, 3⟩ := rfl

end Reckoner
