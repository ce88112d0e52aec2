/-
# What evaluating a byte sequence can come to

The search, the reading of the operands and the arithmetic on 64 bits are each correct on their
own.  Put together they say what the value of a byte sequence is in terms of its first
occurrence and of whole numbers without bound: see `Occurrence.outcome`, which lists the cases in
the order in which they win over each other, and `evaluate_outcome`.

Zeros in front of an operand move everything behind them.  That no occurrence comes to stand in
front of the first one because of them rests on `Occurrence.Begins.congr`: whether an occurrence
begins inside of bytes that do not end in a digit does not depend on what follows them, as long
as that is a digit.
-/
import Reckoner.Proofs.FirstExpression

namespace Reckoner

def Span.select (s : Span) (bytes : Bytes) : Bytes := (bytes.drop s.offset).take s.length

/-- Carrying out an operation on 64 bits, in terms of its exact value. -/
lemma Operation.apply_eq (o : Operation) :
    o.apply =
      if o.operator = .div ∧ o.rhs = 0 then .error .divisionByZero
      else if FitsInt64 (o.operator.exact o.lhs.toInt o.rhs.toInt) then
        .ok (Int64.ofInt (o.operator.exact o.lhs.toInt o.rhs.toInt))
      else .error (.overflow o) := by
  unfold apply
  by_cases hzero : o.operator = .div ∧ o.rhs = 0
  · rw [if_pos hzero, if_pos hzero]
  · rw [if_neg hzero, if_neg hzero, Operator.checked_eq hzero, Checked.exactly]
    by_cases hfits : FitsInt64 (o.operator.exact o.lhs.toInt o.rhs.toInt)
    · rw [if_pos hfits, if_pos hfits]
    · rw [if_neg hfits, if_neg hfits]

namespace Occurrence

variable {o : Occurrence} {bytes : Bytes}

/-! ## The outcome of an occurrence -/

/-- What an occurrence in `input` comes to.  The operands are whole numbers without bound, and
so is the exact value of the operation. -/
def outcome (o : Occurrence) (input : Bytes) : Except Fault Int64 :=
  let lhs := Decimal.value o.left
  let rhs := Decimal.value o.right
  if ¬FitsInt64 lhs then .error (.operandTooLarge o.left o.leftSpan input)
  else if ¬FitsInt64 rhs then .error (.operandTooLarge o.right o.rightSpan input)
  else if o.operator = .div ∧ rhs = 0 then .error .divisionByZero
  else if FitsInt64 (o.operator.exact lhs rhs) then .ok (Int64.ofInt (o.operator.exact lhs rhs))
  else .error (.overflow ⟨Int64.ofNat lhs, o.operator, Int64.ofNat rhs⟩)

lemma ofNat_eq_zero_iff {n : Nat} (h : FitsInt64 n) : Int64.ofNat n = 0 ↔ n = 0 := by
  rw [← Int64.toInt_inj, h.toInt_ofNat, Int64.toInt_zero]
  omega

/-- The value of a byte sequence is what its first occurrence comes to. -/
lemma FirstIn.evaluate_eq (h : o.FirstIn bytes) : evaluate bytes = o.outcome bytes := by
  rw [evaluate, h.parse_eq]
  simp only [operation, outcome, ite_not]
  by_cases hl : FitsInt64 (Decimal.value o.left)
  · rw [if_pos hl, if_pos hl]
    by_cases hr : FitsInt64 (Decimal.value o.right)
    · rw [if_pos hr, if_pos hr, Except.bind, Operation.apply_eq]
      simp only [hl.toInt_ofNat, hr.toInt_ofNat, ofNat_eq_zero_iff hr]
    · rw [if_neg hr, if_neg hr]
      rfl
  · rw [if_neg hl, if_neg hl]
    rfl

lemma evaluate_of_not_in (h : ¬∃ o : Occurrence, o.In bytes) :
    evaluate bytes = .error (.noExpression bytes) := by
  rw [evaluate, parse_of_not_in h]
  rfl

lemma select_leftSpan (o : Occurrence) : o.leftSpan.select o.whole = o.left := by
  rw [whole_eq_afterLeft]
  simp [Span.select, leftSpan]

lemma select_rightSpan (o : Occurrence) : o.rightSpan.select o.whole = o.right := by
  have hlen : o.rightSpan.offset = o.beforeRight.length := by
    simp only [rightSpan, beforeRight, List.length_append, List.length_cons, List.length_nil]
  rw [Span.select, hlen, whole_eq_beforeRight, List.drop_left]
  simp [rightSpan]

/-! ## Bytes in front of an occurrence -/

/-- An occurrence begins right at the beginning of a byte sequence. -/
def Begins (bytes : Bytes) : Prop := ∃ o : Occurrence, o.In bytes ∧ o.before = []

lemma In.begins (h : o.In bytes) : ∃ rest, bytes = o.before ++ rest ∧ Begins rest := by
  refine ⟨o.left ++ o.afterLeft, by rw [← whole_eq_afterLeft, h.whole_eq],
    { o with before := [] }, ⟨{ h.valid with }, ?_⟩, rfl⟩
  simp [whole, expression, afterLeft]

lemma Begins.in_append {rest : Bytes} (h : Begins rest) (before : Bytes) :
    ∃ o : Occurrence, o.In (before ++ rest) ∧ o.before = before := by
  obtain ⟨o, ⟨hvalid, hwhole⟩, hbefore⟩ := h
  refine ⟨{ o with before := before }, ⟨{ hvalid with }, ?_⟩, rfl⟩
  rw [← hwhole]
  simp [whole, hbefore, expression]

lemma not_isDigit_of_mem_between (h : o.Valid) {b : UInt8}
    (hb : b ∈ o.leftGap ++ o.operator.byte :: o.rightGap) : Decimal.isDigit b = false := by
  rcases List.mem_append.mp hb with hb | hb
  · exact not_isDigit_of_isBlank (h.isBlank_leftGap b hb)
  · rcases List.mem_cons.mp hb with rfl | hb
    · exact o.operator.not_isDigit_byte
    · exact not_isDigit_of_isBlank (h.isBlank_rightGap b hb)

/-- Let `v` not end in a digit, and let a digit follow it.  Whether an occurrence begins with
`v` does not depend on which digit that is, nor on what comes behind it. -/
lemma Begins.congr {v x y : Bytes} {c d : UInt8} (h : Begins (v ++ c :: x)) (hv : v ≠ [])
    (hlast : ∀ b ∈ v.getLast?, Decimal.isDigit b = false) (hc : Decimal.isDigit c = true)
    (hd : Decimal.isDigit d = true) : Begins (v ++ d :: y) := by
  obtain ⟨o, ⟨hvalid, hwhole⟩, hbefore⟩ := h
  -- one digit of the right operand is enough for an occurrence
  obtain ⟨e, right, hright⟩ := List.exists_cons_of_ne_nil hvalid.right_ne_nil
  have he : Decimal.isDigit e = true := hvalid.isDigit_right e (by simp [hright])
  have hshort : ∀ (e : UInt8) (after : Bytes), Decimal.isDigit e = true →
      Begins (o.left ++ (o.leftGap ++ o.operator.byte :: o.rightGap) ++ e :: after) := by
    intro e after he
    refine ⟨⟨[], o.left, o.leftGap, o.operator, o.rightGap, [e], after⟩,
      ⟨{ hvalid with right_ne_nil := by simp, isDigit_right := by simpa using he }, ?_⟩, rfl⟩
    simp [whole, expression]
  have hcut : o.left ++ (o.leftGap ++ o.operator.byte :: o.rightGap) ++ e :: (right ++ o.after) =
      v ++ c :: x := by
    rw [← hwhole]
    simp [whole, expression, hbefore, hright]
  rcases List.append_eq_append_iff.mp hcut with ⟨w, rfl, hw⟩ | ⟨w, hw, hx⟩
  · -- the right operand begins behind `v`, or with its end
    cases w with
    | nil =>
      rw [List.append_nil]
      exact hshort d y hd
    | cons e' w =>
      obtain ⟨rfl, -⟩ := List.cons.inj hw
      rw [List.append_assoc, List.cons_append]
      exact hshort e (w ++ d :: y) he
  · cases w with
    | nil =>
      rw [List.append_nil] at hw
      rw [← hw]
      exact hshort d y hd
    | cons c' w =>
      -- the digit `c` would stand in front of the right operand
      obtain ⟨rfl, -⟩ := List.cons.inj hx
      exfalso
      rcases List.append_eq_append_iff.mp hw with ⟨u, rfl, hu⟩ | ⟨u, hu, -⟩
      · have hmem : c ∈ o.leftGap ++ o.operator.byte :: o.rightGap := by
          rw [hu]
          simp
        rw [not_isDigit_of_mem_between hvalid hmem] at hc
        cases hc
      · have hb := hlast (v.getLast hv) (List.getLast?_eq_some_getLast hv)
        rw [hvalid.isDigit_left _ (by rw [hu]; simp)] at hb
        cases hb

/-- The same for an occurrence that begins anywhere inside of `before`, as long as `before` does
not end in a digit: another digit and other bytes behind it leave an occurrence at that place. -/
lemma In.congr_behind {before x : Bytes} {c d : UInt8} (h : o.In (before ++ c :: x))
    (hlt : o.before.length < before.length)
    (hlast : ∀ b ∈ before.getLast?, Decimal.isDigit b = false) (hc : Decimal.isDigit c = true)
    (hd : Decimal.isDigit d = true) (y : Bytes) :
    ∃ o' : Occurrence, o'.In (before ++ d :: y) ∧ o'.before = o.before := by
  obtain ⟨rest, hrest, hbegins⟩ := h.begins
  -- what stands in `before` behind the place where it begins is `v`
  obtain ⟨v, hbefore, rfl⟩ : ∃ v, before = o.before ++ v ∧ rest = v ++ c :: x := by
    rcases List.append_eq_append_iff.mp hrest with ⟨w, hw, -⟩ | ⟨w, hw, hw'⟩
    · have hlen := congrArg List.length hw
      rw [List.length_append] at hlen
      omega
    · exact ⟨w, hw, hw'⟩
  have hv : v ≠ [] := by
    rintro rfl
    rw [List.append_nil] at hbefore
    exact absurd hlt (by rw [← hbefore]; exact Nat.lt_irrefl _)
  have hlast' : ∀ b ∈ v.getLast?, Decimal.isDigit b = false := fun b hb =>
    hlast b (by rw [hbefore, List.getLast?_append_of_ne_nil _ hv]; exact hb)
  have hbegins' : Begins (v ++ d :: y) := hbegins.congr hv hlast' hc hd
  obtain ⟨o', hin, hat⟩ := hbegins'.in_append o.before
  rw [← List.append_assoc, ← hbefore] at hin
  exact ⟨o', hin, hat⟩

/-- A digit stands right behind the bytes in front of an occurrence. -/
lemma Valid.exists_whole_eq (h : o.Valid) :
    ∃ d rest, o.whole = o.before ++ d :: rest ∧ Decimal.isDigit d = true := by
  obtain ⟨d, left, hleft⟩ := List.exists_cons_of_ne_nil h.left_ne_nil
  refine ⟨d, left ++ o.afterLeft, ?_, h.isDigit_left d (by simp [hleft])⟩
  rw [whole_eq_afterLeft, hleft, List.cons_append]

/-! ## Zeros in front of the operands -/

/-- The occurrence with `i` zeros in front of its left operand and `j` zeros in front of its
right one. -/
def pad (o : Occurrence) (i j : Nat) : Occurrence :=
  { o with
    left := List.replicate i Decimal.zero ++ o.left
    right := List.replicate j Decimal.zero ++ o.right }

@[simp] lemma value_left_pad (o : Occurrence) (i j : Nat) :
    Decimal.value (o.pad i j).left = Decimal.value o.left := by
  rw [pad, Decimal.value_leadingZeros]

@[simp] lemma value_right_pad (o : Occurrence) (i j : Nat) :
    Decimal.value (o.pad i j).right = Decimal.value o.right := by
  rw [pad, Decimal.value_leadingZeros]

lemma isDigit_of_mem_leadingZeros {k : Nat} {digits : Bytes}
    (h : ∀ b ∈ digits, Decimal.isDigit b = true) :
    ∀ b ∈ List.replicate k Decimal.zero ++ digits, Decimal.isDigit b = true := by
  intro b hb
  rcases List.mem_append.mp hb with hb | hb
  · rw [List.eq_of_mem_replicate hb]
    rfl
  · exact h b hb

lemma Valid.pad (h : o.Valid) (i j : Nat) : (o.pad i j).Valid :=
  { h with
    left_ne_nil := by simp [Occurrence.pad, h.left_ne_nil]
    isDigit_left := isDigit_of_mem_leadingZeros h.isDigit_left
    right_ne_nil := by simp [Occurrence.pad, h.right_ne_nil]
    isDigit_right := isDigit_of_mem_leadingZeros h.isDigit_right }

/-- Zeros in front of its operands leave the first occurrence the first. -/
lemma FirstIn.pad (h : o.FirstIn bytes) (i j : Nat) : (o.pad i j).FirstIn (o.pad i j).whole := by
  have hvalid := h.valid.pad i j
  refine ⟨⟨hvalid, rfl⟩, ?_, h.not_isDigit_after⟩
  intro o' hin
  by_contra hlt
  rw [Nat.not_le] at hlt
  -- `o'` begins in front of the operand, so it would begin there without the zeros as well
  obtain ⟨c, x, hwhole, hc⟩ := hvalid.exists_whole_eq
  obtain ⟨d, y, hwhole', hd⟩ := h.valid.exists_whole_eq
  rw [hwhole] at hin
  obtain ⟨o'', hin', hbefore⟩ := hin.congr_behind hlt h.not_isDigit_before hc hd y
  rw [show (o.pad i j).before = o.before from rfl, ← hwhole', h.whole_eq] at hin'
  have hle := h.leftmost o'' hin'
  rw [hbefore] at hle
  exact absurd hle (Nat.not_le.mpr hlt)

end Occurrence

/-- Two outcomes that differ at most in how they quote an operand that is too large. -/
inductive SameOutcome : Except Fault Int64 → Except Fault Int64 → Prop
  | refl (r : Except Fault Int64) : SameOutcome r r
  | operandTooLarge (digits digits' : Bytes) (span span' : Span) (input input' : Bytes) :
      SameOutcome (.error (.operandTooLarge digits span input))
        (.error (.operandTooLarge digits' span' input'))

/-- Only the values of the operands count. -/
lemma Occurrence.sameOutcome_of_value {o o' : Occurrence}
    (hleft : Decimal.value o.left = Decimal.value o'.left) (hop : o.operator = o'.operator)
    (hright : Decimal.value o.right = Decimal.value o'.right) (input input' : Bytes) :
    SameOutcome (o.outcome input) (o'.outcome input') := by
  simp only [outcome, hleft, hop, hright, ite_not]
  by_cases hl : FitsInt64 (Decimal.value o'.left)
  · rw [if_pos hl, if_pos hl]
    by_cases hr : FitsInt64 (Decimal.value o'.right)
    · rw [if_pos hr, if_pos hr]
      exact .refl _
    · rw [if_neg hr, if_neg hr]
      exact .operandTooLarge ..
  · rw [if_neg hl, if_neg hl]
    exact .operandTooLarge ..

lemma Occurrence.sameOutcome_pad (o : Occurrence) (i j : Nat) (input input' : Bytes) :
    SameOutcome (o.outcome input) ((o.pad i j).outcome input') :=
  sameOutcome_of_value (o.value_left_pad i j).symm rfl (o.value_right_pad i j).symm input input'

lemma Occurrence.outcome_ne_unknownOperator (o : Occurrence) (input symbol : Bytes) :
    o.outcome input ≠ .error (.unknownOperator symbol) := by
  unfold outcome
  simp only
  repeat' split
  all_goals simp

/-- **What evaluating a byte sequence comes to.**  Either there is no expression in it, and the
message shows all of it; or it has a first occurrence of an expression, and its outcome is the
outcome of that: the first in the list of an operand that is too large, with its digits and
their place, a division by zero, the exact value and an overflow that holds.  Zeros in front of
the operands of that occurrence change at most how an operand is quoted.  The operator is always
known. -/
theorem evaluate_outcome (bytes : Bytes) :
    ((¬∃ o : Occurrence, o.In bytes) ∧ evaluate bytes = .error (.noExpression bytes) ∧
        (Fault.noExpression bytes).message = "invalid expression: " ++ Text.lossy bytes ∨
      ∃ o : Occurrence, o.FirstIn bytes ∧ evaluate bytes = o.outcome bytes ∧
        o.leftSpan.select bytes = o.left ∧ o.rightSpan.select bytes = o.right ∧
        ∀ i j, (o.pad i j).FirstIn (o.pad i j).whole ∧
          SameOutcome (evaluate bytes) (evaluate (o.pad i j).whole)) ∧
    ∀ symbol, evaluate bytes ≠ .error (.unknownOperator symbol) := by
  by_cases hin : ∃ o : Occurrence, o.In bytes
  · obtain ⟨o, hfirst⟩ := Occurrence.exists_firstIn hin
    have hselect := o.select_leftSpan
    have hselect' := o.select_rightSpan
    rw [hfirst.whole_eq] at hselect hselect'
    refine ⟨.inr ⟨o, hfirst, hfirst.evaluate_eq, hselect, hselect', fun i j => ?_⟩, ?_⟩
    · have hpad := hfirst.pad i j
      refine ⟨hpad, ?_⟩
      rw [hfirst.evaluate_eq, hpad.evaluate_eq]
      exact o.sameOutcome_pad i j _ _
    · intro symbol
      rw [hfirst.evaluate_eq]
      exact o.outcome_ne_unknownOperator bytes symbol
  · have heval := Occurrence.evaluate_of_not_in hin
    exact ⟨.inl ⟨hin, heval, rfl⟩, fun symbol => by rw [heval]; simp⟩

end Reckoner
