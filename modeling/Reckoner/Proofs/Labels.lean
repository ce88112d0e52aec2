/-
# What a label is read as

The label of a record is the text that was evaluated, without its last byte.  If that byte stands
behind the first expression, the label has the value of the record, and the record is a true
equation.  If it is the last digit of the right operand, the label is read with an operand that is
shorter by this digit.  And if that operand has no other digit, there is no expression in the
label at all.

In each case no other occurrence takes the place of the first one.  What occurs in the label
occurs in the whole text as well, so it does not begin in front of the first occurrence; and with
no digit behind the operator nothing begins further to the right either.  The main result is
`recorded_label`.
-/
import Reckoner.Proofs.Cutoff
import Reckoner.Proofs.WrittenForm

namespace Reckoner

/-! ## Numbers and values -/

lemma Decimal.value_dropLast {digits : Bytes} (h : ∀ b ∈ digits, isDigit b = true) :
    value digits.dropLast = value digits / 10 := by
  rcases digits.eq_nil_or_concat' with rfl | ⟨front, b, rfl⟩
  · rfl
  · have hb : digitValue b < 10 := digitValue_lt (h b (by simp))
    rw [List.dropLast_concat, value_append_singleton]
    omega

lemma ofNat_div_ten {n : Nat} (h : FitsInt64 n) :
    Int64.ofNat (n / 10) = Int64.ofNat n / 10 := by
  have hten : (10 : Int64).toInt = 10 := rfl
  rw [← Int64.toInt_inj, Int64.toInt_div_of_ne_right _ _ (by decide), hten, h.toInt_ofNat,
    (h.of_le (Nat.div_le_self n 10)).toInt_ofNat]
  rfl

/-- Outcomes that differ only in how an operand is quoted have the same value. -/
lemma SameOutcome.eq_ok {r r' : Except Fault Int64} (h : SameOutcome r r') {value : Int64}
    (hr : r = .ok value) : r' = .ok value := by
  cases h with
  | refl => exact hr
  | operandTooLarge => cases hr

namespace Occurrence

variable {o o' : Occurrence} {bytes front rest : Bytes}

/-- Where the expression ends. -/
def stop (o : Occurrence) : Nat := o.before.length + o.expression.length

lemma In.length_eq (h : o.In bytes) : bytes.length = o.stop + o.after.length := by
  rw [← h.whole_eq, whole, stop, List.length_append, List.length_append]

/-! ## Occurrences in a part of the bytes -/

/-- What occurs in the front of a byte sequence occurs in all of it, at the same place. -/
lemma In.of_isPrefix (h : o.In front) (hfront : front <+: bytes) :
    ∃ o' : Occurrence, o'.In bytes ∧ o'.before = o.before := by
  obtain ⟨rest, rfl⟩ := hfront
  refine ⟨{ o with after := o.after ++ rest }, ⟨{ h.valid with }, ?_⟩, rfl⟩
  rw [← h.whole_eq]
  simp [whole, expression]

/-- What begins behind the front of a byte sequence occurs in the rest. -/
lemma In.exists_in_of_le (h : o.In (front ++ rest)) (hle : front.length ≤ o.before.length) :
    ∃ o' : Occurrence, o'.In rest := by
  obtain ⟨bytes, hcut, hbegins⟩ := h.begins
  obtain ⟨between, hbefore⟩ : front <+: o.before :=
    List.prefix_of_prefix_length_le ⟨rest, rfl⟩ ⟨bytes, hcut.symm⟩ hle
  rw [← hbefore, List.append_assoc] at hcut
  obtain ⟨o', hin, -⟩ := hbegins.in_append between
  exact ⟨o', List.append_cancel_left hcut ▸ hin⟩

/-- In the front of a byte sequence nothing begins further to the left than in all of it. -/
lemma FirstIn.of_isPrefix (h : o.FirstIn bytes) (hfront : front <+: bytes) (hin : o'.In front)
    (hbefore : o'.before = o.before)
    (hafter : ∀ b ∈ o'.after.head?, Decimal.isDigit b = false) : o'.FirstIn front where
  toIn := hin
  leftmost := fun other hother => by
    obtain ⟨same, hsame, hat⟩ := hother.of_isPrefix hfront
    rw [hbefore, ← hat]
    exact h.leftmost same hsame
  not_isDigit_after := hafter

/-! ## The first occurrence without the last byte -/

lemma In.dropLast_eq (h : o.In bytes) :
    bytes.dropLast = o.beforeRight ++ (o.right ++ o.after).dropLast := by
  rw [← h.whole_eq, whole_eq_beforeRight,
    List.dropLast_append_of_ne_nil (by simp [h.valid.right_ne_nil])]

lemma In.isPrefix_dropLast (h : o.In bytes) :
    o.before ++ o.left ++ o.leftGap ++ [o.operator.byte] <+: bytes.dropLast := by
  rw [h.dropLast_eq, beforeRight, List.append_assoc _ o.rightGap]
  exact List.prefix_append _ _

/-- A byte behind the expression is not missed. -/
lemma FirstIn.dropLast_after (h : o.FirstIn bytes) (hafter : o.after ≠ []) :
    { o with after := o.after.dropLast }.FirstIn bytes.dropLast := by
  have hwhole : whole { o with after := o.after.dropLast } = bytes.dropLast := by
    rw [h.dropLast_eq, List.dropLast_append_of_ne_nil hafter, whole_eq_beforeRight]
    rfl
  refine h.of_isPrefix bytes.dropLast_prefix ⟨{ h.valid with }, hwhole⟩ rfl ?_
  intro b hb
  rw [List.head?_dropLast] at hb
  split at hb
  · exact h.not_isDigit_after b hb
  · cases hb

lemma FirstIn.evaluate_dropLast_after (h : o.FirstIn bytes) (hafter : o.after ≠ [])
    {value : Int64} (hvalue : evaluate bytes = .ok value) :
    evaluate bytes.dropLast = .ok value := by
  have hsame : SameOutcome (o.outcome bytes)
      (outcome { o with after := o.after.dropLast } bytes.dropLast) :=
    sameOutcome_of_value rfl rfl rfl bytes bytes.dropLast
  rw [h.evaluate_eq] at hvalue
  rw [(h.dropLast_after hafter).evaluate_eq]
  exact hsame.eq_ok hvalue

/-- The right operand loses its last digit, if it has another. -/
lemma FirstIn.dropLast_right (h : o.FirstIn bytes) (hafter : o.after = [])
    (hright : 2 ≤ o.right.length) :
    { o with right := o.right.dropLast }.FirstIn bytes.dropLast := by
  have hwhole : whole { o with right := o.right.dropLast } = bytes.dropLast := by
    rw [h.dropLast_eq, hafter, List.append_nil, whole_eq_beforeRight]
    exact congrArg (o.beforeRight ++ ·) (List.append_nil _)
  have hvalid : { o with right := o.right.dropLast }.Valid :=
    { h.valid with
      right_ne_nil := by
        rw [← List.length_pos_iff, List.length_dropLast]
        omega
      isDigit_right := fun b hb => h.valid.isDigit_right b (List.dropLast_subset _ hb) }
  refine h.of_isPrefix bytes.dropLast_prefix ⟨hvalid, hwhole⟩ rfl ?_
  rw [hafter]
  simp

lemma FirstIn.parse_dropLast_right (h : o.FirstIn bytes) (hafter : o.after = [])
    (hright : 2 ≤ o.right.length) (hl : FitsInt64 (Decimal.value o.left))
    (hr : FitsInt64 (Decimal.value o.right)) :
    Operation.parse bytes.dropLast =
      .ok ⟨Int64.ofNat (Decimal.value o.left), o.operator,
        Int64.ofNat (Decimal.value o.right) / 10⟩ := by
  have hvalue := Decimal.value_dropLast h.valid.isDigit_right
  have hr' : FitsInt64 (Decimal.value o.right.dropLast) :=
    hr.of_le (hvalue ▸ Nat.div_le_self _ 10)
  rw [(h.dropLast_right hafter hright).parse_eq,
    operation_of_fits (o := { o with right := o.right.dropLast }) hl hr']
  simp only [hvalue, ofNat_div_ten hr]

/-- With no right operand behind its operator the left one belongs to no expression. -/
lemma Valid.not_in_left (h : o.Valid) :
    ¬∃ o' : Occurrence, o'.In (o.left ++ (o.leftGap ++ o.operator.byte :: o.rightGap)) := by
  have hbetween : ∀ b ∈ o.leftGap ++ o.operator.byte :: o.rightGap, Decimal.isDigit b = false :=
    fun b => not_isDigit_of_mem_between h
  refine not_in_digits_append h.isDigit_left
    (fun b hb => hbetween b (List.mem_of_mem_head? hb)) ?_ ?_
  · intro o' hvalid heq
    rw [← o.rightGap.append_nil] at heq
    obtain ⟨-, -, -, hend⟩ :=
      afterLeft_unique hvalid h.isBlank_leftGap h.isBlank_rightGap (by simp) heq
    exact hvalid.right_ne_nil (List.append_eq_nil_iff.mp hend).1
  · have hnil : ¬∃ o' : Occurrence, o'.In [] := not_in_digits (by simp)
    simpa using not_in_append hbetween hnil

/-- Without the only digit of its right operand the first occurrence is gone, and there is no
other. -/
lemma FirstIn.not_in_dropLast (h : o.FirstIn bytes) (hafter : o.after = [])
    (hright : o.right.length = 1) : ¬∃ o' : Occurrence, o'.In bytes.dropLast := by
  obtain ⟨d, hd⟩ := List.length_eq_one_iff.mp hright
  have hwhole : bytes.dropLast =
      o.before ++ (o.left ++ (o.leftGap ++ o.operator.byte :: o.rightGap)) := by
    rw [h.dropLast_eq, hafter, hd]
    simp [beforeRight]
  rintro ⟨o', hin⟩
  obtain ⟨o'', hin'', hbefore⟩ := hin.of_isPrefix bytes.dropLast_prefix
  have hle := h.leftmost o'' hin''
  rw [hbefore] at hle
  rw [hwhole] at hin
  exact h.valid.not_in_left (hin.exists_in_of_le hle)

end Occurrence

/-! ## Labels -/

lemma exists_parse_of_evaluate_ok {bytes : Bytes} {value : Int64}
    (h : evaluate bytes = .ok value) :
    ∃ p, Operation.parse bytes = .ok p ∧ p.apply = .ok value := by
  cases hparse : Operation.parse bytes with
  | ok p =>
    rw [evaluate, hparse] at h
    exact ⟨p, rfl, h⟩
  | error f =>
    rw [evaluate, hparse] at h
    cases h

/-- What the label of a record is read as.  The text that was evaluated has `o` for its first
occurrence and is read as `p`. -/
structure LabelRead (text : Bytes) (o : Occurrence) (p : Operation) (r : Record) : Prop where
  label_eq : r.label = text.dropLast
  length_label : 2 ≤ r.label.length
  isPrefix_label : o.before ++ o.left ++ o.leftGap ++ [o.operator.byte] <+: r.label
  of_stop_lt : o.stop < text.length → evaluate r.label = .ok r.value
  of_two_digits : o.stop = text.length → 2 ≤ o.right.length →
    Operation.parse r.label = .ok ⟨p.lhs, p.operator, p.rhs / 10⟩
  of_one_digit : o.stop = text.length → o.right.length = 1 →
    Operation.parse r.label = .error (.noExpression r.label)

/-- **What the label of a record is read as** depends on where the first expression ends in the
text that was evaluated.  With bytes behind it the label has the value of the record; without any
its right operand is ten times smaller, or missing. -/
theorem recorded_label {line : Bytes} {r : Record} (h : Verdict.ofLine line = .recorded r) :
    ∃ o p, Pattern.expression.find? line.dropLast = some ⟨o.before, o.texts, o.after⟩ ∧
      o.FirstIn line.dropLast ∧ Operation.parse line.dropLast = .ok p ∧ p.apply = .ok r.value ∧
      LabelRead line.dropLast o p r := by
  obtain ⟨-, hlabel, hvalue⟩ := recordOf?_eq_some_iff.mp (recordOf?_of_ofLine h)
  obtain ⟨p, hparse, happly⟩ := exists_parse_of_evaluate_ok hvalue
  obtain ⟨o, hfirst, hl, hr, hp⟩ := Occurrence.exists_firstIn_of_parse hparse
  have hlength := hfirst.toIn.length_eq
  refine ⟨o, p, hfirst.find?_eq, hfirst, hparse, happly, ?_⟩
  have hend : o.stop = line.dropLast.length → o.after = [] := fun hstop => by
    rw [← List.length_eq_zero_iff]
    omega
  constructor
  case label_eq => exact hlabel
  case length_label =>
    have := length_of_evaluate_ok hvalue
    rw [hlabel, List.length_dropLast]
    omega
  case isPrefix_label =>
    rw [hlabel]
    exact hfirst.toIn.isPrefix_dropLast
  case of_stop_lt =>
    intro hstop
    have hafter : o.after ≠ [] := by
      rw [← List.length_pos_iff]
      omega
    rw [hlabel]
    exact hfirst.evaluate_dropLast_after hafter hvalue
  case of_two_digits =>
    intro hstop hright
    rw [hlabel, hp]
    exact hfirst.parse_dropLast_right (hend hstop) hright hl hr
  case of_one_digit =>
    intro hstop hright
    rw [hlabel]
    exact Occurrence.parse_of_not_in (hfirst.not_in_dropLast (hend hstop) hright)

/-- The label of `12+07x` is `12+0`, and its right operand the zero in front of the seven. -/
theorem recorded_label_leadingZero :
    let line : Bytes := [0x31, 0x32, 0x2B, 0x30, 0x37, 0x78]
    let label : Bytes := [0x31, 0x32, 0x2B, 0x30]
    Verdict.ofLine line = .recorded ⟨label, 19⟩ ∧
      Operation.parse line.dropLast = .ok ⟨12, .add, 7⟩ ∧
      Operation.parse label = .ok ⟨12, .add, 0⟩ := by
  intro line label
  have hrecorded : Verdict.ofLine line = .recorded ⟨label, 19⟩ := rfl
  have hread : Operation.parse line.dropLast = .ok ⟨12, .add, 7⟩ := rfl
  have hfound : Pattern.expression.find? line.dropLast =
      some ⟨[], [[0x31, 0x32], [], [0x2B], [], [0x30, 0x37]], []⟩ := rfl
  obtain ⟨o, p, hfind, -, hparse, -, hlabel⟩ := recorded_label hrecorded
  rw [hread, Except.ok.injEq] at hparse
  subst hparse
  rw [hfound, Option.some.injEq] at hfind
  obtain ⟨before, left, leftGap, op, rightGap, right, after⟩ := o
  simp only [Match.mk.injEq, Occurrence.texts, List.cons.injEq] at hfind
  obtain ⟨rfl, ⟨rfl, rfl, -, rfl, rfl, -⟩, rfl⟩ := hfind
  exact ⟨hrecorded, hread, hlabel.of_two_digits rfl (Nat.le_refl 2)⟩

end Reckoner
