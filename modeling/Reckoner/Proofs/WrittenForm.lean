/-
# Reading back a written operation

A written operation has a minus sign in front of each negative operand, but an operand that is
read has none: a minus sign is nothing but an operator.  So what is written reads back if no
operand is negative.  The sign of the left operand is skipped like any other byte in front of an
expression, and the operation is read without it.  The sign of the right operand stands where one
of its digits would have to be, and then there is no expression at all.

What is read has no negative operand.  So it reads back once it is written, whatever it was read
from.
-/
import Reckoner.Proofs.Context

namespace Reckoner

/-! ## Absolute values -/

lemma toInt_nonneg {x : Int64} (h : 0 ≤ x) : 0 ≤ x.toInt := by
  rwa [Int64.le_iff_toInt_le, Int64.toInt_zero] at h

lemma toInt_neg {x : Int64} (h : x < 0) : x.toInt < 0 := by
  rwa [Int64.lt_iff_toInt_lt, Int64.toInt_zero] at h

lemma ofNat_natAbs_of_nonneg {x : Int64} (h : 0 ≤ x) : Int64.ofNat x.toInt.natAbs = x := by
  rw [← Int64.ofInt_eq_ofNat, Int.natAbs_of_nonneg (toInt_nonneg h), Int64.ofInt_toInt]

lemma ofNat_natAbs_of_neg {x : Int64} (h : x < 0) : Int64.ofNat x.toInt.natAbs = -x := by
  have hle : x.toInt ≤ 0 := Int.le_of_lt (toInt_neg h)
  rw [← Int64.ofInt_eq_ofNat, Int.ofNat_natAbs_of_nonpos hle, Int64.ofInt_neg, Int64.ofInt_toInt]

lemma ne_minValue_of_nonneg {x : Int64} (h : 0 ≤ x) : x ≠ Int64.minValue := by
  rintro rfl
  exact absurd h (by decide)

/-- Only the absolute value of the smallest number does not fit. -/
lemma fitsInt64_natAbs {x : Int64} (h : x ≠ Int64.minValue) : FitsInt64 x.toInt.natAbs := by
  have hne : x.toInt ≠ Int64.minValue.toInt := fun heq => h (Int64.toInt_inj.mp heq)
  rw [Int64.toInt_minValue] at hne
  obtain ⟨hle, hlt⟩ := fitsInt64_toInt x
  unfold FitsInt64
  omega

namespace Occurrence

/-! ## Byte sequences without an expression -/

/-- An occurrence begins with the first byte, or it is one in the bytes behind that. -/
lemma In.begins_or_in_tail {o : Occurrence} {b : UInt8} {rest : Bytes} (h : o.In (b :: rest)) :
    Begins (b :: rest) ∨ ∃ o' : Occurrence, o'.In rest := by
  obtain ⟨bytes, hcut, hbegins⟩ := h.begins
  cases hbefore : o.before with
  | nil =>
    rw [hbefore, List.nil_append] at hcut
    exact .inl (hcut ▸ hbegins)
  | cons c before =>
    rw [hbefore, List.cons_append] at hcut
    obtain ⟨o', hin, -⟩ := hbegins.in_append before
    exact .inr ⟨o', (List.cons.inj hcut).2 ▸ hin⟩

/-- An occurrence that begins with a run of digits goes on behind the run. -/
lemma Begins.exists_afterLeft_eq {digits rest : Bytes} (h : Begins (digits ++ rest))
    (hdigits : ∀ b ∈ digits, Decimal.isDigit b = true)
    (hrest : ∀ b ∈ rest.head?, Decimal.isDigit b = false) :
    ∃ o : Occurrence, o.Valid ∧ o.left = digits ∧ o.afterLeft = rest := by
  obtain ⟨o, ⟨hvalid, hwhole⟩, hbefore⟩ := h
  rw [whole_eq_afterLeft, hbefore, List.nil_append] at hwhole
  obtain ⟨hleft, hafter⟩ := run_unique hvalid.isDigit_left hdigits
    (not_isDigit_head_afterLeft hvalid) hrest hwhole
  exact ⟨o, hvalid, hleft, hafter⟩

lemma not_begins {bytes : Bytes} (h : ∀ b ∈ bytes.head?, Decimal.isDigit b = false) :
    ¬Begins bytes := by
  intro hbegins
  rw [← List.nil_append bytes] at hbegins
  obtain ⟨o, hvalid, hleft, -⟩ := hbegins.exists_afterLeft_eq (by simp) h
  exact hvalid.left_ne_nil hleft

/-- There is no operator among digits. -/
lemma not_in_digits {digits : Bytes} (h : ∀ b ∈ digits, Decimal.isDigit b = true) :
    ¬∃ o : Occurrence, o.In digits := by
  rintro ⟨o, -, hwhole⟩
  have hmem : o.operator.byte ∈ digits := by
    rw [← hwhole]
    simp [whole, expression]
  have hdigit := h _ hmem
  rw [o.operator.not_isDigit_byte] at hdigit
  cases hdigit

/-- Bytes without a digit add no occurrence to what stands behind them. -/
lemma not_in_append {front rest : Bytes} (h : ∀ b ∈ front, Decimal.isDigit b = false)
    (hrest : ¬∃ o : Occurrence, o.In rest) : ¬∃ o : Occurrence, o.In (front ++ rest) := by
  induction front with
  | nil => exact hrest
  | cons b front ih =>
    rintro ⟨o, hin⟩
    rcases hin.begins_or_in_tail with hbegins | hin
    · refine not_begins ?_ hbegins
      simpa using h b (by simp)
    · exact ih (fun c hc => h c (by simp [hc])) hin

/-- Nor does a run of digits, if they are not the left operand of anything. -/
lemma not_in_digits_append {digits rest : Bytes}
    (h : ∀ b ∈ digits, Decimal.isDigit b = true)
    (hhead : ∀ b ∈ rest.head?, Decimal.isDigit b = false)
    (hafter : ∀ o : Occurrence, o.Valid → o.afterLeft ≠ rest)
    (hrest : ¬∃ o : Occurrence, o.In rest) : ¬∃ o : Occurrence, o.In (digits ++ rest) := by
  induction digits with
  | nil => exact hrest
  | cons d digits ih =>
    rintro ⟨o, hin⟩
    rcases hin.begins_or_in_tail with hbegins | hin
    · obtain ⟨o', hvalid, -, heq⟩ := Begins.exists_afterLeft_eq hbegins h hhead
      exact hafter o' hvalid heq
    · exact ih (fun c hc => h c (by simp [hc])) hin

end Occurrence

namespace Operation

/-! ## The expression in a written operation -/

/-- The operation as an expression: the digits of both operands, and the sign of the left one in
front of them. -/
def unsigned (o : Operation) : Occurrence where
  before := Decimal.sign o.lhs.toInt
  left := Decimal.ofNat o.lhs.toInt.natAbs
  leftGap := [Bytes.space]
  operator := o.operator
  rightGap := [Bytes.space]
  right := Decimal.ofNat o.rhs.toInt.natAbs
  after := []

lemma unsigned_valid (o : Operation) : o.unsigned.Valid where
  left_ne_nil := Decimal.ofNat_ne_nil _
  isDigit_left := fun _ => Decimal.isDigit_of_mem_ofNat
  isBlank_leftGap := by simp [unsigned, Bytes.isBlank]
  isBlank_rightGap := by simp [unsigned, Bytes.isBlank]
  right_ne_nil := Decimal.ofNat_ne_nil _
  isDigit_right := fun _ => Decimal.isDigit_of_mem_ofNat

variable {o : Operation}

lemma whole_unsigned (h : 0 ≤ o.rhs) : o.unsigned.whole = o.written := by
  rw [written, Decimal.ofInt_eq_sign_append, Decimal.ofInt_eq_sign_append,
    Decimal.sign_of_nonneg (toInt_nonneg h)]
  simp [Occurrence.whole, Occurrence.expression, unsigned]

/-- The sign in front is the operator of nothing. -/
lemma firstIn_written (h : 0 ≤ o.rhs) : o.unsigned.FirstIn o.written := by
  rw [← whole_unsigned h]
  have hbefore : ∀ b ∈ o.unsigned.before, Decimal.isDigit b = false := Decimal.not_isDigit_sign
  have hzero : ∀ b ∈ [Decimal.zero], Decimal.isDigit b = true := List.all_eq_true.mp rfl
  exact o.unsigned_valid.firstIn (d := Decimal.zero) rfl
    (fun b hb => hbefore b (List.mem_of_getLast? hb)) (by simp [unsigned])
    (Occurrence.not_in_append hbefore (Occurrence.not_in_digits hzero))

/-- The operation is read with the absolute value of its left operand. -/
lemma parse_written_of_ne_minValue (hmin : o.lhs ≠ Int64.minValue) (h : 0 ≤ o.rhs) :
    parse o.written = .ok { o with lhs := Int64.ofNat o.lhs.toInt.natAbs } := by
  have hleft : FitsInt64 (Decimal.value o.unsigned.left) := by
    rw [unsigned, Decimal.value_ofNat]
    exact fitsInt64_natAbs hmin
  have hright : FitsInt64 (Decimal.value o.unsigned.right) := by
    rw [unsigned, Decimal.value_ofNat]
    exact fitsInt64_natAbs (ne_minValue_of_nonneg h)
  rw [(firstIn_written h).parse_eq, Occurrence.operation_of_fits hleft hright, unsigned,
    Decimal.value_ofNat, Decimal.value_ofNat, ofNat_natAbs_of_nonneg h]

lemma parse_written_of_nonneg (hl : 0 ≤ o.lhs) (hr : 0 ≤ o.rhs) : parse o.written = .ok o := by
  rw [parse_written_of_ne_minValue (ne_minValue_of_nonneg hl) hr, ofNat_natAbs_of_nonneg hl]

/-- The digits of the smallest number, without its sign. -/
lemma ofNat_natAbs_minValue :
    Decimal.ofNat Int64.minValue.toInt.natAbs = Bytes.ofString "9223372036854775808" := by
  have habs : Int64.minValue.toInt.natAbs = 9223372036854775808 := rfl
  rw [habs]
  simp (disch := decide) only [Decimal.ofNat_of_le, Decimal.ofNat_of_lt]
  rfl

lemma parse_written_of_minValue (hmin : o.lhs = Int64.minValue) (h : 0 ≤ o.rhs) :
    parse o.written =
      .error (.operandTooLarge (Bytes.ofString "9223372036854775808") ⟨1, 19⟩ o.written) := by
  have hdigits : o.unsigned.left = Bytes.ofString "9223372036854775808" := by
    rw [unsigned, hmin, ofNat_natAbs_minValue]
  have hbefore : o.unsigned.before = [Decimal.minusSign] := by
    rw [unsigned, hmin]
    rfl
  have hleft : ¬FitsInt64 (Decimal.value o.unsigned.left) := by
    rw [unsigned, hmin, Decimal.value_ofNat]
    decide
  rw [(firstIn_written h).parse_eq, Occurrence.operation_of_left_too_large hleft,
    Occurrence.leftSpan, hdigits, hbefore]
  rfl

/-- What stands between the digits of the operands if the right one has a sign. -/
def signedBetween (op : Operator) : Bytes :=
  [Bytes.space, op.byte, Bytes.space, Decimal.minusSign]

lemma not_isDigit_signedBetween {op : Operator} :
    ∀ b ∈ signedBetween op, Decimal.isDigit b = false := by
  intro b hb
  simp only [signedBetween, List.mem_cons, List.not_mem_nil, or_false] at hb
  rcases hb with rfl | rfl | rfl | rfl
  · rfl
  · exact op.not_isDigit_byte
  · rfl
  · rfl

/-- The right operand would have to begin with the sign. -/
lemma afterLeft_ne_signedBetween {o' : Occurrence} (h : o'.Valid) (op : Operator) (rest : Bytes) :
    o'.afterLeft ≠ signedBetween op ++ rest := by
  intro heq
  have hblank : ∀ b ∈ [Bytes.space], Bytes.isBlank b = true := List.all_eq_true.mp rfl
  have hsign : ∀ b ∈ (Decimal.minusSign :: rest).head?, Bytes.isBlank b = false := by
    intro b hb
    cases hb
    rfl
  have hcut : o'.afterLeft =
      [Bytes.space] ++ op.byte :: ([Bytes.space] ++ Decimal.minusSign :: rest) := heq
  obtain ⟨-, -, -, hend⟩ := Occurrence.afterLeft_unique h hblank hblank hsign hcut
  obtain ⟨d, right, hcons⟩ := List.exists_cons_of_ne_nil h.right_ne_nil
  have hd : Decimal.isDigit d = true := h.isDigit_right d (by simp [hcons])
  rw [hcons] at hend
  rw [(List.cons.inj hend).1] at hd
  cases hd

/-- With a sign in front of its right operand the operator has no operand there, and neither has
the sign one in front of itself. -/
lemma not_in_written (h : o.rhs < 0) : ¬∃ o' : Occurrence, o'.In o.written := by
  have hwritten : o.written =
      Decimal.sign o.lhs.toInt ++ (Decimal.ofNat o.lhs.toInt.natAbs ++
        (signedBetween o.operator ++ Decimal.ofNat o.rhs.toInt.natAbs)) := by
    rw [written, Decimal.ofInt_eq_sign_append, Decimal.ofInt_eq_sign_append,
      Decimal.sign_of_neg (toInt_neg h)]
    simp [signedBetween]
  have hright : ¬∃ o' : Occurrence, o'.In (Decimal.ofNat o.rhs.toInt.natAbs) :=
    Occurrence.not_in_digits fun _ => Decimal.isDigit_of_mem_ofNat
  have hleft : ¬∃ o' : Occurrence, o'.In (Decimal.ofNat o.lhs.toInt.natAbs ++
      (signedBetween o.operator ++ Decimal.ofNat o.rhs.toInt.natAbs)) := by
    refine Occurrence.not_in_digits_append (fun _ => Decimal.isDigit_of_mem_ofNat) ?_
      (fun o' hvalid => afterLeft_ne_signedBetween hvalid _ _)
      (Occurrence.not_in_append not_isDigit_signedBetween hright)
    intro b hb
    cases hb
    rfl
  rw [hwritten]
  exact Occurrence.not_in_append Decimal.not_isDigit_sign hleft

/-! ## The text that is shown -/

lemma ascii_of_mem_written {b : UInt8} (h : b ∈ o.written) : b < 0x80 := by
  have hint : ∀ x : Int64, ∀ c ∈ Decimal.ofInt x.toInt, c < 0x80 := by
    intro x c hc
    rw [Decimal.ofInt_eq_sign_append, List.mem_append] at hc
    rcases hc with hc | hc
    · rw [Decimal.eq_minusSign_of_mem_sign hc]
      decide
    · have hle := (Decimal.isDigit_iff.mp (Decimal.isDigit_of_mem_ofNat hc)).2
      rw [UInt8.lt_iff_toNat_lt]
      exact Nat.lt_of_le_of_lt hle (by decide)
  rw [written, List.mem_append, List.mem_cons, List.mem_cons, List.mem_cons] at h
  rcases h with h | rfl | rfl | rfl | h
  · exact hint _ b h
  · decide
  · cases o.operator <;> decide
  · decide
  · exact hint _ b h

/-! ## What is read -/

lemma nonneg_ofNat {n : Nat} (h : FitsInt64 n) : 0 ≤ Int64.ofNat n := by
  rw [Int64.le_iff_toInt_le, Int64.toInt_zero, h.toInt_ofNat]
  exact Int.natCast_nonneg n

/-- No sign is read. -/
lemma nonneg_of_parse {bytes : Bytes} (h : parse bytes = .ok o) : 0 ≤ o.lhs ∧ 0 ≤ o.rhs := by
  obtain ⟨o', -, hl, hr, rfl⟩ := Occurrence.exists_firstIn_of_parse h
  exact ⟨nonneg_ofNat hl, nonneg_ofNat hr⟩

/-- What is read when an operation is written and read again. -/
structure ReadBack (o : Operation) : Prop where
  /-- The bytes that are read are those of the text that is shown. -/
  ofString_text : Bytes.ofString o.text = o.written
  of_nonneg : 0 ≤ o.lhs → 0 ≤ o.rhs → parse o.written = .ok o ∧ evaluate o.written = o.apply
  of_rhs_neg : o.rhs < 0 → parse o.written = .error (.noExpression o.written)
  of_lhs_neg : o.lhs < 0 → o.lhs ≠ Int64.minValue → 0 ≤ o.rhs →
    parse o.written = .ok { o with lhs := -o.lhs }
  of_lhs_minValue : o.lhs = Int64.minValue → 0 ≤ o.rhs →
    parse o.written =
      .error (.operandTooLarge (Bytes.ofString "9223372036854775808") ⟨1, 19⟩ o.written)

lemma readBack (o : Operation) : o.ReadBack where
  ofString_text := Text.ofString_lossy_ascii fun _ => ascii_of_mem_written
  of_nonneg := fun hl hr => by
    have hparse := parse_written_of_nonneg hl hr
    refine ⟨hparse, ?_⟩
    rw [evaluate, hparse]
    rfl
  of_rhs_neg := fun h => Occurrence.parse_of_not_in (not_in_written h)
  of_lhs_neg := fun hl hmin hr => by
    rw [parse_written_of_ne_minValue hmin hr, ofNat_natAbs_of_neg hl]
  of_lhs_minValue := parse_written_of_minValue

/-- **Reading a written operation.**  An operation without a negative operand reads back.  With a
negative right operand there is no expression in what is written, and a negative left operand
loses its sign, unless its absolute value does not fit.  What is read from any bytes has no
negative operand, so writing it and reading it again changes nothing. -/
theorem parse_written :
    (∀ o : Operation, o.ReadBack) ∧
      ∀ (bytes : Bytes) (o : Operation), parse bytes = .ok o →
        0 ≤ o.lhs ∧ 0 ≤ o.rhs ∧ parse o.written = .ok o := by
  refine ⟨readBack, ?_⟩
  intro bytes o h
  obtain ⟨hl, hr⟩ := nonneg_of_parse h
  exact ⟨hl, hr, parse_written_of_nonneg hl hr⟩

/-- The sign of `-5 - 3` is lost. -/
example : parse [0x2D, 0x35, 0x20, 0x2D, 0x20, 0x33] = .ok ⟨5, .sub, 3⟩ := rfl

end Operation
end Reckoner
