/-
# Where an operand that is too large is said to stand

The fault of an operand that is too large comes with a place and with a text that the place is
shown in.  The place counts the bytes that were evaluated; the text is what is shown for them.
Both agree on UTF-8 and on all other bytes whose text has as many bytes as they are: this is
`Misfit.select_of_length`.  In general the text in front of the operand is longer than the bytes
in front of it, so that the operand stands further to the right than the place says, and what
stands at the place is something else.

That the digits themselves, wherever they stand, are in the text at all rests on
`Text.shown_append_ascii`; that a place that is too far to the left misses them, on
`Text.getLast?_shown`: no digit stands in front of an operand, in the bytes and so in the text.
-/
import Reckoner.Proofs.LossyDecoding
import Reckoner.Proofs.Outcome

namespace Reckoner

/-- The place that a stretch of bytes has in the text shown for all of them, if it is shown as
it is: what stands in front of it may be longer there. -/
def Span.shownIn (s : Span) (bytes : Bytes) : Span :=
  ⟨(Text.shown (bytes.take s.offset)).length, s.length⟩

/-- The place of bytes that stand right behind others. -/
def Span.behind (front bytes : Bytes) : Span := ⟨front.length, bytes.length⟩

lemma Span.getElem?_select (s : Span) (bytes : Bytes) {i : Nat} (h : i < s.length) :
    (s.select bytes)[i]? = bytes[s.offset + i]? := by
  rw [select, List.getElem?_take_of_lt h, List.getElem?_drop]

lemma Decimal.lt_of_isDigit {b : UInt8} (h : isDigit b = true) : b < 0x80 :=
  UInt8.lt_iff_toNat_lt.mpr (Nat.lt_of_le_of_lt (isDigit_iff.mp h).2 (by decide))

/-! ## Digits in a text -/

/-- A byte sequence cut at digits, with no digit in front of them. -/
structure DigitsAt (front digits back bytes : Bytes) : Prop where
  append_eq : front ++ (digits ++ back) = bytes
  digits_ne_nil : digits ≠ []
  isDigit_digits : ∀ b ∈ digits, Decimal.isDigit b = true
  not_isDigit_front : ∀ b ∈ front.getLast?, Decimal.isDigit b = false

namespace DigitsAt

variable {front digits back bytes : Bytes}

lemma select_eq (h : DigitsAt front digits back bytes) :
    (Span.behind front digits).select bytes = digits := by
  rw [← h.append_eq, Span.select, Span.behind, List.drop_left, List.take_left]

lemma shownIn_eq (h : DigitsAt front digits back bytes) :
    (Span.behind front digits).shownIn bytes = .behind (Text.shown front) digits := by
  rw [Span.shownIn, Span.behind, ← h.append_eq, List.take_left, Span.behind]

/-- The same cut of the text. -/
lemma shown (h : DigitsAt front digits back bytes) :
    DigitsAt (Text.shown front) digits (Text.shown back) (Text.shown bytes) where
  append_eq := by
    rw [← h.append_eq, Text.shown_append_ascii h.digits_ne_nil fun b hb =>
      Decimal.lt_of_isDigit (h.isDigit_digits b hb)]
  digits_ne_nil := h.digits_ne_nil
  isDigit_digits := h.isDigit_digits
  not_isDigit_front := fun b hb => by
    by_contra hdigit
    rw [Bool.not_eq_false] at hdigit
    have hlast := Text.getLast?_shown hb (Decimal.lt_of_isDigit hdigit)
    exact absurd hdigit (Bool.eq_false_iff.mp (h.not_isDigit_front b hlast))

/-- A place of the same length that begins too far to the left, but touches the digits or what
stands right in front of them, does not select them. -/
lemma select_ne_of_lt (h : DigitsAt front digits back bytes) {offset : Nat}
    (hlt : offset < front.length) (hle : front.length ≤ offset + digits.length) :
    (⟨offset, digits.length⟩ : Span).select bytes ≠ digits := by
  intro hselect
  -- the byte in front of the digits would be one of them
  obtain ⟨before, b, rfl⟩ : ∃ before b, front = before ++ [b] := by
    rcases front.eq_nil_or_concat' with rfl | hfront
    · cases hlt
    · exact hfront
  rw [List.length_append, List.length_singleton] at hlt hle
  have hi : before.length - offset < digits.length := by omega
  have hbyte : digits[before.length - offset]? = some b := by
    have hat := Span.getElem?_select ⟨offset, digits.length⟩ bytes hi
    have hoffset : offset + (before.length - offset) = before.length := by omega
    rw [hselect] at hat
    simp only [hoffset, ← h.append_eq, List.append_assoc, List.singleton_append] at hat
    rw [hat, List.getElem?_append_right (Nat.le_refl _), Nat.sub_self, List.getElem?_cons_zero]
  have hdigit := h.isDigit_digits b (List.mem_of_getElem? hbyte)
  rw [h.not_isDigit_front b (by simp)] at hdigit
  cases hdigit

/-- If the text has as many bytes as it is shown for, it has them in front of the digits too. -/
lemma length_shown_front (h : DigitsAt front digits back bytes)
    (hlength : (Text.shown bytes).length = bytes.length) :
    (Text.shown front).length = front.length := by
  have hfront := Text.length_le_length_shown front
  have hback := Text.length_le_length_shown back
  rw [← h.shown.append_eq, ← h.append_eq] at hlength
  simp only [List.length_append] at hlength
  omega

end DigitsAt

/-! ## The operand that is too large -/

namespace Occurrence.FirstIn

variable {o : Occurrence} {bytes : Bytes}

lemma digitsAt_left (h : o.FirstIn bytes) : DigitsAt o.before o.left o.afterLeft bytes where
  append_eq := by rw [← whole_eq_afterLeft, h.whole_eq]
  digits_ne_nil := h.valid.left_ne_nil
  isDigit_digits := h.valid.isDigit_left
  not_isDigit_front := h.not_isDigit_before

lemma digitsAt_right (h : o.FirstIn bytes) :
    DigitsAt o.beforeRight o.right o.after bytes where
  append_eq := by rw [← whole_eq_beforeRight, h.whole_eq]
  digits_ne_nil := h.valid.right_ne_nil
  isDigit_digits := h.valid.isDigit_right
  not_isDigit_front := fun b hb => by
    have hbetween : o.beforeRight =
        o.before ++ o.left ++ (o.leftGap ++ o.operator.byte :: o.rightGap) := by
      simp [beforeRight]
    rw [hbetween, List.getLast?_append_of_ne_nil _ (by simp)] at hb
    exact not_isDigit_of_mem_between h.valid (List.mem_of_getLast? hb)

end Occurrence.FirstIn

open Occurrence in
/-- The operand that is refused is one of the two of the first occurrence. -/
lemma Operation.exists_digitsAt_of_parse {bytes digits input : Bytes} {span : Span}
    (h : parse bytes = .error (.operandTooLarge digits span input)) :
    input = bytes ∧
      ∃ front back, DigitsAt front digits back bytes ∧ span = .behind front digits := by
  by_cases hin : ∃ o : Occurrence, o.In bytes
  · obtain ⟨o, hfirst⟩ := exists_firstIn hin
    rw [hfirst.parse_eq] at h
    by_cases hl : FitsInt64 (Decimal.value o.left)
    · by_cases hr : FitsInt64 (Decimal.value o.right)
      · rw [operation_of_fits hl hr] at h
        cases h
      · rw [operation_of_right_too_large hl hr] at h
        cases h
        refine ⟨rfl, _, _, hfirst.digitsAt_right, ?_⟩
        simp only [rightSpan, Span.behind, beforeRight, List.length_append, List.length_cons,
          List.length_nil]
    · rw [operation_of_left_too_large hl] at h
      cases h
      exact ⟨rfl, _, _, hfirst.digitsAt_left, rfl⟩
  · rw [parse_of_not_in hin] at h
    cases h

/-- An operand of `bytes` that is too large, with its digits, its place and the text of its
fault. -/
structure Misfit (bytes digits : Bytes) (span : Span) (fault : Fault) : Prop where
  /-- The text is the one shown for all of the bytes. -/
  source : fault.source? = some (Text.lossy bytes)
  /-- The place is the one thing that is marked. -/
  labels : fault.diagnostic.labels.map Label.span = [span]
  /-- The digits are shown as they are. -/
  literal : Text.shown digits = digits
  /-- In the bytes that were evaluated they stand at the place. -/
  select_bytes : span.select bytes = digits
  /-- The place is in the text. -/
  within : span.offset + span.length ≤ (Text.shown bytes).length
  /-- In the text they stand behind what is shown for the bytes in front of them, -/
  select_shown : (span.shownIn bytes).select (Text.shown bytes) = digits
  /-- and this is never further to the left. -/
  offset_le : span.offset ≤ (span.shownIn bytes).offset
  /-- Unless the text in front is longer by more than the digits, they stand at the place in the
  text only if nothing was added in front of them. -/
  select_iff : (span.shownIn bytes).offset ≤ span.offset + span.length →
    (span.select (Text.shown bytes) = digits ↔ (span.shownIn bytes).offset = span.offset)
  /-- Where the text has as many bytes as it is shown for, they stand at the place. -/
  select_of_length : (Text.shown bytes).length = bytes.length →
    span.select (Text.shown bytes) = digits
  /-- This is so for UTF-8. -/
  select_of_text : ∀ text, bytes = Bytes.ofString text →
    span.select (Text.shown bytes) = digits

lemma DigitsAt.misfit {front digits back bytes : Bytes} (h : DigitsAt front digits back bytes) :
    Misfit bytes digits (.behind front digits)
      (.operandTooLarge digits (.behind front digits) bytes) := by
  have hascii : ∀ b ∈ digits, b < 0x80 := fun b hb =>
    Decimal.lt_of_isDigit (h.isDigit_digits b hb)
  have hfront := Text.length_le_length_shown front
  have hplace := h.shownIn_eq
  have hselect : (Text.shown front).length = front.length →
      (Span.behind front digits).select (Text.shown bytes) = digits := by
    intro hlength
    rw [Span.behind, ← hlength]
    exact h.shown.select_eq
  refine
    { source := rfl
      labels := rfl
      literal := Text.ofString_lossy_ascii hascii
      select_bytes := h.select_eq
      within := ?_
      select_shown := by rw [hplace, h.shown.select_eq]
      offset_le := by rw [hplace]; exact hfront
      select_iff := ?_
      select_of_length := fun hlength => hselect (h.length_shown_front hlength)
      select_of_text := ?_ }
  · rw [← h.shown.append_eq, List.length_append, List.length_append]
    simp only [Span.behind]
    omega
  · rw [hplace]
    intro hle
    constructor
    · intro hat
      by_contra hne
      exact h.shown.select_ne_of_lt (Nat.lt_of_le_of_ne hfront (Ne.symm hne)) hle hat
    · exact hselect
  · rintro text rfl
    exact hselect (h.length_shown_front (by rw [Text.shown, Text.lossy_ofString]))

/-- **The place of an operand that is too large.**  It is right in the bytes that were evaluated
and always within the text shown for them, but it is right there only where nothing in front of
the operand is shown longer than it is, as in UTF-8. -/
theorem Operation.parse_locates {bytes digits input : Bytes} {span : Span}
    (h : parse bytes = .error (.operandTooLarge digits span input)) :
    Misfit bytes digits span (.operandTooLarge digits span input) := by
  obtain ⟨rfl, front, back, hat, rfl⟩ := exists_digitsAt_of_parse h
  exact hat.misfit

/-- The beginning of a character that breaks off after three bytes is shown in three bytes. -/
theorem Operation.parse_locates_behind_three_bytes :
    Operation.parse (0xF0 :: 0x9F :: 0x98 :: (List.replicate 20 0x39 ++ [0x2B, 0x31])) =
        .error (.operandTooLarge (List.replicate 20 0x39) ⟨3, 20⟩
          (0xF0 :: 0x9F :: 0x98 :: (List.replicate 20 0x39 ++ [0x2B, 0x31]))) ∧
      Misfit (0xF0 :: 0x9F :: 0x98 :: (List.replicate 20 0x39 ++ [0x2B, 0x31]))
        (List.replicate 20 0x39) ⟨3, 20⟩
        (.operandTooLarge (List.replicate 20 0x39) ⟨3, 20⟩
          (0xF0 :: 0x9F :: 0x98 :: (List.replicate 20 0x39 ++ [0x2B, 0x31]))) :=
  ⟨by decide +kernel, Operation.parse_locates (by decide +kernel)⟩

/-- One broken byte in front of the operand is shown in three, and the place misses the digits:
it selects a part of U+FFFD and all but two of them. -/
theorem Operation.parse_misplaces_behind_one_byte :
    Operation.parse (0xFF :: (List.replicate 20 0x39 ++ [0x2B, 0x31])) =
        .error (.operandTooLarge (List.replicate 20 0x39) ⟨1, 20⟩
          (0xFF :: (List.replicate 20 0x39 ++ [0x2B, 0x31]))) ∧
      Text.shown (List.replicate 20 0x39) = List.replicate 20 0x39 ∧
      (⟨1, 20⟩ : Span).select (Text.shown (0xFF :: (List.replicate 20 0x39 ++ [0x2B, 0x31]))) =
        0xBF :: 0xBD :: List.replicate 18 0x39 := by
  decide +kernel

end Reckoner
