/-
# Text shown for bytes that may not be UTF-8

`Text.lossy` decodes UTF-8 and never fails: a stretch of bytes that is no character is shown
as U+FFFD, one for each longest beginning of a well-formed sequence, and one for each byte
that begins none.

The decoder takes one byte at a time.  Between two bytes it is either at the start of a
character or in the middle of one, and then it knows the range in which the next byte has to
lie.  A byte outside that range ends the broken sequence and is looked at again as a first
byte, which is what makes each broken stretch as long as it can be.
-/
import Reckoner.Bytes

namespace Reckoner.Text

/-- Where the decoder stands between two bytes. -/
inductive Decoder where
  /-- At the start of a character. -/
  | start
  /-- Inside a character: the next byte has to lie in `low..high`, `further` more bytes come
  after it, and `code` is the number read so far. -/
  | inside (low high : UInt8) (further : Nat) (code : Nat)
deriving DecidableEq, Repr

namespace Decoder

/-- The character that stands for bytes that are no character. -/
def replacement : Char := '\uFFFD'

/-- What a first byte gives: the characters that are finished with it, and where the decoder
stands after it.  The narrow ranges after `E0`, `ED`, `F0` and `F4` rule out overlong forms,
surrogates and numbers above U+10FFFF. -/
def first (b : UInt8) : List Char × Decoder :=
  if b < 0x80 then ([Char.ofNat b.toNat], start)
  else if b < 0xC2 then ([replacement], start)
  else if b < 0xE0 then ([], inside 0x80 0xBF 0 (b.toNat - 0xC0))
  else if b == 0xE0 then ([], inside 0xA0 0xBF 1 0x0)
  else if b == 0xED then ([], inside 0x80 0x9F 1 0xD)
  else if b < 0xF0 then ([], inside 0x80 0xBF 1 (b.toNat - 0xE0))
  else if b == 0xF0 then ([], inside 0x90 0xBF 2 0x0)
  else if b < 0xF4 then ([], inside 0x80 0xBF 2 (b.toNat - 0xF0))
  else if b == 0xF4 then ([], inside 0x80 0x8F 2 0x4)
  else ([replacement], start)

/-- One byte: the characters that are finished with it, and where the decoder stands next. -/
def step : Decoder → UInt8 → List Char × Decoder
  | start, b => first b
  | inside low high further code, b =>
    if low ≤ b ∧ b ≤ high then
      let code := code * 64 + (b.toNat - 0x80)
      match further with
      | 0 => ([Char.ofNat code], start)
      | n + 1 => ([], inside 0x80 0xBF n code)
    else
      let (out, next) := first b
      (replacement :: out, next)

/-- The characters that remain at the end of the input. -/
def finish : Decoder → List Char
  | start => []
  | inside .. => [replacement]

/-- All characters of the bytes that follow. -/
def run : Decoder → Bytes → List Char
  | d, [] => d.finish
  | d, b :: rest =>
    let (out, next) := d.step b
    out ++ run next rest

end Decoder

/-- The text of a byte sequence, with U+FFFD for each part that is not UTF-8. -/
def lossy (bytes : Bytes) : String := String.ofList (Decoder.start.run bytes)

/-! ## ASCII -/

theorem Decoder.run_start_ascii {bytes : Bytes} (h : ∀ b ∈ bytes, b < 0x80) :
    start.run bytes = bytes.map fun b => Char.ofNat b.toNat := by
  induction bytes with
  | nil => rfl
  | cons b rest ih =>
    have hstep : start.step b = ([Char.ofNat b.toNat], start) := by
      rw [step, first, if_pos (h b (by simp))]
    have ih := ih fun x hx => h x (by simp [hx])
    simp only [run, hstep, ih]
    rfl

theorem utf8EncodeChar_ascii {b : UInt8} (h : b < 0x80) :
    String.utf8EncodeChar (Char.ofNat b.toNat) = [b] := by
  have hb : b.toNat < 0x80 := by simpa [UInt8.lt_iff_toNat_lt] using h
  have hchar : (Char.ofNat b.toNat).val.toNat = b.toNat := by
    have hvalid : b.toNat.isValidChar := .inl (by omega)
    rw [Char.ofNat, dif_pos hvalid]
    rfl
  rw [String.utf8EncodeChar, hchar, if_pos (by omega), UInt8.ofNat_toNat]

/-- ASCII bytes are the bytes of the text that is shown for them. -/
theorem ofString_lossy_ascii {bytes : Bytes} (h : ∀ b ∈ bytes, b < 0x80) :
    Bytes.ofString (lossy bytes) = bytes := by
  rw [lossy, Bytes.ofString_ofList, Decoder.run_start_ascii h]
  induction bytes with
  | nil => rfl
  | cons b rest ih =>
    rw [List.map_cons, List.flatMap_cons, utf8EncodeChar_ascii (h b (by simp)),
      ih fun x hx => h x (by simp [hx])]
    rfl

end Reckoner.Text
