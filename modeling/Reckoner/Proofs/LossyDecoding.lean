/-
# The bytes of the text that is shown

`Text.shown` is what the text shown for a byte sequence is in bytes again.  A byte sequence that
is UTF-8 is shown as it is.  For any other one it differs, and then the places of its bytes in the
text differ as well: U+FFFD has three bytes, and what it stands for has one, two or three.  So the
text is never shorter, not up to any place of the input, and how much longer it is depends on
each broken part.

What makes this provable is `Decoder.Standing`: the decoder is in the middle of a character only
after bytes with which a character begins, and it knows how many these were.  An ASCII byte
belongs to no character with other bytes, so the decoder begins anew in front of it, and a run of
ASCII bytes cuts the text in three: see `shown_append_ascii`.
-/
import Mathlib.Data.List.Basic
import Mathlib.Tactic.Common
import Mathlib.Tactic.Ring
import Reckoner.Text.Lossy

namespace Reckoner.Text

/-- The bytes of the text that is shown for a byte sequence. -/
def shown (bytes : Bytes) : Bytes := Bytes.ofString (lossy bytes)

lemma shown_eq (bytes : Bytes) :
    shown bytes = (Decoder.start.run bytes).flatMap String.utf8EncodeChar := by
  rw [shown, lossy, Bytes.ofString_ofList]

/-! ## Characters and their bytes -/

section Characters

variable {c : Char} {number : Nat}

lemma utf8EncodeChar_one (h : c.toNat < 0x80) :
    String.utf8EncodeChar c = [UInt8.ofNat c.toNat] := by
  rw [String.utf8EncodeChar]
  exact if_pos (Nat.le_of_lt_succ h)

lemma utf8EncodeChar_two (h : 0x80 ≤ c.toNat) (h' : c.toNat < 0x800) :
    String.utf8EncodeChar c =
      [UInt8.ofNat (c.toNat / 64 % 32 + 0xC0), UInt8.ofNat (c.toNat % 64 + 0x80)] := by
  rw [String.utf8EncodeChar]
  exact (if_neg (Nat.not_le.mpr h)).trans (if_pos (Nat.le_of_lt_succ h'))

lemma utf8EncodeChar_three (h : 0x800 ≤ c.toNat) (h' : c.toNat < 0x10000) :
    String.utf8EncodeChar c =
      [UInt8.ofNat (c.toNat / 4096 % 16 + 0xE0), UInt8.ofNat (c.toNat / 64 % 64 + 0x80),
        UInt8.ofNat (c.toNat % 64 + 0x80)] := by
  have hone : 0x7F < c.toNat := Nat.lt_of_lt_of_le (by decide) h
  rw [String.utf8EncodeChar]
  exact (if_neg (Nat.not_le.mpr hone)).trans
    ((if_neg (Nat.not_le.mpr h)).trans (if_pos (Nat.le_of_lt_succ h')))

lemma utf8EncodeChar_four (h : 0x10000 ≤ c.toNat) :
    String.utf8EncodeChar c =
      [UInt8.ofNat (c.toNat / 262144 % 8 + 0xF0), UInt8.ofNat (c.toNat / 4096 % 64 + 0x80),
        UInt8.ofNat (c.toNat / 64 % 64 + 0x80), UInt8.ofNat (c.toNat % 64 + 0x80)] := by
  have hone : 0x7F < c.toNat := Nat.lt_of_lt_of_le (by decide) h
  have htwo : 0x7FF < c.toNat := Nat.lt_of_lt_of_le (by decide) h
  rw [String.utf8EncodeChar]
  exact (if_neg (Nat.not_le.mpr hone)).trans
    ((if_neg (Nat.not_le.mpr htwo)).trans (if_neg (Nat.not_le.mpr h)))

lemma toNat_ofNat_of_valid (h : number.isValidChar) : (Char.ofNat number).toNat = number := by
  rw [Char.ofNat, dif_pos h]
  rfl

/-- The number is that of a character that has `size` bytes. -/
def Sized (number size : Nat) : Prop :=
  (String.utf8EncodeChar (Char.ofNat number)).length = size

lemma sized_two (h : 0x80 ≤ number) (h' : number < 0x800) : Sized number 2 := by
  have hvalid : number.isValidChar := .inl (by omega)
  have hnumber := toNat_ofNat_of_valid hvalid
  rw [Sized, utf8EncodeChar_two (hnumber.symm ▸ h) (hnumber.symm ▸ h')]
  rfl

lemma sized_three (h : 0x800 ≤ number) (h' : number < 0x10000)
    (hvalid : number.isValidChar) : Sized number 3 := by
  have hnumber := toNat_ofNat_of_valid hvalid
  rw [Sized, utf8EncodeChar_three (hnumber.symm ▸ h) (hnumber.symm ▸ h')]
  rfl

lemma sized_four (h : 0x10000 ≤ number) (h' : number < 0x110000) : Sized number 4 := by
  have hnumber := toNat_ofNat_of_valid (.inr ⟨by omega, h'⟩)
  rw [Sized, utf8EncodeChar_four (hnumber.symm ▸ h)]
  rfl

/-- A byte behind the first one holds six bits. -/
lemma toNat_ofNat_sixBits (n : Nat) : (UInt8.ofNat (n % 64 + 0x80)).toNat = n % 64 + 0x80 := by
  rw [UInt8.toNat_ofNat']
  omega

/-- The last byte of a character with more than one byte is no ASCII. -/
lemma exists_utf8EncodeChar_eq_concat (h : 2 ≤ (String.utf8EncodeChar c).length) :
    ∃ front b, String.utf8EncodeChar c = front ++ [b] ∧ 0x80 ≤ b.toNat := by
  have hlast : 0x80 ≤ (UInt8.ofNat (c.toNat % 64 + 0x80)).toNat := by
    rw [toNat_ofNat_sixBits]
    exact Nat.le_add_left _ _
  rcases Nat.lt_or_ge c.toNat 0x80 with hone | hone
  · rw [utf8EncodeChar_one hone] at h
    cases Nat.le_of_succ_le_succ h
  rcases Nat.lt_or_ge c.toNat 0x800 with htwo | htwo
  · exact ⟨[_], _, utf8EncodeChar_two hone htwo, hlast⟩
  rcases Nat.lt_or_ge c.toNat 0x10000 with hthree | hthree
  · exact ⟨[_, _], _, utf8EncodeChar_three htwo hthree, hlast⟩
  · exact ⟨[_, _, _], _, utf8EncodeChar_four hthree, hlast⟩

end Characters

namespace Decoder

/-! ## First bytes -/

section First

variable {b : UInt8}

lemma first_ascii (h : b.toNat < 0x80) : first b = ([Char.ofNat b.toNat], start) := by
  rw [first, if_pos]
  simpa only [UInt8.lt_iff_toNat_lt, UInt8.reduceToNat] using h

lemma first_two (h : 0xC2 ≤ b.toNat) (h' : b.toNat < 0xE0) :
    first b = ([], inside 0x80 0xBF 0 (b.toNat - 0xC0)) := by
  rw [first, if_neg, if_neg, if_pos]
  all_goals simp only [UInt8.lt_iff_toNat_lt, UInt8.reduceToNat]
  all_goals omega

lemma first_three (h : 0xE0 ≤ b.toNat) (h' : b.toNat < 0xF0) :
    ∃ low high : UInt8, low.toNat = (if b.toNat = 0xE0 then 0xA0 else 0x80) ∧
      high.toNat = (if b.toNat = 0xED then 0x9F else 0xBF) ∧
      first b = ([], inside low high 1 (b.toNat - 0xE0)) := by
  by_cases hlow : b.toNat = 0xE0
  · obtain rfl : b = 0xE0 := UInt8.toNat_inj.mp hlow
    exact ⟨0xA0, 0xBF, rfl, rfl, rfl⟩
  by_cases hhigh : b.toNat = 0xED
  · obtain rfl : b = 0xED := UInt8.toNat_inj.mp hhigh
    exact ⟨0x80, 0x9F, rfl, rfl, rfl⟩
  refine ⟨0x80, 0xBF, by rw [if_neg hlow]; rfl, by rw [if_neg hhigh]; rfl, ?_⟩
  rw [first, if_neg, if_neg, if_neg, if_neg, if_neg, if_pos]
  all_goals simp only [UInt8.lt_iff_toNat_lt, UInt8.reduceToNat, beq_iff_eq, ← UInt8.toNat_inj]
  all_goals omega

lemma first_four (h : 0xF0 ≤ b.toNat) (h' : b.toNat ≤ 0xF4) :
    ∃ low high : UInt8, low.toNat = (if b.toNat = 0xF0 then 0x90 else 0x80) ∧
      high.toNat = (if b.toNat = 0xF4 then 0x8F else 0xBF) ∧
      first b = ([], inside low high 2 (b.toNat - 0xF0)) := by
  by_cases hlow : b.toNat = 0xF0
  · obtain rfl : b = 0xF0 := UInt8.toNat_inj.mp hlow
    exact ⟨0x90, 0xBF, rfl, rfl, rfl⟩
  by_cases hhigh : b.toNat = 0xF4
  · obtain rfl : b = 0xF4 := UInt8.toNat_inj.mp hhigh
    exact ⟨0x80, 0x8F, rfl, rfl, rfl⟩
  refine ⟨0x80, 0xBF, by rw [if_neg hlow]; rfl, by rw [if_neg hhigh]; rfl, ?_⟩
  rw [first, if_neg, if_neg, if_neg, if_neg, if_neg, if_neg, if_neg, if_pos]
  all_goals simp only [UInt8.lt_iff_toNat_lt, UInt8.reduceToNat, beq_iff_eq, ← UInt8.toNat_inj]
  all_goals omega

/-- No character begins with any other byte beyond ASCII. -/
lemma first_other (h : 0x80 ≤ b.toNat) (h' : b.toNat < 0xC2 ∨ 0xF4 < b.toNat) :
    first b = ([replacement], start) := by
  rcases h' with h' | h'
  · rw [first, if_neg, if_pos]
    all_goals simp only [UInt8.lt_iff_toNat_lt, UInt8.reduceToNat]
    all_goals omega
  · rw [first, if_neg, if_neg, if_neg, if_neg, if_neg, if_neg, if_neg, if_neg, if_neg]
    all_goals simp only [UInt8.lt_iff_toNat_lt, UInt8.reduceToNat, beq_iff_eq, ← UInt8.toNat_inj]
    all_goals omega

end First

/-! ## Steps inside a character -/

section Step

variable {low high b : UInt8} {further code : Nat}

lemma step_last (hlow : low.toNat ≤ b.toNat) (hhigh : b.toNat ≤ high.toNat) :
    step (inside low high 0 code) b =
      ([Char.ofNat (code * 64 + (b.toNat - 0x80))], start) := by
  rw [step, if_pos ⟨UInt8.le_iff_toNat_le.mpr hlow, UInt8.le_iff_toNat_le.mpr hhigh⟩]

lemma step_further (hlow : low.toNat ≤ b.toNat) (hhigh : b.toNat ≤ high.toNat) :
    step (inside low high (further + 1) code) b =
      ([], inside 0x80 0xBF further (code * 64 + (b.toNat - 0x80))) := by
  rw [step, if_pos ⟨UInt8.le_iff_toNat_le.mpr hlow, UInt8.le_iff_toNat_le.mpr hhigh⟩]

lemma step_broken (h : ¬(low.toNat ≤ b.toNat ∧ b.toNat ≤ high.toNat)) :
    step (inside low high further code) b = (replacement :: (first b).1, (first b).2) := by
  rw [step, if_neg]
  rwa [UInt8.le_iff_toNat_le, UInt8.le_iff_toNat_le]

lemma run_cons (d : Decoder) (b : UInt8) (rest : Bytes) :
    d.run (b :: rest) = (d.step b).1 ++ (d.step b).2.run rest := rfl

end Step

/-! ## Where the decoder may stand -/

/-- The decoder stands where reading bytes can bring it, and has read so many bytes of the
character that it is in.  Whatever bytes it still accepts, the character has as many bytes as
were read for it. -/
inductive Standing : Decoder → Nat → Prop
  | start : Standing start 0
  | inside {low high : UInt8} {further code read : Nat} (hlow : 0x80 ≤ low.toNat)
    (hread : 1 ≤ read) (htotal : read + further ≤ 3)
    (hsized : ∀ next rest, low.toNat ≤ next → next ≤ high.toNat → rest < 64 ^ further →
      Sized ((code * 64 + (next - 0x80)) * 64 ^ further + rest) (read + further + 1)) :
    Standing (inside low high further code) read

section First

variable {b : UInt8}

lemma standing_first_two (h : 0xC2 ≤ b.toNat) (h' : b.toNat < 0xE0) : Standing (first b).2 1 := by
  rw [first_two h h']
  refine .inside (by decide) (by decide) (by decide) fun next rest hlow hhigh hrest => ?_
  simp only [UInt8.reduceToNat] at hlow hhigh
  rw [Nat.pow_zero] at hrest ⊢
  exact sized_two (by omega) (by omega)

lemma standing_first_three (h : 0xE0 ≤ b.toNat) (h' : b.toNat < 0xF0) :
    Standing (first b).2 1 := by
  obtain ⟨low, high, hlow, hhigh, hfirst⟩ := first_three h h'
  rw [hfirst]
  refine .inside (by split_ifs at hlow <;> omega) (by decide) (by decide) ?_
  intro next rest hnext hnext' hrest
  rw [hlow] at hnext
  rw [hhigh] at hnext'
  rw [Nat.pow_one] at hrest ⊢
  have hvalid : (((b.toNat - 0xE0) * 64 + (next - 0x80)) * 64 + rest).isValidChar := by
    unfold Nat.isValidChar
    split_ifs at hnext hnext' <;> omega
  refine sized_three ?_ ?_ hvalid <;> split_ifs at hnext hnext' <;> omega

lemma standing_first_four (h : 0xF0 ≤ b.toNat) (h' : b.toNat ≤ 0xF4) :
    Standing (first b).2 1 := by
  obtain ⟨low, high, hlow, hhigh, hfirst⟩ := first_four h h'
  rw [hfirst]
  refine .inside (by split_ifs at hlow <;> omega) (by decide) (by decide) ?_
  intro next rest hnext hnext' hrest
  rw [hlow] at hnext
  rw [hhigh] at hnext'
  refine sized_four ?_ ?_ <;> split_ifs at hnext hnext' <;> omega

/-- A byte beyond ASCII begins a character, or it is broken by itself. -/
lemma first_cases (h : 0x80 ≤ b.toNat) :
    first b = ([replacement], start) ∨ (first b).1 = [] ∧ Standing (first b).2 1 := by
  rcases Nat.lt_or_ge b.toNat 0xC2 with htwo | htwo
  · exact .inl (first_other h (.inl htwo))
  rcases Nat.lt_or_ge b.toNat 0xE0 with hthree | hthree
  · exact .inr ⟨by rw [first_two htwo hthree], standing_first_two htwo hthree⟩
  rcases Nat.lt_or_ge b.toNat 0xF0 with hfour | hfour
  · obtain ⟨low, high, -, -, hfirst⟩ := first_three hthree hfour
    exact .inr ⟨by rw [hfirst], standing_first_three hthree hfour⟩
  rcases Nat.lt_or_ge 0xF4 b.toNat with hbeyond | hbeyond
  · exact .inl (first_other h (.inr hbeyond))
  · obtain ⟨low, high, -, -, hfirst⟩ := first_four hfour hbeyond
    exact .inr ⟨by rw [hfirst], standing_first_four hfour hbeyond⟩

end First

section Standing

variable {d : Decoder} {read : Nat}

lemma Standing.finish_eq (h : Standing d read) (hread : 1 ≤ read) : d.finish = [replacement] := by
  cases h with
  | start => cases hread
  | inside => rfl

/-- No more bytes were read than U+FFFD has. -/
lemma Standing.read_le (h : Standing d read) :
    read ≤ (d.finish.flatMap String.utf8EncodeChar).length := by
  cases h with
  | start => exact Nat.zero_le _
  | inside _ _ htotal _ =>
    have hlength : (String.utf8EncodeChar replacement).length = 3 := rfl
    rw [finish, List.flatMap_singleton, hlength]
    omega

/-- What a byte does: either what stands in front of it is finished as if the input ended there,
and the byte is a first one, or it is one more byte of the character that the decoder is in. -/
lemma Standing.step_cases (h : Standing d read) (b : UInt8) :
    d.step b = (d.finish ++ (first b).1, (first b).2) ∨
      1 ≤ read ∧ 0x80 ≤ b.toNat ∧
        ((∃ c, d.step b = ([c], Decoder.start) ∧
            (String.utf8EncodeChar c).length = read + 1) ∨
          ((d.step b).1 = [] ∧ Standing (d.step b).2 (read + 1))) := by
  cases h with
  | start => exact .inl rfl
  | @inside low high further code _ hlow hread htotal hsized =>
    by_cases hb : low.toNat ≤ b.toNat ∧ b.toNat ≤ high.toNat
    · refine .inr ⟨hread, Nat.le_trans hlow hb.1, ?_⟩
      cases further with
      | zero =>
        refine .inl ⟨_, step_last hb.1 hb.2, ?_⟩
        have hlast := hsized b.toNat 0 hb.1 hb.2 (by decide)
        rwa [Nat.pow_zero, Nat.mul_one, Nat.add_zero, Nat.add_zero, Sized] at hlast
      | succ further =>
        rw [step_further hb.1 hb.2]
        refine .inr ⟨rfl, .inside (by decide) (by omega) (by omega) ?_⟩
        intro next rest hnext hnext' hrest
        simp only [UInt8.reduceToNat] at hnext hnext'
        -- `next` and `rest` together are what may follow the byte that was just read
        have hbound : (next - 0x80) * 64 ^ further + rest < 64 ^ (further + 1) := by
          have hmul := Nat.mul_le_mul_right (64 ^ further) (show next - 0x80 ≤ 63 by omega)
          rw [Nat.pow_succ]
          omega
        have hvalue : ((code * 64 + (b.toNat - 0x80)) * 64 + (next - 0x80)) * 64 ^ further + rest =
            (code * 64 + (b.toNat - 0x80)) * 64 ^ (further + 1) +
              ((next - 0x80) * 64 ^ further + rest) := by
          ring
        rw [hvalue, show read + 1 + further + 1 = read + (further + 1) + 1 by omega]
        exact hsized b.toNat _ hb.1 hb.2 hbound
    · exact .inl (step_broken hb)

/-- In front of an ASCII byte the decoder begins anew. -/
lemma Standing.run_ascii (h : Standing d read) {b : UInt8} (hb : b.toNat < 0x80) (rest : Bytes) :
    d.run (b :: rest) = d.finish ++ Decoder.start.run (b :: rest) := by
  obtain hstep | ⟨-, hbyte, -⟩ := h.step_cases b
  · rw [run_cons, hstep, List.append_assoc]
    rfl
  · exact absurd hb (Nat.not_lt.mpr hbyte)

/-- A byte becomes at least one byte of the text, or one of the bytes still to be shown. -/
lemma exists_standing_first (b : UInt8) :
    ∃ read, Standing (first b).2 read ∧
      1 ≤ ((first b).1.flatMap String.utf8EncodeChar).length + read := by
  rcases Nat.lt_or_ge b.toNat 0x80 with hb | hb
  · refine ⟨0, by rw [first_ascii hb]; exact .start, ?_⟩
    rw [first_ascii hb, List.flatMap_singleton, String.length_utf8EncodeChar]
    exact Char.utf8Size_pos _
  · obtain hfirst | ⟨-, hstanding⟩ := first_cases hb
    · refine ⟨0, by rw [hfirst]; exact .start, ?_⟩
      rw [hfirst]
      decide
    · exact ⟨1, hstanding, Nat.le_add_left 1 _⟩

lemma Standing.exists_step (h : Standing d read) (b : UInt8) :
    ∃ read', Standing (d.step b).2 read' ∧
      read + 1 ≤ ((d.step b).1.flatMap String.utf8EncodeChar).length + read' := by
  obtain hstep | ⟨-, -, ⟨c, hstep, hsize⟩ | ⟨-, hstanding⟩⟩ := h.step_cases b
  · obtain ⟨read', hstanding, hle⟩ := exists_standing_first b
    have hread := h.read_le
    rw [hstep]
    refine ⟨read', hstanding, ?_⟩
    rw [List.flatMap_append, List.length_append]
    omega
  · rw [hstep, List.flatMap_singleton, hsize]
    exact ⟨0, .start, Nat.le_refl _⟩
  · exact ⟨read + 1, hstanding, Nat.le_add_left _ _⟩

/-! ## Runs of the decoder -/

/-- The text is never shorter than the bytes that it is shown for. -/
lemma Standing.length_le (h : Standing d read) (bytes : Bytes) :
    read + bytes.length ≤ ((d.run bytes).flatMap String.utf8EncodeChar).length := by
  induction bytes generalizing d read with
  | nil => exact h.read_le
  | cons b rest ih =>
    obtain ⟨read', hstanding, hle⟩ := h.exists_step b
    have hrest := ih hstanding
    rw [run_cons, List.flatMap_append, List.length_append, List.length_cons]
    omega

lemma Standing.run_append_ascii (h : Standing d read) (front : Bytes) {b : UInt8}
    (hb : b.toNat < 0x80) (rest : Bytes) :
    d.run (front ++ b :: rest) = d.run front ++ Decoder.start.run (b :: rest) := by
  induction front generalizing d read with
  | nil => exact h.run_ascii hb rest
  | cons x front ih =>
    obtain ⟨read', hstanding, -⟩ := h.exists_step x
    rw [List.cons_append, run_cons, run_cons, ih hstanding, List.append_assoc]

/-- Where the bytes end with one beyond ASCII, the text ends with a character beyond ASCII. -/
lemma Standing.exists_run_eq_concat (h : Standing d read) (front : Bytes) {b : UInt8}
    (hb : 0x80 ≤ b.toNat) :
    ∃ chars c, d.run (front ++ [b]) = chars ++ [c] ∧
      2 ≤ (String.utf8EncodeChar c).length := by
  induction front generalizing d read with
  | nil =>
    rw [List.nil_append, run_cons]
    obtain hstep | ⟨hread, -, ⟨c, hstep, hsize⟩ | ⟨-, hstanding⟩⟩ := h.step_cases b
    · obtain hfirst | ⟨-, hstanding⟩ := first_cases hb
      · exact ⟨d.finish, replacement, by rw [hstep, hfirst]; exact List.append_nil _, by decide⟩
      · refine ⟨d.finish ++ (first b).1, replacement, ?_, by decide⟩
        rw [hstep, run, hstanding.finish_eq (Nat.le_refl 1)]
    · exact ⟨[], c, by rw [hstep]; rfl, by omega⟩
    · refine ⟨(d.step b).1, replacement, ?_, by decide⟩
      rw [run, hstanding.finish_eq (Nat.le_add_left 1 read)]
  | cons x front ih =>
    obtain ⟨read', hstanding, -⟩ := h.exists_step x
    obtain ⟨chars, c, hrun, hsize⟩ := ih hstanding
    exact ⟨(d.step x).1 ++ chars, c, by rw [List.cons_append, run_cons, hrun, List.append_assoc],
      hsize⟩

end Standing

lemma run_start_ascii_append {ascii : Bytes} (h : ∀ b ∈ ascii, b.toNat < 0x80) (rest : Bytes) :
    start.run (ascii ++ rest) = ascii.map (fun b => Char.ofNat b.toNat) ++ start.run rest := by
  induction ascii with
  | nil => rfl
  | cons b ascii ih =>
    have hstep : start.step b = ([Char.ofNat b.toNat], start) := first_ascii (h b (by simp))
    rw [List.cons_append, run_cons, hstep, ih fun x hx => h x (by simp [hx])]
    rfl

/-! ## Decoding characters -/

lemma run_last {low high b : UInt8} {code : Nat} (hlow : low.toNat ≤ b.toNat)
    (hhigh : b.toNat ≤ high.toNat) (rest : Bytes) :
    (inside low high 0 code).run (b :: rest) =
      Char.ofNat (code * 64 + (b.toNat - 0x80)) :: start.run rest := by
  rw [run_cons, step_last hlow hhigh]
  rfl

lemma run_further {low high b : UInt8} {further code : Nat} (hlow : low.toNat ≤ b.toNat)
    (hhigh : b.toNat ≤ high.toNat) (rest : Bytes) :
    (inside low high (further + 1) code).run (b :: rest) =
      (inside 0x80 0xBF further (code * 64 + (b.toNat - 0x80))).run rest := by
  rw [run_cons, step_further hlow hhigh]
  rfl

lemma run_first {b : UInt8} {next : Decoder} (h : first b = ([], next)) (rest : Bytes) :
    start.run (b :: rest) = next.run rest := by
  rw [run_cons, step, h]
  rfl

section Characters

variable {c : Char}

lemma run_one (h : c.toNat < 0x80) (rest : Bytes) :
    start.run (String.utf8EncodeChar c ++ rest) = c :: start.run rest := by
  have hbyte : (UInt8.ofNat c.toNat).toNat = c.toNat := by
    rw [UInt8.toNat_ofNat']
    omega
  rw [utf8EncodeChar_one h, List.singleton_append, run_cons, step, first_ascii (by omega), hbyte,
    Char.ofNat_toNat]
  rfl

lemma run_two (h : 0x80 ≤ c.toNat) (h' : c.toNat < 0x800) (rest : Bytes) :
    start.run (String.utf8EncodeChar c ++ rest) = c :: start.run rest := by
  have hfloor : (0x80 : UInt8).toNat = 0x80 := rfl
  have hceiling : (0xBF : UInt8).toNat = 0xBF := rfl
  have hbyte : (UInt8.ofNat (c.toNat / 64 % 32 + 0xC0)).toNat = c.toNat / 64 + 0xC0 := by
    rw [UInt8.toNat_ofNat']
    omega
  have hlast := toNat_ofNat_sixBits c.toNat
  have hvalue : (c.toNat / 64 + 0xC0 - 0xC0) * 64 + (c.toNat % 64 + 0x80 - 0x80) = c.toNat := by
    omega
  rw [utf8EncodeChar_two h h', List.cons_append, List.singleton_append,
    run_first (first_two (by omega) (by omega)), run_last (by omega) (by omega), hbyte, hlast,
    hvalue, Char.ofNat_toNat]

lemma run_three (h : 0x800 ≤ c.toNat) (h' : c.toNat < 0x10000) (rest : Bytes) :
    start.run (String.utf8EncodeChar c ++ rest) = c :: start.run rest := by
  have hvalid : c.toNat < 0xD800 ∨ 0xDFFF < c.toNat ∧ c.toNat < 0x110000 := c.valid
  have hfloor : (0x80 : UInt8).toNat = 0x80 := rfl
  have hceiling : (0xBF : UInt8).toNat = 0xBF := rfl
  have hbyte : (UInt8.ofNat (c.toNat / 4096 % 16 + 0xE0)).toNat = c.toNat / 4096 + 0xE0 := by
    rw [UInt8.toNat_ofNat']
    omega
  have hmiddle := toNat_ofNat_sixBits (c.toNat / 64)
  have hlast := toNat_ofNat_sixBits c.toNat
  have hvalue : ((c.toNat / 4096 + 0xE0 - 0xE0) * 64 + (c.toNat / 64 % 64 + 0x80 - 0x80)) * 64 +
      (c.toNat % 64 + 0x80 - 0x80) = c.toNat := by
    omega
  obtain ⟨low, high, hlow, hhigh, hfirst⟩ :=
    first_three (b := UInt8.ofNat (c.toNat / 4096 % 16 + 0xE0)) (by omega) (by omega)
  -- the second byte lies above overlong forms and below surrogates
  have hbounds : low.toNat ≤ c.toNat / 64 % 64 + 0x80 ∧ c.toNat / 64 % 64 + 0x80 ≤ high.toNat := by
    split_ifs at hlow hhigh <;> omega
  rw [utf8EncodeChar_three h h', List.cons_append, List.cons_append, List.singleton_append,
    run_first hfirst, run_further (by omega) (by omega), run_last (by omega) (by omega), hbyte,
    hmiddle, hlast, hvalue, Char.ofNat_toNat]

lemma run_four (h : 0x10000 ≤ c.toNat) (rest : Bytes) :
    start.run (String.utf8EncodeChar c ++ rest) = c :: start.run rest := by
  have hvalid : c.toNat < 0xD800 ∨ 0xDFFF < c.toNat ∧ c.toNat < 0x110000 := c.valid
  have hfloor : (0x80 : UInt8).toNat = 0x80 := rfl
  have hceiling : (0xBF : UInt8).toNat = 0xBF := rfl
  have hbyte : (UInt8.ofNat (c.toNat / 262144 % 8 + 0xF0)).toNat = c.toNat / 262144 + 0xF0 := by
    rw [UInt8.toNat_ofNat']
    omega
  have hupper := toNat_ofNat_sixBits (c.toNat / 4096)
  have hmiddle := toNat_ofNat_sixBits (c.toNat / 64)
  have hlast := toNat_ofNat_sixBits c.toNat
  have hvalue : (((c.toNat / 262144 + 0xF0 - 0xF0) * 64 +
      (c.toNat / 4096 % 64 + 0x80 - 0x80)) * 64 + (c.toNat / 64 % 64 + 0x80 - 0x80)) * 64 +
      (c.toNat % 64 + 0x80 - 0x80) = c.toNat := by
    omega
  obtain ⟨low, high, hlow, hhigh, hfirst⟩ :=
    first_four (b := UInt8.ofNat (c.toNat / 262144 % 8 + 0xF0)) (by omega) (by omega)
  -- the second byte lies above overlong forms and below what is no character any more
  have hbounds : low.toNat ≤ c.toNat / 4096 % 64 + 0x80 ∧
      c.toNat / 4096 % 64 + 0x80 ≤ high.toNat := by
    split_ifs at hlow hhigh <;> omega
  rw [utf8EncodeChar_four h, List.cons_append, List.cons_append, List.cons_append,
    List.singleton_append, run_first hfirst, run_further (by omega) (by omega),
    run_further (by omega) (by omega), run_last (by omega) (by omega), hbyte, hupper, hmiddle,
    hlast, hvalue, Char.ofNat_toNat]

/-- The bytes of a character are decoded to it, whatever follows them. -/
lemma run_utf8EncodeChar (c : Char) (rest : Bytes) :
    start.run (String.utf8EncodeChar c ++ rest) = c :: start.run rest := by
  rcases Nat.lt_or_ge c.toNat 0x80 with hone | hone
  · exact run_one hone rest
  rcases Nat.lt_or_ge c.toNat 0x800 with htwo | htwo
  · exact run_two hone htwo rest
  rcases Nat.lt_or_ge c.toNat 0x10000 with hthree | hthree
  · exact run_three htwo hthree rest
  · exact run_four hthree rest

end Characters

end Decoder

/-! ## The text in bytes -/

/-- UTF-8 is shown as it is. -/
theorem lossy_ofString (text : String) : lossy (Bytes.ofString text) = text := by
  have hrun : ∀ chars : List Char,
      Decoder.start.run (chars.flatMap String.utf8EncodeChar) = chars := by
    intro chars
    induction chars with
    | nil => rfl
    | cons c chars ih => rw [List.flatMap_cons, Decoder.run_utf8EncodeChar, ih]
  rw [← String.ofList_toList (s := text), Bytes.ofString_ofList, lossy, hrun]

/-- The text is never shorter than the bytes that it is shown for. -/
theorem length_le_length_shown (bytes : Bytes) : bytes.length ≤ (shown bytes).length := by
  rw [shown_eq]
  exact Nat.le_trans (Nat.le_add_left _ 0) (Decoder.Standing.start.length_le bytes)

/-- A run of ASCII bytes cuts the text in three parts, each of them the text of its bytes. -/
theorem shown_append_ascii {front ascii back : Bytes} (hne : ascii ≠ [])
    (hascii : ∀ b ∈ ascii, b < 0x80) :
    shown (front ++ (ascii ++ back)) = shown front ++ (ascii ++ shown back) := by
  have hnat : ∀ b ∈ ascii, b.toNat < 0x80 := fun b hb => UInt8.lt_iff_toNat_lt.mp (hascii b hb)
  obtain ⟨b, rest, rfl⟩ := List.exists_cons_of_ne_nil hne
  have hcut := Decoder.Standing.start.run_append_ascii front (hnat b (by simp)) (rest ++ back)
  rw [← List.cons_append, Decoder.run_start_ascii_append hnat] at hcut
  have hshown := ofString_lossy_ascii hascii
  rw [lossy, Bytes.ofString_ofList, Decoder.run_start_ascii hascii] at hshown
  rw [shown_eq, hcut, List.flatMap_append, List.flatMap_append, hshown, shown_eq, shown_eq]

/-- The text ends in an ASCII byte only if the bytes end in it. -/
theorem getLast?_shown {bytes : Bytes} {b : UInt8} (h : (shown bytes).getLast? = some b)
    (hb : b < 0x80) : bytes.getLast? = some b := by
  rcases bytes.eq_nil_or_concat' with rfl | ⟨front, x, rfl⟩
  · cases h
  rw [List.getLast?_concat]
  rcases Nat.lt_or_ge x.toNat 0x80 with hx | hx
  · have hascii : ∀ y ∈ [x], y < 0x80 := by
      simpa only [List.mem_singleton, forall_eq] using UInt8.lt_iff_toNat_lt.mpr hx
    have hcut : shown (front ++ [x]) = shown front ++ [x] :=
      shown_append_ascii (List.cons_ne_nil x []) hascii
    rwa [hcut, List.getLast?_concat] at h
  · obtain ⟨chars, c, hrun, hsize⟩ := Decoder.Standing.start.exists_run_eq_concat front hx
    obtain ⟨bytes, b', hc, hb'⟩ := exists_utf8EncodeChar_eq_concat hsize
    rw [shown_eq, hrun, List.flatMap_append, List.flatMap_singleton, hc, ← List.append_assoc,
      List.getLast?_concat] at h
    obtain rfl := Option.some.inj h
    exact absurd (UInt8.lt_iff_toNat_lt.mp hb) (Nat.not_lt.mpr hb')

end Reckoner.Text
