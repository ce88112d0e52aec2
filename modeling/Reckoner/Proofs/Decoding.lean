/-
# Reading an output back

The label of a record may hold any bytes of the input, equals signs, minus signs, digits and
carriage returns among them.  An output can still be read back without loss.  A label comes out of
a line, so it holds no line feed, and the record ends in a digit, so that no carriage return comes
to stand in front of the line feed that is written behind it: the lines of the output are the
records (`Record.lines_written`).  In each of them the equals sign in front of the value is the
last one, and the value is in canonical form (`Decimal.canonical_ofInt`).

The main result is `transcribe_decodes`.
-/
import Reckoner.Proofs.Endings
import Reckoner.Proofs.Joining

namespace Reckoner

/-! ## The canonical form of a number -/

namespace Decimal

/-- The form of a number without anything superfluous: digits with perhaps a minus sign in front
of them, no zero in front of other digits, and no minus sign in front of a mere zero. -/
def Canonical (bytes : Bytes) : Prop :=
  ∃ digits, digits ≠ [] ∧ (∀ b ∈ digits, isDigit b = true) ∧
    (digits.head? = some zero → digits = [zero]) ∧
    (bytes = digits ∨ bytes = minusSign :: digits ∧ digits ≠ [zero])

lemma ofNat_zero : ofNat 0 = [zero] := ofNat_of_lt (by decide)

lemma ofNat_eq_zero_iff {n : Nat} : ofNat n = [zero] ↔ n = 0 := by
  constructor
  · intro h
    rw [← value_ofNat n, h]
    rfl
  · rintro rfl
    exact ofNat_zero

/-- Only the number zero begins with a zero. -/
lemma eq_zero_of_head?_ofNat {n : Nat} (h : (ofNat n).head? = some zero) : n = 0 := by
  induction n using Nat.strongRecOn with
  | _ n ih =>
    by_cases hn : n < 10
    · rw [ofNat_of_lt hn, List.head?_cons, Option.some.injEq] at h
      rw [← ofNat_eq_zero_iff, ofNat_of_lt hn, h]
    · -- the first digit is that of a tenth, which is not zero
      rw [ofNat_of_le (by omega), List.head?_append_of_ne_nil _ (ofNat_ne_nil _)] at h
      have htenth : n / 10 = 0 := ih (n / 10) (by omega) h
      omega

lemma canonical_ofInt (n : Int) : Canonical (ofInt n) := by
  refine ⟨ofNat n.natAbs, ofNat_ne_nil _, fun _ => isDigit_of_mem_ofNat, ?_, ?_⟩
  · intro h
    rw [eq_zero_of_head?_ofNat h, ofNat_zero]
  · by_cases hneg : n < 0
    · refine .inr ⟨by rw [ofInt, if_pos hneg], ?_⟩
      rw [ne_eq, ofNat_eq_zero_iff]
      omega
    · exact .inl (by rw [ofInt, if_neg hneg])

lemma isDigit_of_getLast?_ofInt {n : Int} {b : UInt8} (h : (ofInt n).getLast? = some b) :
    isDigit b = true := by
  rw [ofInt_eq_sign_append, List.getLast?_append_of_ne_nil _ (ofNat_ne_nil _)] at h
  exact isDigit_of_mem_ofNat (List.mem_of_getLast? h)

end Decimal

/-! ## The lines of an output -/

namespace Record

/-- The line of a record can be told from the line feed behind it. -/
lemma distinct_line {r : Record} (h : Bytes.lineFeed ∉ r.label) :
    EndedLine.Distinct ⟨r.line, .lineFeed⟩ := by
  refine ⟨?_, fun _ hreturn => ?_⟩
  · rw [line, List.mem_append, List.mem_cons, not_or, not_or]
    exact ⟨h, by decide, Decimal.notMem_ofInt rfl (by decide) _⟩
  · rw [line, List.getLast?_append_cons, ← List.singleton_append,
      List.getLast?_append_of_ne_nil _ (Decimal.ofInt_ne_nil _)] at hreturn
    exact absurd (Decimal.isDigit_of_getLast?_ofInt hreturn) (by decide)

variable {rs : List Record}

/-- **The lines of written records are the records.** -/
lemma lines_written (h : ∀ r ∈ rs, Bytes.lineFeed ∉ r.label) :
    lines (rs.flatMap written) = rs.map line := by
  have hjoined : rs.flatMap written = joined (rs.map fun r => ⟨r.line, .lineFeed⟩) := by
    rw [joined, List.flatMap_map]
    exact congrArg (rs.flatMap ·) (funext written_eq)
  have hended : WellEnded (rs.map fun r => ⟨r.line, .lineFeed⟩) := by
    refine .of_hasLineFeed (fun l hl => ?_) (fun l hl => ?_)
    · obtain ⟨r, hr, rfl⟩ := List.mem_map.mp hl
      exact distinct_line (h r hr)
    · obtain ⟨r, -, rfl⟩ := List.mem_map.mp hl
      rfl
  rw [hjoined, lines_joined hended, List.map_map]
  rfl

/-- There is one line feed in each record: the one that ends it. -/
lemma count_lineFeed_written (h : ∀ r ∈ rs, Bytes.lineFeed ∉ r.label) :
    (rs.flatMap written).count Bytes.lineFeed = rs.length := by
  induction rs with
  | nil => rfl
  | cons r rs ih =>
    have hline : r.line.count Bytes.lineFeed = 0 :=
      List.count_eq_zero.mpr (distinct_line (h r (by simp))).lineFeed_notMem
    rw [List.flatMap_cons, List.count_append, ih fun x hx => h x (by simp [hx]), written_eq,
      List.count_append, hline, List.length_cons]
    simp only [List.count_singleton_self]
    omega

lemma endsLine_written (rs : List Record) : EndsLine (rs.flatMap written) := by
  rcases List.eq_nil_or_concat rs with rfl | ⟨rs, r, rfl⟩
  · exact .inl rfl
  · refine .inr ?_
    rw [List.concat_eq_append, List.flatMap_append, List.flatMap_singleton, written_eq,
      ← List.append_assoc, List.getLast?_concat]

end Record

/-! ## The records of an input -/

/-- The records of the lines that have one, in order. -/
def recordsIn (input : Bytes) : List Record := (lines input).filterMap recordOf?

lemma lineFeed_notMem_of_mem_lines {input line : Bytes} (h : line ∈ lines input) :
    Bytes.lineFeed ∉ line := by
  rw [lines_eq_pieces] at h
  obtain ⟨piece, hpiece, rfl⟩ := List.mem_map.mp h
  have hnot : Bytes.lineFeed ∉ piece := fun hmem => by
    have hfeed := not_isSeparator_of_mem_pieces hpiece _ hmem
    exact absurd hfeed (by decide)
  unfold dropReturn
  split
  · exact fun hmem => hnot (List.dropLast_subset _ hmem)
  · exact hnot

lemma lineFeed_notMem_label {input : Bytes} {r : Record} (h : r ∈ recordsIn input) :
    Bytes.lineFeed ∉ r.label := by
  obtain ⟨line, hline, hr⟩ := List.mem_filterMap.mp h
  obtain ⟨-, hlabel, -⟩ := recordOf?_eq_some_iff.mp hr
  rw [hlabel]
  exact fun hmem => lineFeed_notMem_of_mem_lines hline
    (List.dropLast_subset _ (List.dropLast_subset _ hmem))

/-- An output from which the records can be read back.  Its lines are the records, with no byte
dropped.  Each is cut at its last equals sign into the label and the value, which is written in
canonical form.  There is a line feed for each record that was counted, one of them at the end. -/
structure Decodes (rs : List Record) (report : Report) (output : Bytes) : Prop where
  lines_eq : lines output = rs.map Record.line
  cut_eq : ∀ r ∈ rs,
    Record.cutAtLast? r.line = some (r.label, Decimal.ofInt r.value.toInt) ∧
      Decimal.Canonical (Decimal.ofInt r.value.toInt)
  read_eq : (lines output).map Record.ofLine? = rs.map some
  endsLine : EndsLine output
  length_eq : rs.length = report.written
  count_lineFeed : output.count Bytes.lineFeed = report.written
  written_le : report.written ≤ report.scanned

/-! ## The output of a run -/

lemma held_transcribe (input : Bytes) :
    (transcribe input Tank.unlimited).sink.held = (recordsIn input).flatMap Record.written := by
  rw [transcribe_unlimited_eq]
  rfl

lemma lines_held_transcribe (input : Bytes) :
    lines (transcribe input Tank.unlimited).sink.held = (recordsIn input).map Record.line := by
  rw [held_transcribe, Record.lines_written fun r => lineFeed_notMem_label]

lemma ofLine?_lines_held_transcribe (input : Bytes) :
    (lines (transcribe input Tank.unlimited).sink.held).map Record.ofLine? =
      (recordsIn input).map some := by
  rw [lines_held_transcribe, List.map_map]
  exact List.map_congr_left fun r _ => r.ofLine?_line

lemma decodes_transcribe (input : Bytes) :
    ∃ report, (transcribe input Tank.unlimited).outcome = .ok report ∧
      Decodes (recordsIn input) report (transcribe input Tank.unlimited).sink.held := by
  refine ⟨_, by rw [transcribe_unlimited_eq], ?_⟩
  exact
    { lines_eq := lines_held_transcribe input
      cut_eq := fun r _ =>
        ⟨Record.cutAtLast?_append (Record.equalsSign_notMem_ofInt _) r.label,
          Decimal.canonical_ofInt _⟩
      read_eq := ofLine?_lines_held_transcribe input
      endsLine := by
        rw [held_transcribe]
        exact Record.endsLine_written _
      length_eq := rfl
      count_lineFeed := by
        rw [held_transcribe]
        exact Record.count_lineFeed_written fun r => lineFeed_notMem_label
      written_le := List.length_filterMap_le recordOf? (lines input) }

/-- **An output is read back without loss.**  So two inputs have the same output exactly if the
lines of both that have a value have the same labels and values in the same order. -/
theorem transcribe_decodes (input : Bytes) :
    let t := transcribe input Tank.unlimited
    (∃ report, t.outcome = .ok report ∧ Decodes (recordsIn input) report t.sink.held) ∧
    ∀ input', (transcribe input' Tank.unlimited).sink.held = t.sink.held ↔
      recordsIn input' = recordsIn input := by
  refine ⟨decodes_transcribe input, fun input' => ⟨fun hsame => ?_, fun hsame => ?_⟩⟩
  · -- equal outputs are read as the same records
    have hread := ofLine?_lines_held_transcribe input'
    rw [hsame, ofLine?_lines_held_transcribe input] at hread
    exact ((List.map_inj_right fun _ _ => Option.some.inj).mp hread).symm
  · rw [held_transcribe, held_transcribe, hsame]

/-- A label with an equals sign, a minus sign and a digit of its own is read back with a negative
value behind it. -/
example :
    Record.ofLine? [0x61, 0x3D, 0x2D, 0x37, 0x3D, 0x2D, 0x31, 0x30] =
      some ⟨[0x61, 0x3D, 0x2D, 0x37], -10⟩ := rfl

end Reckoner
