/-
# Records

A record is one line of the output: a label, an equals sign and a value in decimal.  The label
may hold any bytes, equals signs among them, but a decimal number holds none.  So the last equals
sign of the line is the one that ends the label, and a record is read back as it was written.
-/
import Reckoner.Operation

namespace Reckoner

/-- A value with the text that it belongs to. -/
structure Record where
  /-- The text in front of the equals sign. -/
  label : Bytes
  value : Int64
deriving DecidableEq, Repr

namespace Record

/-- The bytes of a record, with the line feed that ends it. -/
def written (r : Record) : Bytes :=
  r.label ++ Bytes.equalsSign :: Decimal.ofInt r.value.toInt ++ [Bytes.lineFeed]

/-- The portions in which a record is written.  The sign of a negative value is one of its
own. -/
def portions (r : Record) : List Bytes :=
  [r.label, [Bytes.equalsSign]] ++
    (if r.value.toInt < 0 then [[Decimal.minusSign]] else []) ++
    [Decimal.ofNat r.value.toInt.natAbs, [Bytes.lineFeed]]

/-- The portions of a record are the record. -/
theorem flatten_portions (r : Record) : r.portions.flatten = r.written := by
  by_cases h : r.value.toInt < 0 <;> simp [portions, written, Decimal.ofInt, h]

/-- The line of a record, without the line feed. -/
def line (r : Record) : Bytes := r.label ++ Bytes.equalsSign :: Decimal.ofInt r.value.toInt

theorem written_eq (r : Record) : r.written = r.line ++ [Bytes.lineFeed] := by
  simp [written, line]

/-- The parts of a line in front of and behind its last equals sign. -/
def cutAtLast? : Bytes → Option (Bytes × Bytes)
  | [] => none
  | b :: rest =>
    match cutAtLast? rest with
    | some (front, back) => some (b :: front, back)
    | none => if b = Bytes.equalsSign then some ([], rest) else none

/-- Reads a record from its line, without the line feed. -/
def ofLine? (line : Bytes) : Option Record :=
  match cutAtLast? line with
  | none => none
  | some (label, digits) =>
    match Decimal.toInt? digits with
    | none => none
    | some n => if FitsInt64 n then some ⟨label, Int64.ofInt n⟩ else none

theorem cutAtLast?_eq_none {bytes : Bytes} (h : Bytes.equalsSign ∉ bytes) :
    cutAtLast? bytes = none := by
  induction bytes with
  | nil => rfl
  | cons b rest ih =>
    rw [List.mem_cons, not_or] at h
    simp [cutAtLast?, ih h.2, Ne.symm h.1]

/-- The last equals sign of a line is the one with none behind it. -/
theorem cutAtLast?_append {back : Bytes} (h : Bytes.equalsSign ∉ back) (front : Bytes) :
    cutAtLast? (front ++ Bytes.equalsSign :: back) = some (front, back) := by
  induction front with
  | nil => simp [cutAtLast?, cutAtLast?_eq_none h]
  | cons b front ih => simp [cutAtLast?, ih]

theorem equalsSign_notMem_ofInt (n : Int) : Bytes.equalsSign ∉ Decimal.ofInt n :=
  Decimal.notMem_ofInt rfl (by decide) n

/-- A record is read back as it was written. -/
@[simp] theorem ofLine?_line (r : Record) : ofLine? r.line = some r := by
  rw [line, ofLine?, cutAtLast?_append (equalsSign_notMem_ofInt _)]
  simp [fitsInt64_toInt]

end Record
end Reckoner
