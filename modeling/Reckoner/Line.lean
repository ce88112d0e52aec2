/-
# Lines

A line ends at a line feed; what follows the last line feed is a line too unless it is empty.
One carriage return at the end of a line belongs to its ending, whether or not a line feed
follows it.  Lines are taken from the front of an input one at a time.
-/
import Reckoner.Bytes

namespace Reckoner

/-- A line without the carriage return at its end. -/
def dropReturn (line : Bytes) : Bytes :=
  if line.getLast? = some Bytes.carriageReturn then line.dropLast else line

/-- The first line of what is left of an input, and what is left behind its line feed. -/
def nextLine? (rest : Bytes) : Option (Bytes × Bytes) :=
  if rest = [] then none
  else
    let line := rest.takeWhile (· != Bytes.lineFeed)
    some (dropReturn line, rest.drop (line.length + 1))

theorem length_of_nextLine? {rest line rest' : Bytes} (h : nextLine? rest = some (line, rest')) :
    rest'.length < rest.length := by
  unfold nextLine? at h
  split at h
  · cases h
  · next hne =>
    cases h
    have : 0 < rest.length := List.length_pos_iff.mpr hne
    rw [List.length_drop]
    omega

/-- The lines of a byte sequence, without their endings. -/
def lines (rest : Bytes) : List Bytes :=
  match h : nextLine? rest with
  | none => []
  | some (line, rest') =>
    have : rest'.length < rest.length := length_of_nextLine? h
    line :: lines rest'
termination_by rest.length

theorem lines_of_none {rest : Bytes} (h : nextLine? rest = none) : lines rest = [] := by
  rw [lines]
  split
  · rfl
  · next line rest' h' => rw [h] at h'; cases h'

theorem lines_of_some {rest line rest' : Bytes} (h : nextLine? rest = some (line, rest')) :
    lines rest = line :: lines rest' := by
  rw [lines]
  split
  · next h' => rw [h] at h'; cases h'
  · next line₁ rest₁ h' => rw [h] at h'; cases h'; rfl

/-- A sequence without its last byte, if it has one. -/
def trimLast? (bytes : Bytes) : Option Bytes :=
  if bytes = [] then none else some bytes.dropLast

end Reckoner
