/-
# What becomes of one line

The last byte of a line is a marker and not part of its expression.  A line whose expression has
a value is recorded: the expression without its own last byte is the label of the record, and
the value follows an equals sign.
-/
import Reckoner.Evaluation
import Reckoner.Event
import Reckoner.Line
import Reckoner.Record

namespace Reckoner

/-- What becomes of one line. -/
inductive Verdict where
  | recorded (record : Record)
  | empty
  | faulty (fault : Fault)
deriving DecidableEq, Repr

namespace Verdict

def ofLine (line : Bytes) : Verdict :=
  match trimLast? line with
  | none => empty
  | some expression =>
    match evaluate expression with
    | .ok value => recorded ⟨(trimLast? expression).getD [], value⟩
    | .error f => faulty f

def isRecorded : Verdict → Bool
  | recorded _ => true
  | empty | faulty _ => false

/-- The bytes that are written for a line. -/
def output : Verdict → Bytes
  | recorded r => r.written
  | empty | faulty _ => []

/-- What is told of a line with the given number. -/
def event? (number : Nat) : Verdict → Option Event
  | recorded _ => none
  | empty => some (.emptyLine number)
  | faulty f => some (.faultyLine number f)

end Verdict

/-- The verdicts on all lines of an input, in order. -/
def verdicts (input : Bytes) : List Verdict := (lines input).map Verdict.ofLine

/-- The counts of a list of verdicts. -/
def Report.ofVerdicts (vs : List Verdict) : Report :=
  ⟨vs.length, vs.countP Verdict.isRecorded, vs.countP fun v => !v.isRecorded⟩

@[simp] theorem Report.ofVerdicts_nil : Report.ofVerdicts [] = .none := rfl

/-- The bytes of all records. -/
def outputOf (vs : List Verdict) : Bytes := vs.flatMap Verdict.output

/-- What is told of lines that are numbered from `number` on. -/
def eventsOf (number : Nat) : List Verdict → List Event
  | [] => []
  | v :: vs => (v.event? number).toList ++ eventsOf (number + 1) vs

end Reckoner
