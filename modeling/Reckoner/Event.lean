/-
# What a run tells about itself while it goes on
-/
import Reckoner.Fault
import Reckoner.Report

namespace Reckoner

/-- How important an event is. -/
inductive Level where
  | debug
  | info
deriving DecidableEq, Repr

/-- The things that a run tells of. -/
inductive Event where
  | began (input output : String)
  | inputRead (size : Nat)
  | emptyLine (number : Nat)
  | faultyLine (number : Nat) (fault : Fault)
  | finished (report : Report)
deriving DecidableEq, Repr

namespace Event

/-- How important an event is. -/
def level : Event → Level
  | began .. | finished _ => .info
  | inputRead _ | emptyLine _ | faultyLine .. => .debug

/-- The words that go with an event; the beginning of a run has none. -/
def message? : Event → Option String
  | began .. => none
  | inputRead _ => some "read input"
  | emptyLine _ => some "skipping empty line"
  | faultyLine .. => some "skipping line"
  | finished _ => some "processed file"

/-- The number of the line that an event tells of. -/
def line? : Event → Option Nat
  | emptyLine number | faultyLine number _ => some number
  | began .. | inputRead _ | finished _ => none

/-- The message of the fault that an event tells of. -/
def error? : Event → Option String
  | faultyLine _ f => some f.message
  | began .. | inputRead _ | emptyLine _ | finished _ => none

end Event
end Reckoner
