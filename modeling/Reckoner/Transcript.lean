/-
# Writing the results of all lines

`transcribe` takes the lines of an input one at a time and writes a record for each line that
has a value.  Lines without a value are told of and skipped.  The first failure of the sink ends
the run: what was told of the lines before it stays told.  A run that reaches its end flushes the
sink once.
-/
import Reckoner.Sink
import Reckoner.Verdict

namespace Reckoner

/-- What a run leaves behind. -/
structure Transcript (σ : Type) where
  sink : σ
  events : List Event
  /-- The counts, or the failure that ended the run. -/
  outcome : Except IoError Report

namespace Transcript

variable {σ : Type} [Sink σ]

/-- Puts an event before all others. -/
def tell (event : Event) (t : Transcript σ) : Transcript σ :=
  { t with events := event :: t.events }

/-- The end of a run: the sink is flushed, and the counts are the outcome if that succeeds. -/
def finish (report : Report) (s : σ) : Transcript σ :=
  let (result, s) := Sink.flush s
  ⟨s, [], result.map fun () => report⟩

/-- The run over what is left of an input, the first line of which has the given number.  The
report counts the lines before it. -/
def ofRest (number : Nat) (report : Report) (rest : Bytes) (s : σ) : Transcript σ :=
  match h : nextLine? rest with
  | none => finish report s
  | some (line, rest') =>
    have : rest'.length < rest.length := length_of_nextLine? h
    let report := report.countScanned
    match Verdict.ofLine line with
    | .empty => tell (.emptyLine number) (ofRest (number + 1) report.countSkipped rest' s)
    | .faulty f => tell (.faultyLine number f) (ofRest (number + 1) report.countSkipped rest' s)
    | .recorded r =>
      match Sink.writeEach r.portions s with
      | (.error e, s) => ⟨s, [], .error e⟩
      | (.ok (), s) => ofRest (number + 1) report.countWritten rest' s
termination_by rest.length

end Transcript

/-- Writes the results of all lines of `input` to a sink. -/
def transcribe {σ : Type} [Sink σ] (input : Bytes) (s : σ) : Transcript σ :=
  Transcript.ofRest 1 .none input s

end Reckoner
