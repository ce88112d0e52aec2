/-
# Outputs

A sink takes bytes.  One `write` may take only a beginning of the bytes that it is offered, and
says how many it took; `Sink.offerAll` offers the rest again until all is taken or the sink fails.
A sink that takes nothing of a non-empty offer, and gives no reason, has failed too.

To write all of some bytes is a matter of the sink: most sinks are offered them in this way, but
a sink may have a shorter way of its own.
-/
import Reckoner.Bytes
import Reckoner.IoError

namespace Reckoner

namespace Sink

variable {σ : Type} {write : Bytes → σ → Except IoError Nat × σ} {stalled : IoError}

/-- Offers bytes in as many portions as `write` asks for.  The result comes with the bytes that
were not taken; it is `stalled` if nothing was taken of an offer. -/
def offerAll (write : Bytes → σ → Except IoError Nat × σ) (stalled : IoError) (bytes : Bytes)
    (s : σ) : Except IoError Unit × Bytes × σ :=
  match bytes with
  | [] => (.ok (), [], s)
  | b :: rest =>
    match write (b :: rest) s with
    | (.error e, s) => (.error e, b :: rest, s)
    | (.ok 0, s) => (.error stalled, b :: rest, s)
    | (.ok (n + 1), s) => offerAll write stalled (rest.drop n) s
termination_by bytes.length

@[simp] theorem offerAll_nil (s : σ) : offerAll write stalled [] s = (.ok (), [], s) := by
  rw [offerAll]

theorem offerAll_cons (b : UInt8) (rest : Bytes) (s : σ) :
    offerAll write stalled (b :: rest) s =
      match write (b :: rest) s with
      | (.error e, s) => (.error e, b :: rest, s)
      | (.ok 0, s) => (.error stalled, b :: rest, s)
      | (.ok (n + 1), s) => offerAll write stalled (rest.drop n) s := by
  rw [offerAll]

/-- Writes all bytes by offering them. -/
def writeOffering (write : Bytes → σ → Except IoError Nat × σ) (bytes : Bytes) (s : σ) :
    Except IoError Unit × σ :=
  let (result, _, s) := offerAll write .writeZero bytes s
  (result, s)

end Sink

/-- Something that bytes can be written to. -/
class Sink (σ : Type) where
  /-- Offers bytes: how many of them, from the beginning, were taken, and the sink after it. -/
  write : Bytes → σ → Except IoError Nat × σ
  /-- Asks for everything taken so far to be passed on. -/
  flush : σ → Except IoError Unit × σ
  /-- Writes all bytes, in as many portions as the sink asks for. -/
  writeAll : Bytes → σ → Except IoError Unit × σ := Sink.writeOffering write

namespace Sink

variable {σ : Type} [Sink σ]

/-- Writes several portions, one after another, until the sink fails. -/
def writeEach : List Bytes → σ → Except IoError Unit × σ
  | [], s => (.ok (), s)
  | portion :: portions, s =>
    match writeAll portion s with
    | (.error e, s) => (.error e, s)
    | (.ok (), s) => writeEach portions s

end Sink
end Reckoner
