/-
# A sink with a buffer in front of it

Small writes are collected, and passed on together when the next one no longer fits behind
them.  A write that would fill the buffer by itself goes past it.  Bytes that are still in the
buffer reach the sink behind it only with a flush, or when the buffer is given up.
-/
import Reckoner.Sink

namespace Reckoner

/-- A sink `inner` behind a buffer. -/
structure Buffered (σ : Type) where
  inner : σ
  /-- How many bytes the buffer can hold. -/
  capacity : Nat
  /-- The bytes in the buffer. -/
  pending : Bytes
deriving DecidableEq, Repr

/-- The sink behind a buffer takes nothing of what is in the buffer, without saying why. -/
def IoError.bufferStalled : IoError := .other "failed to write the buffered data"

namespace Buffered

variable {σ α : Type} [Sink σ]

/-- A sink behind an empty buffer of 8192 bytes. -/
def of {σ : Type} (inner : σ) : Buffered σ := ⟨inner, 8192, []⟩

/-- Passes on what is in the buffer.  If that fails, the buffer keeps what was not taken. -/
def drain (b : Buffered σ) : Except IoError Unit × Buffered σ :=
  let (result, rest, inner) := Sink.offerAll Sink.write .bufferStalled b.pending b.inner
  (result, { b with inner := inner, pending := rest })

/-- Takes bytes into a buffer that has room for them, or past a buffer that they would fill. -/
def accept (bytes : Bytes) (taken : α) (past : σ → Except IoError α × σ) (b : Buffered σ) :
    Except IoError α × Buffered σ :=
  if b.capacity ≤ bytes.length then
    let (result, inner) := past b.inner
    (result, { b with inner := inner })
  else (.ok taken, { b with pending := b.pending ++ bytes })

/-- Makes room first if there is too little. -/
def receive (bytes : Bytes) (taken : α) (past : σ → Except IoError α × σ) (b : Buffered σ) :
    Except IoError α × Buffered σ :=
  if b.pending.length + bytes.length ≤ b.capacity then b.accept bytes taken past
  else match b.drain with
    | (.ok (), b) => b.accept bytes taken past
    | (.error e, b) => (.error e, b)

def write (bytes : Bytes) (b : Buffered σ) : Except IoError Nat × Buffered σ :=
  b.receive bytes bytes.length (Sink.write bytes)

/-- Bytes that go past the buffer are for the sink behind it to write, all of them. -/
def writeAll (bytes : Bytes) (b : Buffered σ) : Except IoError Unit × Buffered σ :=
  b.receive bytes () (Sink.writeAll bytes)

/-- Empties the buffer and flushes the sink behind it. -/
def flush (b : Buffered σ) : Except IoError Unit × Buffered σ :=
  match b.drain with
  | (.ok (), b) =>
    let (result, inner) := Sink.flush b.inner
    (result, { b with inner := inner })
  | (.error e, b) => (.error e, b)

instance : Sink (Buffered σ) := ⟨write, flush, writeAll⟩

/-- Gives up the buffer.  What is still in it is passed on, and no failure is told of. -/
def close (b : Buffered σ) : σ := b.drain.2.inner

end Buffered
end Reckoner
