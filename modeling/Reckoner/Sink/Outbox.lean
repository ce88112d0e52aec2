/-
# A sink that keeps its portions apart

An outbox takes everything that it is offered.  The portions in which it was offered are kept in
their order, to be handed on later one by one.
-/
import Reckoner.Sink

namespace Reckoner

/-- The portions that were offered, the first one first. -/
structure Outbox where
  portions : List Bytes
deriving DecidableEq, Repr

namespace Outbox

def empty : Outbox := ⟨[]⟩

def write (bytes : Bytes) (o : Outbox) : Except IoError Nat × Outbox :=
  (.ok bytes.length, ⟨o.portions ++ [bytes]⟩)

instance : Sink Outbox where
  write := write
  flush o := (.ok (), o)

end Outbox
end Reckoner
