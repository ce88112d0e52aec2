/-
# Patterns

A pattern is a sequence of pieces, and each piece takes bytes of one class: one of them, or as
many as there are.  A piece that may take several bytes takes as many as it can, and gives them
back one by one when the pieces behind it do not match what follows.  A search tries the places
of a byte sequence from left to right.  The texts of some pieces, the groups, are reported with
the places where they stand.
-/
import Reckoner.Bytes
import Reckoner.Diagnostic

namespace Reckoner

/-- How many bytes a piece of a pattern takes: one, any number, or any number but not none. -/
inductive Amount where
  | one
  | any
  | some
deriving DecidableEq, Repr

/-- A piece of a pattern. -/
structure Piece where
  /-- The bytes that it takes. -/
  accepts : UInt8 → Bool
  /-- How many of them it takes. -/
  amount : Amount
  /-- Its text is reported. -/
  isGroup : Bool

namespace Piece

variable {α : Type}

/-- Takes one byte, if `next` succeeds behind it. -/
def takeOne (accepts : UInt8 → Bool) (next : Bytes → Option α) : Bytes → Option (Bytes × α)
  | [] => none
  | b :: rest => if accepts b then (next rest).map fun a => ([b], a) else none

/-- Takes the longest run of bytes behind which `next` succeeds: to take one more byte is tried
before to stop. -/
def takeAny (accepts : UInt8 → Bool) (next : Bytes → Option α) : Bytes → Option (Bytes × α)
  | [] => (next []).map fun a => ([], a)
  | b :: rest =>
    match if accepts b then takeAny accepts next rest else none with
    | some (text, a) => some (b :: text, a)
    | none => (next (b :: rest)).map fun a => ([], a)

/-- Takes one byte, and behind it the longest run behind which `next` succeeds. -/
def takeSome (accepts : UInt8 → Bool) (next : Bytes → Option α) : Bytes → Option (Bytes × α)
  | [] => none
  | b :: rest =>
    if accepts b then (takeAny accepts next rest).map fun (text, a) => (b :: text, a) else none

/-- The text that a piece takes at the beginning of a byte sequence, with what `next` gives for
the bytes behind it. -/
def take (p : Piece) (next : Bytes → Option α) : Bytes → Option (Bytes × α) :=
  match p.amount with
  | .one => takeOne p.accepts next
  | .any => takeAny p.accepts next
  | .some => takeSome p.accepts next

end Piece

/-- A sequence of pieces. -/
abbrev Pattern := List Piece

/-- A byte sequence cut at a place where a pattern matches. -/
structure Match where
  /-- The bytes in front of the place. -/
  before : Bytes
  /-- The texts of the pieces. -/
  texts : List Bytes
  /-- The bytes behind the texts. -/
  after : Bytes
deriving DecidableEq, Repr

/-- The text of a group, and where it stands. -/
structure Group where
  text : Bytes
  span : Span
deriving DecidableEq, Repr

/-- The same match with one more byte in front. -/
def Match.shift (b : UInt8) (m : Match) : Match := { m with before := b :: m.before }

namespace Pattern

/-- The match at the beginning of a byte sequence. -/
def atStart? : Pattern → Bytes → Option Match
  | [], bytes => some ⟨[], [], bytes⟩
  | p :: ps, bytes =>
    (p.take (atStart? ps) bytes).map fun (text, m) => { m with texts := text :: m.texts }

/-- The match that begins furthest to the left. -/
def find? (ps : Pattern) : Bytes → Option Match
  | [] => atStart? ps []
  | b :: rest =>
    match atStart? ps (b :: rest) with
    | some m => some m
    | none => (find? ps rest).map (Match.shift b)

/-- The groups among pieces with the given texts, the first of which stands at `offset`. -/
def groupsFrom (offset : Nat) : Pattern → List Bytes → List Group
  | p :: ps, text :: texts =>
    let groups := groupsFrom (offset + text.length) ps texts
    if p.isGroup then ⟨text, ⟨offset, text.length⟩⟩ :: groups else groups
  | _, _ => []

/-- The groups of the match that begins furthest to the left. -/
def groups? (ps : Pattern) (bytes : Bytes) : Option (List Group) :=
  (ps.find? bytes).map fun m => groupsFrom m.before.length ps m.texts

end Pattern
end Reckoner
