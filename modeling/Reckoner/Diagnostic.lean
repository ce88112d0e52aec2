/-
# Diagnostics

What an error tells its reader: a message, a stable code, and where there is more to say, a
hint, the underlying cause, and marked places in the input.
-/

namespace Reckoner

/-- A stretch of bytes: how many bytes stand in front of it, and how many it has. -/
structure Span where
  offset : Nat
  length : Nat
deriving DecidableEq, Repr

/-- A remark on one place of the input. -/
structure Label where
  text : String
  span : Span
deriving DecidableEq, Repr

/-- The description of an error. -/
structure Diagnostic where
  message : String
  code : String
  /-- A hint on how to avoid the error. -/
  help : Option String
  /-- The message of the error behind this one. -/
  cause : Option String
  labels : List Label
deriving DecidableEq, Repr

end Reckoner
