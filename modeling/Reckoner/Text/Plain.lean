/-
# Text without terminal control

What a user typed may hold control characters and escape sequences, which would move the cursor
of a terminal or change its colours.  `Text.plain` leaves them out, so that only characters that
are seen remain; of the control characters it keeps tab, line feed, form feed and carriage return.

An escape sequence begins with the escape character and runs up to its final character.  Inside
it nothing is seen, except that a blank control character in a short sequence is: it interrupts
the sequence, and text is seen again until the next character that cannot be.
-/
import Reckoner.Bytes

namespace Reckoner.Text

/-- The control characters that are kept. -/
def isBlankControl (c : Char) : Bool :=
  c == '\t' || c == '\n' || c == '\x0C' || c == '\r'

/-- The character is seen when it stands outside of escape sequences. -/
def isSeen (c : Char) : Bool := isBlankControl c || (' ' ≤ c && c != '\x7F')

/-- How far an escape sequence has come. -/
inductive EscapeSequence where
  /-- Behind the escape character itself. -/
  | escape
  /-- Behind the first characters of a sequence that chooses a character set. -/
  | designation
  /-- In the parameters of a control sequence. -/
  | control
  /-- At the beginning of a device control string. -/
  | deviceEntry
  /-- In the parameters of a device control string. -/
  | deviceParameters
  /-- Behind the parameters of a device control string. -/
  | deviceDesignation
  /-- In a string that the byte `9C` ends. -/
  | string
  /-- In a command to the operating system, which the bell ends. -/
  | command
deriving DecidableEq, Repr

/-- Where a terminal stands between two characters. -/
inductive Terminal where
  | text
  /-- Inside an escape sequence. -/
  | inside (sequence : EscapeSequence)
  /-- In text that interrupts an escape sequence. -/
  | interrupted (sequence : EscapeSequence)
deriving DecidableEq, Repr

namespace EscapeSequence

/-- Where a printable ASCII character leads inside a sequence. -/
def afterPrintable (s : EscapeSequence) (c : Char) : Terminal :=
  match s with
  | escape =>
    if c ≤ '/' then .inside designation
    else if c = '[' then .inside control
    else if c = ']' then .inside command
    else if c = 'P' then .inside deviceEntry
    else if c = 'X' ∨ c = '^' ∨ c = '_' then .inside string
    else .text
  | designation => if c ≤ '/' then .inside designation else .text
  | control => if c ≤ '?' then .inside control else .text
  | deviceEntry =>
    if c ≤ '/' then .inside deviceDesignation
    else if c ≤ '?' then .inside deviceParameters
    else .inside string
  | deviceParameters =>
    if c ≤ '/' then .inside deviceDesignation
    else if c ≤ ';' then .inside deviceParameters
    else .inside string
  | deviceDesignation => if c ≤ '/' then .inside deviceDesignation else .inside string
  | string => .inside string
  | command => .inside command

/-- What becomes of a control character inside a sequence: whether it is seen, and where it
leads. -/
def afterControl (s : EscapeSequence) (c : Char) : Bool × Terminal :=
  match s with
  | escape | designation | control =>
    if isBlankControl c then (true, .interrupted s) else (false, .inside s)
  | command => (false, if c = '\x07' then .text else .inside command)
  | deviceEntry | deviceParameters | deviceDesignation | string => (false, .inside s)

/-- Where a character beyond ASCII leads inside a sequence. -/
def afterWide (s : EscapeSequence) (c : Char) : Terminal :=
  if s = string ∧ (String.utf8EncodeChar c).contains 0x9C then .text else .inside s

/-- What becomes of a character inside a sequence: whether it is seen, and where it leads. -/
def step (s : EscapeSequence) (c : Char) : Bool × Terminal :=
  if c < ' ' then s.afterControl c
  else if c < '\x7F' then (false, s.afterPrintable c)
  else if c = '\x7F' then (false, .inside s)
  else (false, s.afterWide c)

end EscapeSequence

namespace Terminal

/-- What becomes of a character: whether it is seen, and where the terminal stands behind it.
The escape character begins a new sequence everywhere; cancel and substitute end any. -/
def step (t : Terminal) (c : Char) : Bool × Terminal :=
  if c = '\x1B' then (false, inside .escape)
  else if c = '\x18' ∨ c = '\x1A' then (false, text)
  else match t with
  | text => (isSeen c, text)
  | inside s => s.step c
  | interrupted s =>
    if '\x7F' < c then (true, text)
    else if isSeen c then (true, interrupted s)
    else (false, inside s)

/-- The characters that are seen. -/
def seen : Terminal → List Char → List Char
  | _, [] => []
  | t, c :: rest =>
    let (isSeen, next) := t.step c
    if isSeen then c :: seen next rest else seen next rest

end Terminal

/-- The characters of a text that are seen on a terminal. -/
def plain (text : String) : String := String.ofList (Terminal.text.seen text.toList)

end Reckoner.Text
