/-
# Bytes

Lines, expressions and files are sequences of bytes, valid UTF-8 or not.  Text is made of
them only where a message shows them.
-/

namespace Reckoner

/-- A sequence of bytes. -/
abbrev Bytes := List UInt8

namespace Bytes

/-- The line feed, which ends a line. -/
def lineFeed : UInt8 := 0x0A

/-- The carriage return, which may stand before a line feed. -/
def carriageReturn : UInt8 := 0x0D

def space : UInt8 := 0x20

/-- The equals sign between an expression and its value. -/
def equalsSign : UInt8 := 0x3D

/-- The five blanks that may surround an operator: tab, line feed, form feed, carriage return
and space.  The vertical tab is none of them. -/
def isBlank (b : UInt8) : Bool :=
  b == 0x09 || b == lineFeed || b == 0x0C || b == carriageReturn || b == space

/-- The bytes of a text in UTF-8. -/
def ofString (text : String) : Bytes := text.toUTF8.data.toList

theorem ofString_ofList (chars : List Char) :
    ofString (String.ofList chars) = chars.flatMap String.utf8EncodeChar := by
  simp [ofString, List.utf8Encode]

end Bytes
end Reckoner
