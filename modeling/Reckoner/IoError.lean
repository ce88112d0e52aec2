/-
# Failures of the file system and of outputs
-/

namespace Reckoner

/-- Why a file or an output refused what was asked of it. -/
inductive IoError where
  | notFound
  /-- A path leads through something that is no directory. -/
  | notADirectory
  /-- A directory was asked for its content, or to be given one. -/
  | isADirectory
  | storageFull
  | nameTooLong
  | tooManyLinks
  /-- A path holds the character U+0000, so it names nothing. -/
  | nulInPath
  /-- A file without end was to be read into memory. -/
  | outOfMemory
  /-- An output takes nothing more, without saying why. -/
  | writeZero
  | other (message : String)
deriving DecidableEq, Repr

/-- What a failure tells its reader. -/
def IoError.message : IoError → String
  | notFound => "No such file or directory (os error 2)"
  | notADirectory => "Not a directory (os error 20)"
  | isADirectory => "Is a directory (os error 21)"
  | storageFull => "No space left on device (os error 28)"
  | nameTooLong => "File name too long (os error 36)"
  | tooManyLinks => "Too many levels of symbolic links (os error 40)"
  | nulInPath => "file name contained an unexpected NUL byte"
  | outOfMemory => "Cannot allocate memory (os error 12)"
  | writeZero => "failed to write whole buffer"
  | other message => message

end Reckoner
