/-!
# PadCompiler.Shell.Path

Paths, and why a file at the end of one cannot be used.

A path is cut at its slashes, several in a row counting as one.  A slash at its
end says that a directory is meant.
-/

namespace PadCompiler.Shell

/-- Why a file cannot be read or written. -/
inductive FileError where
  | missing
  | notDirectory
  | isDirectory
  | nameTooLong
  /-- Nothing may be written. -/
  | denied
  /-- Nothing more can be written. -/
  | noSpace
  /-- A device that stands for nothing. -/
  | noDevice
  /-- There is no end to what can be read. -/
  | endless
deriving DecidableEq, Repr

/-- The wording of a file error. -/
def FileError.message : FileError → String
  | .missing => "No such file or directory (os error 2)"
  | .notDirectory => "Not a directory (os error 20)"
  | .isDirectory => "Is a directory (os error 21)"
  | .nameTooLong => "File name too long (os error 36)"
  | .denied => "Permission denied (os error 13)"
  | .noSpace => "No space left on device (os error 28)"
  | .noDevice => "No such device or address (os error 6)"
  | .endless => "out of memory"

/-- A path: where it starts, the names along it, and whether a slash ends it. -/
structure Path where
  absolute : Bool
  names : List String
  slashed : Bool
deriving DecidableEq, Repr

namespace Path

/-- The most bytes that a path may have. -/
def sizeLimit : Nat :=
  4095

/-- The most bytes that one name of a path may have. -/
def nameLimit : Nat :=
  255

/-- Reads a path.  An empty one leads nowhere. -/
def parse (s : String) : Except FileError Path :=
  if s.utf8ByteSize = 0 then .error .missing
  else if sizeLimit < s.utf8ByteSize then .error .nameTooLong
  else
    .ok {
      absolute := s.toList.head? == some '/'
      names := (s.splitOn "/").filter (· ≠ "")
      slashed := s.toList.getLast? == some '/' }

/-- The names before the last, which must all lead to directories. -/
def leading (path : Path) : List String :=
  path.names.dropLast

/-- The last name.  A path without names means the directory that it starts from. -/
def last (path : Path) : String :=
  path.names.getLastD "."

end Path

end PadCompiler.Shell
