/-!
# Paths

The system says in its own words, with a number, why it does not do what it is asked.

A path is a list of names with slashes between them. Slashes in a row count as one. The name of
one dot stands for the directory that it is in, that of two dots for the directory above. A
path that ends in a slash is that of a directory.
-/
namespace SchemaHighlighter

inductive SystemError where
  | missing
  | denied
  | notDirectory
  | isDirectory
  | nameTooLong
  /-- A text with a zero byte, which is not even handed to the system. -/
  | zeroByte
  deriving DecidableEq, Repr

def SystemError.message : SystemError → String
  | missing => "No such file or directory (os error 2)"
  | denied => "Permission denied (os error 13)"
  | notDirectory => "Not a directory (os error 20)"
  | isDirectory => "Is a directory (os error 21)"
  | nameTooLong => "File name too long (os error 36)"
  | zeroByte => "nul byte found in provided data"

structure Path where
  /-- Whether the path begins at the root and not in the working directory. -/
  isAbsolute : Bool
  names : List String
  endsInSlash : Bool := false
  deriving DecidableEq, Repr

namespace Path

/-- The longest path that the system takes, in bytes. -/
def longest : Nat := 4095

/-- The longest name that a directory can hold, in bytes. -/
def longestName : Nat := 255

def hasZeroByte (s : String) : Bool := s.toList.contains '\x00'

/-- Takes a path apart. The empty path leads nowhere. -/
def ofString (s : String) : Except SystemError Path :=
  if hasZeroByte s then .error .zeroByte
  else if s = "" then .error .missing
  else if longest < s.utf8ByteSize then .error .nameTooLong
  else .ok {
    isAbsolute := s.startsWith "/"
    names := (s.splitOn "/").filter (· ≠ "")
    endsInSlash := s.endsWith "/" }

end Path

end SchemaHighlighter
