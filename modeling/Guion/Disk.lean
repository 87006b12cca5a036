/-!
# Guion.Disk — files by name

Files are outside. What they hold may change at any time and a file may be there or not, so nothing
is said about them here. A disk is what an attempt to read each name gives at one moment. Names are
the system's, and so are the words of a failure.
-/

namespace Guion

/-- A failed attempt to read a file. -/
structure FileError where
  /-- What was tried on which file, and what stopped it. -/
  message : String
  /-- Whether the file is simply not there. -/
  isNotFound : Bool := false
  deriving DecidableEq, Inhabited

/-- What an attempt to read the file of a given name gives. -/
abbrev Disk (α : Type) : Type :=
  String → Except FileError α

end Guion
