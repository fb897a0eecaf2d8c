/-
  UniversalMachine.Files.Path

  Paths: the names to follow, where to start, and what the path may lead to.

  Names are separated by `/`, and empty names do not count. A path that begins
  with `/` starts at the root instead of the working directory, and one that ends
  in `/` can only name a directory. Lengths are counted in bytes.
-/

import UniversalMachine.Files
import UniversalMachine.Text.Lines

namespace UniversalMachine

/-- A path that can be followed. -/
structure Path where
  /-- The path starts at the root. -/
  absolute : Bool
  /-- The names to follow, one after the other. -/
  names : List String
  /-- The path can only name a directory. -/
  forDirectory : Bool
  deriving DecidableEq, Repr

namespace Path

/-- The most bytes in a path. -/
def maxLength : Nat := 4095

/-- The most bytes in a single name. -/
def maxNameLength : Nat := 255

/-- The names in a text. -/
def namesOf (text : String) : List String :=
  ((Text.pieces '/' text.toList).map String.ofList).filter (· ≠ "")

/-- Reads a path. A NUL byte is noticed first; an empty path leads nowhere. -/
def parse (text : String) : Except IoError Path :=
  if text.toList.contains '\x00' then .error .embeddedNul
  else if text = "" then .error .notFound
  else if text.utf8ByteSize > maxLength then .error .nameTooLong
  else
    .ok
      { absolute := text.toList.head? = some '/'
        names := namesOf text
        forDirectory := text.toList.getLast? = some '/' }

end Path

end UniversalMachine
