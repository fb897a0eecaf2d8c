/-
  UniversalMachine.Files

  Access to files: what can go wrong, and the operations a console needs from
  whatever keeps its files.
-/

import UniversalMachine.Word

namespace UniversalMachine

/-- Why a file could not be read or written. -/
inductive IoError where
  | notFound
  | notADirectory
  | isADirectory
  /-- A device is there in name only. -/
  | noDevice
  | storageFull
  /-- A path, or a name in it, has too many bytes. -/
  | nameTooLong
  /-- A path has a NUL byte in it, so the operating system was not even asked. -/
  | embeddedNul
  /-- Any other refusal of the operating system. -/
  | other (code : Nat) (description : String)
  deriving DecidableEq, Repr

namespace IoError

/-- A device has gone away while it was in use. -/
def hangUp : IoError := .other 5 "Input/output error"

/-- The operating system's number for a refusal, if it comes from there. -/
def code? : IoError → Option Nat
  | notFound => some 2
  | notADirectory => some 20
  | isADirectory => some 21
  | noDevice => some 6
  | storageFull => some 28
  | nameTooLong => some 36
  | embeddedNul => none
  | other code _ => some code

/-- A refusal in words. -/
def description : IoError → String
  | notFound => "No such file or directory"
  | notADirectory => "Not a directory"
  | isADirectory => "Is a directory"
  | noDevice => "No such device or address"
  | storageFull => "No space left on device"
  | nameTooLong => "File name too long"
  | embeddedNul => "file name contained an unexpected NUL byte"
  | other _ description => description

/-- The class a refusal is filed under in a diagnostic. -/
def category : IoError → String
  | notFound => "NotFound"
  | notADirectory => "NotADirectory"
  | isADirectory => "IsADirectory"
  | noDevice => "Uncategorized"
  | storageFull => "StorageFull"
  | nameTooLong => "InvalidFilename"
  | embeddedNul => "InvalidInput"
  | other _ _ => "Uncategorized"

/-- The wording of a refusal within a message. -/
def message (error : IoError) : String :=
  let description := error.description
  match error.code? with
  | some code => s!"{description} (os error {code})"
  | none => description

/-- The full record of a refusal that ends the program. -/
def diagnostic (error : IoError) : String :=
  let description := error.description
  let category := error.category
  match error.code? with
  | some code =>
    s!"Os \x7b code: {code}, kind: {category}, message: \"{description}\" \x7d"
  | none => s!"Error \x7b kind: {category}, message: \"{description}\" \x7d"

end IoError

/-- A monad with files in it. -/
class FileSystem (m : Type → Type) where
  /-- Whether a path names a file or a directory. -/
  pathExists : String → m Bool
  /-- The contents of a file. -/
  readFile : String → m (Except IoError Bytes)
  /-- Replaces the contents of a file, or makes it. -/
  writeFile : String → Bytes → m (Except IoError Unit)

end UniversalMachine
