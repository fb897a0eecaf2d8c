/-
  UniversalMachine.Image

  Program images: the words of a program as bytes, four to a word.
-/

import UniversalMachine.Files

namespace UniversalMachine

/-- Why a program image could not be used. -/
inductive ImageError where
  | trailingBytes (length : Nat)
  | io (error : IoError)
  deriving DecidableEq, Repr

/-- The wording of an unusable image. -/
def ImageError.message : ImageError → String
  | .trailingBytes length =>
    s!"Program image is {length} bytes, which is not a multiple of 4"
  | .io error =>
    let cause := error.message
    s!"Failed to read program image: {cause}"

namespace Image

/-- The program in an image, if the image is a whole number of words. -/
def parse (bytes : Bytes) : Except ImageError (List Word) :=
  if bytes.length % 4 = 0 then .ok (Word.listOfBytes bytes)
  else .error (.trailingBytes bytes.length)

/-- The image of a program. -/
def ofProgram (program : List Word) : Bytes :=
  Word.listToBytes program

/-- Reads the program stored in a file. -/
def load {m : Type → Type} [Monad m] [FileSystem m] (path : String) :
    m (Except ImageError (List Word)) := do
  match ← FileSystem.readFile path with
  | .ok bytes => return parse bytes
  | .error e => return .error (.io e)

end Image

end UniversalMachine
