/-
  UniversalMachine.Main

  The program on a real system: files, standard streams and a terminal in `IO`.

  The full-screen console expects a terminal that passes on every key as it is
  pressed and does not echo it, and that tells on request where its cursor is. Such an
  answer tells the size of the screen, and it marks the end of what has been typed so
  far, so that looking for a key never has to wait for one.
-/

import UniversalMachine.Console.Keyboard
import UniversalMachine.Console.Launch
import UniversalMachine.View.Escape

namespace UniversalMachine.Main

/-- What a refusal of the operating system means. -/
def ofCode (code : UInt32) (description : String) : IoError :=
  if code = 2 then .notFound
  else if code = 20 then .notADirectory
  else if code = 21 then .isADirectory
  else if code = 6 then .noDevice
  else if code = 28 then .storageFull
  else if code = 36 then .nameTooLong
  else .other code.toNat description

/-- The cause of a failed file operation. -/
def ioError : IO.Error → IoError
  | .noFileOrDirectory _ code description => ofCode code description
  | .inappropriateType _ code description => ofCode code description
  | .permissionDenied _ code description => ofCode code description
  | .resourceExhausted _ code description => ofCode code description
  | .invalidArgument _ code description => ofCode code description
  | .otherError code description => ofCode code description
  | e => .other 5 (toString e)

/-- The result of an operation on a path. A path with a NUL byte is refused here. -/
def attempt {α : Type} (path : String) (operation : IO α) : IO (Except IoError α) := do
  if path.toList.contains '\x00' then
    return .error .embeddedNul
  try
    return .ok (← operation)
  catch e =>
    return .error (ioError e)

/-- What a terminal has sent. -/
structure Received where
  /-- What was typed and has not been acted on. -/
  typed : Bytes := []
  /-- The columns and rows of the screen. -/
  size : Nat × Nat := (80, 24)
  /-- Nothing more will come. -/
  ended : Bool := false

/-- Actions on a real system. -/
abbrev Live := StateT Received IO

instance : FileSystem Live where
  pathExists path := do
    match ← attempt path (IO.FS.Handle.mk path .read) with
    | .ok _ => return true
    | .error (.other _ _) => return true
    | .error e => return e = .isADirectory
  readFile path := attempt path do return (← IO.FS.readBinFile path).data.toList
  writeFile path contents := attempt path (IO.FS.writeBinFile path ⟨contents.toArray⟩)

/-- One byte of standard input; nothing at its end. -/
def readByte : IO (Option UInt8) := do
  let stdin ← IO.getStdin
  return (← stdin.read 1).data[0]?

/-- Standard input up to and including the next newline. -/
def readLine : IO Bytes := do
  let mut line := #[]
  repeat
    match ← readByte with
    | none => break
    | some byte =>
      line := line.push byte
      if byte = newline then break
  return line.toList

/-- Writes bytes to standard output at once. -/
def printNow (bytes : ByteArray) : IO Unit := do
  let stdout ← IO.getStdout
  stdout.write bytes
  stdout.flush

/-- Asks the terminal for the size of the screen, and takes in everything up to its answer.
    What stands before the answer was typed before it. -/
def consult : Live Unit := do
  printNow Escape.askSize.toUTF8
  let mut received := []
  repeat
    match ← readByte with
    | none =>
      modify ({ · with ended := true })
      break
    | some byte =>
      received := received ++ [byte]
      if let some (typed, size) := Keyboard.report? received then
        modify fun earlier => { earlier with typed := earlier.typed ++ typed, size }
        break

/-- How long a machine at rest waits for a key, in milliseconds. -/
def keyWait : UInt32 := 50

/-- The next key press among what was typed. -/
def pollKey (wait : Bool) : Live (Except IoError (Option Key)) := do
  consult
  let received ← get
  match Keyboard.next [] received.typed with
  | some (key, typed) =>
    set { received with typed }
    return .ok (some key)
  | none =>
    if received.ended then
      return .error .hangUp
    if wait then
      IO.sleep keyWait
    return .ok none

instance : Terminal Live where
  readLine := readLine
  print bytes := printNow ⟨bytes.toArray⟩
  report line := IO.eprintln line
  openScreen := do
    if ← (← IO.getStdin).isTty then
      printNow Escape.enterPage.toUTF8
      return .ok ()
    else return .error .noDevice
  screenSize := do
    consult
    return (← get).size
  display screen := printNow screen.render.toUTF8
  pollKey := pollKey
  closeScreen := printNow Escape.leavePage.toUTF8

/-- Instructions the machine completes between two pictures or two lines. -/
def patience : Nat := 1000000

/-- More rounds than any session takes. -/
def rounds : Nat := 0x4000000000000000

end UniversalMachine.Main

open UniversalMachine in
/-- Runs the program on its command line. -/
def main (arguments : List String) : IO UInt32 := do
  let programName := (← IO.appPath).fileName.getD ""
  let program : Main.Live UInt32 :=
    Launch.run Main.rounds Main.patience programName arguments
  program.run' {}
