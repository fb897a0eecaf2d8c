/-
  UniversalMachine.Console.World

  A console's surroundings as a value: files, and standard streams, one of which may
  be a terminal. What is typed on it is known in advance, and so is when: a look at the
  keyboard while the machine is at work may find a key or not, as the world says, and one
  with the machine at rest waits for the next key.
-/

import UniversalMachine.Console.StandardInput
import UniversalMachine.Files.Disk

namespace UniversalMachine

/-- Everything a console can see and change. -/
structure World where
  disk : Disk := {}
  /-- Standard input that was not read yet. -/
  input : StandardInput := {}
  /-- Everything written to standard output. -/
  output : Array UInt8 := #[]
  /-- Everything written to standard error, line by line. -/
  reports : Array String := #[]
  /-- The screen. -/
  display : Display := {}
  /-- The columns and rows of the screen. -/
  screenSize : Nat × Nat := (80, 24)
  /-- Whether a key is found by each coming look at the keyboard while the machine is at
      work. After these looks, keys come only while it rests. -/
  interruptions : List Bool := []

namespace World

/-- Standard error as text. -/
def reportText (w : World) : String :=
  String.join (w.reports.toList.map (· ++ "\n"))

/-- The next key that was typed. When there are no more, the keyboard is gone. -/
def takeKey (w : World) : Except IoError (Option Key) × World :=
  match w.input.readKey with
  | (some key, input) => (.ok (some key), { w with input })
  | (none, input) => (.error .hangUp, { w with input })

/-- A look at the keyboard, with the machine at rest if there is time to wait. -/
def look (wait : Bool) (w : World) : Except IoError (Option Key) × World :=
  if wait then w.takeKey
  else
    match w.interruptions with
    | [] => (.ok none, w)
    | found :: interruptions =>
      if found then { w with interruptions }.takeKey else (.ok none, { w with interruptions })

end World

instance : FileSystem (StateM World) where
  pathExists path := return (← get).disk.find path matches .ok _
  readFile path := return (← get).disk.read path
  writeFile path contents := do
    match (← get).disk.write path contents with
    | .ok disk => modify ({ · with disk }); return .ok ()
    | .error e => return .error e

instance : Terminal (StateM World) where
  readLine := modifyGet fun w =>
    let (line, input) := w.input.readLine
    (line, { w with input })
  print bytes := modify fun w => { w with output := w.output ++ bytes }
  report line := modify fun w => { w with reports := w.reports.push line }
  openScreen := return if (← get).input.isTerminal then .ok () else .error .noDevice
  screenSize := return (← get).screenSize
  display screen := modify fun w => { w with display := w.display.send screen }
  pollKey wait := modifyGet (World.look wait)
  closeScreen := return

end UniversalMachine
