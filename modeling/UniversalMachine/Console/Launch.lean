/-
  UniversalMachine.Console.Launch

  The program from its command line to its exit code.

  The loops of the consoles are bounded by `rounds`, and each run of the machine by
  `patience`; a program that ends well within both never meets them.
-/

import UniversalMachine.Console.FullScreen
import UniversalMachine.Console.Options
import UniversalMachine.Console.Plain
import UniversalMachine.Image

namespace UniversalMachine.Launch

/-- Bytes the undo history may count for. -/
def historyLimit : Nat := 256 * 1024 * 1024

/-- How the program is used. -/
def usage (programName : String) : List String :=
  ["",
    s!"Usage: {programName} <program.um> [saved-state] [--output FILE] [--plain]",
    "",
    "  saved-state     resume from a file written by :save",
    "  --output FILE   write everything the program printed to FILE",
    "  --plain         use stdin/stdout instead of the full-screen console",
    "",
    "Console commands: :save FILE, :load FILE, :undo, :quit"]

/-- The code of a program that did what it was asked. -/
def success : UInt32 := 0

/-- The code of a program that did not. -/
def failure : UInt32 := 1

/-- The record of input that was not text. -/
def unreadableInput : String :=
  "Error \x7b kind: InvalidData, message: \"stream did not contain valid UTF-8\" \x7d"

variable {m : Type → Type} [Monad m] [FileSystem m] [Terminal m]

/-- Reports why the program ends and fails. -/
def fail (reason : String) : m UInt32 := do
  Terminal.report reason
  return failure

/-- Reports what the operating system refused and fails. -/
def failWith (error : IoError) : m UInt32 :=
  let record := error.diagnostic
  fail s!"Error: {record}"

/-- Writes everything the machine printed to a file, if one was asked for, and ends with
    the given code. -/
def finish (options : Options) (session : Session) (code : UInt32) : m UInt32 := do
  match options.output with
  | none => return code
  | some path =>
    let count := session.transcript.size
    match ← FileSystem.writeFile path session.transcript.toList with
    | .ok () =>
      Terminal.report s!"Wrote {count} bytes of output to {path}"
      return code
    | .error e => failWith e

/-- Runs a session on the plain console. -/
def runPlain (rounds patience : Nat) (options : Options) (session : Session) : m UInt32 := do
  match ← PlainConsole.loop patience rounds { session } with
  | some (.finished session) => finish options session success
  | some (.faulted session) => finish options session failure
  | some .unreadable => fail s!"Error: {unreadableInput}"
  | none => return failure

/-- Runs a session on the full-screen console. Without a terminal it does not start; if the
    terminal goes away, that is reported, and the session ends as it would otherwise. -/
def runFullScreen (rounds patience : Nat) (options : Options) (session : Session) : m UInt32 := do
  match ← Terminal.openScreen with
  | .error e => failWith e
  | .ok () =>
    let (lost, app) ←
      FullScreen.loop Terminal.screenSize Terminal.pollKey patience rounds (.start session)
    Terminal.closeScreen
    if let some e := lost then
      let record := e.diagnostic
      Terminal.report s!"Error: {record}"
    if let some summary := app.exitSummary? then
      Terminal.report summary
    finish options app.session (if app.succeeded then success else failure)

/-- Runs a machine on the console that was asked for. -/
def runMachine (rounds patience : Nat) (options : Options) (machine : Machine) : m UInt32 :=
  let session := Session.start machine historyLimit
  if options.plain then runPlain rounds patience options session
  else runFullScreen rounds patience options session

/-- Puts a machine into the saved state that was asked for. -/
def resume (options : Options) (machine : Machine) : m (Option Machine) := do
  match options.savedState with
  | none => return some machine
  | some path =>
    match ← Snapshot.load path with
    | .ok snapshot =>
      Terminal.report s!"Loaded saved state from {path}"
      return some (machine.restore snapshot)
    | .error e =>
      let cause := e.message
      Terminal.report s!"Failed to load saved state {path}: {cause}"
      return none

/-- Does what the options ask for. -/
def runOptions (rounds patience : Nat) (options : Options) : m UInt32 := do
  let path := options.program
  if ¬(← FileSystem.pathExists path) then
    fail s!"Error: File '{path}' not found"
  else
    Terminal.report s!"Loading program {path}..."
    match ← Image.load path with
    | .error e =>
      let cause := e.message
      fail s!"Image error: {cause}"
    | .ok program =>
      let count := program.length
      Terminal.report s!"Loaded {count} words."
      match ← resume options (Machine.ofProgram program.toArray) with
      | none => return failure
      | some machine => runMachine rounds patience options machine

/-- The whole program. -/
def run (rounds patience : Nat) (programName : String) (arguments : List String) : m UInt32 := do
  match Options.parse arguments with
  | .ok options => runOptions rounds patience options
  | .error e =>
    let cause := e.message
    Terminal.report s!"Error: {cause}"
    for line in usage programName do
      Terminal.report line
    return failure

end UniversalMachine.Launch
