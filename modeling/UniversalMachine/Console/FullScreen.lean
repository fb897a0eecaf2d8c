/-
  UniversalMachine.Console.FullScreen

  The full-screen console: the transcript, a prompt, the registers, the heap and a
  status bar, with the machine running in slices between two pictures.

  Drawing settles the scroll offsets and brings the transcript view up to date, so
  it is a step of the console's state as well as a picture of it.
-/

import UniversalMachine.Console.Response
import UniversalMachine.Console.Terminal
import UniversalMachine.View.Controls
import UniversalMachine.View.Inspector
import UniversalMachine.View.Output

namespace UniversalMachine

/-- The pane the arrow keys act on. -/
inductive Focus where
  | terminal
  | registers
  | heap
  deriving DecidableEq, Repr

namespace Focus

/-- The pane after this one. -/
def next : Focus → Focus
  | terminal => registers
  | registers => heap
  | heap => terminal

/-- The pane before this one. -/
def previous : Focus → Focus
  | terminal => heap
  | registers => terminal
  | heap => registers

end Focus

/-- A full-screen console between two key presses. -/
structure FullScreen where
  session : Session
  focus : Focus := .terminal
  transcriptView : TranscriptView := .empty
  terminalScroll : Scroll := .toEnd
  heapScroll : Scroll := 0
  /-- The line being typed. -/
  typed : List Char := []
  quitting : Bool := false
  statusMessage : String := "Running"

namespace FullScreen

/-- A console about to run a session. -/
def start (session : Session) : FullScreen := { session }

/-! ## The machine -/

/-- Whether the machine has work to do. -/
def isRunning (app : FullScreen) : Bool :=
  match app.session.lastOutcome with
  | none => true
  | some .timeExpired => true
  | some .stopRequested => true
  | some .inputNeeded => app.session.hasPendingInput
  | some .halted => false
  | some (.fault _) => false

/-- How the machine is doing. -/
def indicator (app : FullScreen) : Indicator :=
  match app.session.lastOutcome with
  | some .halted => .halted
  | some (.fault _) => .fault
  | some .inputNeeded => if app.session.hasPendingInput then .running else .input
  | _ => .running

/-- The handle of a failed access, if the machine stopped on one. -/
def faultyHandle (app : FullScreen) : Option Handle :=
  match app.session.lastOutcome with
  | some (.fault f) => f.handle?
  | _ => none

/-- What the status bar says after a run. -/
def outcomeMessage? : Outcome → Option String
  | .halted => some "Program halted"
  | .inputNeeded => some "Waiting for input"
  | .stopRequested => none
  | .timeExpired => none
  | .fault f => some f.message

/-- Runs the machine for a slice of time. New output scrolls the terminal to its end. -/
def runSlice (patience : Nat) (app : FullScreen) : FullScreen :=
  let (outcome, session) := app.session.run patience
  { app with
    session
    terminalScroll :=
      if session.transcript.size = app.session.transcript.size then app.terminalScroll
      else .toEnd
    statusMessage := (outcomeMessage? outcome).getD app.statusMessage }

/-- Gives the machine a slice of time if it has work to do. -/
def work (patience : Nat) (app : FullScreen) : FullScreen :=
  if app.isRunning then app.runSlice patience else app

/-- How the session ended, to be told when the screen is gone. -/
def exitSummary? (app : FullScreen) : Option String :=
  match app.session.lastOutcome with
  | some .halted => some "Program halted"
  | some (.fault f) =>
    let cause := f.message
    some s!"Machine fault: {cause}"
  | _ => none

/-- Whether the session ended without a fault. -/
def succeeded (app : FullScreen) : Bool :=
  match app.session.lastOutcome with
  | some (.fault _) => false
  | _ => true

/-! ## The screen -/

/-- How a screen is divided. -/
structure Layout where
  output : Area
  prompt : Area
  registers : Area
  heap : Area
  status : Area
  deriving DecidableEq, Repr

/-- The layout of a screen of a size. The status bar is the last row; above it the left
    three fifths are the output and the prompt, the right two fifths registers and heap. -/
def layout (width height : Nat) : Layout :=
  let paneHeight := height - 1
  let leftWidth := width * 60 / 100
  let rightWidth := width - leftWidth
  let promptHeight := min 3 paneHeight
  let outputHeight := paneHeight - promptHeight
  let registersHeight := min 15 paneHeight
  let heapHeight := paneHeight - registersHeight
  { output := ⟨0, 0, leftWidth, outputHeight⟩
    prompt := ⟨0, outputHeight, leftWidth, promptHeight⟩
    registers := ⟨leftWidth, 0, rightWidth, registersHeight⟩
    heap := ⟨leftWidth, registersHeight, rightWidth, heapHeight⟩
    status := ⟨0, paneHeight, width, min 1 height⟩ }

/-- Brings the transcript view and the scroll offsets up to date with a screen size. -/
def refresh (width height : Nat) (app : FullScreen) : FullScreen :=
  let areas := layout width height
  let view := app.transcriptView.update app.session.transcript.bytes
  { app with
    transcriptView := view
    terminalScroll := OutputPane.scrolled view areas.output.height app.terminalScroll
    heapScroll :=
      Inspector.heapScrolled app.session.machine.heap app.faultyHandle areas.heap.width
        areas.heap.height app.heapScroll }

/-- The picture of a console that is up to date. -/
def picture (width height : Nat) (app : FullScreen) : Picture :=
  let areas := layout width height
  let machine := app.session.machine
  let panes : List (Picture → Picture) :=
    [OutputPane.draw app.transcriptView (app.focus = .terminal) app.terminalScroll areas.output,
      Prompt.draw app.typed (app.indicator = .input) areas.prompt,
      Inspector.drawRegisters machine (app.focus = .registers) areas.registers,
      Inspector.drawHeap machine.heap app.faultyHandle (app.focus = .heap) app.heapScroll
        areas.heap,
      StatusBar.draw app.indicator app.statusMessage app.session.history.size areas.status]
  panes.foldl (fun picture draw => draw picture) (Picture.blank width height)

/-- The screen of a console that is up to date. -/
def screen (width height : Nat) (app : FullScreen) : Screen where
  picture := app.picture width height
  cursor := Prompt.cursor app.typed (layout width height).prompt

/-! ## Key presses -/

/-- Rows moved by the page keys. -/
def pageRows : Nat := 10

/-- Scrolls the pane with the focus; the register pane does not scroll. -/
def scroll (move : Scroll → Scroll) (app : FullScreen) : FullScreen :=
  match app.focus with
  | .terminal => { app with terminalScroll := move app.terminalScroll }
  | .heap => { app with heapScroll := move app.heapScroll }
  | .registers => app

/-- How this console warns of a missing checkpoint. -/
def checkpointWarning : String := "Undo unavailable"

/-- Why a line of input is of no use now, if it is not. -/
def inputRefusal? (app : FullScreen) : Option String :=
  match app.session.lastOutcome with
  | some .halted => some "Program has halted; input ignored"
  | some (.fault _) => some "Machine faulted; try :undo or :load"
  | _ => none

/-- Takes note of what came of a command. -/
def acknowledge (app : FullScreen) (response : Response) : FullScreen :=
  let app :=
    { app with statusMessage := (response.message? checkpointWarning).getD app.statusMessage }
  match response with
  | .queued _ => { app with terminalScroll := .toEnd }
  | .saved _ _ => app
  | .loaded _ (.ok _) => { app with heapScroll := 0 }
  | .loaded _ (.error _) => app
  | .undone true => { app with transcriptView := .empty, terminalScroll := .toEnd }
  | .undone false => app
  | .quit => { app with quitting := true }

variable {m : Type → Type} [Monad m] [FileSystem m]

/-- Carries out a command on the session. -/
def perform (app : FullScreen) (command : Command) : m FullScreen := do
  let (response, session) ← app.session.perform command
  return { app with session }.acknowledge response

/-- Acts on a submitted line. -/
def submit (app : FullScreen) (line : String) : m FullScreen := do
  match Command.parse line with
  | .error e => return { app with statusMessage := e.message }
  | .ok (.input text) =>
    match app.inputRefusal? with
    | some reason => return { app with statusMessage := reason }
    | none => app.perform (.input text)
  | .ok command => app.perform command

/-- Acts on a key press. -/
def press (app : FullScreen) : Key → m FullScreen
  | .escape => return { app with quitting := true }
  | .control 'c' => return { app with quitting := true }
  | .tab => return { app with focus := app.focus.next }
  | .backTab => return { app with focus := app.focus.previous }
  | .up => return app.scroll (·.up 1)
  | .down => return app.scroll (·.down 1)
  | .pageUp => return app.scroll (·.up pageRows)
  | .pageDown => return app.scroll (·.down pageRows)
  | .enter => { app with typed := [] }.submit (String.ofList app.typed)
  | .backspace => return { app with typed := app.typed.dropLast }
  | .character c => return { app with typed := app.typed ++ [c] }
  | .control c => return { app with typed := app.typed ++ [c] }
  | .other _ => return app

/-! ## The loop

The loop asks its surroundings two things: for the size of the screen before each picture,
and for a key after each slice of time. -/

variable [Terminal m] (size : m (Nat × Nat)) (poll : Bool → m (Except IoError (Option Key)))

/-- Brings a console up to date and shows it. -/
def draw (app : FullScreen) : m FullScreen := do
  let (width, height) ← size
  let app := app.refresh width height
  Terminal.display (app.screen width height)
  return app

/-- Lets the machine work, and acts on a key press if there is one. Only a machine that has
    had nothing to do leaves time to wait for it. -/
def turn (patience : Nat) (app : FullScreen) : m (Option IoError × FullScreen) := do
  let worked := app.work patience
  match ← poll !app.isRunning with
  | .ok (some key) => return (none, ← worked.press key)
  | .ok none => return (none, worked)
  | .error e => return (some e, worked)

/-- Draws and takes a turn until the console is left, the keyboard is gone or `rounds` are
    over. -/
def loop (patience : Nat) : (rounds : Nat) → FullScreen → m (Option IoError × FullScreen)
  | 0, app => return (none, app)
  | rounds + 1, app => do
    let app ← app.draw size
    if app.quitting then return (none, app)
    else
      match ← app.turn poll patience with
      | (none, app) => loop patience rounds app
      | (some e, app) => return (some e, app)

/-- The loop on a screen of a fixed size with nobody at the keyboard, which is given up as
    soon as the machine rests. -/
def settle (width height patience rounds : Nat) (app : FullScreen) : m FullScreen := do
  let unattended (wait : Bool) : m (Except IoError (Option Key)) :=
    return if wait then .error .noDevice else .ok none
  let (_, app) ← app.loop (return (width, height)) unattended patience rounds
  return app

end FullScreen

end UniversalMachine
