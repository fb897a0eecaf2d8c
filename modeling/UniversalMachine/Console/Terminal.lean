/-
  UniversalMachine.Console.Terminal

  What a console needs from the terminal it runs on.
-/

import UniversalMachine.Files
import UniversalMachine.View.Display

namespace UniversalMachine

/-- A key press. -/
inductive Key where
  | character (c : Char)
  /-- A character typed with the control key held. -/
  | control (c : Char)
  | enter
  | escape
  | tab
  | backTab
  | up
  | down
  | pageUp
  | pageDown
  | backspace
  /-- Any other key, which sends these bytes. -/
  | other (sent : Bytes)
  deriving DecidableEq, Repr

/-- A monad with a terminal in it. -/
class Terminal (m : Type → Type) where
  /-- Standard input up to and including the next newline; nothing at its end. -/
  readLine : m Bytes
  /-- Writes to standard output. -/
  print : Bytes → m Unit
  /-- Writes a line to standard error. -/
  report : String → m Unit
  /-- Gives the whole screen to a picture, which takes a terminal to do. -/
  openScreen : m (Except IoError Unit)
  /-- The columns and rows of the screen, as they are now. -/
  screenSize : m (Nat × Nat)
  /-- Shows a screen. -/
  display : Screen → m Unit
  /-- Looks for a key press: one that was made already or, if there is time to `wait`, one
      that is made within a moment. The keyboard may be gone. -/
  pollKey : (wait : Bool) → m (Except IoError (Option Key))
  /-- Gives the screen back. -/
  closeScreen : m Unit

end UniversalMachine
