/-
  UniversalMachine.View.Controls

  The parts of the console the user acts through: the prompt, where a line is
  typed, and the status bar, which tells how the machine is doing and what the
  keys do.
-/

import UniversalMachine.View.Theme

namespace UniversalMachine

/-! ## Prompt -/

namespace Prompt

open Theme

/-- What stands before the typed text. -/
def mark : String := "> "

/-- The end of the typed text that fits, one column being left for the cursor. -/
def shown (typed : List Char) (width : Nat) : List Char :=
  typed.drop (typed.length - (width - (2 + mark.length + 1)))

/-- Where the cursor stands: after the typed text. -/
def cursor (typed : List Char) (area : Area) : Nat × Nat :=
  (area.x + 1 + mark.length + (shown typed area.width).length, area.y + 1)

/-- Draws the prompt, which stands out while the machine waits for input. -/
def draw (typed : List Char) (waiting : Bool) (area : Area) : Picture → Picture :=
  let title := if waiting then " Input (machine is waiting) " else " Input "
  let line : StyledLine :=
    [{ text := mark, style := inColor secondary },
      { text := String.ofList (shown typed area.width), style := inColor text }]
  Picture.drawTextPanel (pane title waiting) area [line] {}

end Prompt

/-! ## Status bar -/

/-- How the machine is doing, in a word. -/
inductive Indicator where
  | running
  | input
  | halted
  | fault
  deriving DecidableEq, Repr

namespace Indicator

/-- The label of an indicator. -/
def label : Indicator → String
  | running => " ▶ RUNNING "
  | input => " ⌨ INPUT "
  | halted => " HALTED "
  | fault => " FAULT "

/-- The colour of an indicator. -/
def color : Indicator → Color
  | running => Theme.primary
  | input => Theme.secondary
  | halted => Theme.success
  | fault => Theme.error

end Indicator

namespace StatusBar

open Theme

/-- Text on the bar. -/
def onBar (color : Color) : Style :=
  { foreground := some color, background := some bar }

/-- The name of a key. -/
def keyStyle : Style :=
  { foreground := some .black, background := some comment }

/-- The left half: the indicator and the latest message. -/
def messageLine (indicator : Indicator) (message : String) : StyledLine :=
  [{ text := indicator.label,
     style := { foreground := some .black, background := some indicator.color, bold := true } },
    { text := " | ", style := onBar comment },
    { text := s!" {message} ", style := onBar (if indicator = .fault then error else text) }]

/-- The right half: the keys, and how many commands can be undone. -/
def keysLine (undoDepth : Nat) : StyledLine :=
  let entry (key description : String) : StyledLine :=
    [{ text := key, style := keyStyle }, { text := description, style := onBar text }]
  let divider : StyledLine :=
    [{ text := "│", style := onBar comment }, { text := " ", style := onBar text }]
  entry " ↵ " " send " ++ divider ++ entry " ⇥ " " focus " ++ divider ++
    entry " ↑/↓ " " scroll " ++ divider ++ entry " :undo " s!" {undoDepth} " ++ divider ++
    entry "esc" " quit "

/-- Draws the status bar in two halves. The text is in the first row; the bar's colour
    fills all of them. -/
def draw (indicator : Indicator) (message : String) (undoDepth : Nat) (area : Area)
    (picture : Picture) : Picture :=
  let base : Style := { background := some bar }
  let half := area.width / 2
  let left := { area with width := half }
  let right := area.indent half
  Picture.drawText right [keysLine undoDepth] base .right
    (Picture.drawText left [messageLine indicator message] base .left picture)

end StatusBar

end UniversalMachine
