/-
  UniversalMachine.View.Escape

  Screens as text with escape sequences, the form a terminal understands.
-/

import UniversalMachine.Console.Terminal

namespace UniversalMachine

namespace Escape

/-- An escape sequence. -/
def sequence (body : String) : String :=
  "\x1b[" ++ body

/-- Clears the screen on a page of its own. -/
def enterPage : String :=
  sequence "?1049h" ++ sequence "2J"

/-- Goes back to the page before. -/
def leavePage : String :=
  sequence "?1049l"

/-- The attribute codes of a colour, after the code that says what is coloured. -/
def colorCodes (ground : String) : Option Color → String
  | none => ""
  | some .black => s!";{ground};2;0;0;0"
  | some (.rgb red green blue) => s!";{ground};2;{red};{green};{blue}"

/-- Switches to a style. -/
def switchTo (style : Style) : String :=
  let bold := if style.bold then ";1" else ""
  sequence ("0" ++ bold ++ colorCodes "38" style.foreground ++ colorCodes "48" style.background ++
    "m")

/-- Moves the cursor to a column and a row. -/
def moveTo (position : Nat × Nat) : String :=
  let column := position.1 + 1
  let row := position.2 + 1
  sequence s!"{row};{column}H"

/-- Asks where the cursor is when it is as far right and down as it can be, and puts it back. -/
def askSize : String :=
  "\x1b7" ++ moveTo (9998, 9998) ++ sequence "6n" ++ "\x1b8"

/-- A row, switching styles only where they change and passing over hidden cells. -/
def row (style : Option Style) (hidden : Nat) : Row → String
  | [] => ""
  | cell :: rest =>
    if hidden > 0 then row style (hidden - 1) rest
    else
      (if style = some cell.style then "" else switchTo cell.style) ++ cell.symbol ++
        row (some cell.style) (cell.width - 1) rest

end Escape

/-- The text that draws a screen. -/
def Screen.render (screen : Screen) : String :=
  let rows := screen.picture.zipIdx.map fun (cells, y) =>
    Escape.moveTo (0, y) ++ Escape.row none 0 cells
  String.join rows ++ Escape.switchTo {} ++ Escape.moveTo screen.cursor

end UniversalMachine
