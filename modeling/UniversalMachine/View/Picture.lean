/-
  UniversalMachine.View.Picture

  Pictures made of styled characters, and painting on them.

  A picture is painted with strokes, one for each cell they fall on. A stroke may
  change the symbol of a cell, its style, or both; what falls outside the picture is
  lost.
-/

namespace UniversalMachine

/-! ## Cells -/

/-- A colour; text without one has the terminal's own. -/
inductive Color where
  | black
  | rgb (red green blue : UInt8)
  deriving DecidableEq, Repr

/-- How a character is drawn. -/
structure Style where
  foreground : Option Color := none
  background : Option Color := none
  bold : Bool := false
  deriving DecidableEq, Repr

/-- Draws in one style over another: what the upper one leaves open shows the lower. -/
def Style.over (upper lower : Style) : Style where
  foreground := upper.foreground <|> lower.foreground
  background := upper.background <|> lower.background
  bold := upper.bold || lower.bold

/-- One cell of a picture. Its symbol may reach over the cells to its right, which are
    then hidden. -/
structure Cell where
  symbol : String := " "
  style : Style := {}
  deriving DecidableEq, Repr

/-- How many cells a symbol takes up. -/
def Cell.width (cell : Cell) : Nat :=
  cell.symbol.length

/-- One row of a picture, left to right. -/
abbrev Row := List Cell

/-- Rows of equal length, top to bottom. -/
abbrev Picture := List Row

/-! ## Areas -/

/-- A rectangle of cells. -/
structure Area where
  x : Nat
  y : Nat
  width : Nat
  height : Nat
  deriving DecidableEq, Repr

namespace Area

/-- The part of an area that lies on a screen of a size. -/
def clip (area : Area) (width height : Nat) : Area :=
  { area with
    width := min (area.x + area.width) width - area.x
    height := min (area.y + area.height) height - area.y }

/-- What a border leaves of an area. -/
def inner (area : Area) : Area where
  x := area.x + 1
  y := area.y + 1
  width := area.width - 2
  height := area.height - 2

/-- The area without some columns on the left. -/
def indent (area : Area) (columns : Nat) : Area :=
  { area with x := area.x + columns, width := area.width - columns }

end Area

/-! ## Strokes -/

/-- What painting does to a cell. -/
inductive Stroke where
  /-- The symbol stays, the style is drawn over. -/
  | restyle (style : Style)
  /-- The symbol is replaced, the style is drawn over. -/
  | write (symbol : String) (style : Style)
  /-- The cell becomes blank. -/
  | erase
  deriving DecidableEq, Repr

namespace Stroke

/-- Leaves a cell as it is. -/
def keep : Stroke := .restyle {}

/-- The cell after a stroke. -/
def apply : Stroke → Cell → Cell
  | .restyle style, cell => { cell with style := style.over cell.style }
  | .write symbol style, cell => { symbol, style := style.over cell.style }
  | .erase, _ => {}

end Stroke

/-- The row after some strokes that begin at column `x`. -/
def Row.paint : (x : Nat) → List Stroke → Row → Row
  | _, [], row => row
  | _, _ :: _, [] => []
  | 0, stroke :: strokes, cell :: row => stroke.apply cell :: Row.paint 0 strokes row
  | x + 1, stroke :: strokes, cell :: row => cell :: Row.paint x (stroke :: strokes) row

/-- Painting keeps the length of a row. -/
@[simp]
theorem Row.length_paint (x : Nat) (strokes : List Stroke) (row : Row) :
    (Row.paint x strokes row).length = row.length := by
  fun_induction Row.paint x strokes row <;> simp_all

namespace Picture

/-- A blank picture. -/
def blank (width height : Nat) : Picture :=
  List.replicate height (List.replicate width {})

/-- The number of columns. -/
def width (picture : Picture) : Nat :=
  (picture.head?.map List.length).getD 0

/-- The number of rows. -/
def height (picture : Picture) : Nat :=
  picture.length

/-- The picture after rows of strokes whose upper left corner is at (`x`, `y`). -/
def paint (x : Nat) : (y : Nat) → List (List Stroke) → Picture → Picture
  | _, [], picture => picture
  | _, _ :: _, [] => []
  | 0, strokes :: rest, row :: picture => Row.paint x strokes row :: paint x 0 rest picture
  | y + 1, strokes :: rest, row :: picture => row :: paint x y (strokes :: rest) picture

/-- The part of an area that lies on the picture. -/
def visible (picture : Picture) (area : Area) : Area :=
  area.clip picture.width picture.height

/-- Draws a style over an area. -/
def restyle (picture : Picture) (area : Area) (style : Style) : Picture :=
  paint area.x area.y
    (List.replicate area.height (List.replicate area.width (.restyle style))) picture

end Picture

end UniversalMachine
