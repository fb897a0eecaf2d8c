/-
  UniversalMachine.View.Display

  What a screen shows after a series of pictures.

  A display is sent only the cells in which a picture differs from the one before.
  A symbol that reaches over the cell to its right is sent alone: the hidden cell is
  not sent, and the display goes on holding what was there. Cells that such a symbol
  reached over, before or now, are sent again when they are no longer next to it.
-/

import UniversalMachine.View.Picture

namespace UniversalMachine

/-- A picture of the whole screen and where the cursor stands. -/
structure Screen where
  picture : Picture
  cursor : Nat × Nat

/-- A display that has been sent pictures. -/
structure Display where
  /-- The latest picture. -/
  latest : Picture := []
  /-- What the display holds. -/
  shown : Picture := []
  cursor : Nat × Nat := (0, 0)

namespace Display

/-- What a row of the display holds after the row `next` has taken the place of the row
    `before`. The next `stale` cells are sent even if they are equal, except for the one
    that is `hidden` by the symbol on its left. -/
def updateRow (stale : Nat) (hidden : Bool) : (next before shown : Row) → Row
  | [], _, _ => []
  | cell :: next, before, shown =>
    let old := before.headD {}
    let sent := (cell ≠ old ∨ stale > 0) ∧ ¬hidden
    (if sent then cell else shown.headD {}) ::
      updateRow (max (max cell.width old.width) stale - 1) (cell.width > 1) next before.tail
        shown.tail

/-- What the display holds after the picture `next` has taken the place of `before`. -/
def updateRows : (next before shown : Picture) → Picture
  | [], _, _ => []
  | row :: next, before, shown =>
    updateRow 0 false row (before.headD []) (shown.headD []) ::
      updateRows next before.tail shown.tail

/-- Sends a screen to the display. -/
def send (display : Display) (screen : Screen) : Display where
  latest := screen.picture
  shown := updateRows screen.picture display.latest display.shown
  cursor := screen.cursor

end Display

end UniversalMachine
