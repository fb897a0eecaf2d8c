/-
  UniversalMachine.View.Output

  The pane with what the machine printed.
-/

import UniversalMachine.View.Scroll
import UniversalMachine.View.Theme
import UniversalMachine.View.Transcript

namespace UniversalMachine.OutputPane

/-- The offset after drawing. A pane with nothing to show leaves it alone. -/
def scrolled (view : TranscriptView) (height : Nat) (offset : Scroll) : Scroll :=
  if view.isEmpty then offset else offset.clamp view.size (Scroll.visibleRows height)

/-- The lines visible in a pane of a height, from an offset on. -/
def visibleLines (view : TranscriptView) (height : Nat) (offset : Scroll) : List String :=
  view.window (scrolled view height offset) (Scroll.visibleRows height)

/-- Draws the pane. Lines stand one column off the left edge. -/
def draw (view : TranscriptView) (focused : Bool) (offset : Scroll) (area : Area) :
    Picture → Picture :=
  let frame := Theme.pane " Output " focused
  if view.isEmpty then
    Picture.drawTextPanel frame area [[{ text := "(no output)" }]] (Theme.inColor Theme.comment)
  else
    Picture.drawListPanel frame area 1
      ((visibleLines view area.height offset).map fun line => [{ text := line }])
      (Theme.inColor Theme.text)

end UniversalMachine.OutputPane
