/-
  UniversalMachine.View.Scroll

  Scrolling through more rows than fit into a pane.
-/

namespace UniversalMachine

/-- How many rows lie above the first visible one. -/
abbrev Scroll := Nat

namespace Scroll

/-- The greatest offset there is. It stands for the end, however long the content grows. -/
def toEnd : Scroll := 0xFFFFFFFFFFFFFFFF

/-- Moves up by some rows, no further than the start. -/
def up (offset : Scroll) (rows : Nat) : Scroll :=
  offset - rows

/-- Moves down by some rows; offsets go no further than `toEnd`. -/
def down (offset : Scroll) (rows : Nat) : Scroll :=
  min (offset + rows) toEnd

/-- The offset that keeps the last page full: content that fits is not scrolled. -/
def clamp (offset : Scroll) (total visible : Nat) : Scroll :=
  if total > visible then min offset (total - visible) else 0

/-- The rows visible in a framed pane of a height. Even the smallest pane counts as one. -/
def visibleRows (height : Nat) : Nat :=
  max (height - 2) 1

end Scroll

end UniversalMachine
