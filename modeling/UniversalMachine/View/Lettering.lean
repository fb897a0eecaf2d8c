/-
  UniversalMachine.View.Lettering

  Styled text on a picture: lines, frames, and the two ways a pane is filled.

  A text panel is cut to the screen first and framed then, so that its text always
  lies inside its frame. A list panel is framed on the screen too, but its rows lie
  where the whole panel would have them, and may cross a frame that was cut.
-/

import UniversalMachine.Text.Cluster
import UniversalMachine.View.Picture

namespace UniversalMachine

/-! ## Lines -/

/-- A piece of text in one style. -/
structure Span where
  text : String
  style : Style := {}
  deriving DecidableEq, Repr

/-- Text of several styles on one line. -/
abbrev StyledLine := List Span

/-- A cluster of characters in one style. -/
structure Glyph where
  symbol : String
  style : Style
  deriving DecidableEq, Repr

namespace Glyph

/-- The columns a glyph takes up. -/
def width (glyph : Glyph) : Nat :=
  glyph.symbol.length

/-- The glyphs up to the first that reaches beyond a width. -/
def takeFitting (width : Nat) : List Glyph → List Glyph
  | [] => []
  | glyph :: rest =>
    if glyph.width ≤ width then glyph :: takeFitting (width - glyph.width) rest else []

/-- The strokes that write a glyph; `hidden` is done to the cells it reaches over. -/
def strokes (hidden : Stroke) (glyph : Glyph) : List Stroke :=
  .write glyph.symbol glyph.style :: List.replicate (glyph.width - 1) hidden

end Glyph

namespace StyledLine

/-- The glyphs of a line. A cluster does not go on from one span to the next. -/
def glyphs (line : StyledLine) : List Glyph :=
  line.flatMap fun span =>
    (Text.clusters span.text.toList).map fun symbol =>
      { symbol := String.ofList symbol, style := span.style }

/-- Where a line stands. -/
inductive Alignment where
  | left
  | right
  deriving DecidableEq, Repr

/-- The strokes of a line in a text panel. The line is cut on the right, and glyphs wider
    than the panel are left out. -/
def textStrokes (alignment : Alignment) (width : Nat) (line : StyledLine) : List Stroke :=
  let glyphs := Glyph.takeFitting width (line.glyphs.filter (·.width ≤ width))
  let strokes := glyphs.flatMap (Glyph.strokes .keep)
  match alignment with
  | .left => strokes
  | .right => List.replicate (width - strokes.length) .keep ++ strokes

/-- The strokes of a line in a list panel. The line is cut on the right, and the cells that
    a glyph hides are blank. -/
def rowStrokes (width : Nat) (line : StyledLine) : List Stroke :=
  (Glyph.takeFitting width line.glyphs).flatMap (Glyph.strokes .erase)

end StyledLine

/-! ## Frames -/

/-- The border of a panel. -/
structure Frame where
  title : String
  style : Style

namespace Frame

/-- The strokes of a row of a frame: two ends, and what lies between them. -/
def row (frame : Frame) (width : Nat) (left right : String) (middle : List Stroke) :
    List Stroke :=
  (Stroke.write left frame.style :: middle ++ [Stroke.write right frame.style]).take width

/-- The top edge with the title on it, which is cut where the corner begins. -/
def topEdge (frame : Frame) (width : Nat) : List Stroke :=
  let title := (frame.title.toList.take width).map fun c => Stroke.write c.toString frame.style
  title ++ List.replicate (width - title.length) (.write "─" frame.style)

/-- Draws a frame around an area. -/
def draw (frame : Frame) (area : Area) (picture : Picture) : Picture :=
  let width := area.inner.width
  let top := frame.row area.width "┌" "┐" (frame.topEdge width)
  let side := frame.row area.width "│" "│" (List.replicate width .keep)
  let bottom :=
    frame.row area.width "└" "┘" (List.replicate width (.write "─" frame.style))
  let rows := top :: List.replicate area.inner.height side ++ [bottom]
  Picture.paint area.x area.y (rows.take area.height) picture

end Frame

/-! ## Panels -/

namespace Picture

/-- Draws a text panel without a frame. -/
def drawText (area : Area) (lines : List StyledLine) (base : Style)
    (alignment : StyledLine.Alignment) (picture : Picture) : Picture :=
  let shown := picture.visible area
  paint shown.x shown.y
    ((lines.take shown.height).map (StyledLine.textStrokes alignment shown.width))
    (picture.restyle shown base)

/-- Draws a text panel in a frame. -/
def drawTextPanel (frame : Frame) (area : Area) (lines : List StyledLine) (base : Style)
    (picture : Picture) : Picture :=
  let shown := picture.visible area
  drawText shown.inner lines base .left (frame.draw shown (picture.restyle shown base))

/-- Draws a list panel in a frame, its rows `indent` columns off the left edge and in a
    style of their own. -/
def drawListPanel (frame : Frame) (area : Area) (indent : Nat) (lines : List StyledLine)
    (style : Style) (picture : Picture) : Picture :=
  let inner := area.inner.indent indent
  let lines := lines.take inner.height
  let rows : Area := { inner with height := lines.length }
  let width := (picture.visible inner).width
  paint inner.x inner.y (lines.map (StyledLine.rowStrokes width))
    ((frame.draw (picture.visible area) picture).restyle rows style)

end Picture

end UniversalMachine
