/-
  UniversalMachine.View.Theme

  The colours of the console.
-/

import UniversalMachine.View.Lettering

namespace UniversalMachine.Theme

/-- Ordinary text. -/
def text : Color := .rgb 205 214 244

/-- Blue, for quantities and a running machine. -/
def primary : Color := .rgb 137 180 250

/-- Orange, for the prompt and a waiting machine. -/
def secondary : Color := .rgb 250 179 135

/-- Grey, for labels. -/
def comment : Color := .rgb 108 112 134

/-- Green, for a program that ended. -/
def success : Color := .rgb 166 227 161

/-- Red, for faults. -/
def error : Color := .rgb 243 139 168

/-- Orange, for words. -/
def number : Color := .rgb 250 179 135

/-- Yellow, for the pane with the focus. -/
def borderFocused : Color := .rgb 249 226 175

/-- Grey, for the other panes. -/
def borderNormal : Color := .rgb 108 112 134

/-- Dark, behind the status bar. -/
def bar : Color := .rgb 50 50 70

/-- Yellow, for instructions. -/
def mnemonic : Color := .rgb 249 226 175

/-- Cyan, for handles. -/
def handle : Color := .rgb 148 226 213

/-- Text of a colour. -/
def inColor (color : Color) : Style :=
  { foreground := some color }

/-- The frame of a pane. -/
def pane (title : String) (focused : Bool) : Frame where
  title := title
  style :=
    if focused then { foreground := some borderFocused, bold := true } else inColor borderNormal

end UniversalMachine.Theme
