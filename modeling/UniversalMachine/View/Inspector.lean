/-
  UniversalMachine.View.Inspector

  The panes that show the inside of the machine: its registers and its heap.
-/

import UniversalMachine.Machine
import UniversalMachine.View.Scroll
import UniversalMachine.View.Theme

namespace UniversalMachine

/-- An instruction in words. -/
def Instruction.describe : Instruction → String
  | .orthography a value =>
    let name := Opcode.orthography.mnemonic
    s!"{name} r{a} <- {value}"
  | .standard code a b c =>
    match Opcode.ofNat? code with
    | some op =>
      let name := op.mnemonic
      s!"{name} a=r{a} b=r{b} c=r{c}"
    | none => s!"invalid opcode {code}"

namespace Inspector

open Theme

/-- A word in hexadecimal. -/
def wordSpan (w : Word) : Span :=
  { text := Text.hex8 w, style := inColor number }

/-- A label. -/
def label (text : String) : Span :=
  { text, style := inColor comment }

/-! ## Registers -/

/-- The line for the instruction at the pointer. -/
def instructionSpan (m : Machine) : Span :=
  match m.currentInstruction with
  | some instruction =>
    { text := instruction.describe, style := { foreground := some mnemonic, bold := true } }
  | none => { text := "(past end of program)", style := inColor error }

/-- The line for one register. -/
def registerLine (m : Machine) (r : Selector) : StyledLine :=
  let value := m.reg r
  [label s!"r{r}  ", wordSpan value, { text := s!"  {value}", style := inColor text }]

/-- The instruction pointer, the instruction, the registers and the cycles. -/
def registerLines (m : Machine) : List StyledLine :=
  let ip := m.ip
  let cycles := m.cycles
  [[label "ip  ", wordSpan ip, label s!"  {ip}"], [label "op  ", instructionSpan m], []] ++
    (List.finRange 8).map (registerLine m) ++
    [[], [label "cycles ", { text := s!"{cycles}", style := inColor primary }]]

/-- Draws the register pane. -/
def drawRegisters (m : Machine) (focused : Bool) (area : Area) : Picture → Picture :=
  Picture.drawTextPanel (pane " Registers " focused) area (registerLines m) {}

/-! ## Heap -/

/-- How many words of an array are shown. -/
def previewWords : Nat := 16

/-- How many words fit on a line of a pane: nine columns each, after an indentation of two
    and inside the frame. -/
def wordsPerLine (width : Nat) : Nat :=
  max ((width - 4) / 9) 1

/-- Rows of up to `length` words. -/
def chunks (length : Nat) (ws : List Word) : List (List Word) :=
  (List.range ((ws.length + length - 1) / length)).map fun row =>
    (ws.drop (row * length)).take length

/-- The handle and the length of an array; the handle of a fault stands out. -/
def headerLine (handle : Handle) (length : Nat) (faulty : Option Handle) : StyledLine :=
  let style :=
    if faulty = some handle then { foreground := some error, bold := true }
    else inColor Theme.handle
  [{ text := s!"#{handle}", style }, { text := " | " },
    { text := s!"{length} words", style := inColor primary }] ++
    if handle = 0 then [label "  (program)"] else []

/-- The lines for one array: header, first words, and how many more there are. -/
def arrayLines (width : Nat) (faulty : Option Handle) (handle : Handle) (array : Array Word) :
    List StyledLine :=
  let more := array.size - previewWords
  let row (ws : List Word) : StyledLine :=
    { text := "  " } :: ws.flatMap fun w => [wordSpan w, { text := " " }]
  [headerLine handle array.size faulty] ++
    (chunks (wordsPerLine width) (array.take previewWords).toList).map row ++
    if more > 0 then [[label s!"  ... {more} more"]] else []

/-- The lines for all arrays in the order of their handles. -/
def heapLines (heap : Heap) (width : Nat) (faulty : Option Handle) : List StyledLine :=
  heap.arrays.toList.flatMap fun (handle, array) => arrayLines width faulty handle array

/-- The offset of the heap pane after drawing. -/
def heapScrolled (heap : Heap) (faulty : Option Handle) (width height : Nat) (offset : Scroll) :
    Scroll :=
  offset.clamp (heapLines heap width faulty).length (Scroll.visibleRows height)

/-- Draws the heap pane from an offset on. -/
def drawHeap (heap : Heap) (faulty : Option Handle) (focused : Bool) (offset : Scroll)
    (area : Area) : Picture → Picture :=
  let arrays := heap.size
  let words := heap.totalWords
  let lines := heapLines heap area.width faulty
  let offset := heapScrolled heap faulty area.width area.height offset
  Picture.drawListPanel (pane s!" Heap: {arrays} arrays, {words} words " focused) area 0
    (lines.drop offset) {}

end Inspector

end UniversalMachine
