/-
  UniversalMachine.Device.Output

  Where printed bytes go. A sink takes each byte and answers whether the machine
  should carry on; asking it to stop does not undo the byte.
-/

import UniversalMachine.Text.Lines

namespace UniversalMachine

/-- A sink for printed bytes. -/
class OutputSink (σ : Type) where
  /-- Takes a byte; the answer is `false` to ask the machine to stop. -/
  emit : σ → UInt8 → Bool × σ

/-- Either of two sinks. -/
instance {α β : Type} [OutputSink α] [OutputSink β] : OutputSink (α ⊕ β) where
  emit
    | .inl a, byte => let (go, a) := OutputSink.emit a byte; (go, .inl a)
    | .inr b, byte => let (go, b) := OutputSink.emit b byte; (go, .inr b)

/-! ## Recorded output -/

/-- After which bytes a buffer asks the machine to stop. -/
inductive StopRule where
  | never
  | after (byte : UInt8)
  | always
  deriving DecidableEq, Repr

/-- Whether the rule stops the machine after a byte. -/
def StopRule.stops : StopRule → UInt8 → Bool
  | .never, _ => false
  | .after stop, byte => stop == byte
  | .always, _ => true

/-- Everything printed so far. -/
structure OutputBuffer where
  bytes : Array UInt8 := #[]
  stop : StopRule := .never
  deriving DecidableEq, Repr

namespace OutputBuffer

/-- A buffer with nothing printed that never asks to stop. -/
def empty : OutputBuffer := {}

/-- The printed bytes in order. -/
def toList (buffer : OutputBuffer) : Bytes :=
  buffer.bytes.toList

/-- How many bytes were printed. -/
def size (buffer : OutputBuffer) : Nat :=
  buffer.bytes.size

/-- Whether nothing was printed. -/
def isEmpty (buffer : OutputBuffer) : Bool :=
  buffer.bytes.isEmpty

/-- The printed text. -/
def text (buffer : OutputBuffer) : String :=
  Text.ofBytes buffer.toList

/-- The printed lines. -/
def lines (buffer : OutputBuffer) : List String :=
  Text.lines buffer.toList

/-- Forgets what was printed. -/
def clear (buffer : OutputBuffer) : OutputBuffer :=
  { buffer with bytes := #[] }

/-- Forgets all but the first `length` bytes. -/
def truncate (buffer : OutputBuffer) (length : Nat) : OutputBuffer :=
  { buffer with bytes := buffer.bytes.take length }

/-- Records a byte. -/
def emit (buffer : OutputBuffer) (byte : UInt8) : Bool × OutputBuffer :=
  (!buffer.stop.stops byte, { buffer with bytes := buffer.bytes.push byte })

@[simp]
theorem length_toList (buffer : OutputBuffer) : buffer.toList.length = buffer.size := by
  simp [toList, size]

@[simp]
theorem toList_emit (buffer : OutputBuffer) (byte : UInt8) :
    (buffer.emit byte).2.toList = buffer.toList ++ [byte] := by
  simp [emit, toList]

@[simp]
theorem toList_truncate (buffer : OutputBuffer) (length : Nat) :
    (buffer.truncate length).toList = buffer.toList.take length := by
  simp [truncate, toList]

end OutputBuffer

instance : OutputSink OutputBuffer where
  emit := OutputBuffer.emit

end UniversalMachine
