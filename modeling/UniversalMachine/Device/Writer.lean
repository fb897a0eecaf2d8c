/-
  UniversalMachine.Device.Writer

  Output passed on to a writer that may fail.

  Each byte is recorded first, if a record is kept, then written, and after a
  newline the writer is flushed. A failure asks the machine to stop and is kept
  until it is collected; the byte that met it counts as printed.
-/

import UniversalMachine.Device.Output

namespace UniversalMachine

/-- A device that accepts bytes one at a time. Failures are described in words. -/
class ByteWriter (ω : Type) where
  write : ω → UInt8 → Except String Unit × ω
  flush : ω → Except String Unit × ω

/-- Passes output on to a writer. -/
structure WriterSink (ω : Type) where
  writer : ω
  /-- Every byte printed so far, if a record is kept. -/
  capture : Option (Array UInt8) := none
  /-- The latest failure not yet collected. -/
  error : Option String := none

namespace WriterSink

variable {ω : Type} [ByteWriter ω]

/-- A sink that keeps a record of what it passes on. -/
def capturing (writer : ω) : WriterSink ω :=
  { writer, capture := some #[] }

/-- The record so far; empty when none is kept. -/
def captured (sink : WriterSink ω) : Bytes :=
  (sink.capture.getD #[]).toList

/-- Collects the latest failure. -/
def takeError (sink : WriterSink ω) : Option String × WriterSink ω :=
  (sink.error, { sink with error := none })

/-- Flushes the writer. -/
def flush (sink : WriterSink ω) : Except String Unit × WriterSink ω :=
  let (result, writer) := ByteWriter.flush sink.writer
  (result, { sink with writer })

/-- Writes a byte, and flushes after a newline. -/
def pass (writer : ω) (byte : UInt8) : Except String Unit × ω :=
  match ByteWriter.write writer byte with
  | (.ok (), writer) => if byte = newline then ByteWriter.flush writer else (.ok (), writer)
  | (.error e, writer) => (.error e, writer)

/-- Records a byte and passes it on. -/
def emit (sink : WriterSink ω) (byte : UInt8) : Bool × WriterSink ω :=
  let capture := sink.capture.map (·.push byte)
  match pass sink.writer byte with
  | (.ok (), writer) => (true, { sink with writer, capture })
  | (.error e, writer) => (false, { writer, capture, error := some e })

end WriterSink

instance {ω : Type} [ByteWriter ω] : OutputSink (WriterSink ω) where
  emit := WriterSink.emit

/-! ## A device of limited room -/

/-- A writer with room for a number of bytes. -/
structure LimitedWriter where
  accepted : Array UInt8 := #[]
  /-- How many more bytes fit, if bounded. -/
  room : Option Nat := none
  /-- Whether every flush fails. -/
  flushFails : Bool := false
  /-- How often a flush was asked for. -/
  flushes : Nat := 0
  deriving DecidableEq, Repr

instance : ByteWriter LimitedWriter where
  write w byte :=
    match w.room with
    | some 0 => (.error "device full", w)
    | some (room + 1) => (.ok (), { w with accepted := w.accepted.push byte, room := some room })
    | none => (.ok (), { w with accepted := w.accepted.push byte })
  flush w :=
    (if w.flushFails then .error "flush failed" else .ok (), { w with flushes := w.flushes + 1 })

end UniversalMachine
