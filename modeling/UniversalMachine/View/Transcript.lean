/-
  UniversalMachine.View.Transcript

  The transcript as lines, kept up to date as bytes arrive.

  Only bytes that were not there at the last update are read. A line is decoded
  when its newline arrives; the bytes after the last newline are kept as they are
  and decoded when shown. After every update the lines are those of the whole
  transcript, provided that it only grew since the view was last cleared or was
  cut to less than the view had seen.
-/

import UniversalMachine.Text.Lines

namespace UniversalMachine

/-- The lines of a transcript read so far. -/
structure TranscriptView where
  /-- The lines that have ended. -/
  finished : Array String := #[]
  /-- The bytes of the line that has not. -/
  unfinished : Array UInt8 := #[]
  /-- How many bytes of the transcript were read. -/
  consumed : Nat := 0
  deriving DecidableEq, Repr

namespace TranscriptView

/-- A view that has read nothing. -/
def empty : TranscriptView := {}

/-- Reads one more byte. -/
def feed (view : TranscriptView) (byte : UInt8) : TranscriptView :=
  if byte = newline then
    { finished := view.finished.push (Text.ofBytes view.unfinished.toList)
      unfinished := #[]
      consumed := view.consumed + 1 }
  else
    { view with unfinished := view.unfinished.push byte, consumed := view.consumed + 1 }

/-- Catches up with the transcript. If it is shorter than what was read, it was cut,
    and reading starts over. -/
def update (view : TranscriptView) (transcript : Array UInt8) : TranscriptView :=
  let view := if transcript.size < view.consumed then empty else view
  (transcript.extract view.consumed).foldl feed view

/-- The unfinished line, if it has begun. -/
def lastLine (view : TranscriptView) : List String :=
  if view.unfinished.isEmpty then [] else [Text.ofBytes view.unfinished.toList]

/-- All lines. -/
def lines (view : TranscriptView) : List String :=
  view.finished.toList ++ view.lastLine

/-- The number of lines. -/
def size (view : TranscriptView) : Nat :=
  view.finished.size + view.lastLine.length

/-- Whether there is no line. -/
def isEmpty (view : TranscriptView) : Bool :=
  view.size = 0

/-- Up to `count` lines, after the first `skipped`. -/
def window (view : TranscriptView) (skipped count : Nat) : List String :=
  (view.lines.drop skipped).take count

end TranscriptView

end UniversalMachine
