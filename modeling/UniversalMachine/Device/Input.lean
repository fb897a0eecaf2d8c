/-
  UniversalMachine.Device.Input

  Where input words come from. A source either yields a word or has none to give
  yet; it never waits.
-/

import UniversalMachine.Text.Lines

namespace UniversalMachine

/-- A source of input words. -/
class InputSource (ι : Type) where
  /-- The next word, if there is one yet, and the source after it was asked. -/
  next : ι → Option Word × ι

/-- Either of two sources. -/
instance {α β : Type} [InputSource α] [InputSource β] : InputSource (α ⊕ β) where
  next
    | .inl a => let (word, a) := InputSource.next a; (word, .inl a)
    | .inr b => let (word, b) := InputSource.next b; (word, .inr b)

/-! ## Queued input -/

/-- The word read at the end of input. -/
def endOfInput : Word := 0xFFFFFFFF

/-- Words waiting to be read, in order. Once it is closed and empty, a queue yields
    `endOfInput` for ever. -/
structure InputQueue where
  pending : List Word := []
  closed : Bool := false
  deriving DecidableEq, Repr

namespace InputQueue

/-- A queue with nothing in it. -/
def empty : InputQueue := {}

/-- Queues bytes. -/
def pushBytes (q : InputQueue) (bytes : Bytes) : InputQueue :=
  { q with pending := q.pending ++ bytes.map UInt8.toUInt32 }

/-- The bytes of a line, newline included. -/
def lineBytes (line : String) : Bytes :=
  Text.Utf8.encode line ++ [newline]

/-- Queues a line of text and a newline. -/
def pushLine (q : InputQueue) (line : String) : InputQueue :=
  q.pushBytes (lineBytes line)

/-- No more input will come. -/
def close (q : InputQueue) : InputQueue :=
  { q with closed := true }

/-- Forgets what has not been read. -/
def clear (q : InputQueue) : InputQueue :=
  { q with pending := [] }

/-- How many words have not been read. -/
def size (q : InputQueue) : Nat :=
  q.pending.length

/-- Whether everything queued has been read. -/
def isEmpty (q : InputQueue) : Bool :=
  q.pending.isEmpty

/-- Takes the oldest word. -/
def next (q : InputQueue) : Option Word × InputQueue :=
  match q.pending with
  | word :: rest => (some word, { q with pending := rest })
  | [] => (if q.closed then some endOfInput else none, q)

@[simp]
theorem next_of_pending {q : InputQueue} {word : Word} {rest : List Word}
    (h : q.pending = word :: rest) : q.next = (some word, { q with pending := rest }) := by
  simp [next, h]

end InputQueue

instance : InputSource InputQueue where
  next := InputQueue.next

/-! ## Scripted input -/

/-- Answers to successive requests; past the end of the script there is no input. -/
structure InputScript where
  answers : List (Option Word)
  deriving DecidableEq, Repr

instance : InputSource InputScript where
  next
    | ⟨[]⟩ => (none, ⟨[]⟩)
    | ⟨answer :: rest⟩ => (answer, ⟨rest⟩)

end UniversalMachine
