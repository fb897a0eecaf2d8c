/-
  UniversalMachine.Console.Plain

  The line-oriented console on standard input and standard output.

  Each turn runs the machine, prints what it added to the transcript, and, if the
  machine wants input, reads a line. What was printed stays printed when a command
  is undone, so `echoed` is the length the transcript had when it was last printed,
  and a shorter transcript has nothing new to print.
-/

import UniversalMachine.Console.Response
import UniversalMachine.Console.Terminal

namespace UniversalMachine

/-- A plain console between two turns. -/
structure PlainConsole where
  session : Session
  /-- Length of the transcript when it was last printed. -/
  echoed : Nat := 0

/-- Why a plain console ended. -/
inductive PlainEnding where
  /-- The program halted or the user left. -/
  | finished (session : Session)
  | faulted (session : Session)
  /-- A line of input was not text. -/
  | unreadable

namespace PlainConsole

/-- How this console warns of a missing checkpoint. -/
def checkpointWarning : String := "Warning: undo unavailable"

/-- The bytes of the transcript that were not printed yet. -/
def unprinted (c : PlainConsole) : Bytes :=
  c.session.transcript.toList.drop c.echoed

/-- The text of an input line without the line ending. -/
def withoutLineEnding (line : List Char) : List Char :=
  (line.reverse.dropWhile fun c => c = '\n' || c = '\r').reverse

variable {m : Type → Type} [Monad m] [FileSystem m] [Terminal m]

/-- Prints what is new in the transcript. -/
def echo (c : PlainConsole) : m PlainConsole := do
  Terminal.print c.unprinted
  return { c with echoed := c.session.transcript.size }

/-- Acts on a line of text. -/
def obey (c : PlainConsole) (line : String) : m (PlainConsole ⊕ PlainEnding) := do
  match Command.parse line with
  | .error e =>
    Terminal.report e.message
    return .inl c
  | .ok command =>
    let (response, session) ← c.session.perform command
    if let some message := response.message? checkpointWarning then
      Terminal.report message
    match response with
    | .quit => return .inr (.finished session)
    | _ => return .inl { c with session }

/-- Reads a line and acts on it; at the end of input the machine's input is closed. -/
def readAndObey (c : PlainConsole) : m (PlainConsole ⊕ PlainEnding) := do
  let bytes ← Terminal.readLine
  if bytes.isEmpty then
    return .inl { c with session := c.session.closeInput }
  else
    match Text.Utf8.decode? bytes with
    | none => return .inr .unreadable
    | some line => c.obey (String.ofList (withoutLineEnding line))

/-- One turn of the console. -/
def turn (patience : Nat) (c : PlainConsole) : m (PlainConsole ⊕ PlainEnding) := do
  let (outcome, session) := c.session.run patience
  let c ← echo { c with session }
  match outcome with
  | .halted => return .inr (.finished c.session)
  | .stopRequested => return .inl c
  | .timeExpired => return .inl c
  | .inputNeeded => c.readAndObey
  | .fault f =>
    let cause := f.message
    Terminal.report s!"Machine fault: {cause}"
    return .inr (.faulted c.session)

/-- Takes turns until the console ends, but no more than `rounds`. -/
def loop (patience : Nat) : (rounds : Nat) → PlainConsole → m (Option PlainEnding)
  | 0, _ => return none
  | rounds + 1, c => do
    match ← c.turn patience with
    | .inl c => loop patience rounds c
    | .inr ending => return some ending

end PlainConsole

end UniversalMachine
