/-
  UniversalMachine.Session

  A session: a machine with queued input, a transcript of what it printed, and a
  history for undoing.

  Submitting a line first checkpoints the machine. Undoing goes back to the latest
  checkpoint and takes back what was printed since, so the transcript holds only
  output that still stands. A checkpoint is a snapshot in the history and a mark,
  the length of the transcript at that moment; marks and snapshots correspond one
  to one, and a mark is dropped together with its snapshot.
-/

import UniversalMachine.Execution
import UniversalMachine.History
import UniversalMachine.Snapshot.Codec

namespace UniversalMachine

/-- A machine with its input, its output and its past. -/
structure Session where
  machine : Machine
  input : InputQueue
  transcript : OutputBuffer
  /-- Length of the transcript when the latest line was submitted. -/
  replyStart : Nat
  history : History
  /-- Length of the transcript at each checkpoint, the oldest first. -/
  marks : List Nat
  /-- How the latest run ended, unless the machine was replaced since. -/
  lastOutcome : Option Outcome

/-- The answer to a command line. -/
structure Reply where
  /-- How the run ended. -/
  outcome : Outcome
  /-- What the machine printed. -/
  text : String
  /-- Whether the command can be undone. -/
  undoAvailable : Bool
  deriving DecidableEq

namespace Session

/-- A session about to run a machine, with a bound on the memory of its history. -/
def start (machine : Machine) (historyLimit : Nat) : Session where
  machine := machine
  input := .empty
  transcript := .empty
  replyStart := 0
  history := .empty historyLimit
  marks := []
  lastOutcome := none

/-! ## Running -/

/-- Runs the machine on the queued input. -/
def run (s : Session) (patience : Nat) : Outcome × Session :=
  let (outcome, c) :=
    Configuration.run patience
      { machine := s.machine, input := s.input, output := s.transcript }
  (outcome,
    { s with
      machine := c.machine
      input := c.input
      transcript := c.output
      lastOutcome := some outcome })

/-- Runs until the machine halts, faults or needs input, resuming it after any other
    suspension, up to `rounds` times. -/
def settle (patience : Nat) : (rounds : Nat) → Session → Outcome × Session
  | 0, s => s.run patience
  | rounds + 1, s =>
    match s.run patience with
    | (.stopRequested, s) => settle patience rounds s
    | (.timeExpired, s) => settle patience rounds s
    | finished => finished

/-! ## Input -/

/-- Whether queued input has not been read. -/
def hasPendingInput (s : Session) : Bool :=
  !s.input.isEmpty

/-- Queues a line. -/
def sendLine (s : Session) (line : String) : Session :=
  { s with input := s.input.pushLine line }

/-- No more input will come. -/
def closeInput (s : Session) : Session :=
  { s with input := s.input.close }

/-! ## Checkpoints -/

/-- Keeps the state of the machine and the length of the transcript. -/
def checkpoint (s : Session) : Except HistoryError Session :=
  match s.history.push s.machine.capture with
  | .error e => .error e
  | .ok history =>
    let marks := s.marks ++ [s.transcript.size]
    .ok { s with history, marks := marks.drop (marks.length - history.size) }

/-- The session with a checkpoint if one can be kept, and whether it was. -/
def tryCheckpoint (s : Session) : Except HistoryError Unit × Session :=
  match s.checkpoint with
  | .ok s => (.ok (), s)
  | .error e => (.error e, s)

/-- Checkpoints, then queues a line; the line is queued even if no checkpoint was kept. -/
def submitLine (s : Session) (line : String) : Except HistoryError Unit × Session :=
  let (kept, s) := s.tryCheckpoint
  (kept, { s with replyStart := s.transcript.size }.sendLine line)

/-- Goes back to the latest checkpoint, if there is one. Queued input is dropped. -/
def undo? (s : Session) : Option Session :=
  match s.history.pop? with
  | none => none
  | some (snapshot, history) =>
    let transcript :=
      match s.marks.getLast? with
      | some mark => s.transcript.truncate mark
      | none => s.transcript
    some
      { machine := s.machine.restore snapshot
        input := s.input.clear
        transcript
        replyStart := min s.replyStart transcript.size
        history
        marks := s.marks.dropLast
        lastOutcome := none }

/-! ## Replies -/

/-- What the machine has printed since the latest line was submitted. -/
def replyText (s : Session) : String :=
  Text.ofBytes (s.transcript.toList.drop s.replyStart)

/-- Submits a line and runs until the machine wants another. There is no reply when
    the machine is still computing after `rounds` resumptions. -/
def execute (s : Session) (patience rounds : Nat) (line : String) :
    Option (Except Fault Reply) × Session :=
  let (kept, s) := s.submitLine line
  let (outcome, s) := s.settle patience rounds
  let reply : Reply := { outcome, text := s.replyText, undoAvailable := kept matches .ok () }
  (match outcome with
    | .inputNeeded => some (.ok reply)
    | .halted => some (.ok reply)
    | .fault f => some (.error f)
    | .stopRequested => none
    | .timeExpired => none,
    s)

/-! ## Saved states -/

/-- Continues from a snapshot. The machine it replaces is checkpointed if possible, and
    queued input is dropped; the answer is whether the replacement can be undone. -/
def replaceMachine (s : Session) (snapshot : Snapshot) : Bool × Session :=
  let (kept, s) := s.tryCheckpoint
  (kept matches .ok (),
    { s with
      machine := s.machine.restore snapshot
      input := s.input.clear
      lastOutcome := none })

variable {m : Type → Type} [Monad m] [FileSystem m]

/-- Saves the state of the machine to a file. -/
def saveState (s : Session) (path : String) : m (Except SnapshotError Unit) :=
  s.machine.capture.save path

/-- Continues from the state saved in a file; an unusable file changes nothing. -/
def loadState (s : Session) (path : String) : m (Except SnapshotError Bool × Session) := do
  match ← Snapshot.load path with
  | .error e => return (.error e, s)
  | .ok snapshot =>
    let (undoAvailable, s) := s.replaceMachine snapshot
    return (.ok undoAvailable, s)

end Session

end UniversalMachine
