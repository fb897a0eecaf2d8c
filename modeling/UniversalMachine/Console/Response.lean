/-
  UniversalMachine.Console.Response

  Carrying out console commands on a session. Both consoles act through
  `Session.perform` and differ only in how they show the response.
-/

import UniversalMachine.Console.Command
import UniversalMachine.Session

namespace UniversalMachine

/-- What came of a command. -/
inductive Response where
  /-- A line was queued, and perhaps checkpointed before. -/
  | queued (checkpoint : Except HistoryError Unit)
  | saved (path : String) (result : Except SnapshotError Unit)
  /-- A state was loaded, and perhaps the load can be undone. -/
  | loaded (path : String) (result : Except SnapshotError Bool)
  | undone (found : Bool)
  | quit

/-- The wording of a response, if the user is to be told. Each console words a missing
    checkpoint in its own way. -/
def Response.message? (checkpointWarning : String) : Response → Option String
  | .queued (.ok ()) => none
  | .queued (.error e) =>
    let cause := e.message
    some s!"{checkpointWarning}: {cause}"
  | .saved path (.ok ()) => some s!"Saved state to {path}"
  | .saved path (.error e) =>
    let cause := e.message
    some s!"Failed to save {path}: {cause}"
  | .loaded path (.ok true) => some s!"Loaded state from {path}"
  | .loaded path (.ok false) => some s!"Loaded state from {path} (undo unavailable)"
  | .loaded path (.error e) =>
    let cause := e.message
    some s!"Failed to load {path}: {cause}"
  | .undone true => some "Undid last command"
  | .undone false => some "Nothing to undo"
  | .quit => none

/-- Carries out a command. -/
def Session.perform {m : Type → Type} [Monad m] [FileSystem m] (s : Session) :
    Command → m (Response × Session)
  | .input line =>
    let (kept, s) := s.submitLine line
    return (.queued kept, s)
  | .save path => do
    let result ← s.saveState path
    return (.saved path result, s)
  | .load path => do
    let (result, s) ← s.loadState path
    return (.loaded path result, s)
  | .undo =>
    match s.undo? with
    | some s => return (.undone true, s)
    | none => return (.undone false, s)
  | .quit => return (.quit, s)

end UniversalMachine
