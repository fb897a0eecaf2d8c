/-
  UniversalMachine.Proofs.SessionOperations

  Sequences of session operations, as data.

  `Session.operateAll` carries out any operations one after the other, on any files,
  and collects what they answer. The file system is a parameter: its state is a value
  of some type `φ`, and reading may change it, so files may also change between two
  operations.

  All operations are put together from the six changes that `Session.Invariant` lists.
  A property that these preserve holds after every sequence of operations
  (`Invariant.operateAll`).
-/

import UniversalMachine.Session

namespace UniversalMachine

/-- What can be asked of a session. -/
inductive SessionOperation where
  | run (patience : Nat)
  | sendLine (line : String)
  | submitLine (line : String)
  | execute (patience rounds : Nat) (line : String)
  | checkpoint
  | undo
  | saveState (path : String)
  | loadState (path : String)
  | closeInput
  deriving DecidableEq, Repr

/-- What a session answers. -/
inductive SessionAnswer where
  | ran (outcome : Outcome)
  /-- The operation has no result. -/
  | done
  | checkpointed (kept : Except HistoryError Unit)
  | executed (reply : Option (Except Fault Reply))
  | undone (found : Bool)
  | saved (result : Except SnapshotError Unit)
  | loaded (result : Except SnapshotError Bool)

namespace Snapshot

variable {φ : Type} [FileSystem (StateM φ)]

/-- Saving writes the encoded state. -/
theorem run_save (s : Snapshot) (path : String) (files : φ) :
    StateT.run (s.save path : StateM φ _) files =
      let (result, files) := StateT.run (FileSystem.writeFile path s.encode : StateM φ _) files
      (result.mapError .io, files) := by
  rw [save, StateT.run_bind]
  rcases StateT.run (FileSystem.writeFile path s.encode : StateM φ _) files with ⟨_ | _, files'⟩
  · rfl
  · rfl

/-- Loading decodes what it reads. -/
theorem run_load (path : String) (files : φ) :
    StateT.run (load path : StateM φ _) files =
      let (contents, files) := StateT.run (FileSystem.readFile path : StateM φ _) files
      (contents.mapError .io >>= decode, files) := by
  rw [load, StateT.run_bind]
  rcases StateT.run (FileSystem.readFile path : StateM φ _) files with ⟨_ | _, files'⟩
  · rfl
  · rfl

end Snapshot

namespace Session

variable {φ : Type} [FileSystem (StateM φ)]

/-- Loading reads the file first, and touches the session only if that worked. -/
theorem run_loadState (s : Session) (path : String) (files : φ) :
    StateT.run (s.loadState path : StateM φ _) files =
      match StateT.run (Snapshot.load path : StateM φ _) files with
      | (.error e, files) => ((.error e, s), files)
      | (.ok snapshot, files) =>
        ((.ok (s.replaceMachine snapshot).1, (s.replaceMachine snapshot).2), files) := by
  rw [loadState, StateT.run_bind]
  rcases StateT.run (Snapshot.load path : StateM φ _) files with ⟨_ | snapshot, files'⟩
  · rfl
  · rfl

/-- Carries out an operation. -/
def operate (s : Session) (files : φ) : SessionOperation → SessionAnswer × Session × φ
  | .run patience =>
    let (outcome, s) := s.run patience
    (.ran outcome, s, files)
  | .sendLine line => (.done, s.sendLine line, files)
  | .submitLine line =>
    let (kept, s) := s.submitLine line
    (.checkpointed kept, s, files)
  | .execute patience rounds line =>
    let (reply, s) := s.execute patience rounds line
    (.executed reply, s, files)
  | .checkpoint =>
    let (kept, s) := s.tryCheckpoint
    (.checkpointed kept, s, files)
  | .undo =>
    match s.undo? with
    | some s => (.undone true, s, files)
    | none => (.undone false, s, files)
  | .saveState path =>
    let (result, files) := StateT.run (s.saveState path : StateM φ _) files
    (.saved result, s, files)
  | .loadState path =>
    let ((result, s), files) := StateT.run (s.loadState path : StateM φ _) files
    (.loaded result, s, files)
  | .closeInput => (.done, s.closeInput, files)

/-- Carries out operations one after the other. -/
def operateAll (s : Session) (files : φ) :
    List SessionOperation → List SessionAnswer × Session × φ
  | [] => ([], s, files)
  | op :: ops =>
    let (answer, s, files) := s.operate files op
    let (answers, s, files) := s.operateAll files ops
    (answer :: answers, s, files)

/-! ## What operations preserve -/

/-- What runs preserve, running until the machine settles preserves. -/
theorem settle_preserves {P : Session → Prop}
    (hrun : ∀ s patience, P s → P (s.run patience).2) {s : Session} (h : P s)
    (patience rounds : Nat) : P (s.settle patience rounds).2 := by
  induction rounds generalizing s with
  | zero => exact hrun s patience h
  | succ rounds ih =>
    have hnext := hrun s patience h
    rw [settle]
    rcases hr : s.run patience with ⟨outcome, s'⟩
    rw [hr] at hnext
    -- only the first two outcomes are resumed
    cases outcome with
    | stopRequested => exact ih hnext
    | timeExpired => exact ih hnext
    | halted => exact hnext
    | inputNeeded => exact hnext
    | fault f => exact hnext

/-- A property that every change to a session preserves. -/
structure Invariant (P : Session → Prop) : Prop where
  run {s : Session} (h : P s) (patience : Nat) : P (s.run patience).2
  setInput {s : Session} (h : P s) (input : InputQueue) : P { s with input }
  setReplyStart {s : Session} (h : P s) (replyStart : Nat) : P { s with replyStart }
  tryCheckpoint {s : Session} (h : P s) : P s.tryCheckpoint.2
  undo {s u : Session} (h : P s) (hundo : s.undo? = some u) : P u
  restore {s : Session} (h : P s) (snapshot : Snapshot) :
    P { s with
      machine := s.machine.restore snapshot
      input := s.input.clear
      lastOutcome := none }

namespace Invariant

variable {P : Session → Prop} {s : Session}

theorem settle (inv : Invariant P) (h : P s) (patience rounds : Nat) :
    P (s.settle patience rounds).2 :=
  settle_preserves (P := P) (fun _ patience ht => inv.run ht patience) h patience rounds

theorem submitLine (inv : Invariant P) (h : P s) (line : String) : P (s.submitLine line).2 :=
  inv.setInput (inv.setReplyStart (inv.tryCheckpoint h) _) _

theorem operate (inv : Invariant P) (h : P s) (files : φ) (op : SessionOperation) :
    P (s.operate files op).2.1 := by
  cases op with
  | run patience => exact inv.run h patience
  | sendLine line => exact inv.setInput h _
  | submitLine line => exact inv.submitLine h line
  | execute patience rounds line => exact inv.settle (inv.submitLine h line) patience rounds
  | checkpoint => exact inv.tryCheckpoint h
  | undo =>
    rw [Session.operate]
    cases hundo : s.undo? with
    | none => exact h
    | some u => exact inv.undo h hundo
  | saveState path => exact h
  | loadState path =>
    rw [Session.operate, run_loadState]
    rcases StateT.run (Snapshot.load path : StateM φ _) files with ⟨_ | snapshot, files'⟩
    · exact h
    · -- the machine that is replaced is checkpointed first
      exact inv.restore (inv.tryCheckpoint h) snapshot
  | closeInput => exact inv.setInput h _

theorem operateAll (inv : Invariant P) (h : P s) (files : φ) (ops : List SessionOperation) :
    P (s.operateAll files ops).2.1 := by
  induction ops generalizing s files with
  | nil => exact h
  | cons op ops ih => exact ih (inv.operate h files op) _

end Invariant

end Session

end UniversalMachine
