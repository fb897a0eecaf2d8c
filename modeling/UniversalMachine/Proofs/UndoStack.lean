/-
  UniversalMachine.Proofs.UndoStack

  Undoing goes back to a full copy.

  The plainest session with an undo keeps, for every checkpoint, the state of the
  machine and everything that was printed until then, and undoing puts both back.
  `CopySession` is that session. The real one keeps the states in a bounded history,
  with a running account of their sizes, and only the length of the transcript beside
  each of them. `CopySession.toSession` says what it keeps for given copies, and every
  operation commutes with it (`operate_toSession`). The one thing this rests on is
  that the transcripts of the copies are nested (`Nested`): each is a beginning of
  every later one and of the present one, so its length is enough to find it again.
-/

import UniversalMachine.Proofs.Eviction
import UniversalMachine.Proofs.SessionOperations
import UniversalMachine.Proofs.Transitions

namespace UniversalMachine

/-- A session that keeps full copies. -/
structure CopySession where
  machine : Machine
  input : InputQueue
  transcript : OutputBuffer
  replyStart : Nat
  /-- The most bytes that the states of all copies may count for. -/
  limit : Nat
  /-- The state of the machine and everything printed, at each checkpoint, the oldest
      first. -/
  copies : List (Snapshot × Array UInt8)
  lastOutcome : Option Outcome

namespace CopySession

def start (machine : Machine) (limit : Nat) : CopySession where
  machine := machine
  input := .empty
  transcript := .empty
  replyStart := 0
  limit := limit
  copies := []
  lastOutcome := none

/-! ## Checkpoints -/

/-- Drops the oldest copies while they leave no room for `room` more bytes. -/
def dropOldest (limit room : Nat) :
    List (Snapshot × Array UInt8) → List (Snapshot × Array UInt8)
  | [] => []
  | oldest :: rest =>
    if History.totalSize ((oldest :: rest).map Prod.fst) + room > limit then
      dropOldest limit room rest
    else oldest :: rest

/-- Copies the state and the transcript, unless the state is larger than the limit. -/
def tryCheckpoint (a : CopySession) : Except HistoryError Unit × CopySession :=
  let state := a.machine.capture
  if state.estimatedSize > a.limit then
    (.error { size := state.estimatedSize, limit := a.limit }, a)
  else
    (.ok (),
      { a with
        copies := dropOldest a.limit state.estimatedSize a.copies ++
          [(state, a.transcript.bytes)] })

/-- Puts the newest copy back. -/
def undo? (a : CopySession) : Option CopySession :=
  match a.copies.getLast? with
  | none => none
  | some (state, printed) =>
    some
      { a with
        machine := a.machine.restore state
        input := a.input.clear
        transcript := { a.transcript with bytes := printed }
        replyStart := min a.replyStart printed.size
        copies := a.copies.dropLast
        lastOutcome := none }

/-! ## Everything else -/

def run (a : CopySession) (patience : Nat) : Outcome × CopySession :=
  let (outcome, c) :=
    Configuration.run patience
      { machine := a.machine, input := a.input, output := a.transcript }
  (outcome,
    { a with
      machine := c.machine
      input := c.input
      transcript := c.output
      lastOutcome := some outcome })

def settle (patience : Nat) : (rounds : Nat) → CopySession → Outcome × CopySession
  | 0, a => a.run patience
  | rounds + 1, a =>
    match a.run patience with
    | (.stopRequested, a) => settle patience rounds a
    | (.timeExpired, a) => settle patience rounds a
    | finished => finished

def sendLine (a : CopySession) (line : String) : CopySession :=
  { a with input := a.input.pushLine line }

def closeInput (a : CopySession) : CopySession :=
  { a with input := a.input.close }

def submitLine (a : CopySession) (line : String) : Except HistoryError Unit × CopySession :=
  let (kept, a) := a.tryCheckpoint
  (kept, { a with replyStart := a.transcript.size }.sendLine line)

def execute (a : CopySession) (patience rounds : Nat) (line : String) :
    Option (Except Fault Reply) × CopySession :=
  let (kept, a) := a.submitLine line
  let (outcome, a) := a.settle patience rounds
  let reply : Reply :=
    { outcome
      text := Text.ofBytes (a.transcript.toList.drop a.replyStart)
      undoAvailable := kept matches .ok () }
  (match outcome with
    | .inputNeeded => some (.ok reply)
    | .halted => some (.ok reply)
    | .fault f => some (.error f)
    | .stopRequested => none
    | .timeExpired => none,
    a)

def replaceMachine (a : CopySession) (snapshot : Snapshot) : Bool × CopySession :=
  let (kept, a) := a.tryCheckpoint
  (kept matches .ok (),
    { a with
      machine := a.machine.restore snapshot
      input := a.input.clear
      lastOutcome := none })

variable {φ : Type} [FileSystem (StateM φ)]

def operate (a : CopySession) (files : φ) : SessionOperation → SessionAnswer × CopySession × φ
  | .run patience =>
    let (outcome, a) := a.run patience
    (.ran outcome, a, files)
  | .sendLine line => (.done, a.sendLine line, files)
  | .submitLine line =>
    let (kept, a) := a.submitLine line
    (.checkpointed kept, a, files)
  | .execute patience rounds line =>
    let (reply, a) := a.execute patience rounds line
    (.executed reply, a, files)
  | .checkpoint =>
    let (kept, a) := a.tryCheckpoint
    (.checkpointed kept, a, files)
  | .undo =>
    match a.undo? with
    | some a => (.undone true, a, files)
    | none => (.undone false, a, files)
  | .saveState path =>
    let (result, files) := StateT.run (a.machine.capture.save path : StateM φ _) files
    (.saved result, a, files)
  | .loadState path =>
    match StateT.run (Snapshot.load path : StateM φ _) files with
    | (.error e, files) => (.loaded (.error e), a, files)
    | (.ok snapshot, files) =>
      let (undoAvailable, a) := a.replaceMachine snapshot
      (.loaded (.ok undoAvailable), a, files)
  | .closeInput => (.done, a.closeInput, files)

def operateAll (a : CopySession) (files : φ) :
    List SessionOperation → List SessionAnswer × CopySession × φ
  | [] => ([], a, files)
  | op :: ops =>
    let (answer, a, files) := a.operate files op
    let (answers, a, files) := a.operateAll files ops
    (answer :: answers, a, files)

/-! ## What a session keeps for given copies -/

omit [FileSystem (StateM φ)]

/-- The states of copies, with the account of their sizes. -/
def historyOf (limit : Nat) (copies : List (Snapshot × Array UInt8)) : History where
  limit := limit
  snapshots := copies.map Prod.fst
  usage := History.totalSize (copies.map Prod.fst)

/-- The session that keeps these copies as snapshots and marks. -/
def toSession (a : CopySession) : Session where
  machine := a.machine
  input := a.input
  transcript := a.transcript
  replyStart := a.replyStart
  history := historyOf a.limit a.copies
  marks := a.copies.map fun copy => copy.2.size
  lastOutcome := a.lastOutcome

/-- Each copy's transcript is a beginning of every later one and of the present one. -/
def Nested (a : CopySession) : Prop :=
  (a.copies.map (fun copy => copy.2.toList) ++ [a.transcript.toList]).Pairwise (· <+: ·)

theorem dropOldest_suffix (limit room : Nat) (copies : List (Snapshot × Array UInt8)) :
    dropOldest limit room copies <:+ copies := by
  induction copies with
  | nil => exact List.suffix_refl []
  | cons oldest rest ih =>
    rw [dropOldest]
    split
    · exact ih.trans (List.suffix_cons oldest rest)
    · exact List.suffix_refl _

/-- The history forgets the states of the copies that are dropped. -/
theorem evict_copies (limit room : Nat) (copies : List (Snapshot × Array UInt8)) :
    (History.evict limit room (copies.map Prod.fst) (History.totalSize (copies.map Prod.fst))).1 =
      (dropOldest limit room copies).map Prod.fst := by
  induction copies with
  | nil => rfl
  | cons oldest rest ih =>
    rw [dropOldest, List.map_cons, History.evict]
    by_cases hover : History.totalSize (oldest.1 :: rest.map Prod.fst) + room > limit
    · -- what the account loses is what the oldest copy counted for
      rw [if_pos hover, if_pos hover, History.totalSize_cons, Nat.add_sub_cancel_left]
      exact ih
    · rw [if_neg hover, if_neg hover]
      rfl

/-- Dropping from a list what a suffix of it lacks leaves the suffix. -/
theorem drop_marks {kept copies : List (Snapshot × Array UInt8)} (h : kept <:+ copies)
    (mark : Nat) :
    (copies.map (fun copy => copy.2.size) ++ [mark]).drop (copies.length - kept.length) =
      kept.map (fun copy => copy.2.size) ++ [mark] := by
  obtain ⟨dropped, rfl⟩ := h
  rw [List.map_append, List.append_assoc, List.length_append, Nat.add_sub_cancel]
  exact List.drop_left' (by rw [List.length_map])

theorem push_copies {limit : Nat} (copies : List (Snapshot × Array UInt8)) {state : Snapshot}
    (printed : Array UInt8) (hfits : ¬state.estimatedSize > limit) :
    (historyOf limit copies).push state =
      .ok (historyOf limit (dropOldest limit state.estimatedSize copies ++ [(state, printed)])) := by
  have hpush : (historyOf limit copies).push state = _ := if_neg hfits
  have haccount := History.evict_account limit state.estimatedSize (copies.map Prod.fst)
  have hevict := evict_copies limit state.estimatedSize copies
  rw [hpush]
  simp [historyOf, haccount, hevict]

theorem pop?_copies (limit : Nat) (older : List (Snapshot × Array UInt8)) (state : Snapshot)
    (printed : Array UInt8) :
    (historyOf limit (older ++ [(state, printed)])).pop? = some (state, historyOf limit older) := by
  have hlast : (historyOf limit (older ++ [(state, printed)])).snapshots =
      older.map Prod.fst ++ [state] := List.map_append
  rw [History.pop?_concat hlast]
  simp [historyOf]

@[simp]
theorem size_historyOf (limit : Nat) (copies : List (Snapshot × Array UInt8)) :
    (historyOf limit copies).size = copies.length :=
  List.length_map _

theorem tryCheckpoint_toSession (a : CopySession) :
    a.toSession.tryCheckpoint = (a.tryCheckpoint.1, a.tryCheckpoint.2.toSession) := by
  rw [Session.tryCheckpoint, Session.checkpoint, tryCheckpoint]
  by_cases hlarge : a.machine.capture.estimatedSize > a.limit
  · have hpush : a.toSession.history.push a.toSession.machine.capture =
        .error { size := a.machine.capture.estimatedSize, limit := a.limit } := if_pos hlarge
    rw [if_pos hlarge, hpush]
  · -- as many marks go as snapshots were evicted
    have hpush := push_copies a.copies a.transcript.bytes hlarge
    have hdrop := drop_marks (dropOldest_suffix a.limit a.machine.capture.estimatedSize a.copies)
      a.transcript.size
    rw [if_neg hlarge, toSession, hpush]
    simp only [toSession, size_historyOf, List.length_append, List.length_map,
      List.length_singleton, Nat.add_sub_add_right]
    rw [hdrop]
    simp [OutputBuffer.size]

/-- With nested transcripts, cutting back to a mark is putting the copy back. -/
theorem truncate_eq_of_prefix {transcript : OutputBuffer} {printed : Array UInt8}
    (h : printed.toList <+: transcript.toList) :
    transcript.truncate printed.size = { transcript with bytes := printed } := by
  rw [OutputBuffer.truncate, OutputBuffer.mk.injEq]
  refine ⟨?_, rfl⟩
  apply Array.toList_inj.1
  rw [List.prefix_iff_eq_take.1 h]
  simp [OutputBuffer.toList]

theorem undo?_toSession {a : CopySession} (h : a.Nested) :
    a.toSession.undo? = a.undo?.map toSession := by
  rcases List.eq_nil_or_concat a.copies with hnil | ⟨older, ⟨state, printed⟩, hlast⟩
  · rw [Session.undo?, History.pop?, undo?, toSession, hnil]
    rfl
  · rw [List.concat_eq_append] at hlast
    have hprefix : printed.toList <+: a.transcript.toList := by
      rw [Nested, hlast, List.pairwise_append] at h
      exact h.2.2 printed.toList (by simp) _ (List.mem_singleton_self _)
    have htruncate := truncate_eq_of_prefix hprefix
    rw [Session.undo?, undo?, toSession, hlast, pop?_copies]
    simp [htruncate, toSession, OutputBuffer.size]

theorem run_toSession (a : CopySession) (patience : Nat) :
    a.toSession.run patience = ((a.run patience).1, (a.run patience).2.toSession) := rfl

theorem settle_toSession (patience rounds : Nat) (a : CopySession) :
    a.toSession.settle patience rounds =
      ((a.settle patience rounds).1, (a.settle patience rounds).2.toSession) := by
  induction rounds generalizing a with
  | zero => exact a.run_toSession patience
  | succ rounds ih =>
    rw [Session.settle, settle, run_toSession]
    rcases a.run patience with ⟨outcome, a'⟩
    cases outcome with
    | stopRequested => exact ih a'
    | timeExpired => exact ih a'
    | halted => rfl
    | inputNeeded => rfl
    | fault f => rfl

theorem submitLine_toSession (a : CopySession) (line : String) :
    a.toSession.submitLine line = ((a.submitLine line).1, (a.submitLine line).2.toSession) := by
  rw [Session.submitLine, tryCheckpoint_toSession]
  rfl

theorem execute_toSession (a : CopySession) (patience rounds : Nat) (line : String) :
    a.toSession.execute patience rounds line =
      ((a.execute patience rounds line).1, (a.execute patience rounds line).2.toSession) := by
  rw [Session.execute, submitLine_toSession]
  dsimp only
  rw [settle_toSession]
  rfl

theorem replaceMachine_toSession (a : CopySession) (snapshot : Snapshot) :
    a.toSession.replaceMachine snapshot =
      ((a.replaceMachine snapshot).1, (a.replaceMachine snapshot).2.toSession) := by
  rw [Session.replaceMachine, tryCheckpoint_toSession]
  rfl

variable [FileSystem (StateM φ)]

/-- Every operation does to the copies what it does to what the session keeps for them. -/
theorem operate_toSession {a : CopySession} (h : a.Nested) (files : φ) (op : SessionOperation) :
    a.toSession.operate files op =
      ((a.operate files op).1, (a.operate files op).2.1.toSession, (a.operate files op).2.2) := by
  cases op with
  | run patience => rfl
  | sendLine line => rfl
  | submitLine line =>
    rw [Session.operate, submitLine_toSession]
    rfl
  | execute patience rounds line =>
    rw [Session.operate, execute_toSession]
    rfl
  | checkpoint =>
    rw [Session.operate, tryCheckpoint_toSession]
    rfl
  | undo =>
    -- the one operation that needs nested transcripts
    rw [Session.operate, undo?_toSession h, operate]
    cases a.undo? with
    | none => rfl
    | some a' => rfl
  | saveState path => rfl
  | loadState path =>
    rw [Session.operate, Session.run_loadState, operate]
    rcases StateT.run (Snapshot.load path : StateM φ _) files with ⟨_ | snapshot, files'⟩
    · rfl
    · dsimp only
      rw [replaceMachine_toSession]
  | closeInput => rfl

/-! ## The transcripts stay nested -/

omit [FileSystem (StateM φ)]

theorem nested_iff {a : CopySession} :
    a.Nested ↔
      (a.copies.map fun copy => copy.2.toList).Pairwise (· <+: ·) ∧
        ∀ copy ∈ a.copies, copy.2.toList <+: a.transcript.toList := by
  rw [Nested, List.pairwise_append]
  constructor
  · rintro ⟨hcopies, -, hnow⟩
    refine ⟨hcopies, fun copy hmem => ?_⟩
    exact hnow _ (List.mem_map_of_mem hmem) _ (List.mem_singleton_self _)
  · rintro ⟨hcopies, hnow⟩
    refine ⟨hcopies, List.pairwise_singleton _ _, ?_⟩
    intro printed hprinted now hnow'
    obtain ⟨copy, hmem, rfl⟩ := List.mem_map.1 hprinted
    rw [List.mem_singleton.1 hnow']
    exact hnow copy hmem

theorem nested_start (machine : Machine) (limit : Nat) : (start machine limit).Nested :=
  List.pairwise_singleton _ _

/-- Copies may go and bytes may be printed. -/
theorem Nested.of_sublist {a b : CopySession} (h : a.Nested) (hcopies : b.copies.Sublist a.copies)
    (hprinted : a.transcript.toList <+: b.transcript.toList) : b.Nested := by
  rw [nested_iff] at h ⊢
  refine ⟨h.1.sublist (hcopies.map _), fun copy hmem => ?_⟩
  exact (h.2 copy (hcopies.subset hmem)).trans hprinted

theorem Nested.tryCheckpoint {a : CopySession} (h : a.Nested) : a.tryCheckpoint.2.Nested := by
  rw [CopySession.tryCheckpoint]
  by_cases hlarge : a.machine.capture.estimatedSize > a.limit
  · rw [if_pos hlarge]
    exact h
  · rw [if_neg hlarge]
    have hkept := (dropOldest_suffix a.limit a.machine.capture.estimatedSize a.copies).sublist
    have hold : Nested { a with copies := dropOldest a.limit _ a.copies } :=
      h.of_sublist hkept (List.prefix_refl _)
    rw [nested_iff]
    refine ⟨?_, fun copy hmem => ?_⟩
    · -- the new copy takes the place that the present transcript had
      rw [List.map_append]
      exact hold
    · rcases List.mem_append.1 hmem with hmem | hmem
      · exact (nested_iff.1 hold).2 copy hmem
      · rw [List.mem_singleton.1 hmem]
        exact List.prefix_refl a.transcript.toList

theorem Nested.undo? {a b : CopySession} (h : a.Nested) (hundo : a.undo? = some b) :
    b.Nested := by
  rw [CopySession.undo?] at hundo
  rcases List.eq_nil_or_concat a.copies with hnil | ⟨older, ⟨state, printed⟩, hlast⟩
  · rw [hnil] at hundo
    cases hundo
  · rw [List.concat_eq_append] at hlast
    rw [hlast, List.getLast?_concat, List.dropLast_concat] at hundo
    cases hundo
    -- the transcripts that are left are the old ones without the present one
    rw [Nested, hlast, List.map_append] at h
    exact h.sublist (List.sublist_append_left _ _)

theorem Nested.run {a : CopySession} (h : a.Nested) (patience : Nat) :
    (a.run patience).2.Nested :=
  h.of_sublist (List.Sublist.refl _) (Configuration.printed_prefix_run patience
    { machine := a.machine, input := a.input, output := a.transcript })

theorem Nested.settle {a : CopySession} (h : a.Nested) (patience rounds : Nat) :
    (a.settle patience rounds).2.Nested := by
  induction rounds generalizing a with
  | zero => exact h.run patience
  | succ rounds ih =>
    have hrun := h.run patience
    rw [CopySession.settle]
    rcases hr : a.run patience with ⟨outcome, a'⟩
    rw [hr] at hrun
    cases outcome with
    | stopRequested => exact ih hrun
    | timeExpired => exact ih hrun
    | halted => exact hrun
    | inputNeeded => exact hrun
    | fault f => exact hrun

theorem Nested.submitLine {a : CopySession} (h : a.Nested) (line : String) :
    (a.submitLine line).2.Nested :=
  h.tryCheckpoint

theorem Nested.replaceMachine {a : CopySession} (h : a.Nested) (snapshot : Snapshot) :
    (a.replaceMachine snapshot).2.Nested :=
  h.tryCheckpoint

variable [FileSystem (StateM φ)]

theorem Nested.operate {a : CopySession} (h : a.Nested) (files : φ) (op : SessionOperation) :
    (a.operate files op).2.1.Nested := by
  cases op with
  | run patience => exact h.run patience
  | sendLine line => exact h
  | submitLine line => exact h.submitLine line
  | execute patience rounds line => exact (h.submitLine line).settle patience rounds
  | checkpoint => exact h.tryCheckpoint
  | undo =>
    rw [CopySession.operate]
    cases hundo : a.undo? with
    | none => exact h
    | some b => exact h.undo? hundo
  | saveState path => exact h
  | loadState path =>
    rw [CopySession.operate]
    rcases StateT.run (Snapshot.load path : StateM φ _) files with ⟨_ | snapshot, files'⟩
    · exact h
    · exact h.replaceMachine snapshot
  | closeInput => exact h

theorem Nested.operateAll {a : CopySession} (h : a.Nested) (files : φ)
    (ops : List SessionOperation) : (a.operateAll files ops).2.1.Nested := by
  induction ops generalizing a files with
  | nil => exact h
  | cons op ops ih => exact ih (h.operate files op) _

/-! ## Sequences of operations -/

theorem operateAll_toSession {a : CopySession} (h : a.Nested) (files : φ)
    (ops : List SessionOperation) :
    a.toSession.operateAll files ops =
      ((a.operateAll files ops).1, (a.operateAll files ops).2.1.toSession,
        (a.operateAll files ops).2.2) := by
  induction ops generalizing a files with
  | nil => rfl
  | cons op ops ih =>
    rw [Session.operateAll, operate_toSession h files op]
    dsimp only
    rw [ih (h.operate files op)]
    rfl

omit [FileSystem (StateM φ)] in
/-- Nested transcripts have non-decreasing lengths. -/
theorem Nested.pairwise_marks {a : CopySession} (h : a.Nested) :
    a.toSession.marks.Pairwise (· ≤ ·) := by
  have hcopies := List.pairwise_map.1 (nested_iff.1 h).1
  exact List.pairwise_map.2 (hcopies.imp fun hprefix => hprefix.length_le)

omit [FileSystem (StateM φ)] in
theorem Nested.marks_le {a : CopySession} (h : a.Nested) {mark : Nat}
    (hmark : mark ∈ a.toSession.marks) : mark ≤ a.transcript.size := by
  obtain ⟨copy, hmem, rfl⟩ := List.mem_map.1 hmark
  have hprefix := (nested_iff.1 h).2 copy hmem
  rw [← OutputBuffer.length_toList]
  exact hprefix.length_le

end CopySession

/-- Undoing refines a stack of full copies. Through every sequence of operations a session
    answers what the session of copies answers and leaves the same files, and then has the
    same machine, transcript, queued input and latest outcome. Its marks are as many as its
    snapshots, in order, and within the transcript. -/
theorem Session.undo_refines_copies {φ : Type} [FileSystem (StateM φ)] (machine : Machine)
    (limit : Nat) (files : φ) (ops : List SessionOperation) :
    let (answers, s, files₁) := (Session.start machine limit).operateAll files ops
    let (copyAnswers, a, files₂) := (CopySession.start machine limit).operateAll files ops
    (answers = copyAnswers ∧ files₁ = files₂) ∧
    (s.machine = a.machine ∧ s.transcript = a.transcript ∧ s.input = a.input ∧
      s.lastOutcome = a.lastOutcome) ∧
    (s.marks.length = s.history.size ∧ s.marks.Pairwise (· ≤ ·) ∧
      ∀ mark ∈ s.marks, mark ≤ s.transcript.size) := by
  have hstart := CopySession.nested_start machine limit
  have hnested := hstart.operateAll files ops
  have hsame : (Session.start machine limit).operateAll files ops = _ :=
    CopySession.operateAll_toSession hstart files ops
  rw [hsame]
  refine ⟨⟨rfl, rfl⟩, ⟨rfl, rfl, rfl, rfl⟩, ?_, hnested.pairwise_marks, fun _ => hnested.marks_le⟩
  simp [CopySession.toSession]

end UniversalMachine
