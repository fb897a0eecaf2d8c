/-
  UniversalMachine.Proofs.UndoneState

  Which state undoing leads to.

  The copies that a session keeps for undoing are of states it has gone through: each was
  made before one of the operations, and they stand in the order of these
  (`CopySession.exists_positions`). Undoing goes back to the last of them. What the
  machine has then is that state in normal form (`Session.GoesBack`): the same pointer,
  registers and arrays, and the same counter unless it was behind the live handles.
-/

import Mathlib.Data.List.Induction
import UniversalMachine.Proofs.Restoring
import UniversalMachine.Proofs.UndoStack

namespace UniversalMachine

namespace CopySession

/-- What a checkpoint copies. -/
def copy (a : CopySession) : Snapshot × Array UInt8 :=
  (a.machine.capture, a.transcript.bytes)

/-- Some copies are dropped, and at most one is added, of what `a` is. -/
def Recopied (a b : CopySession) : Prop :=
  b.copies.Sublist a.copies ∨ ∃ kept, kept.Sublist a.copies ∧ b.copies = kept ++ [a.copy]

/-! ## What an operation does to the copies -/

theorem recopied_tryCheckpoint (a : CopySession) : a.Recopied a.tryCheckpoint.2 := by
  rw [tryCheckpoint]
  by_cases hlarge : a.machine.capture.estimatedSize > a.limit
  · rw [if_pos hlarge]
    exact .inl (List.Sublist.refl _)
  · rw [if_neg hlarge]
    exact .inr ⟨_, (dropOldest_suffix a.limit _ a.copies).sublist, rfl⟩

theorem copies_undo? {a b : CopySession} (h : a.undo? = some b) :
    b.copies = a.copies.dropLast := by
  rw [undo?] at h
  split at h
  · cases h
  · cases h
    rfl

theorem copies_settle (patience rounds : Nat) (a : CopySession) :
    (a.settle patience rounds).2.copies = a.copies := by
  induction rounds generalizing a with
  | zero => rfl
  | succ rounds ih =>
    have hrun : (a.run patience).2.copies = a.copies := rfl
    rw [settle]
    rcases hr : a.run patience with ⟨outcome, b⟩
    rw [hr] at hrun
    cases outcome with
    | stopRequested => exact (ih b).trans hrun
    | timeExpired => exact (ih b).trans hrun
    | halted => exact hrun
    | inputNeeded => exact hrun
    | fault f => exact hrun

variable {φ : Type} [FileSystem (StateM φ)]

theorem recopied_operate (a : CopySession) (files : φ) (op : SessionOperation) :
    a.Recopied (a.operate files op).2.1 := by
  have hsame : a.Recopied a := .inl (List.Sublist.refl _)
  have hcheckpoint := a.recopied_tryCheckpoint
  cases op with
  | run patience => exact hsame
  | sendLine line => exact hsame
  | submitLine line => exact hcheckpoint
  | execute patience rounds line =>
    have hcopies : (a.operate files (.execute patience rounds line)).2.1.copies =
        a.tryCheckpoint.2.copies := copies_settle patience rounds (a.submitLine line).2
    rw [Recopied, hcopies]
    exact hcheckpoint
  | checkpoint => exact hcheckpoint
  | undo =>
    rw [operate]
    cases hundo : a.undo? with
    | none => exact hsame
    | some b =>
      refine .inl ?_
      rw [copies_undo? hundo]
      exact List.dropLast_sublist _
  | saveState path => exact hsame
  | loadState path =>
    rw [operate]
    rcases StateT.run (Snapshot.load path : StateM φ _) files with ⟨_ | snapshot, files'⟩
    · exact hsame
    · exact hcheckpoint
  | closeInput => exact hsame

theorem operateAll_concat (a : CopySession) (files : φ) (ops : List SessionOperation)
    (op : SessionOperation) :
    (a.operateAll files (ops ++ [op])).2 =
      ((a.operateAll files ops).2.1.operate (a.operateAll files ops).2.2 op).2 := by
  induction ops generalizing a files with
  | nil => rfl
  | cons first ops ih => exact ih _ _

/-- The copies are of what was there before some of the operations, in their order. -/
theorem exists_positions {a : CopySession} (h : a.copies = []) (files : φ)
    (ops : List SessionOperation) :
    ∃ positions : List Nat, positions.Pairwise (· < ·) ∧ (∀ n ∈ positions, n < ops.length) ∧
      (a.operateAll files ops).2.1.copies =
        positions.map fun n => (a.operateAll files (ops.take n)).2.1.copy := by
  induction ops using List.reverseRecOn with
  | nil => exact ⟨[], List.Pairwise.nil, nofun, h⟩
  | append_singleton ops op ih =>
    obtain ⟨positions, hsorted, hbounds, hcopies⟩ := ih
    rw [operateAll_concat]
    -- what was there before an earlier operation does not depend on this one
    have hearlier : (a.operateAll files ops).2.1.copies =
        positions.map fun n => (a.operateAll files ((ops ++ [op]).take n)).2.1.copy := by
      rw [hcopies]
      refine List.map_congr_left fun n hn => ?_
      rw [List.take_append_of_le_length (Nat.le_of_lt (hbounds n hn))]
    rcases recopied_operate (a.operateAll files ops).2.1 (a.operateAll files ops).2.2 op with
      hdropped | ⟨kept, hkept, hadded⟩
    · rw [hearlier, List.sublist_map_iff] at hdropped
      obtain ⟨left, hleft, hdropped⟩ := hdropped
      refine ⟨left, hsorted.sublist hleft, fun n hn => ?_, hdropped⟩
      have hn := hbounds n (hleft.subset hn)
      rw [List.length_append]
      omega
    · rw [hearlier, List.sublist_map_iff] at hkept
      obtain ⟨left, hleft, rfl⟩ := hkept
      refine ⟨left ++ [ops.length], ?_, fun n hn => ?_, ?_⟩
      · refine List.pairwise_append.2 ⟨hsorted.sublist hleft, List.pairwise_singleton _ _, ?_⟩
        intro n hn last hlast
        rw [List.mem_singleton.1 hlast]
        exact hbounds n (hleft.subset hn)
      · rw [List.length_append, List.length_singleton]
        rcases List.mem_append.1 hn with hn | hn
        · have hn := hbounds n (hleft.subset hn)
          omega
        · rw [List.mem_singleton.1 hn]
          omega
      · rw [hadded, List.map_append, List.map_singleton, List.take_left]

end CopySession

namespace Session

/-- What `s` becomes when undoing leads back to what it was at an earlier time. -/
structure GoesBack (s earlier u : Session) : Prop where
  /-- The machine gets the earlier state in normal form, and keeps its capacity and cycles. -/
  restores : s.machine.Restores earlier.machine.capture u.machine
  arrays_eq : u.machine.capture.arrays = earlier.machine.capture.arrays
  /-- If its counter was not behind the live handles, the state is the earlier one. -/
  capture_eq : Heap.counterAfter earlier.machine.heap.handles ≤ earlier.machine.heap.next →
    u.machine.capture = earlier.machine.capture
  transcript_eq : u.transcript.toList = earlier.transcript.toList
  /-- The input that was queued at the earlier time does not come back. -/
  input_eq : u.input = s.input.clear

theorem goesBack_undo? {a earlier : CopySession} (hnested : a.Nested)
    (hwell : earlier.machine.heap.WellFormed) {older : List (Snapshot × Array UInt8)}
    (hcopies : a.copies = older ++ [earlier.copy]) :
    ∃ u, a.toSession.undo? = some u ∧ a.toSession.GoesBack earlier.toSession u := by
  rw [CopySession.undo?_toSession hnested, CopySession.undo?, hcopies, List.getLast?_concat]
  refine ⟨_, rfl, ?_⟩
  exact
    { restores := a.machine.restores_restore earlier.machine.capture
      arrays_eq := a.machine.arrays_capture_restore hwell.program_live
      capture_eq := a.machine.capture_restore_capture hwell
      transcript_eq := rfl
      input_eq := rfl }

variable {φ : Type} [FileSystem (StateM φ)]

/-- The session that operations lead to. -/
def after (machine : Machine) (limit : Nat) (files : φ) (ops : List SessionOperation) : Session :=
  ((start machine limit).operateAll files ops).2.1

/-- Undoing goes back to a state that the session has gone through. The states it keeps are those
    of before some of the operations, in the order of these; undoing finds the last of them, or
    nothing if none is kept. -/
theorem undo_goes_back {machine : Machine} (h : machine.Reachable) (limit : Nat) (files : φ)
    (ops : List SessionOperation) :
    ∃ positions : List Nat, positions.Pairwise (· < ·) ∧ (∀ n ∈ positions, n < ops.length) ∧
      (after machine limit files ops).history.snapshots =
        positions.map (fun n => (after machine limit files (ops.take n)).machine.capture) ∧
      match positions.getLast? with
      | none => (after machine limit files ops).undo? = none
      | some n =>
        ∃ u, (after machine limit files ops).undo? = some u ∧
          (after machine limit files ops).GoesBack (after machine limit files (ops.take n)) u := by
  have hnested := CopySession.nested_start machine limit
  have hafter (ops : List SessionOperation) : after machine limit files ops =
      ((CopySession.start machine limit).operateAll files ops).2.1.toSession :=
    congrArg (·.2.1) (CopySession.operateAll_toSession hnested files ops)
  have hwell (ops : List SessionOperation) :
      (after machine limit files ops).machine.heap.WellFormed :=
    (kept_invariant.operateAll (kept_start h limit) files ops).wellFormed
  obtain ⟨positions, hsorted, hbounds, hcopies⟩ :=
    CopySession.exists_positions (a := CopySession.start machine limit) rfl files ops
  refine ⟨positions, hsorted, hbounds, ?_, ?_⟩
  · have hsnapshots := congrArg (List.map Prod.fst) hcopies
    rw [List.map_map] at hsnapshots
    simp only [hafter]
    exact hsnapshots
  · rcases List.eq_nil_or_concat positions with rfl | ⟨older, n, rfl⟩
    · rw [hafter, List.getLast?_nil]
      dsimp only
      rw [CopySession.undo?_toSession (hnested.operateAll files ops), CopySession.undo?, hcopies]
      rfl
    · rw [List.concat_eq_append, List.map_append] at hcopies
      rw [List.concat_eq_append, List.getLast?_concat]
      dsimp only
      rw [hafter ops, hafter (ops.take n)]
      refine goesBack_undo? (hnested.operateAll files ops) ?_ hcopies
      have hearlier := hwell (ops.take n)
      rwa [hafter] at hearlier

/-- Of three commands the second finds no room beside the first, which is forgotten, and the third
    is refused; undoing goes back to before the second and then finds nothing. -/
example :
    let ops : List SessionOperation :=
      [.run 0, .execute 9 0 "", .execute 9 0 "", .execute 9 0 ""]
    let s := after hoarder 250 ({} : Disk) ops
    let earlier := after hoarder 250 ({} : Disk) (ops.take 2)
    s.history.snapshots = [earlier.machine.capture] ∧
      (s.undo?.map fun u => u.machine.capture) = some earlier.machine.capture ∧
      (s.undo?.bind undo?).isNone := by
  decide

end Session

end UniversalMachine
