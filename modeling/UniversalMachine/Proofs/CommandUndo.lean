/-
  UniversalMachine.Proofs.CommandUndo

  When undoing takes back the latest command.

  Submitting a command checkpoints the machine first, so the newest checkpoint should be
  the state before the command. It is, unless that state was too large to be kept. Then
  the newest checkpoint is an older one, if there is any, and undoing goes back past the
  command to it. `undo_after_command_iff` says that these are all the cases.

  That an older checkpoint is not the state before the command by accident is a matter
  of sizes: what is kept fits under the limit (`Kept.fits`), and restoring does not
  change the size of what was captured, since it holds a program (`Kept.program_live`).
-/

import UniversalMachine.Files.Disk
import UniversalMachine.Proofs.Eviction
import UniversalMachine.Proofs.Persistence
import UniversalMachine.Proofs.SessionOperations

namespace UniversalMachine

/-! ## Restored snapshots -/

namespace Machine

theorem arrays_capture_restore (m : Machine) {s : Snapshot} (h : (0 : Handle) ∈ s.arrays) :
    (m.restore s).capture.arrays = s.arrays :=
  ArrayTable.withProgram_eq_self h

/-- Any machine can be put into the state of a machine whose counter is not behind its
    handles. -/
theorem capture_restore_capture (m : Machine) {n : Machine} (h : n.heap.WellFormed)
    (hnext : Heap.counterAfter n.heap.handles ≤ n.heap.next) :
    (m.restore n.capture).capture = n.capture := by
  have hheap := Heap.ofArrays_eq_self h hnext
  have harrays := congrArg Heap.arrays hheap
  have hcounter := congrArg Heap.next hheap
  show Snapshot.mk n.ip n.registers _ _ = Snapshot.mk n.ip n.registers _ _
  rw [Snapshot.mk.injEq]
  exact ⟨rfl, rfl, harrays, hcounter⟩

end Machine

namespace Session

/-! ## What a session keeps -/

/-- The machine is well-formed, and every kept snapshot holds a program and fits under the
    limit. -/
structure Kept (s : Session) : Prop where
  wellFormed : s.machine.heap.WellFormed
  program_live : ∀ snapshot ∈ s.history.snapshots, (0 : Handle) ∈ snapshot.arrays
  fits : ∀ snapshot ∈ s.history.snapshots, snapshot.estimatedSize ≤ s.history.limit

theorem tryCheckpoint_of_large {s : Session}
    (h : s.history.limit < s.machine.capture.estimatedSize) :
    s.tryCheckpoint.2 = s := by
  rw [tryCheckpoint, checkpoint, History.push_of_large h]

/-- A checkpoint that is kept is the newest, with its mark. -/
theorem tryCheckpoint_of_fits {s : Session}
    (h : s.machine.capture.estimatedSize ≤ s.history.limit) :
    ∃ older usage marks, older <:+ s.history.snapshots ∧
      s.tryCheckpoint.2 =
        { s with
          history := { limit := s.history.limit, snapshots := older ++ [s.machine.capture], usage }
          marks := marks ++ [s.transcript.size] } := by
  obtain ⟨older, usage, hsuffix, hpush⟩ := History.push_of_fits h
  -- at least one snapshot is kept, so dropping marks stops before the new one
  have hdrop : s.marks.length + 1 - (older.length + 1) ≤ s.marks.length := by omega
  refine ⟨older, usage, s.marks.drop (s.marks.length + 1 - (older.length + 1)), hsuffix, ?_⟩
  rw [tryCheckpoint, checkpoint, hpush]
  simp only [History.size, List.length_append, List.length_singleton]
  rw [List.drop_append_of_le_length hdrop]

/-- Keeping a checkpoint touches the history and the marks only. -/
theorem exists_tryCheckpoint (s : Session) :
    ∃ history marks, s.tryCheckpoint.2 = { s with history, marks } := by
  rcases Nat.lt_or_ge s.history.limit s.machine.capture.estimatedSize with hlarge | hfits
  · exact ⟨s.history, s.marks, tryCheckpoint_of_large hlarge⟩
  · obtain ⟨_, _, _, -, heq⟩ := tryCheckpoint_of_fits hfits
    exact ⟨_, _, heq⟩

/-- Submitting a line queues it and stores where the reply begins. -/
theorem exists_submitLine (s : Session) (line : String) :
    ∃ history marks, (s.submitLine line).2 =
      { s with history, marks, replyStart := s.transcript.size,
               input := s.input.pushLine line } := by
  obtain ⟨history, marks, heq⟩ := s.exists_tryCheckpoint
  refine ⟨history, marks, ?_⟩
  show ({ s.tryCheckpoint.2 with replyStart := s.tryCheckpoint.2.transcript.size } :
    Session).sendLine line = _
  rw [heq]
  rfl

/-- Whether a checkpoint is kept is a matter of its size. -/
theorem tryCheckpoint_kept_iff (s : Session) :
    (s.tryCheckpoint.1 matches .ok ()) = true ↔
      s.machine.capture.estimatedSize ≤ s.history.limit := by
  rcases Nat.lt_or_ge s.history.limit s.machine.capture.estimatedSize with hlarge | hfits
  · rw [tryCheckpoint, checkpoint, History.push_of_large hlarge]
    exact ⟨nofun, fun hfits => absurd hfits (Nat.not_le.2 hlarge)⟩
  · obtain ⟨_, _, -, hpush⟩ := History.push_of_fits hfits
    rw [tryCheckpoint, checkpoint, hpush]
    exact ⟨fun _ => hfits, fun _ => rfl⟩

theorem undo?_of_isEmpty {s : Session} (h : s.history.isEmpty) : s.undo? = none := by
  rw [undo?, History.pop?, List.isEmpty_iff.1 h]
  rfl

theorem undo?_of_newest {s : Session} {older : List Snapshot} {newest : Snapshot}
    (h : s.history.snapshots = older ++ [newest]) :
    ∃ u, s.undo? = some u ∧ u.machine = s.machine.restore newest ∧
      u.history.snapshots = older ∧ u.history.limit = s.history.limit ∧
      ∀ mark, s.marks.getLast? = some mark → u.transcript = s.transcript.truncate mark := by
  rw [undo?, History.pop?_concat h]
  refine ⟨_, rfl, rfl, rfl, rfl, fun mark hmark => ?_⟩
  rw [hmark]

theorem kept_start {machine : Machine} (h : machine.Reachable) (limit : Nat) :
    (start machine limit).Kept where
  wellFormed := h.wellFormed
  program_live := nofun
  fits := nofun

/-- Every operation leaves such snapshots. -/
theorem kept_invariant : Invariant Kept where
  run h patience :=
    ⟨Configuration.run_preserves (P := fun c => c.machine.heap.WellFormed)
      (fun c => c.wellFormed_step) patience _ h.wellFormed, h.program_live, h.fits⟩
  setInput h _ := ⟨h.wellFormed, h.program_live, h.fits⟩
  setReplyStart h _ := ⟨h.wellFormed, h.program_live, h.fits⟩
  tryCheckpoint {s} h := by
    rcases Nat.lt_or_ge s.history.limit s.machine.capture.estimatedSize with hlarge | hfits
    · rw [tryCheckpoint_of_large hlarge]
      exact h
    · obtain ⟨older, usage, marks, hsuffix, heq⟩ := tryCheckpoint_of_fits hfits
      rw [heq]
      refine ⟨h.wellFormed, fun snapshot hmem => ?_, fun snapshot hmem => ?_⟩
      · rcases List.mem_append.1 hmem with hold | hnew
        · exact h.program_live snapshot (hsuffix.subset hold)
        · rw [List.mem_singleton.1 hnew]
          exact h.wellFormed.program_live
      · rcases List.mem_append.1 hmem with hold | hnew
        · exact h.fits snapshot (hsuffix.subset hold)
        · rw [List.mem_singleton.1 hnew]
          exact hfits
  undo {s u} h hundo := by
    rcases List.eq_nil_or_concat s.history.snapshots with hnil | ⟨older, newest, hlast⟩
    · rw [undo?_of_isEmpty (List.isEmpty_iff.2 hnil)] at hundo
      cases hundo
    · rw [List.concat_eq_append] at hlast
      obtain ⟨u', hundo', hmachine, hsnapshots, hlimit, -⟩ := undo?_of_newest hlast
      obtain rfl : u' = u := Option.some.inj (hundo'.symm.trans hundo)
      -- undoing only takes the newest snapshot out
      have hmem : ∀ snapshot ∈ u'.history.snapshots, snapshot ∈ s.history.snapshots := by
        intro snapshot hmem
        rw [hsnapshots] at hmem
        rw [hlast]
        exact List.mem_append_left _ hmem
      refine ⟨?_, fun x hx => h.program_live x (hmem x hx), fun x hx => ?_⟩
      · rw [hmachine]
        exact Machine.wellFormed_restore _ _
      · rw [hlimit]
        exact h.fits x (hmem x hx)
  restore h snapshot := ⟨Machine.wellFormed_restore _ snapshot, h.program_live, h.fits⟩

/-- A session that some operations lead to, from any machine and with any files. -/
def Reached (s : Session) : Prop :=
  ∃ (φ : Type) (_ : FileSystem (StateM φ)) (files : φ) (machine : Machine) (limit : Nat)
    (ops : List SessionOperation),
    machine.Reachable ∧ ((start machine limit).operateAll files ops).2.1 = s

theorem Reached.kept {s : Session} (h : s.Reached) : s.Kept := by
  obtain ⟨φ, _, files, machine, limit, ops, hmachine, rfl⟩ := h
  exact kept_invariant.operateAll (kept_start hmachine limit) files ops

/-! ## After a command -/

/-- The sessions that a command leads to: it was submitted and any runs were made since, or
    it was executed. -/
inductive AfterCommand (s : Session) (line : String) : Session → Prop
  | submitted : AfterCommand s line (s.submitLine line).2
  | executed (patience rounds : Nat) : AfterCommand s line (s.execute patience rounds line).2
  | ran {t : Session} (h : AfterCommand s line t) (patience : Nat) :
      AfterCommand s line (t.run patience).2

/-- What a command leaves of a session: the checkpoint it made, and the transcript, behind
    which it may have printed. -/
structure Continues (s t : Session) : Prop where
  history_eq : t.history = s.tryCheckpoint.2.history
  marks_eq : t.marks = s.tryCheckpoint.2.marks
  printed_prefix : s.transcript.toList <+: t.transcript.toList

theorem transcript_tryCheckpoint (s : Session) : s.tryCheckpoint.2.transcript = s.transcript := by
  rcases Nat.lt_or_ge s.history.limit s.machine.capture.estimatedSize with hlarge | hfits
  · rw [tryCheckpoint_of_large hlarge]
  · obtain ⟨_, _, _, -, heq⟩ := tryCheckpoint_of_fits hfits
    rw [heq]

theorem continues_submitLine (s : Session) (line : String) :
    s.Continues (s.submitLine line).2 where
  history_eq := rfl
  marks_eq := rfl
  printed_prefix := by
    show s.transcript.toList <+: s.tryCheckpoint.2.transcript.toList
    simp [transcript_tryCheckpoint]

theorem Continues.run {s t : Session} (h : s.Continues t) (patience : Nat) :
    s.Continues (t.run patience).2 where
  history_eq := h.history_eq
  marks_eq := h.marks_eq
  printed_prefix := h.printed_prefix.trans (Configuration.printed_prefix_run patience
    { machine := t.machine, input := t.input, output := t.transcript })

theorem AfterCommand.continues {s t : Session} {line : String} (h : s.AfterCommand line t) :
    s.Continues t := by
  induction h with
  | submitted => exact s.continues_submitLine line
  | executed patience rounds =>
    exact settle_preserves (P := s.Continues) (fun _ patience ht => ht.run patience)
      (s.continues_submitLine line) patience rounds
  | ran _ patience ih => exact ih.run patience

/-- If the checkpoint of the command was kept, undoing goes back to before the command. -/
theorem Continues.undo?_of_fits {s t : Session} (h : s.Continues t)
    (hwell : s.machine.heap.WellFormed)
    (hcounter : Heap.counterAfter s.machine.heap.handles ≤ s.machine.heap.next)
    (hfits : s.machine.capture.estimatedSize ≤ s.history.limit) :
    ∃ u, t.undo? = some u ∧ u.machine.capture = s.machine.capture ∧
      u.transcript.toList = s.transcript.toList := by
  obtain ⟨older, usage, marks, -, heq⟩ := tryCheckpoint_of_fits hfits
  have hnewest : t.history.snapshots = older ++ [s.machine.capture] := by
    rw [h.history_eq, heq]
  have hmark : t.marks.getLast? = some s.transcript.size := by
    rw [h.marks_eq, heq]
    exact List.getLast?_concat
  obtain ⟨u, hundo, hmachine, -, -, htranscript⟩ := undo?_of_newest hnewest
  refine ⟨u, hundo, ?_, ?_⟩
  · rw [hmachine]
    exact t.machine.capture_restore_capture hwell hcounter
  · rw [htranscript _ hmark, OutputBuffer.toList_truncate, ← OutputBuffer.length_toList]
    exact (List.prefix_iff_eq_take.1 h.printed_prefix).symm

/-- If it was refused and an older checkpoint is kept, undoing goes back to that one. -/
theorem Continues.undo?_of_large {s t : Session} (h : s.Continues t) (hkept : s.Kept)
    (hlarge : s.history.limit < s.machine.capture.estimatedSize) (hsome : ¬s.history.isEmpty) :
    ∃ u, t.undo? = some u ∧ u.machine.capture ≠ s.machine.capture := by
  rcases List.eq_nil_or_concat s.history.snapshots with hnil | ⟨older, newest, hlast⟩
  · exact absurd (List.isEmpty_iff.2 hnil) hsome
  · rw [List.concat_eq_append] at hlast
    have hmem : newest ∈ s.history.snapshots := by
      rw [hlast]
      exact List.mem_append_right _ (List.mem_singleton_self _)
    have hnewest : t.history.snapshots = older ++ [newest] := by
      rw [h.history_eq, tryCheckpoint_of_large hlarge, hlast]
    obtain ⟨u, hundo, hmachine, -⟩ := undo?_of_newest hnewest
    refine ⟨u, hundo, fun hsame => ?_⟩
    -- the restored state fits under the limit, the state before the command does not
    have hsize : u.machine.capture.estimatedSize = newest.estimatedSize := by
      rw [hmachine, Snapshot.estimatedSize, Snapshot.estimatedSize,
        Machine.arrays_capture_restore _ (hkept.program_live newest hmem)]
    have hfits := hkept.fits newest hmem
    rw [hsame] at hsize
    omega

/-- Undoing after a command takes back that command and no more, or finds nothing to undo,
    exactly if the state before the command was small enough to be kept or nothing older
    is kept. -/
theorem undo_after_command_iff {s t : Session} {line : String} (hreached : s.Reached)
    (hcounter : Heap.counterAfter s.machine.heap.handles ≤ s.machine.heap.next)
    (hafter : s.AfterCommand line t) :
    (t.undo? = none ∨
      ∃ u, t.undo? = some u ∧ u.machine.capture = s.machine.capture ∧
        u.transcript.toList = s.transcript.toList) ↔
      s.machine.capture.estimatedSize ≤ s.history.limit ∨ s.history.isEmpty := by
  have hkept := hreached.kept
  have hcontinues := hafter.continues
  by_cases hfits : s.machine.capture.estimatedSize ≤ s.history.limit
  · have hundo := hcontinues.undo?_of_fits hkept.wellFormed hcounter hfits
    exact iff_of_true (.inr hundo) (.inl hfits)
  -- the checkpoint was refused, so the history is as before the command
  have hlarge := Nat.lt_of_not_le hfits
  by_cases hempty : s.history.isEmpty
  · have hhistory : t.history = s.history := by
      rw [hcontinues.history_eq, tryCheckpoint_of_large hlarge]
    refine iff_of_true (.inl (undo?_of_isEmpty ?_)) (.inr hempty)
    rwa [hhistory]
  · obtain ⟨u, hundo, hother⟩ := hcontinues.undo?_of_large hkept hlarge hempty
    refine iff_of_false ?_ (not_or.2 ⟨hfits, hempty⟩)
    rintro (hnone | ⟨u', hsome, hsame, -⟩)
    · rw [hundo] at hnone
      cases hnone
    · rw [hundo] at hsome
      cases hsome
      exact hother hsame

/-- A machine that takes twenty more words for every byte it reads. -/
def hoarder : Machine :=
  .ofProgram #[Instruction.assembleStandard 11 0 0 0, Instruction.assembleImmediate 1 20,
    Instruction.assembleStandard 8 0 2 1, Instruction.assembleImmediate 3 0,
    Instruction.assembleStandard 12 0 6 3]

/-- A session with it after some commands, the first of which still starts from a state that
    the history has room for. -/
def hoarding (commands : Nat) : Session :=
  ((start hoarder 100).operateAll ({} : Disk)
    (.run 0 :: List.replicate commands (.execute 9 0 ""))).2.1

theorem reached_hoarding (commands : Nat) : (hoarding commands).Reached :=
  ⟨Disk, inferInstance, {}, hoarder, 100, _, .ofProgram _, rfl⟩

theorem undo_after_command_iff_hoarding :
    (hoarding 0).Reached ∧
    Heap.counterAfter (hoarding 0).machine.heap.handles ≤ (hoarding 0).machine.heap.next ∧
    (hoarding 0).AfterCommand "" ((hoarding 0).execute 9 0 "").2 ∧
    (((hoarding 0).execute 9 0 "").2.undo? = none ∨
      ∃ u, ((hoarding 0).execute 9 0 "").2.undo? = some u ∧
        u.machine.capture = (hoarding 0).machine.capture ∧
        u.transcript.toList = (hoarding 0).transcript.toList) := by
  have hreached := reached_hoarding 0
  have hcounter :
      Heap.counterAfter (hoarding 0).machine.heap.handles ≤ (hoarding 0).machine.heap.next := by
    decide
  have hafter : (hoarding 0).AfterCommand "" ((hoarding 0).execute 9 0 "").2 := .executed 9 0
  exact ⟨hreached, hcounter, hafter,
    (undo_after_command_iff hreached hcounter hafter).2 (.inl (by decide))⟩

/-- The second command of this session finds a state too large to be kept, and undoing it
    takes back both. -/
theorem undo_takes_back_two_commands :
    (hoarding 1).Reached ∧ (hoarding 1).input.pending = [] ∧
    Heap.counterAfter (hoarding 1).machine.heap.handles ≤ (hoarding 1).machine.heap.next ∧
    (hoarding 1).AfterCommand "" ((hoarding 1).execute 9 0 "").2 ∧
    ((hoarding 1).execute 9 0 "").2.undo?.map (fun u => u.machine.capture) =
      some (hoarding 0).machine.capture ∧
    (hoarding 0).machine.capture ≠ (hoarding 1).machine.capture :=
  ⟨reached_hoarding 1, by decide, by decide, .executed 9 0, by decide, by decide⟩

end Session

end UniversalMachine
