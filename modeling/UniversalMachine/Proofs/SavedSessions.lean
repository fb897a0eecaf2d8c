/-
  UniversalMachine.Proofs.SavedSessions

  Saved sessions load back, and failed loads change nothing.

  Loading is reading, decoding and replacing the machine. Operations on sessions touch
  files in no other way than by the accesses `Session.accesses` lists, so a file system
  that reads back still has the bytes that were saved, and these decode to the state they
  were made from. Replacing the machine checkpoints the old one first, and undoing brings
  it back if it was kept (`Session.replaces_replaceMachine`). All this comes after the
  bytes were decoded, so an error leaves the session alone (`Session.load_eq_error_iff`).
-/

import Mathlib.Algebra.Group.Nat.Defs
import UniversalMachine.Proofs.CommandUndo
import UniversalMachine.Proofs.FileAccess

namespace UniversalMachine

namespace Session

variable {φ : Type} [FileSystem (StateM φ)]

/-! ## Operations and files -/

/-- The accesses to files that an operation on a session makes. -/
def accesses (s : Session) : SessionOperation → List FileAccess
  | .saveState path => [.write path s.machine.capture.encode]
  | .loadState path => [.read path]
  | _ => []

theorem files_operate (s : Session) (files : φ) (op : SessionOperation) :
    (s.operate files op).2.2 = (s.accesses op).foldl FileAccess.perform files := by
  cases op with
  | run patience => rfl
  | sendLine line => rfl
  | submitLine line => rfl
  | execute patience rounds line => rfl
  | checkpoint => rfl
  | undo =>
    rw [operate]
    cases s.undo? with
    | some u => rfl
    | none => rfl
  | saveState path =>
    rw [operate, saveState, Snapshot.run_save]
    rfl
  | loadState path =>
    rw [operate, run_loadState, Snapshot.run_load]
    show _ = (StateT.run (FileSystem.readFile path : StateM φ _) files).2
    rcases StateT.run (FileSystem.readFile path : StateM φ _) files with ⟨contents, files'⟩
    dsimp only
    cases contents.mapError .io >>= Snapshot.decode with
    | ok snapshot => rfl
    | error e => rfl
  | closeInput => rfl

/-- The files after operations on whatever sessions. -/
def filesAfter (files : φ) (work : List (Session × SessionOperation)) : φ :=
  work.foldl (fun files (s, op) => (s.operate files op).2.2) files

theorem filesAfter_eq (files : φ) (work : List (Session × SessionOperation)) :
    filesAfter files work =
      (work.flatMap fun (s, op) => s.accesses op).foldl FileAccess.perform files := by
  induction work generalizing files with
  | nil => rfl
  | cons step work ih =>
    rw [List.flatMap_cons, List.foldl_append, ← files_operate]
    exact ih _

/-- Only saving writes. -/
theorem spares_of_mem_accesses {s : Session} {op : SessionOperation} {names : String → Prop}
    (h : ∀ path, op = .saveState path → ¬names path) {access : FileAccess}
    (hmem : access ∈ s.accesses op) : access.Spares names := by
  cases op with
  | saveState path =>
    obtain rfl := List.mem_singleton.1 hmem
    exact h path rfl
  | loadState path =>
    obtain rfl := List.mem_singleton.1 hmem
    exact trivial
  | run | sendLine | submitLine | execute | checkpoint | undo | closeInput => cases hmem

/-! ## Replacing the machine -/

/-- What has become of a session when its machine was put into a state; `undoAvailable` is the
    answer to whether that can be undone. -/
structure Replaces (t : Session) (snapshot : Snapshot) (undoAvailable : Bool) (loaded : Session) :
    Prop where
  capture_eq : loaded.machine.capture = (Machine.ofSnapshot snapshot).capture
  capacity_eq : loaded.machine.heap.capacity = t.machine.heap.capacity
  cycles_eq : loaded.machine.cycles = t.machine.cycles
  nothing_pending : loaded.input.pending = []
  transcript_eq : loaded.transcript = t.transcript
  replyStart_eq : loaded.replyStart = t.replyStart
  lastOutcome_eq : loaded.lastOutcome = none
  undoAvailable_iff :
    undoAvailable = true ↔ t.machine.capture.estimatedSize ≤ t.history.limit
  undone : undoAvailable = true → ∃ u, loaded.undo? = some u ∧
    u.machine = t.machine.restore t.machine.capture ∧ u.transcript = t.transcript

/-- A checkpoint that was kept is undone to. -/
theorem undo?_replaceMachine {t : Session} (snapshot : Snapshot)
    (hfits : t.machine.capture.estimatedSize ≤ t.history.limit) :
    ∃ u, (t.replaceMachine snapshot).2.undo? = some u ∧
      u.machine = t.machine.restore t.machine.capture ∧ u.transcript = t.transcript := by
  obtain ⟨older, usage, marks, -, heq⟩ := tryCheckpoint_of_fits hfits
  have hnewest : (t.replaceMachine snapshot).2.history.snapshots =
      older ++ [t.machine.capture] := by
    show t.tryCheckpoint.2.history.snapshots = _
    rw [heq]
  have hmark : (t.replaceMachine snapshot).2.marks.getLast? = some t.transcript.size := by
    show t.tryCheckpoint.2.marks.getLast? = _
    rw [heq]
    exact List.getLast?_concat
  obtain ⟨u, hundo, hmachine, -, -, htranscript⟩ := undo?_of_newest hnewest
  refine ⟨u, hundo, ?_, ?_⟩
  · rw [hmachine]
    show (t.tryCheckpoint.2.machine.restore snapshot).restore t.machine.capture = _
    rw [heq]
    rfl
  · rw [htranscript _ hmark]
    -- nothing was printed since, so nothing is taken back
    show t.tryCheckpoint.2.transcript.truncate t.transcript.size = t.transcript
    rw [t.transcript_tryCheckpoint]
    simp [OutputBuffer.truncate, OutputBuffer.size]

theorem replaces_replaceMachine (t : Session) (snapshot : Snapshot) :
    t.Replaces snapshot (t.replaceMachine snapshot).1 (t.replaceMachine snapshot).2 := by
  obtain ⟨history, marks, heq⟩ := t.exists_tryCheckpoint
  have hloaded : (t.replaceMachine snapshot).2 =
      { t with
        machine := t.machine.restore snapshot
        input := t.input.clear
        history, marks
        lastOutcome := none } := by
    show ({ t.tryCheckpoint.2 with
      machine := t.tryCheckpoint.2.machine.restore snapshot
      input := t.tryCheckpoint.2.input.clear
      lastOutcome := none } : Session) = _
    rw [heq]
  have hundone : (t.replaceMachine snapshot).1 = true → _ := fun hkept =>
    undo?_replaceMachine snapshot (t.tryCheckpoint_kept_iff.1 hkept)
  rw [hloaded] at hundone ⊢
  exact ⟨rfl, rfl, rfl, rfl, rfl, rfl, rfl, t.tryCheckpoint_kept_iff, hundone⟩

/-! ## Loading -/

/-- What loading makes of what was read. -/
def load (t : Session) (contents : Except IoError Bytes) : Except SnapshotError Bool × Session :=
  match contents with
  | .error refusal => (.error (.io refusal), t)
  | .ok bytes =>
    match Snapshot.decode bytes with
    | .error e => (.error e, t)
    | .ok snapshot => (.ok (t.replaceMachine snapshot).1, (t.replaceMachine snapshot).2)

theorem run_loadState_eq_load (t : Session) (path : String) (files : φ) :
    StateT.run (t.loadState path : StateM φ _) files =
      let (contents, files) := StateT.run (FileSystem.readFile path : StateM φ _) files
      (t.load contents, files) := by
  rw [run_loadState, Snapshot.run_load]
  obtain ⟨refusal | bytes, files'⟩ := StateT.run (FileSystem.readFile path : StateM φ _) files
  · rfl
  · show (match (Snapshot.decode bytes, files') with
      | (.error e, files) => ((.error e, t), files)
      | (.ok snapshot, files) =>
        ((.ok (t.replaceMachine snapshot).1, (t.replaceMachine snapshot).2), files)) =
      (t.load (.ok bytes), files')
    rw [load]
    cases Snapshot.decode bytes with
    | error e => rfl
    | ok snapshot => rfl

theorem load_of_decode {bytes : Bytes} {snapshot : Snapshot}
    (h : Snapshot.decode bytes = .ok snapshot) (t : Session) :
    t.load (.ok bytes) =
      (.ok (t.replaceMachine snapshot).1, (t.replaceMachine snapshot).2) := by
  rw [load, h]

/-- Loading fails if nothing could be read or what was read is no snapshot. Then it does
    nothing. -/
theorem load_eq_error_iff {t loaded : Session} {contents : Except IoError Bytes}
    {e : SnapshotError} :
    t.load contents = (.error e, loaded) ↔
      loaded = t ∧ ((∃ refusal, contents = .error refusal ∧ e = .io refusal) ∨
        ∃ bytes, contents = .ok bytes ∧ Snapshot.decode bytes = .error e) := by
  cases contents with
  | error refusal => simp [load, eq_comm, and_comm]
  | ok bytes =>
    rw [load]
    cases hdecode : Snapshot.decode bytes with
    | error found => simp [hdecode, eq_comm, and_comm]
    | ok snapshot => simp [hdecode]

/-! ## Saving and loading -/

theorem writeFile_of_saveState {s : Session} {path : String} {files saved : φ}
    (h : StateT.run (s.saveState path : StateM φ _) files = (.ok (), saved)) :
    StateT.run (FileSystem.writeFile path s.machine.capture.encode : StateM φ _) files =
      (.ok (), saved) := by
  rw [saveState, Snapshot.run_save] at h
  generalize StateT.run (FileSystem.writeFile path s.machine.capture.encode : StateM φ _) files =
    written at h ⊢
  obtain ⟨refusal | _, files'⟩ := written
  · cases h
  · cases h
    rfl

/-- What was saved is loaded, by whatever session, as long as nobody else writes the file.

    Assumed is a file system that reads back. The session that is saved has fewer than `2 ^ 32`
    live handles, and fewer words in each array; what it is saved to has several names, perhaps,
    and the operations in between, on whatever sessions, save under none of them. Then loading
    replaces the machine by the one that was saved.

    On whatever files, loading fails exactly if the file is unreadable or malformed, and then
    the session is the session it was. -/
theorem saved_sessions_load_back :
    (∀ s : Session, s.Reached →
      (∀ (handle : Handle) (array : Array Word), s.machine.heap.arrays[handle]? = some array →
        array.size < 2 ^ 32) →
      s.machine.heap.size < 2 ^ 32 →
      ∀ (files saved : φ) (path : String) (names : String → Prop),
        FileAccess.ReadsBack files path names →
        StateT.run (s.saveState path : StateM φ _) files = (.ok (), saved) →
      ∀ work : List (Session × SessionOperation),
        (∀ step ∈ work, ∀ other, step.2 = .saveState other → ¬names other) →
      ∀ t : Session, ∃ undoAvailable loaded files',
        StateT.run (t.loadState path : StateM φ _) (filesAfter saved work) =
          ((.ok undoAvailable, loaded), files') ∧
        t.Replaces s.machine.capture undoAvailable loaded) ∧
    ∀ (t loaded : Session) (path : String) (files files' : φ) (e : SnapshotError),
      StateT.run (t.loadState path : StateM φ _) files = ((.error e, loaded), files') ↔
        loaded = t ∧ ∃ contents,
          StateT.run (FileSystem.readFile path : StateM φ _) files = (contents, files') ∧
          ((∃ refusal, contents = .error refusal ∧ e = .io refusal) ∨
            ∃ bytes, contents = .ok bytes ∧ Snapshot.decode bytes = .error e) := by
  constructor
  · intro s hs hsizes hfree files saved path names hfiles hsave work hwork t
    have hdecode : Snapshot.decode s.machine.capture.encode = .ok s.machine.capture :=
      Snapshot.decode_encode s.machine.capture hs.kept.wellFormed.program_live hfree hsizes
    have hspares : ∀ access ∈ work.flatMap fun (s, op) => s.accesses op,
        access.Spares names := by
      intro access hmem
      obtain ⟨step, hstep, haccess⟩ := List.mem_flatMap.1 hmem
      exact spares_of_mem_accesses (hwork step hstep) haccess
    have hread := hfiles _ _ (writeFile_of_saveState hsave) _ hspares
    rw [← filesAfter_eq] at hread
    have hload : StateT.run (t.loadState path : StateM φ _) (filesAfter saved work) =
        (t.load (.ok s.machine.capture.encode),
          (StateT.run (FileSystem.readFile path : StateM φ _) (filesAfter saved work)).2) := by
      rw [run_loadState_eq_load, ← hread]
      rfl
    rw [load_of_decode hdecode] at hload
    exact ⟨_, _, _, hload, t.replaces_replaceMachine s.machine.capture⟩
  · intro t loaded path files files' e
    rw [run_loadState_eq_load]
    obtain ⟨contents, files₁⟩ := StateT.run (FileSystem.readFile path : StateM φ _) files
    rw [Prod.mk.injEq, load_eq_error_iff]
    constructor
    · rintro ⟨⟨rfl, hcause⟩, rfl⟩
      exact ⟨rfl, contents, rfl, hcause⟩
    · rintro ⟨rfl, _, ⟨⟩, hcause⟩
      exact ⟨⟨rfl, hcause⟩, rfl⟩

/-- What lies in a table can be checked on its listing. -/
theorem sizes_of_toList {arrays : ArrayTable} {bound : Nat}
    (h : ∀ entry ∈ arrays.toList, entry.2.size < bound) (handle : Handle) (array : Array Word)
    (harray : arrays[handle]? = some array) : array.size < bound :=
  h (handle, array) (Std.ExtTreeMap.mem_toList_iff_getElem?_eq_some.2 harray)

/-- Two sessions use one disk. -/
theorem saved_sessions_load_back_hoarding :
    ∃ saved, StateT.run ((hoarding 2).saveState "f" : StateM Disk _) {} = (.ok (), saved) ∧
      (hoarding 0).machine.capture.estimatedSize ≤ (hoarding 0).history.limit ∧
      (∃ undoAvailable loaded files',
        StateT.run ((hoarding 0).loadState "f" : StateM Disk _)
          (filesAfter saved [(hoarding 1, .saveState "g"), (hoarding 1, .loadState "f")]) =
          ((.ok undoAvailable, loaded), files') ∧
        (hoarding 0).Replaces (hoarding 2).machine.capture undoAvailable loaded) ∧
      StateT.run ((hoarding 0).loadState "h" : StateM Disk _) saved =
        ((.error (.io .notFound), hoarding 0), saved) := by
  have hsave : StateT.run ((hoarding 2).saveState "f" : StateM Disk _) {} =
      (.ok (), (StateT.run ((hoarding 2).saveState "f" : StateM Disk _) {}).2) :=
    Prod.ext rfl rfl
  have hfree : ({} : Disk).find "f" = .error .notFound := rfl
  have hmissing : (StateT.run ((hoarding 2).saveState "f" : StateM Disk _) {}).2.read "h" =
      .error .notFound := rfl
  have hother : ¬({} : Disk).SameFile "f" "g" := by
    rintro ⟨location, hlocation, hlocation'⟩
    have hname : ({} : Disk).locate "f" = .ok ["tmp", "work", "f"] := rfl
    have hname' : ({} : Disk).locate "g" = .ok ["tmp", "work", "g"] := rfl
    rw [hname, Except.ok.injEq] at hlocation
    rw [hname', Except.ok.injEq, ← hlocation] at hlocation'
    exact absurd hlocation' (by decide)
  refine ⟨_, hsave, by decide +kernel, ?_, ?_⟩
  · refine saved_sessions_load_back.1 (hoarding 2) (reached_hoarding 2)
      (sizes_of_toList (by decide +kernel)) (by decide +kernel) {} _ "f" _
      (Disk.readsBack fun device => hfree ▸ nofun) hsave _ ?_ (hoarding 0)
    intro step hmem other hsaves
    rcases List.mem_cons.1 hmem with rfl | hmem
    · cases hsaves
      exact hother
    · obtain rfl := List.mem_singleton.1 hmem
      cases hsaves
  · exact (saved_sessions_load_back.2 _ _ "h" _ _ _).2
      ⟨rfl, _, Prod.ext hmissing rfl, .inl ⟨_, rfl, rfl⟩⟩

end Session

end UniversalMachine
