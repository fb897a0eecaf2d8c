/-
  UniversalMachine.Proofs.FileAccess

  File systems that return what was last written.

  `ReadsBack` says it of a path: what was written there is read there, whatever has been
  read and written elsewhere since. A file may have several names, and elsewhere means
  under none of them. On a disk these are the paths that lead to one location
  (`Disk.SameFile`), and which paths these are does not change when files are written:
  a file never takes the place of a directory, nor a directory that of a file
  (`Disk.samePlaces_of_write`). Hence disks read back, devices apart (`Disk.readsBack`).
-/

import UniversalMachine.Proofs.Readback

namespace UniversalMachine

/-- An access to a file. -/
inductive FileAccess where
  | read (path : String)
  | write (path : String) (contents : Bytes)
  deriving DecidableEq, Repr

namespace FileAccess

variable {φ : Type} [FileSystem (StateM φ)]

/-- The files after an access. -/
def perform (files : φ) : FileAccess → φ
  | .read path => (StateT.run (FileSystem.readFile path : StateM φ _) files).2
  | .write path contents => (StateT.run (FileSystem.writeFile path contents : StateM φ _) files).2

/-- The access writes under none of these names. -/
def Spares (names : String → Prop) : FileAccess → Prop
  | .read _ => True
  | .write path _ => ¬names path

/-- What is written to a path of these files is what is read there, until something is written
    under one of the names of the file. -/
def ReadsBack (files : φ) (path : String) (names : String → Prop) : Prop :=
  ∀ contents written,
    StateT.run (FileSystem.writeFile path contents : StateM φ _) files = (.ok (), written) →
    ∀ accesses : List FileAccess, (∀ access ∈ accesses, access.Spares names) →
      (StateT.run (FileSystem.readFile path : StateM φ _) (accesses.foldl perform written)).1 =
        .ok contents

end FileAccess

namespace Disk

variable {disk disk' : Disk} {path : String} {location : Location}

/-! ## Places -/

/-- The location a path leads to. -/
def locate (disk : Disk) (path : String) : Except IoError Location := do
  let path ← Path.parse path
  let directory ← disk.parent path
  target directory path

/-- The paths lead to one location. -/
def SameFile (disk : Disk) (path other : String) : Prop :=
  ∃ location, disk.locate path = .ok location ∧ disk.locate other = .ok location

/-- The disks have the same directories. -/
structure SamePlaces (disk disk' : Disk) : Prop where
  working_eq : disk'.working = disk.working
  directory_iff : ∀ location,
    disk'.lookup location = some .directory ↔ disk.lookup location = some .directory

theorem walk_cons_eq_ok_iff {start last : Location} {name : String} {rest : List String} :
    disk.walk start (name :: rest) = .ok last ↔
      ∃ next, enter start name = .ok next ∧ disk.lookup next = some .directory ∧
        disk.walk next rest = .ok last := by
  rw [walk]
  cases enter start name with
  | error e => simp
  | ok next =>
    rcases hnext : disk.lookup next with _ | _ | _ | _
    · simp [hnext]
    · simp [hnext]
    · simp [hnext]
    · simp [hnext]

/-- A walk goes through directories only. -/
theorem SamePlaces.walk_iff (h : disk.SamePlaces disk') {start last : Location}
    {names : List String} :
    disk'.walk start names = .ok last ↔ disk.walk start names = .ok last := by
  induction names generalizing start with
  | nil => exact Iff.rfl
  | cons name rest ih =>
    rw [walk_cons_eq_ok_iff, walk_cons_eq_ok_iff]
    simp only [h.directory_iff, ih]

theorem locate_eq_ok_iff :
    disk.locate path = .ok location ↔
      ∃ p directory, Path.parse path = .ok p ∧ disk.parent p = .ok directory ∧
        target directory p = .ok location := by
  simp only [locate, bind, Except.bind]
  cases Path.parse path with
  | error e => simp
  | ok p =>
    cases hparent : disk.parent p with
    | error e => simp [hparent]
    | ok directory => simp [hparent]

theorem SamePlaces.locate_iff (h : disk.SamePlaces disk') :
    disk'.locate path = .ok location ↔ disk.locate path = .ok location := by
  rw [locate_eq_ok_iff, locate_eq_ok_iff]
  simp only [parent, h.working_eq, h.walk_iff]

theorem find_eq_file_iff {contents : Bytes} :
    disk.find path = .ok (.file contents) ↔
      ∃ p directory location, Path.parse path = .ok p ∧ disk.parent p = .ok directory ∧
        target directory p = .ok location ∧ p.forDirectory = false ∧
        disk.lookup location = some (.file contents) := by
  simp only [find, bind, Except.bind]
  cases Path.parse path with
  | error e => simp
  | ok p =>
    cases hparent : disk.parent p with
    | error e => simp [hparent]
    | ok directory =>
      cases htarget : target directory p with
      | error e => simp [hparent, htarget]
      | ok location =>
        -- whether the path is for a directory matters only if there is something else
        rcases hentry : disk.lookup location with _ | found | _ | device
        · simp [hparent, htarget, hentry]
        · cases hslash : p.forDirectory <;> simp [hparent, htarget, hentry, hslash]
        · simp [hparent, htarget, hentry]
        · cases hslash : p.forDirectory <;> simp [hparent, htarget, hentry, hslash]

/-- A path to a file leads to it as long as nothing changes where it leads. -/
theorem SamePlaces.find_file (h : disk.SamePlaces disk') {contents : Bytes}
    (hfind : disk.find path = .ok (.file contents))
    (hentry : ∀ location, disk.locate path = .ok location →
      disk'.lookup location = disk.lookup location) :
    disk'.find path = .ok (.file contents) := by
  obtain ⟨p, directory, location, hparse, hparent, htarget, hslash, hlookup⟩ :=
    find_eq_file_iff.1 hfind
  have hlocate : disk.locate path = .ok location :=
    locate_eq_ok_iff.2 ⟨p, directory, hparse, hparent, htarget⟩
  have hparent' : disk'.parent p = .ok directory := by
    rw [parent, h.working_eq]
    exact h.walk_iff.2 hparent
  exact find_eq_file_iff.2 ⟨p, directory, location, hparse, hparent', htarget, hslash,
    (hentry location hlocate).trans hlookup⟩

/-! ## Writing -/

/-- Files are only put where there are no directories. -/
theorem samePlaces_of_write {contents : Bytes} (h : disk.write path contents = .ok disk') :
    disk.SamePlaces disk' := by
  obtain ⟨-, -, target, -, -, -, -, ⟨-, -, rfl⟩ | ⟨hfree, rfl⟩⟩ := write_cases h
  · exact ⟨rfl, fun _ => Iff.rfl⟩
  · refine ⟨rfl, fun location => ?_⟩
    by_cases hsame : location = target
    · subst hsame
      have hlocation : location ≠ [] := by
        rintro rfl
        exact hfree rfl
      rw [lookup_put_self hlocation]
      exact ⟨nofun, fun hdirectory => absurd hdirectory hfree⟩
    · rw [lookup_put_of_ne hsame]

/-- Writing changes nothing but what the path leads to. -/
theorem lookup_of_write {contents : Bytes} (h : disk.write path contents = .ok disk')
    (hother : disk.locate path ≠ .ok location) : disk'.lookup location = disk.lookup location := by
  obtain ⟨p, directory, target, hparse, hparent, htarget, -, ⟨-, -, rfl⟩ | ⟨-, rfl⟩⟩ :=
    write_cases h
  · rfl
  · refine lookup_put_of_ne ?_ _
    rintro rfl
    exact hother (locate_eq_ok_iff.2 ⟨p, directory, hparse, hparent, htarget⟩)

/-- What a path led to when it was written, it leads to after an access that spares its names. -/
theorem find_perform {origin : Disk} {contents : Bytes} (hplaces : origin.SamePlaces disk)
    (hfind : disk.find path = .ok (.file contents)) {access : FileAccess}
    (hspares : access.Spares (origin.SameFile path)) :
    origin.SamePlaces (access.perform disk) ∧
      (access.perform disk).find path = .ok (.file contents) := by
  cases access with
  | read other => exact ⟨hplaces, hfind⟩
  | write other written =>
    rw [FileAccess.perform, run_writeFile]
    cases hwrite : disk.write other written with
    | error e => exact ⟨hplaces, hfind⟩
    | ok disk' =>
      have hplaces' := samePlaces_of_write hwrite
      refine ⟨⟨hplaces'.working_eq.trans hplaces.working_eq, fun location =>
        (hplaces'.directory_iff location).trans (hplaces.directory_iff location)⟩, ?_⟩
      refine hplaces'.find_file hfind fun location hlocate => lookup_of_write hwrite fun hsame => ?_
      exact hspares ⟨location, hplaces.locate_iff.1 hlocate, hplaces.locate_iff.1 hsame⟩

theorem find_foldl_perform {origin : Disk} {contents : Bytes} (hplaces : origin.SamePlaces disk)
    (hfind : disk.find path = .ok (.file contents)) {accesses : List FileAccess}
    (hspares : ∀ access ∈ accesses, access.Spares (origin.SameFile path)) :
    (accesses.foldl FileAccess.perform disk).find path = .ok (.file contents) := by
  induction accesses generalizing disk with
  | nil => exact hfind
  | cons access accesses ih =>
    obtain ⟨hplaces', hfind'⟩ := find_perform hplaces hfind (hspares access List.mem_cons_self)
    exact ih hplaces' hfind' fun other hmem => hspares other (List.mem_cons_of_mem _ hmem)

/-- What is written to a path of a disk is what is read there, unless it is that of a device. -/
theorem readsBack (hfile : ∀ device, disk.find path ≠ .ok (.device device)) :
    FileAccess.ReadsBack disk path (disk.SameFile path) := by
  intro contents written hwrite accesses hspares
  rw [run_writeFile] at hwrite
  cases hdisk : disk.write path contents with
  | error e =>
    rw [hdisk] at hwrite
    cases hwrite
  | ok disk' =>
    rw [hdisk] at hwrite
    cases hwrite
    have hfind := find_foldl_perform (samePlaces_of_write hdisk) (find_of_write hdisk hfile) hspares
    show (accesses.foldl FileAccess.perform written).read path = .ok contents
    rw [read, hfind]

end Disk

end UniversalMachine
