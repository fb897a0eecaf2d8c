/-
  UniversalMachine.Proofs.Readback

  A file that was written holds what was written to it.

  Writing puts a file at the location its path leads to (`Disk.write_cases`). Nothing
  but a file was there, or nothing at all, so no path to anything else led through it:
  whatever could be followed before can be followed after (`Disk.walk_put`), and the
  path leads to the new contents (`Disk.find_of_write`).
-/

import UniversalMachine.Files.Disk

namespace UniversalMachine.Disk

variable {disk disk' : Disk} {location : Location}

theorem run_writeFile (disk : Disk) (path : String) (contents : Bytes) :
    StateT.run (FileSystem.writeFile path contents : StateM Disk _) disk =
      match disk.write path contents with
      | .ok disk => (.ok (), disk)
      | .error e => (.error e, disk) := by
  simp only [FileSystem.writeFile, StateT.run_bind, StateT.run_get, pure_bind]
  cases disk.write path contents with
  | ok disk => rfl
  | error e => rfl

theorem lookup_put_self (h : location ≠ []) (entry : DiskEntry) :
    (disk.put location entry).lookup location = some entry := by
  rw [lookup, if_neg h, put, List.lookup_cons_self]

theorem lookup_put_of_ne {other : Location} (h : other ≠ location) (entry : DiskEntry) :
    (disk.put location entry).lookup other = disk.lookup other := by
  unfold lookup
  split
  · rfl
  · have hbeq : (other == location) = false := beq_eq_false_iff_ne.mpr h
    rw [put, List.lookup_cons, hbeq]
    dsimp only
    -- dropping the entries of one location hides none of another's
    induction disk.entries with
    | nil => rfl
    | cons head rest ih =>
      obtain ⟨place, kept⟩ := head
      by_cases hplace : place = location
      · have hskip : (other == place) = false := beq_eq_false_iff_ne.mpr (hplace ▸ h)
        rw [List.filter_cons_of_neg (by simp [hplace]), List.lookup_cons, hskip]
        exact ih
      · rw [List.filter_cons_of_pos (by simp [hplace]), List.lookup_cons, List.lookup_cons, ih]

/-- What is put where no directory is blocks no path. -/
theorem walk_put (h : disk.lookup location ≠ some .directory) (entry : DiskEntry)
    {names : List String} {start last : Location} (hwalk : disk.walk start names = .ok last) :
    (disk.put location entry).walk start names = .ok last := by
  induction names generalizing start with
  | nil => exact hwalk
  | cons name rest ih =>
    unfold walk at hwalk ⊢
    cases henter : enter start name with
    | error e =>
      rw [henter] at hwalk
      cases hwalk
    | ok next =>
      rw [henter] at hwalk
      dsimp only at hwalk ⊢
      -- the walk went on from here, so this is a directory and not the location
      have hnext : disk.lookup next = some .directory := by
        split at hwalk
        · cases hwalk
        · assumption
        · cases hwalk
      have hne : next ≠ location := by
        rintro rfl
        exact h hnext
      rw [hnext] at hwalk
      rw [lookup_put_of_ne hne, hnext]
      exact ih hwalk

/-- What a successful write found and did. -/
theorem write_cases {path : String} {contents : Bytes} (h : disk.write path contents = .ok disk') :
    ∃ p directory location,
      Path.parse path = .ok p ∧ disk.parent p = .ok directory ∧
      target directory p = .ok location ∧ p.forDirectory = false ∧
      ((∃ device, disk.lookup location = some (.device device) ∧ disk' = disk) ∨
        (disk.lookup location ≠ some .directory ∧
          disk' = disk.put location (.file contents))) := by
  simp only [write, bind, Except.bind] at h
  split at h
  · cases h
  next p hparse =>
  split at h
  · cases h
  next directory hparent =>
  split at h
  · cases h
  next hdirectory =>
  split at h
  · cases h
  next location htarget =>
  refine ⟨p, directory, location, hparse, hparent, htarget, eq_false_of_ne_true hdirectory, ?_⟩
  split at h
  · cases h
  · next device hdevice =>
    refine .inl ⟨device, hdevice, ?_⟩
    cases hwrite : device.write contents with
    | error e =>
      rw [hwrite] at h
      cases h
    | ok u =>
      rw [hwrite] at h
      exact (Except.ok.inj h).symm
  · next hother _ => exact .inr ⟨hother, (Except.ok.inj h).symm⟩

/-- The path that was written leads to the contents, unless it leads to a device. -/
theorem find_of_write {path : String} {contents : Bytes}
    (h : disk.write path contents = .ok disk')
    (hfile : ∀ device, disk.find path ≠ .ok (.device device)) :
    disk'.find path = .ok (.file contents) := by
  obtain ⟨p, directory, location, hparse, hparent, htarget, hnotDirectory,
    ⟨device, hdevice, -⟩ | ⟨hfree, rfl⟩⟩ := write_cases h
  · have hfind : disk.find path = .ok (.device device) := by
      simp [find, bind, Except.bind, hparse, hparent, htarget, hdevice, hnotDirectory]
    exact absurd hfind (hfile device)
  · have hlocation : location ≠ [] := by
      rintro rfl
      exact hfree rfl
    have hparent' : (disk.put location (.file contents)).parent p = .ok directory :=
      walk_put hfree _ hparent
    simp [find, bind, Except.bind, hparse, hparent', htarget, lookup_put_self hlocation,
      hnotDirectory]

/-- A file that was written is read back. -/
theorem read_of_write {path : String} {contents : Bytes}
    (h : disk.write path contents = .ok disk')
    (hfile : ∀ device, disk.find path ≠ .ok (.device device)) :
    disk'.read path = .ok contents := by
  rw [read, find_of_write h hfile]

end UniversalMachine.Disk
