/-
  UniversalMachine.Files.Disk

  Files kept in memory: a tree of directories with files in them, one of which is
  the working directory.

  A path is followed name by name. Every name before the last has to lead to a
  directory: a missing one is reported as not found, anything else in its place as
  not a directory. `.` stays where it is, and `..` goes back up, but not above the
  root. A name is held against the limit on its length only when it is reached.
-/

import UniversalMachine.Files.Path

namespace UniversalMachine

/-- A file that keeps nothing. -/
inductive Device where
  /-- Always empty, whatever is written to it. -/
  | null
  /-- Endless zeros, whatever is written to it. -/
  | zero
  /-- Endless zeros, and no room for anything else. -/
  | full
  /-- The terminal of the program, which has none. -/
  | terminal
  deriving DecidableEq, Repr

namespace Device

/-- What can be read from a device. What is endless does not fit into memory. -/
def read : Device → Except IoError Bytes
  | null => .ok []
  | zero => .error (.other 12 "Cannot allocate memory")
  | full => .error (.other 12 "Cannot allocate memory")
  | terminal => .error .noDevice

/-- Writes to a device. -/
def write (contents : Bytes) : Device → Except IoError Unit
  | null => .ok ()
  | zero => .ok ()
  | full => if contents.isEmpty then .ok () else .error .storageFull
  | terminal => .error .noDevice

end Device

/-- What a path leads to. -/
inductive DiskEntry where
  | file (contents : Bytes)
  | directory
  | device (device : Device)
  deriving DecidableEq, Repr

/-- A place on a disk: the names that lead to it from the root. -/
abbrev Location := List String

/-- The directories every disk has at its root. -/
def standardDirectories : List String :=
  ["bin", "boot", "dev", "etc", "home", "lib", "media", "mnt", "opt", "proc", "root", "run",
    "sbin", "srv", "sys", "tmp", "usr", "var"]

/-- The devices every disk has, by name. -/
def standardDevices : List (String × Device) :=
  [("null", .null), ("zero", .zero), ("full", .full), ("tty", .terminal)]

/-- Directories and files. The root is always there. -/
structure Disk where
  /-- The working directory. -/
  working : Location := ["tmp", "work"]
  entries : List (Location × DiskEntry) :=
    standardDirectories.map (fun name => ([name], .directory)) ++
      standardDevices.map (fun (name, device) => (["dev", name], .device device)) ++
      [(["tmp", "work"], .directory)]
  deriving DecidableEq, Repr

namespace Disk

/-- The entry at a location. -/
def lookup (disk : Disk) (location : Location) : Option DiskEntry :=
  if location = [] then some .directory else disk.entries.lookup location

/-- Replaces the entry at a location, or adds it. -/
def put (disk : Disk) (location : Location) (entry : DiskEntry) : Disk :=
  { disk with entries := (location, entry) :: disk.entries.filter (·.1 ≠ location) }

/-! ## Following a path -/

/-- The location that a name in a directory stands for. -/
def enter (directory : Location) (name : String) : Except IoError Location :=
  if name = "." then .ok directory
  else if name = ".." then .ok directory.dropLast
  else if name.utf8ByteSize > Path.maxNameLength then .error .nameTooLong
  else .ok (directory ++ [name])

/-- Follows names from a directory into further directories. -/
def walk (disk : Disk) (directory : Location) : List String → Except IoError Location
  | [] => .ok directory
  | name :: rest =>
    match enter directory name with
    | .error e => .error e
    | .ok location =>
      match disk.lookup location with
      | none => .error .notFound
      | some .directory => disk.walk location rest
      | some _ => .error .notADirectory

/-- The directory in which the last name of a path is looked up. -/
def parent (disk : Disk) (path : Path) : Except IoError Location :=
  disk.walk (if path.absolute then [] else disk.working) path.names.dropLast

/-- The location that a path leads to by way of the directory of its last name. -/
def target (directory : Location) (path : Path) : Except IoError Location :=
  match path.names.getLast? with
  | none => .ok directory
  | some name => enter directory name

/-! ## Files -/

/-- The entry a path leads to. -/
def find (disk : Disk) (path : String) : Except IoError DiskEntry := do
  let path ← Path.parse path
  let directory ← disk.parent path
  let location ← target directory path
  match disk.lookup location with
  | none => .error .notFound
  | some .directory => .ok .directory
  | some entry => if path.forDirectory then .error .notADirectory else .ok entry

/-- The contents of a file. -/
def read (disk : Disk) (path : String) : Except IoError Bytes :=
  match disk.find path with
  | .error e => .error e
  | .ok .directory => .error .isADirectory
  | .ok (.file contents) => .ok contents
  | .ok (.device device) => device.read

/-- Replaces the contents of a file, or makes it. A path for a directory is refused
    before its last name is looked up. -/
def write (disk : Disk) (path : String) (contents : Bytes) : Except IoError Disk := do
  let path ← Path.parse path
  let directory ← disk.parent path
  if path.forDirectory then .error .isADirectory
  else
    let location ← target directory path
    match disk.lookup location with
    | some .directory => .error .isADirectory
    | some (.device device) => (device.write contents).map fun () => disk
    | _ => .ok (disk.put location (.file contents))

/-- Makes a directory. -/
def makeDirectory (disk : Disk) (path : String) : Except IoError Disk := do
  let path ← Path.parse path
  let directory ← disk.parent path
  let location ← target directory path
  .ok (disk.put location .directory)

/-- The files in the working directory that differ from those on an earlier disk, by
    name. -/
def changedSince (disk before : Disk) : List (String × Bytes) :=
  disk.entries.filterMap fun (location, entry) =>
    match entry, location.getLast? with
    | .file contents, some name =>
      if location = disk.working ++ [name] ∧ before.lookup location ≠ some entry then
        some (name, contents)
      else none
    | _, _ => none

end Disk

instance : FileSystem (StateM Disk) where
  pathExists path := return (← get).find path matches .ok _
  readFile path := return (← get).read path
  writeFile path contents := do
    match (← get).write path contents with
    | .ok disk => set disk; return .ok ()
    | .error e => return .error e

end UniversalMachine
