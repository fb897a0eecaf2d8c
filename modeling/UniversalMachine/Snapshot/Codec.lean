/-
  UniversalMachine.Snapshot.Codec

  The file format of snapshots.

      magic     4 bytes, "UMST"
      version   1 byte, 1
      ip        1 word
      registers 8 words
      counter   1 word
      count     1 word, the number of arrays
      arrays    handle, length and contents of each, in words

  Arrays are written in ascending order of their handles, so equal snapshots have
  equal files. Reading takes them in any order, and refuses a file that ends
  early, names a handle twice, has no program, or goes on after the last array.
-/

import UniversalMachine.Files
import UniversalMachine.Snapshot

namespace UniversalMachine

/-- Why a snapshot file could not be used. -/
inductive SnapshotError where
  | badMagic
  | unsupportedVersion (version : UInt8)
  | truncated (offset needed : Nat)
  | duplicateHandle (handle : Handle)
  | missingProgram
  | trailingBytes (count : Nat)
  | io (error : IoError)
  deriving DecidableEq, Repr

/-- The wording of an unusable snapshot file. -/
def SnapshotError.message : SnapshotError → String
  | .badMagic => "Not a machine snapshot (bad magic)"
  | .unsupportedVersion version => s!"Unsupported snapshot version {version}"
  | .truncated offset needed =>
    s!"Snapshot truncated: needed {needed} more bytes at offset {offset}"
  | .duplicateHandle handle => s!"Snapshot contains array {handle} twice"
  | .missingProgram => "Snapshot has no program array"
  | .trailingBytes count => s!"Snapshot has {count} unexpected trailing bytes"
  | .io error =>
    let cause := error.message
    s!"Snapshot I/O failed: {cause}"

namespace Snapshot

/-- The four bytes every snapshot file starts with: "UMST". -/
def magic : Bytes := [0x55, 0x4D, 0x53, 0x54]

/-- The version of the format. -/
def version : UInt8 := 1

/-! ## Writing -/

/-- One array in a file: handle, length, contents. -/
def encodeArray (handle : Handle) (array : Array Word) : Bytes :=
  Word.toBytes handle ++ Word.toBytes (.ofNat array.size) ++ Word.listToBytes array.toList

/-- The file of a snapshot. -/
def encode (s : Snapshot) : Bytes :=
  magic ++ [version] ++ Word.toBytes s.ip ++ Word.listToBytes s.registers.toList ++
    Word.toBytes s.nextHandle ++ Word.toBytes (.ofNat s.arrays.size) ++
    s.arrays.toList.flatMap fun entry => encodeArray entry.1 entry.2

/-! ## Reading -/

/-- A place in a file: how many bytes lie before it, and those that follow. -/
structure Cursor where
  offset : Nat
  rest : Bytes
  deriving DecidableEq, Repr

namespace Cursor

/-- The start of a file. -/
def start (bytes : Bytes) : Cursor :=
  { offset := 0, rest := bytes }

/-- Takes the next `count` bytes. -/
def take (cursor : Cursor) (count : Nat) : Except SnapshotError (Bytes × Cursor) :=
  let block := cursor.rest.take count
  if block.length = count then
    .ok (block, { offset := cursor.offset + count, rest := cursor.rest.drop count })
  else .error (.truncated cursor.offset (count - block.length))

/-- Takes a byte. -/
def takeByte (cursor : Cursor) : Except SnapshotError (UInt8 × Cursor) := do
  let (block, cursor) ← cursor.take 1
  return (block.headD 0, cursor)

/-- Takes `count` words. -/
def takeWords (cursor : Cursor) (count : Nat) : Except SnapshotError (List Word × Cursor) := do
  let (block, cursor) ← cursor.take (4 * count)
  return (Word.listOfBytes block, cursor)

/-- Takes a word. -/
def takeWord (cursor : Cursor) : Except SnapshotError (Word × Cursor) := do
  let (words, cursor) ← cursor.takeWords 1
  return (words.headD 0, cursor)

/-- Takes the registers, each of them a word of its own. -/
def takeRegisters (cursor : Cursor) : Except SnapshotError (Registers × Cursor) := do
  let (r₀, cursor) ← cursor.takeWord
  let (r₁, cursor) ← cursor.takeWord
  let (r₂, cursor) ← cursor.takeWord
  let (r₃, cursor) ← cursor.takeWord
  let (r₄, cursor) ← cursor.takeWord
  let (r₅, cursor) ← cursor.takeWord
  let (r₆, cursor) ← cursor.takeWord
  let (r₇, cursor) ← cursor.takeWord
  return (#v[r₀, r₁, r₂, r₃, r₄, r₅, r₆, r₇], cursor)

/-- Takes an array and its handle. -/
def takeArray (cursor : Cursor) : Except SnapshotError ((Handle × Array Word) × Cursor) := do
  let (handle, cursor) ← cursor.takeWord
  let (length, cursor) ← cursor.takeWord
  let (words, cursor) ← cursor.takeWords length.toNat
  return ((handle, words.toArray), cursor)

/-- Adds `count` arrays to those already taken. -/
def takeArrays : (count : Nat) → Cursor → ArrayTable →
    Except SnapshotError (ArrayTable × Cursor)
  | 0, cursor, arrays => .ok (arrays, cursor)
  | count + 1, cursor, arrays => do
    let ((handle, array), cursor) ← cursor.takeArray
    if arrays.contains handle then throw (.duplicateHandle handle)
    else takeArrays count cursor (arrays.insert handle array)

/-- Takes the magic; a file too short for it has the wrong one. -/
def takeMagic (cursor : Cursor) : Except SnapshotError Cursor :=
  match cursor.take magic.length with
  | .ok (block, cursor) => if block = magic then .ok cursor else .error .badMagic
  | .error _ => .error .badMagic

/-- Takes the version. -/
def takeVersion (cursor : Cursor) : Except SnapshotError Cursor := do
  let (found, cursor) ← cursor.takeByte
  if found = version then return cursor else throw (.unsupportedVersion found)

end Cursor

/-- The snapshot in a file. -/
def decode (bytes : Bytes) : Except SnapshotError Snapshot := do
  let cursor ← (Cursor.start bytes).takeMagic
  let cursor ← cursor.takeVersion
  let (ip, cursor) ← cursor.takeWord
  let (registers, cursor) ← cursor.takeRegisters
  let (nextHandle, cursor) ← cursor.takeWord
  let (count, cursor) ← cursor.takeWord
  let (arrays, cursor) ← Cursor.takeArrays count.toNat cursor ∅
  if cursor.rest ≠ [] then throw (.trailingBytes cursor.rest.length)
  else if ¬arrays.contains 0 then throw .missingProgram
  else return { ip, registers, arrays, nextHandle }

/-! ## Files -/

variable {m : Type → Type} [Monad m] [FileSystem m]

/-- Writes a snapshot to a file. -/
def save (s : Snapshot) (path : String) : m (Except SnapshotError Unit) := do
  match ← FileSystem.writeFile path s.encode with
  | .ok () => return .ok ()
  | .error e => return .error (.io e)

/-- Reads the snapshot stored in a file. -/
def load (path : String) : m (Except SnapshotError Snapshot) := do
  match ← FileSystem.readFile path with
  | .ok bytes => return decode bytes
  | .error e => return .error (.io e)

end Snapshot

end UniversalMachine
