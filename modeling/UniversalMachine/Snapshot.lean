/-
  UniversalMachine.Snapshot

  Snapshots: everything that decides what a machine will do next. Cycles and the
  heap's capacity are not part of it, and a restored machine keeps its own.
-/

import UniversalMachine.Machine

namespace UniversalMachine

/-- The state of a machine between two instructions. -/
structure Snapshot where
  ip : Word
  registers : Registers
  arrays : ArrayTable
  /-- Where the search for the next handle starts. -/
  nextHandle : Handle
  deriving DecidableEq

namespace Snapshot

/-- A snapshot whose handle counter follows the largest handle in use. -/
def ofArrays (ip : Word) (registers : Registers) (arrays : ArrayTable) : Snapshot where
  ip := ip
  registers := registers
  arrays := arrays
  nextHandle := Heap.counterAfter arrays.keys

/-- The program, if the snapshot has one. -/
def program? (s : Snapshot) : Option (Array Word) :=
  s.arrays[(0 : Handle)]?

/-- The memory a kept snapshot counts for, in bytes: four for each word, thirty-two for
    each array, and forty for the rest. -/
def estimatedSize (s : Snapshot) : Nat :=
  s.arrays.wordCount * 4 + s.arrays.size * 32 + 40

end Snapshot

namespace Machine

/-- The state of a machine. -/
def capture (m : Machine) : Snapshot where
  ip := m.ip
  registers := m.registers
  arrays := m.heap.arrays
  nextHandle := m.heap.next

/-- The machine put into a captured state, its capacity and cycles kept. -/
def restore (m : Machine) (s : Snapshot) : Machine where
  ip := s.ip
  registers := s.registers
  heap := (Heap.ofArrays s.arrays s.nextHandle).setCapacity m.heap.capacity
  cycles := m.cycles

/-- A new machine in a captured state. -/
def ofSnapshot (s : Snapshot) : Machine :=
  (ofProgram #[]).restore s

end Machine

end UniversalMachine
