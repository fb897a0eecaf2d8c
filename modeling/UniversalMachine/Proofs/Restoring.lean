/-
  UniversalMachine.Proofs.Restoring

  Restoring a state brings it into normal form, and does nothing else.

  Any state can be restored: one without a program gets an empty one, and a counter
  that is behind the live handles is moved past them. The result no longer depends on
  the machine it was restored into, but for the capacity and the cycles, which stay;
  and it is in normal form (`Machine.counterAfter_le_next_restore`), so that restoring
  it once more changes nothing.

  The counter that results is never 0. Unless the last handle of all is live it is
  ahead of every live handle (`Machine.ahead_restore`), and then it is the handle that
  is issued next; if the last handle is live, the search goes on from the counter to
  the first handle that is free.
-/

import Mathlib.Algebra.GroupWithZero.Nat
import UniversalMachine.Proofs.CommandUndo
import UniversalMachine.Proofs.Freshness

namespace UniversalMachine

namespace ArrayTable

theorem wordCount_eq_sum (arrays : ArrayTable) :
    arrays.wordCount = (arrays.toList.map fun entry => entry.2.size).sum :=
  List.foldr_map.symm

theorem getElem?_withProgram (arrays : ArrayTable) (handle : Handle) :
    arrays.withProgram[handle]? =
      if handle = 0 ∧ (0 : Handle) ∉ arrays then some #[] else arrays[handle]? := by
  rw [withProgram, Std.ExtTreeMap.getElem?_insertIfNew]
  simp only [Std.LawfulEqCmp.compare_eq_iff_eq, eq_comm (a := (0 : Handle))]

end ArrayTable

namespace Heap

/-- A heap that has room and a free handle grants an allocation. -/
theorem allocate_granted {heap : Heap} (hwell : heap.WellFormed) {size : Word}
    (hfits : ¬heap.Exceeds (heap.totalWords + size.toNat))
    (hfree : ∃ handle, heap.arrays.Free handle) :
    ∃ handle, heap.allocate size = .ok (handle, heap.bind handle size) := by
  obtain ⟨hover, -⟩ | ⟨-, -, hok⟩ | ⟨-, hall, -⟩ := allocate_cases hwell size
  · exact absurd hover hfits
  · exact hok
  · obtain ⟨handle, hfree⟩ := hfree
    exact absurd (hall handle) hfree.2

end Heap

namespace Machine

/-! ## The counter -/

/-- The arrays that a state is restored to have a largest handle, and the counter is not behind
    the handle that follows it, nor behind 1. -/
theorem exists_largest_restore (m : Machine) (s : Snapshot) :
    ∃ largest ∈ (m.restore s).heap.arrays,
      (∀ handle ∈ (m.restore s).heap.arrays, handle ≤ largest) ∧
      (m.restore s).heap.next = max s.nextHandle (max 1 (largest + 1)) := by
  obtain ⟨largest, hlive, hmax, hcounter⟩ :=
    Heap.exists_largest (ArrayTable.program_mem_withProgram s.arrays)
  exact ⟨largest, hlive, hmax, congrArg (max s.nextHandle) hcounter⟩

theorem one_le_next_restore (m : Machine) (s : Snapshot) : 1 ≤ (m.restore s).heap.next := by
  obtain ⟨largest, -, -, hnext⟩ := m.exists_largest_restore s
  rw [hnext, UInt32.le_iff_toNat_le, UInt32.toNat_max, UInt32.toNat_max]
  omega

/-- Unless the last handle is live, the counter is above every live handle. -/
theorem ahead_restore (m : Machine) {s : Snapshot}
    (hlast : (0xFFFFFFFF : Handle) ∉ (m.restore s).heap.arrays) : (m.restore s).heap.Ahead := by
  obtain ⟨largest, hlive, hmax, hnext⟩ := m.exists_largest_restore s
  -- so one past the largest handle is a handle
  have hne : largest.toNat ≠ 0xFFFFFFFF := by
    intro heq
    have hsame : largest = 0xFFFFFFFF := UInt32.toNat_inj.1 heq
    rw [hsame] at hlive
    exact hlast hlive
  have hlt := largest.toNat_lt
  intro handle hmem
  have hle := hmax handle hmem
  rw [UInt32.le_iff_toNat_le] at hle
  rw [hnext, UInt32.lt_iff_toNat_lt, UInt32.toNat_max, UInt32.toNat_max, UInt32.toNat_add,
    UInt32.toNat_one]
  omega

/-- The counter of a restored state would not be raised again. -/
theorem counterAfter_le_next_restore (m : Machine) (s : Snapshot) :
    Heap.counterAfter (m.restore s).heap.handles ≤ (m.restore s).heap.next := by
  show Heap.counterAfter s.arrays.withProgram.keys ≤
    max s.nextHandle (Heap.counterAfter s.arrays.withProgram.keys)
  rw [UInt32.le_iff_toNat_le, UInt32.toNat_max]
  omega

/-- A state that has been restored is restored to itself. -/
theorem restore_capture_restore (m : Machine) (s : Snapshot) :
    (m.restore s).restore (m.restore s).capture = m.restore s := by
  have hheap := Heap.ofArrays_eq_self (wellFormed_restore m s) (m.counterAfter_le_next_restore s)
  exact congrArg (Machine.mk s.ip s.registers · m.cycles) hheap

/-! ## Normal form -/

/-- What becomes of a machine when a state is restored into it. -/
structure Restores (m : Machine) (s : Snapshot) (r : Machine) : Prop where
  ip_eq : r.capture.ip = s.ip
  registers_eq : r.capture.registers = s.registers
  /-- The arrays are those of the state, with an empty program if it has none. -/
  arrays_eq (handle : Handle) : r.capture.arrays[handle]? =
    if handle = 0 ∧ (0 : Handle) ∉ s.arrays then some #[] else s.arrays[handle]?
  /-- The counter is that of the state, raised past the live handles if it is behind them. -/
  counter_eq : r.capture.nextHandle = max s.nextHandle (Heap.counterAfter r.heap.handles)
  /-- Of the machine only the capacity and the cycles are left. -/
  capacity_eq : r.heap.capacity = m.heap.capacity
  cycles_eq : r.cycles = m.cycles
  eq_restore {k : Machine} : k.heap.capacity = m.heap.capacity → k.cycles = m.cycles →
    k.restore s = r
  capture_eq (k : Machine) : (k.restore s).capture = r.capture
  total_eq : r.heap.totalWords = (r.heap.arrays.toList.map fun entry => entry.2.size).sum
  /-- Restoring the state that results changes nothing, and gives the same state anywhere. -/
  restore_self : r.restore r.capture = r
  capture_restore_self (k : Machine) : (k.restore r.capture).capture = r.capture

/-- Which handles a heap issues next, if its counter is ahead of every live handle unless the last
    handle is live. -/
structure NumbersOn (heap : Heap) : Prop where
  one_le : 1 ≤ heap.next
  above {handle : Handle} : (0xFFFFFFFF : Handle) ∉ heap.arrays → handle ∈ heap.arrays →
    handle < heap.next
  /-- The first allocation that is granted gets the counter, whatever has been asked before. -/
  first_issued {ops : List HeapOperation} {handle : Handle} :
    (0xFFFFFFFF : Handle) ∉ heap.arrays →
      (Heap.issued (heap.operateAll ops).1).head? = some handle → handle = heap.next
  /-- It is granted at once if there is room. -/
  allocate_eq {size : Word} : (0xFFFFFFFF : Handle) ∉ heap.arrays →
    ¬heap.Exceeds (heap.totalWords + size.toNat) →
      heap.allocate size = .ok (heap.next, heap.bind heap.next size)
  /-- With the last handle live, an allocation still gets a handle that is free, if any is. -/
  allocate_fresh {size : Word} : (0xFFFFFFFF : Handle) ∈ heap.arrays →
    (∃ handle, handle ≠ 0 ∧ handle ∉ heap.arrays) →
    ¬heap.Exceeds (heap.totalWords + size.toNat) →
      ∃ handle, heap.allocate size = .ok (handle, heap.bind handle size) ∧ handle ≠ 0 ∧
        handle ∉ heap.arrays

theorem restores_restore (m : Machine) (s : Snapshot) : m.Restores s (m.restore s) where
  ip_eq := rfl
  registers_eq := rfl
  arrays_eq := s.arrays.getElem?_withProgram
  counter_eq := rfl
  capacity_eq := rfl
  cycles_eq := rfl
  eq_restore hcapacity hcycles := by rw [restore, restore, hcapacity, hcycles]
  capture_eq _ := rfl
  total_eq := ArrayTable.wordCount_eq_sum _
  restore_self := m.restore_capture_restore s
  capture_restore_self k :=
    k.capture_restore_capture (wellFormed_restore m s) (m.counterAfter_le_next_restore s)

theorem numbersOn_restore (m : Machine) (s : Snapshot) : NumbersOn (m.restore s).heap where
  one_le := m.one_le_next_restore s
  above hlast hlive := m.ahead_restore hlast _ hlive
  first_issued hlast hissued := by
    rw [List.head?_eq_getElem?] at hissued
    have hnumber := (m.ahead_restore hlast).getElem?_issued (wellFormed_restore m s) hissued
      (UInt32.toNat_lt _)
    exact UInt32.toNat_inj.1 hnumber
  allocate_eq {size} hlast hfits := by
    have hwell := wellFormed_restore m s
    obtain ⟨handle, hok⟩ :=
      Heap.allocate_granted hwell hfits ⟨0xFFFFFFFF, by decide, hlast⟩
    obtain rfl := (m.ahead_restore hlast).eq_next hwell (Heap.allocate_eq_ok_iff.1 hok).1
    exact hok
  allocate_fresh {size} _ hfree hfits := by
    obtain ⟨handle, hok⟩ := Heap.allocate_granted (wellFormed_restore m s) hfits hfree
    exact ⟨handle, hok, Heap.checkAllocate_fresh (Heap.allocate_eq_ok_iff.1 hok).1⟩

/-- Restoring normalises a state and does nothing else. The machine then has the pointer, the
    registers and the arrays of the state, an empty program if there was none, and a counter that
    is not behind the live handles; its capacity and cycles are kept, and nothing else of what it
    was. Restored again, such a state stays as it is. Its counter is at least 1 and, unless the
    last handle is live, is the handle that is issued next. -/
theorem restore_normalizes (m : Machine) (s : Snapshot) :
    m.Restores s (m.restore s) ∧ NumbersOn (m.restore s).heap :=
  ⟨m.restores_restore s, m.numbersOn_restore s⟩

/-- A state without a program, whose counter is behind the one live handle. -/
def unprogrammed (handle : Handle) : Snapshot where
  ip := 3
  registers := .zero
  arrays := (∅ : ArrayTable).insert handle #[1, 2]
  nextHandle := 0

/-- A machine without a capacity that such a state was restored into. -/
def reprogrammed (handle : Handle) : Machine :=
  (ofProgram #[7]).restore (unprogrammed handle)

theorem restore_normalizes_unprogrammed :
    (reprogrammed 5).capture.arrays[(0 : Handle)]? = some #[] ∧
    (reprogrammed 5).capture.nextHandle = 6 ∧
    (reprogrammed 5).heap.allocate 4 =
      .ok ((reprogrammed 5).heap.next, (reprogrammed 5).heap.bind (reprogrammed 5).heap.next 4) ∧
    (reprogrammed 0xFFFFFFFF).capture.nextHandle = 1 ∧
    ∃ handle, (reprogrammed 0xFFFFFFFF).heap.allocate 4 =
        .ok (handle, (reprogrammed 0xFFFFFFFF).heap.bind handle 4) ∧
      handle ≠ 0 ∧ handle ∉ (reprogrammed 0xFFFFFFFF).heap.arrays := by
  have hfits (handle : Handle) (words : Nat) : ¬(reprogrammed handle).heap.Exceeds words := by
    rintro ⟨limit, hcapacity, -⟩
    cases hcapacity
  obtain ⟨hrestores, hnumbers⟩ := restore_normalizes (ofProgram #[7]) (unprogrammed 5)
  obtain ⟨hrestores', hnumbers'⟩ := restore_normalizes (ofProgram #[7]) (unprogrammed 0xFFFFFFFF)
  refine ⟨hrestores.arrays_eq 0, hrestores.counter_eq.trans (by decide),
    hnumbers.allocate_eq (by decide) (hfits 5 _), hrestores'.counter_eq.trans (by decide), ?_⟩
  exact hnumbers'.allocate_fresh (by decide) ⟨1, by decide, by decide⟩ (hfits 0xFFFFFFFF _)

end Machine

end UniversalMachine
