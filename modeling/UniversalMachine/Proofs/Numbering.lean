/-
  UniversalMachine.Proofs.Numbering

  When a restored machine numbers its arrays as the original would have.

  Restoring keeps the arrays and the counter of a snapshot, except that a counter
  which is not above every live handle is raised past the largest one. While the
  counter has not yet run past its end nothing is raised, and the restored heap is
  the original. After that the counter may be behind a live handle, and the rule
  takes it for out of date. `Machine.restored_numbering_iff` says exactly which
  machines come back with the same numbering: those whose counter, 0 counting as 1,
  is not behind `Heap.counterAfter` of their live handles. For every other machine
  there are requests that are answered with different handles; freeing the largest
  array and asking for a new one will do.
-/

import UniversalMachine.Proofs.HandleSearch
import UniversalMachine.Proofs.Persistence

namespace UniversalMachine

namespace Heap

/-! ## Answering requests -/

/-- What decides about the handles of a heap. -/
inductive Request where
  | allocate (size : Word)
  | free (handle : Handle)
  | setCapacity (capacity : Option Nat)
  deriving DecidableEq, Repr

/-- Carries out a request, and shows the handle it was answered with, if any. A request that is
    refused changes nothing. -/
def serve (heap : Heap) : Request → Option Handle × Heap
  | .allocate size =>
    match heap.allocate size with
    | .ok (handle, heap) => (some handle, heap)
    | .error _ => (none, heap)
  | .free handle =>
    match heap.free handle with
    | .ok heap => (none, heap)
    | .error _ => (none, heap)
  | .setCapacity capacity => (none, heap.setCapacity capacity)

/-- The handles issued in a sequence of requests, request by request. -/
def numbering (heap : Heap) : List Request → List (Option Handle)
  | [] => []
  | request :: requests => (heap.serve request).1 :: (heap.serve request).2.numbering requests

/-! ## Counters that number alike -/

/-- The heap with its counter moved. -/
def startAt (heap : Heap) (next : Handle) : Heap :=
  { heap with next }

theorem startAt_self (heap : Heap) : heap.startAt heap.next = heap := rfl

/-- A heap rebuilt from its arrays and counter differs from the original in the counter only. -/
theorem ofArrays_eq_startAt {heap : Heap} (h : heap.WellFormed) :
    (ofArrays heap.arrays heap.next).setCapacity heap.capacity =
      heap.startAt (max heap.next (counterAfter heap.handles)) := by
  obtain ⟨arrays, next, totalWords, capacity⟩ := heap
  obtain ⟨hprogram, htotal⟩ := h
  have harrays : arrays.withProgram = arrays := ArrayTable.withProgram_eq_self hprogram
  have hwords : totalWords = arrays.wordCount := htotal
  rw [ofArrays, setCapacity, harrays, hwords]
  rfl

theorem nextHandle?_startAt_one {heap : Heap} (hnext : heap.next = 0) :
    (heap.startAt 1).nextHandle? = heap.nextHandle? := by
  apply Option.ext
  intro handle
  rw [nextHandle?_eq_some_iff, nextHandle?_eq_some_iff, hnext]
  exact ArrayTable.firstFree_zero_iff.symm

/-- A counter of 0 and a counter of 1 answer every request alike. -/
theorem numbering_startAt_one {heap : Heap} (hnext : heap.next = 0) (requests : List Request) :
    (heap.startAt 1).numbering requests = heap.numbering requests := by
  induction requests generalizing heap with
  | nil => rfl
  | cons request requests ih =>
    rw [numbering, numbering]
    cases request with
    | allocate size =>
      have hcheck : (heap.startAt 1).checkAllocate size = heap.checkAllocate size := by
        simp only [checkAllocate, nextHandle?_startAt_one hnext]
        rfl
      simp only [serve, allocate, hcheck]
      cases heap.checkAllocate size with
      | error e => exact congrArg _ (ih hnext)
      | ok handle => rfl -- the counter is set anew, so the heaps are equal from here on
    | free handle =>
      have hcheck : (heap.startAt 1).checkFree handle = heap.checkFree handle := rfl
      simp only [serve, free, hcheck]
      cases heap.checkFree handle with
      | error e => exact congrArg _ (ih hnext)
      | ok _ => exact congrArg _ (@ih (heap.unbind handle) hnext)
    | setCapacity capacity => exact congrArg _ (@ih (heap.setCapacity capacity) hnext)

/-! ## Counters that do not -/

/-- An array is removed and, memory being unbounded, a new one gets the first free handle. -/
theorem numbering_free_allocate {heap : Heap} {old handle : Handle} (hne : old ≠ 0)
    (hlive : old ∈ heap.arrays)
    (hfirst : ArrayTable.FirstFree (heap.arrays.erase old) heap.next handle) :
    heap.numbering [.setCapacity none, .free old, .allocate 0] = [none, none, some handle] := by
  have hfree : (heap.setCapacity none).free old = .ok ((heap.setCapacity none).unbind old) := by
    have hisLive : (heap.setCapacity none).isLive old = true :=
      Std.ExtTreeMap.mem_iff_contains.1 hlive
    have hcheck : (heap.setCapacity none).checkFree old = .ok () := by
      rw [checkFree, if_neg hne, if_pos hisLive]
    rw [free, hcheck]
  have hnext : ((heap.setCapacity none).unbind old).nextHandle? = some handle :=
    nextHandle?_eq_some_iff.2 hfirst
  have hallocate : ((heap.setCapacity none).unbind old).allocate 0 =
      .ok (handle, ((heap.setCapacity none).unbind old).bind handle 0) := by
    have hcheck : ((heap.setCapacity none).unbind old).checkAllocate 0 = .ok handle := by
      rw [checkAllocate, hnext]
      rfl
    rw [allocate, hcheck]
  simp only [numbering, serve, hfree, hallocate]

/-- A counter behind the largest handle, 0 counting as 1, numbers differently once it is moved
    past that handle. -/
theorem numbering_startAt_ne {heap : Heap} {largest : Handle} (hlive : largest ∈ heap.arrays)
    (hmax : ∀ handle ∈ heap.arrays, handle ≤ largest) (hbehind : max 1 heap.next < largest + 1) :
    (heap.startAt (largest + 1)).numbering [.setCapacity none, .free largest, .allocate 0] ≠
      heap.numbering [.setCapacity none, .free largest, .allocate 0] := by
  have hlt := largest.toNat_lt
  rw [UInt32.lt_iff_toNat_lt, UInt32.toNat_max, UInt32.toNat_add] at hbehind
  have hone : (1 : Handle).toNat = 1 := rfl
  rw [hone] at hbehind
  -- the largest handle is neither 0 nor the last of all handles
  have hsucc : (largest + 1).toNat = largest.toNat + 1 := by
    rw [UInt32.toNat_add, hone]
    omega
  have hne : largest ≠ 0 := by
    rintro rfl
    have hzero : (0 : Handle).toNat = 0 := rfl
    omega
  have hfreed : ArrayTable.Free (heap.arrays.erase largest) largest := ⟨hne, by simp⟩
  -- past the largest handle the first one looked at is free
  have habove : ArrayTable.FirstFree (heap.arrays.erase largest) (largest + 1) (largest + 1) := by
    refine ⟨0, by simp, ⟨?_, ?_⟩, by omega⟩
    · intro hzero
      have := congrArg UInt32.toNat hzero
      rw [hsucc] at this
      exact absurd this (by simp)
    · intro hmem
      have hle := hmax _ (Std.ExtTreeMap.mem_of_mem_erase hmem)
      rw [UInt32.le_iff_toNat_le] at hle
      omega
  -- from the old counter the freed handle comes first
  obtain ⟨handle, hfirst⟩ := ArrayTable.exists_firstFree heap.next ⟨largest, hfreed⟩
  have hle : handle ≤ largest := by
    refine hfirst.le hfreed ?_
    rw [UInt32.le_iff_toNat_le]
    omega
  have hmoved : (heap.startAt (largest + 1)).numbering
      [.setCapacity none, .free largest, .allocate 0] = [none, none, some (largest + 1)] :=
    numbering_free_allocate hne hlive habove
  rw [hmoved, numbering_free_allocate hne hlive hfirst]
  intro heq
  have hsame : largest + 1 = handle := by simpa using heq
  rw [UInt32.le_iff_toNat_le, ← hsame, hsucc] at hle
  omega

end Heap

namespace Machine

/-! ## Restored machines -/

/-- The heap of a machine restored from the state of another, with the same capacity. -/
theorem heap_restore_capture {m : Machine} (h : m.heap.WellFormed) (k : Machine) :
    ((k.restore m.capture).setCapacity m.heap.capacity).heap =
      m.heap.startAt (max m.heap.next (Heap.counterAfter m.heap.handles)) :=
  Heap.ofArrays_eq_startAt h

/-- Restoring a machine's state, the capacity set to the same, gives a machine that answers every
    sequence of later requests with the same handles if and only if the counter, 0 counting as 1,
    is not behind the counter after the live handles. In every other state the counter is moved to
    one past the largest live handle. -/
theorem restored_numbering_iff {m : Machine} (hreach : m.Reachable) (k : Machine) :
    ((∀ requests, ((k.restore m.capture).setCapacity m.heap.capacity).heap.numbering requests =
        m.heap.numbering requests) ↔
      Heap.counterAfter m.heap.handles ≤ max 1 m.heap.next) ∧
    (¬Heap.counterAfter m.heap.handles ≤ max 1 m.heap.next →
      ∃ largest ∈ m.heap.arrays, (∀ handle ∈ m.heap.arrays, handle ≤ largest) ∧
        m.heap.next ≤ largest ∧ (k.restore m.capture).heap.next = largest + 1) := by
  have hwell := hreach.wellFormed
  have hheap := heap_restore_capture hwell k
  obtain ⟨largest, hlive, hmax, hcounter⟩ := Heap.exists_largest hwell.program_live
  change Heap.counterAfter m.heap.handles = _ at hcounter
  rw [hcounter] at hheap ⊢
  have hone : (1 : Handle).toNat = 1 := UInt32.toNat_one
  have hzero : (0 : Handle).toNat = 0 := UInt32.toNat_zero
  -- a counter that is behind is behind the largest handle, and is moved past it
  have hraised : ¬max 1 (largest + 1) ≤ max 1 m.heap.next →
      max 1 m.heap.next < largest + 1 ∧ max m.heap.next (max 1 (largest + 1)) = largest + 1 := by
    intro hbehind
    rw [UInt32.le_iff_toNat_le] at hbehind
    rw [UInt32.lt_iff_toNat_lt, ← UInt32.toNat_inj]
    simp only [UInt32.toNat_max] at hbehind ⊢
    omega
  refine ⟨⟨?_, ?_⟩, ?_⟩
  · intro hsame
    by_contra hbehind
    obtain ⟨hlt, hmoved⟩ := hraised hbehind
    rw [hheap, hmoved] at hsame
    exact Heap.numbering_startAt_ne hlive hmax hlt (hsame _)
  · intro hle requests
    rw [hheap]
    by_cases hkept : max 1 (largest + 1) ≤ m.heap.next
    · rw [Heap.max_eq_left_of_le hkept, Heap.startAt_self]
    · -- the one counter that is raised without consequence
      have hnext : m.heap.next = 0 := by
        rw [UInt32.le_iff_toNat_le] at hkept hle
        simp only [UInt32.toNat_max] at hkept hle
        apply UInt32.toNat_inj.1
        omega
      have hmoved : max m.heap.next (max 1 (largest + 1)) = 1 := by
        rw [UInt32.le_iff_toNat_le] at hle
        rw [← UInt32.toNat_inj]
        simp only [UInt32.toNat_max, hnext] at hle ⊢
        omega
      rw [hmoved]
      exact Heap.numbering_startAt_one hnext requests
  · intro hbehind
    obtain ⟨hlt, hmoved⟩ := hraised hbehind
    refine ⟨largest, hlive, hmax, ?_, ?_⟩
    · have hlast := largest.toNat_lt
      rw [UInt32.lt_iff_toNat_lt, UInt32.toNat_max, UInt32.toNat_add] at hlt
      rw [UInt32.le_iff_toNat_le]
      omega
    · have hnext := congrArg Heap.next hheap
      rw [hmoved] at hnext
      exact hnext

/-- Carries out some instructions, without input. -/
def afterSteps (m : Machine) (count : Nat) : Machine :=
  ((Configuration.mk m InputQueue.empty OutputBuffer.empty).steps count).2.machine

theorem Reachable.steps {ι σ : Type} [InputSource ι] [OutputSink σ] {c : Configuration ι σ}
    (h : c.machine.Reachable) (count : Nat) : (c.steps count).2.machine.Reachable := by
  induction count generalizing c with
  | zero => exact h
  | succ count ih =>
    have hstep := Reachable.step c h
    rw [Configuration.steps]
    rcases hs : c.step with ⟨_ | outcome, c'⟩
    · rw [hs] at hstep
      exact ih hstep
    · rw [hs] at hstep
      exact hstep

/-- A machine whose counter is at the last handle but one. Its program asks for two arrays, gives
    the second back and asks for a third. -/
def nearTheEnd : Machine :=
  ofSnapshot
    { ip := 0
      registers := .zero
      arrays := (∅ : ArrayTable).insert 0
        #[Instruction.assembleStandard 8 0 1 0, Instruction.assembleStandard 8 0 2 0,
          Instruction.assembleStandard 9 0 0 2, Instruction.assembleStandard 8 0 3 0]
      nextHandle := 0xFFFFFFFE }

theorem restored_numbering_iff_nearTheEnd :
    (nearTheEnd.afterSteps 2).Reachable ∧
    (nearTheEnd.afterSteps 2).heap.handles = [0, 0xFFFFFFFE, 0xFFFFFFFF] ∧
    (nearTheEnd.afterSteps 2).heap.next = 0 ∧
    ∀ requests,
      ((nearTheEnd.restore (nearTheEnd.afterSteps 2).capture).setCapacity
          (nearTheEnd.afterSteps 2).heap.capacity).heap.numbering requests =
        (nearTheEnd.afterSteps 2).heap.numbering requests := by
  have hreach : (nearTheEnd.afterSteps 2).Reachable := Reachable.steps (.ofSnapshot _) 2
  refine ⟨hreach, by decide, by decide, ?_⟩
  exact (restored_numbering_iff hreach nearTheEnd).1.2 (by decide)

/-- Three instructions later the counter is behind a live handle, and a restored machine gives the
    third array another handle than the original does. -/
theorem restored_numbers_differently :
    (nearTheEnd.afterSteps 3).Reachable ∧
    (nearTheEnd.afterSteps 3).heap.handles = [0, 0xFFFFFFFE] ∧
    (nearTheEnd.afterSteps 3).heap.numbering [.allocate 0] = [some 1] ∧
    (ofSnapshot (nearTheEnd.afterSteps 3).capture).heap.numbering [.allocate 0] =
      [some 0xFFFFFFFF] ∧
    ((nearTheEnd.afterSteps 3).afterSteps 1).reg 3 = 1 ∧
    ((ofSnapshot (nearTheEnd.afterSteps 3).capture).afterSteps 1).reg 3 = 0xFFFFFFFF := by
  have hreach : (nearTheEnd.afterSteps 3).Reachable := Reachable.steps (.ofSnapshot _) 3
  exact ⟨hreach, by decide, by decide, by decide, by decide, by decide⟩

end Machine

end UniversalMachine
