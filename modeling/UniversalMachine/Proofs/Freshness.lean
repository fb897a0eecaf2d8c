/-
  UniversalMachine.Proofs.Freshness

  Handles are fresh, and nothing is reached through a handle that was given back.

  Both are statements about whole histories. Which handles are live can be read off
  what the operations were answered (`LiveBy`): a handle is live from the event that
  issued it to the event that freed it, and the handles a heap starts with are live
  until they are freed. One operation changes the live handles by what its event says
  (`Performs.mem_iff`), and a history by all of its events (`mem_operateAll_iff`).

  The numbering rests on the counter being ahead of every live handle (`Ahead`). Then
  the counter itself is the first free handle, so it is issued, and the counter stays
  ahead until it comes back to 0 (`Performs.ahead`).
-/

import UniversalMachine.Proofs.HeapOperations

namespace UniversalMachine

/-! ## Histories -/

namespace HeapEvent

/-- The handle that was issued, if the event is an allocation that was granted. -/
def issues? (event : HeapEvent) : Option Handle :=
  match event.operation, event.answer with
  | .allocate _, .ok (some handle) => some handle
  | _, _ => none

/-- The handle that was given back, if the event is a removal that was granted. -/
def frees? (event : HeapEvent) : Option Handle :=
  match event.operation, event.answer with
  | .free handle, .ok _ => some handle
  | _, _ => none

end HeapEvent

namespace Heap

/-- The handles that were issued, in order. -/
def issued (events : List HeapEvent) : List Handle :=
  events.filterMap HeapEvent.issues?

/-- A handle is live by what has happened: it was live at the start and never freed, or it was
    issued and not freed since. -/
def LiveBy (initially : Prop) (events : List HeapEvent) (handle : Handle) : Prop :=
  (initially ∧ ∀ event ∈ events, event.frees? ≠ some handle) ∨
  ∃ before event after, events = before ++ event :: after ∧ event.issues? = some handle ∧
    ∀ later ∈ after, later.frees? ≠ some handle

/-- The first event of a history can be counted to what was before. -/
theorem liveBy_cons {initially : Prop} {event : HeapEvent} {events : List HeapEvent}
    {handle : Handle} :
    LiveBy initially (event :: events) handle ↔
      LiveBy (event.issues? = some handle ∨ (initially ∧ event.frees? ≠ some handle)) events
        handle := by
  constructor
  · rintro (⟨hinit, hkept⟩ | ⟨before, issuing, after, hevents, hissues, hkept⟩)
    · obtain ⟨hevent, hkept⟩ := List.forall_mem_cons.1 hkept
      exact .inl ⟨.inr ⟨hinit, hevent⟩, hkept⟩
    · cases before with
      | nil =>
        obtain ⟨rfl, rfl⟩ := List.cons.inj hevents
        exact .inl ⟨.inl hissues, hkept⟩
      | cons first before =>
        obtain ⟨-, hrest⟩ := List.cons.inj hevents
        exact .inr ⟨before, issuing, after, hrest, hissues, hkept⟩
  · rintro (⟨hissues | ⟨hinit, hevent⟩, hkept⟩ | ⟨before, issuing, after, rfl, hissues, hkept⟩)
    · exact .inr ⟨[], event, events, rfl, hissues, hkept⟩
    · exact .inl ⟨hinit, List.forall_mem_cons.2 ⟨hevent, hkept⟩⟩
    · exact .inr ⟨event :: before, issuing, after, rfl, hissues, hkept⟩

/-! ## Live handles -/

/-- An operation adds the handle it issues to the live ones and takes out the one it frees. -/
theorem Performs.mem_iff {heap heap' : Heap} {op : HeapOperation}
    {answer : Except HeapError (Option Word)} (hperforms : heap.Performs op answer heap')
    (hwell : heap.WellFormed) (handle : Handle) :
    handle ∈ heap'.arrays ↔
      HeapEvent.issues? ⟨op, answer⟩ = some handle ∨
        (handle ∈ heap.arrays ∧ HeapEvent.frees? ⟨op, answer⟩ ≠ some handle) := by
  cases hperforms with
  | refused _ e => cases op <;> simp [HeapEvent.issues?, HeapEvent.frees?]
  | @allocated size issued _ =>
    have hinsert : handle ∈ (heap.bind issued size).arrays ↔
        issued = handle ∨ handle ∈ heap.arrays := by
      show handle ∈ heap.arrays.insert issued _ ↔ _
      simp
    rw [hinsert]
    simp [HeapEvent.issues?, HeapEvent.frees?]
  | @freed freed _ =>
    have herase : handle ∈ (heap.unbind freed).arrays ↔ freed ≠ handle ∧ handle ∈ heap.arrays := by
      show handle ∈ heap.arrays.erase freed ↔ _
      simp
    rw [herase]
    simp [HeapEvent.issues?, HeapEvent.frees?, and_comm]
  | found _ => simp [HeapEvent.issues?, HeapEvent.frees?]
  | @written target offset value _ =>
    have hmodify : handle ∈ (heap.store target offset value).arrays ↔ handle ∈ heap.arrays :=
      Std.ExtTreeMap.mem_modify
    rw [hmodify]
    simp [HeapEvent.issues?, HeapEvent.frees?]
  | @replaced source _ =>
    have hcopy : handle ∈ (heap.copyToProgram source).arrays ↔ handle ∈ heap.arrays := by
      by_cases hzero : source = 0
      · rw [copyToProgram, if_pos hzero]
      · -- only the program is bound anew, and that is live already
        rw [copyToProgram, if_neg hzero]
        constructor
        · intro hmem
          obtain heq | hmem := Std.ExtTreeMap.mem_insert.1 hmem
          · obtain rfl : 0 = handle := by simpa using heq
            exact hwell.program_live
          · exact hmem
        · exact fun hmem => Std.ExtTreeMap.mem_insert.2 (.inr hmem)
    rw [hcopy]
    simp [HeapEvent.issues?, HeapEvent.frees?]
  | bounded capacity =>
    show handle ∈ heap.arrays ↔ _
    simp [HeapEvent.issues?, HeapEvent.frees?]

/-- The handles that are live after a history are those that are live by it. -/
theorem mem_operateAll_iff {heap : Heap} (hwell : heap.WellFormed) (ops : List HeapOperation)
    (handle : Handle) :
    handle ∈ (heap.operateAll ops).2.arrays ↔
      LiveBy (handle ∈ heap.arrays) (heap.operateAll ops).1 handle := by
  induction ops generalizing heap with
  | nil => simp [operateAll, LiveBy]
  | cons op ops ih =>
    have hperforms := heap.performs_operate op
    have hrest := ih (hperforms.wellFormed hwell)
    rw [operateAll]
    dsimp only
    rw [hrest, liveBy_cons, hperforms.mem_iff hwell handle]

/-! ## The numbering -/

/-- The counter is above every live handle. -/
def Ahead (heap : Heap) : Prop :=
  ∀ handle ∈ heap.arrays, handle < heap.next

/-- A counter that is ahead is itself the next handle. -/
theorem Ahead.eq_next {heap : Heap} (h : heap.Ahead) (hwell : heap.WellFormed) {size : Word}
    {handle : Handle} (hcheck : heap.checkAllocate size = .ok handle) : handle = heap.next := by
  have hne : heap.next ≠ 0 := by
    intro hzero
    have hlt := h 0 hwell.program_live
    rw [hzero] at hlt
    exact UInt32.lt_irrefl _ hlt
  have hfirst : heap.arrays.FirstFree heap.next heap.next := by
    refine ⟨0, by simp, ⟨hne, ?_⟩, by omega⟩
    intro hlive
    exact UInt32.lt_irrefl _ (h _ hlive)
  rw [checkAllocate, nextHandle?_eq_some_iff.2 hfirst] at hcheck
  split at hcheck
  · cases hcheck
  · cases hcheck
    rfl

/-- A counter that is ahead stays where it is and ahead, or is issued and moves on by one; it
    is then still ahead unless that brings it back to 0. -/
theorem Performs.ahead {heap heap' : Heap} {op : HeapOperation}
    {answer : Except HeapError (Option Word)} (hperforms : heap.Performs op answer heap')
    (hwell : heap.WellFormed) (h : heap.Ahead) :
    (HeapEvent.issues? ⟨op, answer⟩ = none ∧ heap'.next = heap.next ∧ heap'.Ahead) ∨
    (HeapEvent.issues? ⟨op, answer⟩ = some heap.next ∧
      (heap.next.toNat + 1 < 2 ^ 32 →
        heap'.next.toNat = heap.next.toNat + 1 ∧ heap'.Ahead)) := by
  have hmem := hperforms.mem_iff hwell
  -- an operation that issues nothing leaves no handle live that was not
  have hkept : HeapEvent.issues? ⟨op, answer⟩ = none → heap'.next = heap.next → heap'.Ahead := by
    intro hnone hnext handle hlive
    rw [hmem, hnone] at hlive
    obtain hissued | ⟨hold, -⟩ := hlive
    · cases hissued
    · rw [hnext]
      exact h handle hold
  cases hperforms with
  | refused _ e =>
    have hnone : HeapEvent.issues? ⟨op, .error e⟩ = none := by cases op <;> rfl
    exact .inl ⟨hnone, rfl, hkept hnone rfl⟩
  | @allocated size handle hcheck =>
    obtain rfl := h.eq_next hwell hcheck
    refine .inr ⟨rfl, ?_⟩
    intro hlt
    have hsucc : (heap.next + 1).toNat = heap.next.toNat + 1 := by
      rw [UInt32.toNat_add, UInt32.toNat_one]
      omega
    refine ⟨hsucc, ?_⟩
    intro handle hlive
    show handle < heap.next + 1
    rw [UInt32.lt_iff_toNat_lt, hsucc]
    obtain hissued | ⟨hold, -⟩ := (hmem handle).1 hlive
    · cases hissued
      omega
    · have hbelow := h handle hold
      rw [UInt32.lt_iff_toNat_lt] at hbelow
      omega
  | freed _ => exact .inl ⟨rfl, rfl, hkept rfl rfl⟩
  | found _ => exact .inl ⟨rfl, rfl, hkept rfl rfl⟩
  | written value _ => exact .inl ⟨rfl, rfl, hkept rfl rfl⟩
  | @replaced source _ =>
    have hnext : (heap.copyToProgram source).next = heap.next := by
      by_cases hzero : source = 0
      · rw [copyToProgram, if_pos hzero]
      · rw [copyToProgram, if_neg hzero]
    exact .inl ⟨rfl, hnext, hkept rfl hnext⟩
  | bounded capacity => exact .inl ⟨rfl, rfl, hkept rfl rfl⟩

/-- While the numbers last, allocations are numbered from the counter on. -/
theorem Ahead.getElem?_issued {heap : Heap} (h : heap.Ahead) (hwell : heap.WellFormed)
    {ops : List HeapOperation} {k : Nat} {handle : Handle}
    (hissued : (issued (heap.operateAll ops).1)[k]? = some handle)
    (hlt : heap.next.toNat + k < 2 ^ 32) : handle.toNat = heap.next.toNat + k := by
  induction ops generalizing heap k with
  | nil => simp [operateAll, issued] at hissued
  | cons op ops ih =>
    have hperforms := heap.performs_operate op
    have hwell' := hperforms.wellFormed hwell
    rw [operateAll, issued, List.filterMap_cons] at hissued
    obtain ⟨hnone, hnext, hahead⟩ | ⟨hsome, hmoved⟩ := hperforms.ahead hwell h
    · rw [hnone] at hissued
      rw [← hnext] at hlt ⊢
      exact ih hahead hwell' hissued hlt
    · rw [hsome] at hissued
      cases k with
      | zero =>
        cases hissued
        rfl
      | succ k =>
        -- the allocation before this one has moved the counter on by one
        obtain ⟨hnext, hahead⟩ := hmoved (by omega)
        have hnumber := ih hahead hwell' hissued (by omega)
        omega

/-! ## The policy -/

/-- What a history promises about handles, if it starts with a counter at `first` and these
    handles live. -/
structure FreshHandles (first : Nat) (initially : Handle → Prop) (events : List HeapEvent)
    (heap : Heap) : Prop where
  /-- Counting from 0, allocation `k` gets the handle `first + k` while there is such a
      handle. -/
  numbered {k : Nat} {handle : Handle} :
    (issued events)[k]? = some handle → first + k < 2 ^ 32 → handle.toNat = first + k
  /-- No handle is issued twice before the numbers run out. -/
  nodup : first + (issued events).length ≤ 2 ^ 32 → (issued events).Nodup
  program_live : heap.isLive 0 = true
  live_iff (handle : Handle) : heap.isLive handle = true ↔ LiveBy (initially handle) events handle
  /-- Every access by another handle is refused. -/
  inactive {handle : Handle} : ¬LiveBy (initially handle) events handle →
    (∀ offset, heap.read handle offset = .error (.inactiveHandle handle)) ∧
    (∀ offset value, heap.write handle offset value = .error (.inactiveHandle handle)) ∧
    heap.replaceProgram handle = .error (.inactiveHandle handle) ∧
    heap.free handle = .error (.inactiveHandle handle)
  free_zero : heap.free 0 = .error .abandonProgram

/-- A handle that is not live is refused by every operation that names it. -/
theorem WellFormed.refused_of_not_mem {heap : Heap} (hwell : heap.WellFormed) {handle : Handle}
    (hdead : handle ∉ heap.arrays) :
    (∀ offset, heap.read handle offset = .error (.inactiveHandle handle)) ∧
    (∀ offset value, heap.write handle offset value = .error (.inactiveHandle handle)) ∧
    heap.replaceProgram handle = .error (.inactiveHandle handle) ∧
    heap.free handle = .error (.inactiveHandle handle) := by
  have hget : heap.get? handle = none := Std.ExtTreeMap.getElem?_eq_none hdead
  have hisLive : ¬heap.isLive handle := fun hlive => hdead (Std.ExtTreeMap.mem_iff_contains.2 hlive)
  have hne : handle ≠ 0 := by
    rintro rfl
    exact hdead hwell.program_live
  refine ⟨fun offset => ?_, fun offset value => ?_, ?_, ?_⟩
  · rw [read, hget]
  · rw [write, checkWrite, hget]
  · rw [replaceProgram, checkReplace, if_neg hne, hget]
  · rw [free, checkFree, if_neg hne, if_neg hisLive]

theorem Ahead.freshHandles {heap : Heap} (h : heap.Ahead) (hwell : heap.WellFormed)
    (ops : List HeapOperation) :
    FreshHandles heap.next.toNat (· ∈ heap.arrays) (heap.operateAll ops).1
      (heap.operateAll ops).2 where
  numbered := h.getElem?_issued hwell
  nodup hlength := by
    rw [List.nodup_iff_pairwise_ne, List.pairwise_iff_getElem]
    intro i j hi hj hij heq
    -- equal handles would have equal numbers
    have hnumber := h.getElem?_issued hwell (List.getElem?_eq_getElem hi) (by omega)
    have hnumber' := h.getElem?_issued hwell (List.getElem?_eq_getElem hj) (by omega)
    rw [heq] at hnumber
    omega
  program_live := Std.ExtTreeMap.mem_iff_contains.1 (hwell.operateAll ops).program_live
  live_iff handle := by
    rw [← mem_operateAll_iff hwell ops handle]
    exact Std.ExtTreeMap.mem_iff_contains.symm
  inactive {handle} hdead := by
    rw [← mem_operateAll_iff hwell ops handle] at hdead
    exact (hwell.operateAll ops).refused_of_not_mem hdead
  free_zero := rfl

theorem mem_ofProgram_iff {program : Array Word} {handle : Handle} :
    handle ∈ (ofProgram program).arrays ↔ handle = 0 := by
  rw [ofProgram, Std.ExtTreeMap.mem_insert, Std.LawfulEqCmp.compare_eq_iff_eq, eq_comm]
  simp

theorem ahead_ofProgram (program : Array Word) : (ofProgram program).Ahead := by
  intro handle hlive
  rw [mem_ofProgram_iff.1 hlive]
  show (0 : Handle) < 1
  decide

/-- A counter that is above every live handle is not raised. -/
theorem next_ofArrays {arrays : ArrayTable} {next : Handle}
    (h : ∀ handle ∈ arrays.withProgram, handle < next) : (ofArrays arrays next).next = next := by
  obtain ⟨largest, hlive, -, hcounter⟩ :=
    exists_largest (ArrayTable.program_mem_withProgram arrays)
  have hbelow := h largest hlive
  have hlt := next.toNat_lt
  rw [UInt32.lt_iff_toNat_lt] at hbelow
  apply max_eq_left_of_le
  rw [hcounter, UInt32.le_iff_toNat_le, UInt32.toNat_max, UInt32.toNat_add, UInt32.toNat_one]
  omega

/-- Handles are fresh and there is no access after a removal. From a heap that holds only a
    program, allocations get the handles 1, 2, 3 and so on, whatever is freed or refused
    between them; from given arrays and a counter above every live handle, they are numbered
    from that counter on. At every point the live handles are those the history says, every
    access by another handle is refused, and the program cannot be removed. -/
theorem handles_fresh :
    (∀ (program : Array Word) (ops : List HeapOperation),
      FreshHandles 1 (· = 0) ((ofProgram program).operateAll ops).1
        ((ofProgram program).operateAll ops).2) ∧
    ∀ (arrays : ArrayTable) (next : Handle), (∀ handle ∈ arrays.withProgram, handle < next) →
      ∀ ops : List HeapOperation,
        FreshHandles next.toNat (· ∈ arrays.withProgram) ((ofArrays arrays next).operateAll ops).1
          ((ofArrays arrays next).operateAll ops).2 := by
  constructor
  · intro program ops
    have hfresh := (ahead_ofProgram program).freshHandles (wellFormed_ofProgram program) ops
    have hinit : (fun handle => handle ∈ (ofProgram program).arrays) = (· = 0) := by
      funext handle
      exact propext mem_ofProgram_iff
    rwa [hinit] at hfresh
  · intro arrays next habove ops
    have hnext := next_ofArrays habove
    have hahead : (ofArrays arrays next).Ahead := by
      intro handle hlive
      rw [hnext]
      exact habove handle hlive
    have hfresh := hahead.freshHandles (wellFormed_ofArrays arrays next) ops
    rwa [hnext] at hfresh

/-- Two arrays, and a counter that has two handles left. -/
def nearlyNumbered : ArrayTable :=
  ((∅ : ArrayTable).insert 0 #[7]).insert 5 #[0, 0, 0]

/-- Two allocations with a removal, a refused removal and a refused allocation between them. -/
def lastTwo : List HeapOperation :=
  [.allocate 2, .free 0xFFFFFFFE, .free 7, .setCapacity (some 9), .allocate 9, .allocate 0]

theorem handles_fresh_lastTwo :
    (∀ handle ∈ nearlyNumbered.withProgram, handle < 0xFFFFFFFE) ∧
    issued ((ofArrays nearlyNumbered 0xFFFFFFFE).operateAll lastTwo).1 =
      [0xFFFFFFFE, 0xFFFFFFFF] ∧
    (issued ((ofArrays nearlyNumbered 0xFFFFFFFE).operateAll lastTwo).1).Nodup ∧
    ((ofArrays nearlyNumbered 0xFFFFFFFE).operateAll lastTwo).2.read 0xFFFFFFFE 0 =
      .error (.inactiveHandle 0xFFFFFFFE) := by
  have habove : ∀ handle ∈ nearlyNumbered.withProgram, handle < 0xFFFFFFFE := by
    intro handle hlive
    have hkeys : nearlyNumbered.withProgram.keys = [0, 5] := by decide
    rw [← Std.ExtTreeMap.mem_keys, hkeys] at hlive
    rcases List.mem_pair.1 hlive with rfl | rfl
    · decide
    · decide
  have hissued : issued ((ofArrays nearlyNumbered 0xFFFFFFFE).operateAll lastTwo).1 =
      [0xFFFFFFFE, 0xFFFFFFFF] := by decide
  have hfresh := handles_fresh.2 nearlyNumbered 0xFFFFFFFE habove lastTwo
  have hdead : ¬LiveBy (0xFFFFFFFE ∈ nearlyNumbered.withProgram)
      ((ofArrays nearlyNumbered 0xFFFFFFFE).operateAll lastTwo).1 0xFFFFFFFE := by
    rw [← hfresh.live_iff]
    decide
  have hnodup := hfresh.nodup (by rw [hissued]; decide)
  exact ⟨habove, hissued, hnodup, (hfresh.inactive hdead).1 0⟩

end Heap

end UniversalMachine
