/-
  UniversalMachine.Proofs.HeapOperations

  Sequences of heap operations, as data, and the accounts they keep.

  `Heap.operateAll` carries out any operations one after the other, refused ones
  included, and records what each was answered. What a single operation can do is
  said once, by `Heap.Performs`: it is refused and changes nothing, or it makes the
  one change that its check has allowed. Everything about sequences follows from
  that by cases, and by `operateAll_preserves`.

  The accounts are what `Heap.Balanced` lists: the running total is right, so no
  subtraction falls short, and the capacity refuses exactly what would exceed it.
-/

import UniversalMachine.Proofs.Accounting
import UniversalMachine.Proofs.HandleSearch

namespace UniversalMachine

/-- What can be asked of a heap. -/
inductive HeapOperation where
  | allocate (size : Word)
  | free (handle : Handle)
  | read (handle : Handle) (offset : Word)
  | write (handle : Handle) (offset value : Word)
  | replaceProgram (handle : Handle)
  | setCapacity (capacity : Option Nat)
  deriving DecidableEq, Repr

/-- An operation and its answer: the handle that was issued, the word that was read, nothing
    in particular, or why it was refused. -/
structure HeapEvent where
  operation : HeapOperation
  answer : Except HeapError (Option Word)

/-- The operation does not move the capacity away from a limit. -/
def HeapOperation.KeepsCapacity (limit : Nat) : HeapOperation → Prop
  | .setCapacity capacity => capacity = some limit
  | _ => True

namespace Heap

/-- Carries out an operation. A heap that refuses one is used as it was. -/
def operate (heap : Heap) : HeapOperation → Except HeapError (Option Word) × Heap
  | .allocate size =>
    match heap.allocate size with
    | .ok (handle, heap) => (.ok (some handle), heap)
    | .error e => (.error e, heap)
  | .free handle =>
    match heap.free handle with
    | .ok heap => (.ok none, heap)
    | .error e => (.error e, heap)
  | .read handle offset =>
    match heap.read handle offset with
    | .ok word => (.ok (some word), heap)
    | .error e => (.error e, heap)
  | .write handle offset value =>
    match heap.write handle offset value with
    | .ok heap => (.ok none, heap)
    | .error e => (.error e, heap)
  | .replaceProgram handle =>
    match heap.replaceProgram handle with
    | .ok heap => (.ok none, heap)
    | .error e => (.error e, heap)
  | .setCapacity capacity => (.ok none, heap.setCapacity capacity)

/-- Carries out operations one after the other. -/
def operateAll (heap : Heap) : List HeapOperation → List HeapEvent × Heap
  | [] => ([], heap)
  | op :: ops =>
    let (answer, heap) := heap.operate op
    let (events, heap) := heap.operateAll ops
    ({ operation := op, answer } :: events, heap)

/-! ## What an operation can do -/

/-- An operation is refused, or its check allows the one change it makes. -/
inductive Performs (heap : Heap) :
    HeapOperation → Except HeapError (Option Word) → Heap → Prop
  | refused (op : HeapOperation) (e : HeapError) : Performs heap op (.error e) heap
  | allocated {size : Word} {handle : Handle} (h : heap.checkAllocate size = .ok handle) :
      Performs heap (.allocate size) (.ok (some handle)) (heap.bind handle size)
  | freed {handle : Handle} (h : heap.checkFree handle = .ok ()) :
      Performs heap (.free handle) (.ok none) (heap.unbind handle)
  | found {handle : Handle} {offset word : Word} (h : heap.read handle offset = .ok word) :
      Performs heap (.read handle offset) (.ok (some word)) heap
  | written {handle : Handle} {offset : Word} (value : Word)
      (h : heap.checkWrite handle offset = .ok ()) :
      Performs heap (.write handle offset value) (.ok none) (heap.store handle offset value)
  | replaced {handle : Handle} (h : heap.checkReplace handle = .ok ()) :
      Performs heap (.replaceProgram handle) (.ok none) (heap.copyToProgram handle)
  | bounded (capacity : Option Nat) :
      Performs heap (.setCapacity capacity) (.ok none) (heap.setCapacity capacity)

theorem performs_operate (heap : Heap) (op : HeapOperation) :
    heap.Performs op (heap.operate op).1 (heap.operate op).2 := by
  cases op with
  | allocate size =>
    rw [operate, allocate]
    cases h : heap.checkAllocate size with
    | error e => exact .refused _ e
    | ok handle => exact .allocated h
  | free handle =>
    rw [operate, free]
    cases h : heap.checkFree handle with
    | error e => exact .refused _ e
    | ok _ => exact .freed h
  | read handle offset =>
    rw [operate]
    cases h : heap.read handle offset with
    | error e => exact .refused _ e
    | ok word => exact .found h
  | write handle offset value =>
    rw [operate, write]
    cases h : heap.checkWrite handle offset with
    | error e => exact .refused _ e
    | ok _ => exact .written value h
  | replaceProgram handle =>
    rw [operate, replaceProgram]
    cases h : heap.checkReplace handle with
    | error e => exact .refused _ e
    | ok _ => exact .replaced h
  | setCapacity capacity => exact .bounded capacity

theorem allocate_eq_ok_iff {heap after : Heap} {size : Word} {handle : Handle} :
    heap.allocate size = .ok (handle, after) ↔
      heap.checkAllocate size = .ok handle ∧ heap.bind handle size = after := by
  rw [allocate]
  cases heap.checkAllocate size with
  | error e => exact ⟨nofun, fun h => (nomatch h.1)⟩
  | ok issued =>
    simp only [Except.ok.injEq, Prod.mk.injEq]
    constructor
    · rintro ⟨rfl, rfl⟩
      exact ⟨rfl, rfl⟩
    · rintro ⟨rfl, rfl⟩
      exact ⟨rfl, rfl⟩

theorem replaceProgram_eq_ok_iff {heap after : Heap} {source : Handle} :
    heap.replaceProgram source = .ok after ↔
      heap.checkReplace source = .ok () ∧ heap.copyToProgram source = after := by
  rw [replaceProgram]
  cases heap.checkReplace source with
  | error e => exact ⟨nofun, fun h => (nomatch h.1)⟩
  | ok _ =>
    simp only [Except.ok.injEq]
    exact ⟨fun h => ⟨trivial, h⟩, fun h => h.2⟩

/-- What every operation of some kind preserves, sequences of them preserve. -/
theorem operateAll_preserves {P : Heap → Prop} {Q : HeapOperation → Prop}
    (hstep : ∀ {heap op answer heap'}, Performs heap op answer heap' → Q op → P heap → P heap')
    {heap : Heap} (h : P heap) {ops : List HeapOperation} (hops : ∀ op ∈ ops, Q op) :
    P (heap.operateAll ops).2 := by
  induction ops generalizing heap with
  | nil => exact h
  | cons op ops ih =>
    obtain ⟨hop, hops⟩ := List.forall_mem_cons.1 hops
    exact ih (hstep (heap.performs_operate op) hop h) hops

theorem Performs.unchanged {heap heap' : Heap} {op : HeapOperation}
    {answer : Except HeapError (Option Word)} (hperforms : heap.Performs op answer heap')
    {e : HeapError} (herror : answer = .error e) : heap' = heap := by
  cases hperforms with
  | refused _ _ => rfl
  | allocated _ => cases herror
  | freed _ => cases herror
  | found _ => cases herror
  | written _ _ => cases herror
  | replaced _ => cases herror
  | bounded _ => cases herror

theorem Performs.wellFormed {heap heap' : Heap} {op : HeapOperation}
    {answer : Except HeapError (Option Word)} (hperforms : heap.Performs op answer heap')
    (h : heap.WellFormed) : heap'.WellFormed := by
  cases hperforms with
  | refused _ e => exact h
  | allocated hcheck => exact h.bind (checkAllocate_fresh hcheck).2 _
  | freed hcheck => exact h.unbind (checkFree_ne_zero hcheck)
  | found _ => exact h
  | written value _ => exact h.store _ _ value
  | replaced _ => exact h.copyToProgram _
  | bounded capacity => exact h.setCapacity capacity

theorem WellFormed.operateAll {heap : Heap} (h : heap.WellFormed) (ops : List HeapOperation) :
    (heap.operateAll ops).2.WellFormed :=
  operateAll_preserves (Q := fun _ => True) (fun hperforms _ h => hperforms.wellFormed h) h
    fun _ _ => trivial

/-! ## What the capacity refuses -/

/-- A capacity is set, and so many words exceed it. -/
def Exceeds (heap : Heap) (words : Nat) : Prop :=
  ∃ limit, heap.capacity = some limit ∧ limit < words

/-- The check refuses what exceeds the capacity, and says by how much. -/
theorem checkCapacity_cases (heap : Heap) (inUse requested : Nat) :
    (¬heap.Exceeds (inUse + requested) ∧ heap.checkCapacity inUse requested = .ok ()) ∨
    (heap.Exceeds (inUse + requested) ∧
      ∃ limit, heap.checkCapacity inUse requested = .error (.outOfMemory requested inUse limit)) := by
  rw [checkCapacity]
  cases hcapacity : heap.capacity with
  | none =>
    refine .inl ⟨?_, rfl⟩
    rintro ⟨limit, hlimit, -⟩
    rw [hcapacity] at hlimit
    cases hlimit
  | some limit =>
    by_cases hover : inUse + requested > limit
    · exact .inr ⟨⟨limit, hcapacity, hover⟩, limit, if_pos hover⟩
    · refine .inl ⟨?_, if_neg hover⟩
      rintro ⟨limit', hlimit', hover'⟩
      rw [hcapacity] at hlimit'
      cases hlimit'
      exact hover hover'

theorem not_exceeds_of_checkCapacity {heap : Heap} {inUse requested : Nat}
    (h : heap.checkCapacity inUse requested = .ok ()) : ¬heap.Exceeds (inUse + requested) := by
  obtain ⟨hfits, -⟩ | ⟨-, limit, herror⟩ := heap.checkCapacity_cases inUse requested
  · exact hfits
  · rw [h] at herror
    cases herror

/-- There is no handle to issue only when every handle is live. -/
theorem nextHandle?_eq_none_iff {heap : Heap} (h : heap.WellFormed) :
    heap.nextHandle? = none ↔ ∀ handle, handle ∈ heap.arrays := by
  rw [Option.eq_none_iff_forall_ne_some]
  constructor
  · intro hnone handle
    by_contra hdead
    have hne : handle ≠ 0 := by
      rintro rfl
      exact hdead h.program_live
    obtain ⟨first, hfirst⟩ := ArrayTable.exists_firstFree heap.next ⟨handle, hne, hdead⟩
    exact hnone first (nextHandle?_eq_some_iff.2 hfirst)
  · intro hall handle hsome
    exact (findHandle_fresh hsome).2 (hall handle)

/-- An allocation is refused for want of memory, or takes the handle that the search gives. -/
theorem allocate_eq_search (heap : Heap) (size : Word) :
    (heap.Exceeds (heap.totalWords + size.toNat) ∧
      ∃ limit, heap.allocate size = .error (.outOfMemory size.toNat heap.totalWords limit)) ∨
    (¬heap.Exceeds (heap.totalWords + size.toNat) ∧
      heap.allocate size =
        match heap.nextHandle? with
        | some handle => .ok (handle, heap.bind handle size)
        | none => .error .handlesExhausted) := by
  obtain ⟨hfits, hcheck⟩ | ⟨hover, limit, hcheck⟩ :=
    heap.checkCapacity_cases heap.totalWords size.toNat
  · refine .inr ⟨hfits, ?_⟩
    rw [allocate, checkAllocate, hcheck]
    cases heap.nextHandle? <;> rfl
  · refine .inl ⟨hover, limit, ?_⟩
    rw [allocate, checkAllocate, hcheck]

/-- An allocation is refused for want of memory, is granted, or finds every handle live. -/
theorem allocate_cases {heap : Heap} (h : heap.WellFormed) (size : Word) :
    (heap.Exceeds (heap.totalWords + size.toNat) ∧
      ∃ limit, heap.allocate size = .error (.outOfMemory size.toNat heap.totalWords limit)) ∨
    (¬heap.Exceeds (heap.totalWords + size.toNat) ∧ (∃ handle, handle ∉ heap.arrays) ∧
      ∃ handle, heap.allocate size = .ok (handle, heap.bind handle size)) ∨
    (¬heap.Exceeds (heap.totalWords + size.toNat) ∧ (∀ handle, handle ∈ heap.arrays) ∧
      heap.allocate size = .error .handlesExhausted) := by
  obtain hover | ⟨hfits, hallocate⟩ := heap.allocate_eq_search size
  · exact .inl hover
  · refine .inr ?_
    cases hnext : heap.nextHandle? with
    | some handle =>
      rw [hnext] at hallocate
      exact .inl ⟨hfits, ⟨handle, (findHandle_fresh hnext).2⟩, handle, hallocate⟩
    | none =>
      rw [hnext] at hallocate
      exact .inr ⟨hfits, (nextHandle?_eq_none_iff h).1 hnext, hallocate⟩

/-- Loading a live array other than the program is refused exactly if the program's words,
    replaced by those of the array, would exceed the capacity. -/
theorem replaceProgram_cases {heap : Heap} {handle : Handle} {array : Array Word}
    (hne : handle ≠ 0) (hlive : heap.get? handle = some array) :
    (¬heap.Exceeds (heap.totalWords - heap.program.size + array.size) ∧
      heap.replaceProgram handle = .ok (heap.copyToProgram handle)) ∨
    (heap.Exceeds (heap.totalWords - heap.program.size + array.size) ∧
      ∃ e, heap.replaceProgram handle = .error e) := by
  have hcheck : heap.checkReplace handle =
      heap.checkCapacity (heap.totalWords - heap.program.size) array.size := by
    rw [checkReplace, if_neg hne, hlive]
  rw [replaceProgram, hcheck]
  obtain ⟨hfits, hok⟩ | ⟨hover, limit, herror⟩ :=
    heap.checkCapacity_cases (heap.totalWords - heap.program.size) array.size
  · rw [hok]
    exact .inl ⟨hfits, rfl⟩
  · rw [herror]
    exact .inr ⟨hover, _, rfl⟩

/-! ## Staying within the capacity -/

/-- The heap has this capacity and is within it. -/
structure Within (limit : Nat) (heap : Heap) : Prop where
  capacity_eq : heap.capacity = some limit
  total_le : heap.totalWords ≤ limit

theorem Performs.within {limit : Nat} {heap heap' : Heap} {op : HeapOperation}
    {answer : Except HeapError (Option Word)} (hperforms : heap.Performs op answer heap')
    (hop : op.KeepsCapacity limit) (h : heap.Within limit) : heap'.Within limit := by
  obtain ⟨hcapacity, hle⟩ := h
  -- what was not refused does not exceed this capacity
  have hfits : ∀ {words}, ¬heap.Exceeds words → words ≤ limit := by
    intro words hnot
    by_contra hlt
    exact hnot ⟨limit, hcapacity, by omega⟩
  cases hperforms with
  | refused _ e => exact ⟨hcapacity, hle⟩
  | @allocated size handle hcheck =>
    rw [checkAllocate] at hcheck
    split at hcheck
    · cases hcheck
    · next hok =>
      refine ⟨hcapacity, ?_⟩
      show heap.totalWords + size.toNat ≤ limit
      exact hfits (not_exceeds_of_checkCapacity hok)
  | @freed handle _ =>
    refine ⟨hcapacity, ?_⟩
    show heap.totalWords - (heap.arrays.getD handle #[]).size ≤ limit
    omega
  | found _ => exact ⟨hcapacity, hle⟩
  | written value _ => exact ⟨hcapacity, hle⟩
  | @replaced handle hcheck =>
    by_cases hzero : handle = 0
    · rw [copyToProgram, if_pos hzero]
      exact ⟨hcapacity, hle⟩
    · rw [checkReplace, if_neg hzero] at hcheck
      split at hcheck
      · cases hcheck
      · next array hlive =>
        have hsize := getD_of_get?_eq_some hlive
        rw [copyToProgram, if_neg hzero]
        refine ⟨hcapacity, ?_⟩
        show heap.totalWords - heap.program.size + (heap.arrays.getD handle #[]).size ≤ limit
        rw [hsize]
        exact hfits (not_exceeds_of_checkCapacity hcheck)
  | bounded capacity => exact ⟨hop, hle⟩

theorem Within.operateAll {limit : Nat} {heap : Heap} (h : heap.Within limit)
    {ops : List HeapOperation} (hops : ∀ op ∈ ops, op.KeepsCapacity limit) :
    (heap.operateAll ops).2.Within limit :=
  operateAll_preserves (fun hperforms hop h => hperforms.within hop h) h hops

/-! ## Balanced heaps -/

/-- The accounts of a heap and what they are good for. -/
structure Balanced (heap : Heap) : Prop where
  program_live : heap.isLive 0 = true
  /-- The running total is the number of words of all live arrays. -/
  total_eq : heap.totalWords = heap.arrays.wordCount
  /-- No live array has more words than the total, so subtracting them does not fall short. -/
  size_le {handle : Handle} {array : Array Word} :
    heap.get? handle = some array → array.size ≤ heap.totalWords
  /-- An allocation fails for want of memory exactly if a capacity is set and exceeded. -/
  allocate_fails_iff (size : Word) :
    (∃ requested inUse limit,
      heap.allocate size = .error (.outOfMemory requested inUse limit)) ↔
      heap.Exceeds (heap.totalWords + size.toNat)
  /-- Every other allocation is granted, in particular each one while no capacity is set, as
      long as there is a handle to issue. -/
  allocate_granted {size : Word} :
    ¬heap.Exceeds (heap.totalWords + size.toNat) → heap.size < 2 ^ 32 →
      ∃ handle, heap.allocate size = .ok (handle, heap.bind handle size)
  /-- With every handle live there is none, and no end to looking for one. -/
  allocate_exhausted_iff (size : Word) :
    heap.allocate size = .error .handlesExhausted ↔
      ¬heap.Exceeds (heap.totalWords + size.toNat) ∧ ∀ handle, handle ∈ heap.arrays
  replaceProgram_fails_iff {handle : Handle} {array : Array Word} :
    handle ≠ 0 → heap.get? handle = some array →
      ((∃ e, heap.replaceProgram handle = .error e) ↔
        heap.Exceeds (heap.totalWords - heap.program.size + array.size))
  replaceProgram_zero : heap.replaceProgram 0 = .ok heap
  /-- An operation that fails leaves the whole heap as it was. -/
  unchanged {op : HeapOperation} {e : HeapError} :
    (heap.operate op).1 = .error e → (heap.operate op).2 = heap

theorem WellFormed.balanced {heap : Heap} (h : heap.WellFormed) : heap.Balanced where
  program_live := Std.ExtTreeMap.mem_iff_contains.1 h.program_live
  total_eq := h.totalWords_eq
  size_le {handle array} hlive := by
    have hcount : heap.arrays.wordCount = _ := ArrayTable.wordCount_eq_add_erase hlive
    have htotal := h.totalWords_eq
    omega
  allocate_fails_iff size := by
    obtain ⟨hover, limit, heq⟩ | ⟨hfits, -, handle, heq⟩ | ⟨hfits, -, heq⟩ := allocate_cases h size
    · exact iff_of_true ⟨_, _, limit, heq⟩ hover
    · refine iff_of_false ?_ hfits
      rintro ⟨_, _, _, herror⟩
      rw [heq] at herror
      cases herror
    · refine iff_of_false ?_ hfits
      rintro ⟨_, _, _, herror⟩
      rw [heq] at herror
      cases herror
  allocate_granted {size} hfits hsize := by
    obtain ⟨hover, -⟩ | ⟨-, -, hok⟩ | ⟨-, hall, -⟩ := allocate_cases h size
    · exact absurd hover hfits
    · exact hok
    · obtain ⟨handle, hfree⟩ := ArrayTable.exists_free h.program_live hsize
      exact absurd (hall handle) hfree.2
  allocate_exhausted_iff size := by
    obtain ⟨hover, limit, heq⟩ | ⟨-, ⟨dead, hdead⟩, handle, heq⟩ | ⟨hfits, hall, heq⟩ :=
      allocate_cases h size
    · refine iff_of_false ?_ (fun hboth => hboth.1 hover)
      rw [heq]
      exact nofun
    · refine iff_of_false ?_ (fun hboth => hdead (hboth.2 dead))
      rw [heq]
      exact nofun
    · exact iff_of_true heq ⟨hfits, hall⟩
  replaceProgram_fails_iff {handle array} hne hlive := by
    obtain ⟨hfits, heq⟩ | ⟨hover, herror⟩ := replaceProgram_cases hne hlive
    · refine iff_of_false ?_ hfits
      rintro ⟨e, herror⟩
      rw [heq] at herror
      cases herror
    · exact iff_of_true herror hover
  replaceProgram_zero := rfl
  unchanged herror := (heap.performs_operate _).unchanged herror

/-- How a heap comes about. -/
inductive Built : Heap → Prop
  | ofProgram (program : Array Word) : Built (.ofProgram program)
  | ofArrays (arrays : ArrayTable) (next : Handle) : Built (.ofArrays arrays next)

theorem Built.wellFormed {heap : Heap} (h : heap.Built) : heap.WellFormed := by
  cases h with
  | ofProgram program => exact wellFormed_ofProgram program
  | ofArrays arrays next => exact wellFormed_ofArrays arrays next

/-- A heap keeps its accounts through every sequence of operations, refused ones included. And
    once it is within its capacity, it stays there, whatever follows, as long as the capacity
    is not changed. -/
theorem balanced_and_within_capacity {heap : Heap} (hbuilt : heap.Built)
    (ops : List HeapOperation) :
    (heap.operateAll ops).2.Balanced ∧
    ∀ (limit : Nat) (later : List HeapOperation),
      (heap.operateAll ops).2.capacity = some limit →
      (heap.operateAll ops).2.totalWords ≤ limit →
      (∀ op ∈ later, op.KeepsCapacity limit) →
      ((heap.operateAll ops).2.operateAll later).2.totalWords ≤ limit := by
  have hwell := hbuilt.wellFormed.operateAll ops
  refine ⟨hwell.balanced, ?_⟩
  intro limit later hcapacity hle hlater
  have hwithin : (heap.operateAll ops).2.Within limit := ⟨hcapacity, hle⟩
  exact (hwithin.operateAll hlater).total_le

/-- A heap that has used up its capacity of ten words, and was refused one more. -/
def full : Heap :=
  ((ofProgram #[1, 2]).operateAll [.setCapacity (some 10), .allocate 8, .allocate 1]).2

/-- Asks for too much, loads too much, and then makes room for both. -/
def makingRoom : List HeapOperation :=
  [.allocate 1, .replaceProgram 1, .free 1, .allocate 4, .replaceProgram 2, .allocate 2]

theorem balanced_and_within_capacity_full :
    (ofProgram #[1, 2]).Built ∧ full.capacity = some 10 ∧ full.totalWords = 10 ∧
    (∀ op ∈ makingRoom, op.KeepsCapacity 10) ∧
    (full.operateAll makingRoom).2.handles = [0, 2, 3] ∧
    full.Balanced ∧ (full.operateAll makingRoom).2.totalWords ≤ 10 := by
  have hcapacity : full.capacity = some 10 := by decide
  have htotal : full.totalWords = 10 := by decide
  have hkeeps : ∀ op ∈ makingRoom, op.KeepsCapacity 10 := by
    simp [makingRoom, HeapOperation.KeepsCapacity]
  obtain ⟨hbalanced, hwithin⟩ := balanced_and_within_capacity (.ofProgram #[1, 2])
    [.setCapacity (some 10), .allocate 8, .allocate 1]
  exact ⟨.ofProgram _, hcapacity, htotal, hkeeps, by decide, hbalanced,
    hwithin 10 makingRoom hcapacity (Nat.le_of_eq htotal) hkeeps⟩

end Heap

end UniversalMachine
