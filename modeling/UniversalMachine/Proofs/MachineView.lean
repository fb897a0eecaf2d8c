/-
  UniversalMachine.Proofs.MachineView

  Machines as states of the instruction set.

  `Machine.view` reads a machine as a state of UniversalMachine.Proofs.InstructionSet:
  words become numbers, and the table of arrays becomes a partial map. The view
  forgets only the running total of words, which a well-formed heap gives back
  (`Machine.words_view`, `Machine.view_injective`).

  There is one lemma for each change of a machine, saying what it is under the view,
  and one for each way a check of the heap can come out, saying when it does in terms
  of the view. What an instruction does is put together from these in
  UniversalMachine.Proofs.InstructionEffect.
-/

import Mathlib.Algebra.BigOperators.Group.Finset.Basic
import UniversalMachine.Proofs.Accounting
import UniversalMachine.Proofs.HandleSearch
import UniversalMachine.Proofs.InstructionSet

namespace UniversalMachine

open Reference

/-! ## Tables as partial maps -/

/-- The words of an array, as numbers. -/
def contents (array : Array Word) : List ℕ :=
  array.toList.map UInt32.toNat

theorem length_contents (array : Array Word) : (contents array).length = array.size := by
  simp [contents]

theorem getElem?_contents (array : Array Word) (i : ℕ) :
    (contents array)[i]? = array[i]?.map UInt32.toNat := by
  simp [contents]

theorem contents_setIfInBounds (array : Array Word) (i : ℕ) (value : Word) :
    contents (array.setIfInBounds i value) = (contents array).set i value.toNat := by
  simp [contents, List.map_set]

theorem contents_replicate_zero (n : ℕ) :
    contents (Array.replicate n 0) = List.replicate n 0 := by
  simp [contents]

theorem contents_injective : Function.Injective contents := by
  intro x y h
  exact Array.toList_inj.1 (List.map_injective_iff.2 (fun _ _ => UInt32.toNat_inj.1) h)

namespace ArrayTable

/-- The arrays of a table by the numbers of their handles. -/
def view (arrays : ArrayTable) (handle : ℕ) : Option (List ℕ) :=
  if handle < 2 ^ 32 then arrays[UInt32.ofNat handle]?.map contents else none

theorem view_toNat (arrays : ArrayTable) (handle : Handle) :
    arrays.view handle.toNat = arrays[handle]?.map contents := by
  rw [view, if_pos handle.toNat_lt, UInt32.ofNat_toNat]

theorem exists_handle {n : ℕ} (h : n < 2 ^ 32) : ∃ handle : Handle, handle.toNat = n :=
  ⟨.ofNat n, UInt32.toNat_ofNat_of_lt h⟩

/-- A table that differs at one handle only has a view that differs there only. -/
theorem view_eq_update {s t : ArrayTable} {handle : Handle}
    (h : ∀ k, k ≠ handle → t[k]? = s[k]?) :
    t.view = Function.update s.view handle.toNat (t[handle]?.map contents) := by
  funext n
  by_cases hn : n < 2 ^ 32
  · obtain ⟨k, rfl⟩ := exists_handle hn
    by_cases hk : k = handle
    · rw [hk, Function.update_self, view_toNat]
    · have hne : k.toNat ≠ handle.toNat := fun heq => hk (UInt32.toNat_inj.1 heq)
      rw [Function.update_of_ne hne, view_toNat, view_toNat, h k hk]
  · -- no handle has this number
    have hne : n ≠ handle.toNat := by
      have hlt := handle.toNat_lt
      omega
    rw [Function.update_of_ne hne, view, view, if_neg hn, if_neg hn]

theorem view_insert (arrays : ArrayTable) (handle : Handle) (array : Array Word) :
    view (arrays.insert handle array) =
      Function.update arrays.view handle.toNat (some (contents array)) := by
  rw [@view_eq_update arrays _ handle]
  · rw [Std.ExtTreeMap.getElem?_insert_self]
    rfl
  · intro k hk
    simp [Std.ExtTreeMap.getElem?_insert, Ne.symm hk]

theorem view_erase (arrays : ArrayTable) (handle : Handle) :
    view (arrays.erase handle) = Function.update arrays.view handle.toNat none := by
  rw [@view_eq_update arrays _ handle]
  · rw [Std.ExtTreeMap.getElem?_erase_self]
    rfl
  · intro k hk
    simp [Std.ExtTreeMap.getElem?_erase, Ne.symm hk]

theorem view_modify {arrays : ArrayTable} {handle : Handle} {array : Array Word}
    (h : arrays[handle]? = some array) (f : Array Word → Array Word) :
    view (arrays.modify handle f) =
      Function.update arrays.view handle.toNat (some (contents (f array))) := by
  rw [@view_eq_update arrays _ handle]
  · rw [Std.ExtTreeMap.getElem?_modify_self, h]
    rfl
  · intro k hk
    simp [Std.ExtTreeMap.getElem?_modify, Ne.symm hk]

theorem view_injective : Function.Injective view := by
  intro s t h
  apply Std.ExtTreeMap.ext_getElem?
  intro k
  have hk := congrFun h k.toNat
  rw [view_toNat, view_toNat] at hk
  exact Option.map_injective contents_injective hk

/-- The words of all arrays together, counted handle by handle. -/
theorem sum_view (arrays : ArrayTable) :
    ∑ n ∈ Finset.range (2 ^ 32), ((arrays.view n).getD []).length = arrays.wordCount := by
  have hnodup : (arrays.toList.map fun entry => entry.1.toNat).Nodup := by
    refine List.pairwise_map.2 (arrays.pairwise_toList.imp ?_)
    intro x y hne heq
    exact hne (UInt32.toNat_inj.1 heq)
  have hsubset : (arrays.toList.map fun entry => entry.1.toNat).toFinset ⊆
      Finset.range (2 ^ 32) := by
    intro n hn
    obtain ⟨entry, -, rfl⟩ := List.mem_map.1 (List.mem_toFinset.1 hn)
    exact Finset.mem_range.2 entry.1.toNat_lt
  -- the handles that are not listed have no words
  rw [← Finset.sum_subset hsubset, List.sum_toFinset _ hnodup, List.map_map, wordCount]
  · have hsize : ∀ entry ∈ arrays.toList,
        ((arrays.view entry.1.toNat).getD []).length = entry.2.size := by
      intro entry hentry
      rw [view_toNat, Std.ExtTreeMap.mem_toList_iff_getElem?_eq_some.1 hentry]
      exact length_contents entry.2
    rw [Function.comp_def, List.map_congr_left hsize, List.sum_eq_foldr, List.foldr_map]
  · intro n hn hlisted
    obtain ⟨handle, rfl⟩ := exists_handle (Finset.mem_range.1 hn)
    rw [view_toNat]
    cases hget : arrays[handle]? with
    | none => rfl
    | some array =>
      refine absurd ?_ hlisted
      exact List.mem_toFinset.2 (List.mem_map.2
        ⟨(handle, array), Std.ExtTreeMap.mem_toList_iff_getElem?_eq_some.2 hget, rfl⟩)

end ArrayTable

/-! ## Machines as states -/

namespace Machine

variable {m : Machine}

/-- The machine as a state of the instruction set. -/
def view (m : Machine) : State where
  ip := m.ip.toNat
  reg r := (m.reg r).toNat
  arrays := m.heap.arrays.view
  counter := m.heap.next.toNat
  capacity := m.heap.capacity
  cycles := m.cycles

/-- The view of a well-formed machine determines it. -/
theorem view_injective {m' : Machine} (hm : m.heap.WellFormed) (hm' : m'.heap.WellFormed)
    (h : m.view = m'.view) : m = m' := by
  obtain ⟨ip, registers, ⟨arrays, next, totalWords, capacity⟩, cycles⟩ := m
  obtain ⟨ip', registers', ⟨arrays', next', totalWords', capacity'⟩, cycles'⟩ := m'
  obtain ⟨hip, hreg, harrays, hnext, hcapacity, hcycles⟩ := State.ext_iff.1 h
  obtain rfl : arrays = arrays' := ArrayTable.view_injective harrays
  obtain rfl : totalWords = totalWords' := hm.totalWords_eq.trans hm'.totalWords_eq.symm
  obtain rfl : ip = ip' := UInt32.toNat_inj.1 hip
  obtain rfl : next = next' := UInt32.toNat_inj.1 hnext
  obtain rfl : registers = registers' := by
    apply Vector.ext
    intro i hi
    exact UInt32.toNat_inj.1 (congrFun hreg ⟨i, hi⟩)
  obtain rfl : capacity = capacity' := hcapacity
  obtain rfl : cycles = cycles' := hcycles
  rfl

/-! Changes -/

theorem view_goto (m : Machine) (ip : Word) : (m.goto ip).view = m.view.goto ip.toNat := rfl

theorem view_advance (m : Machine) : m.advance.view = m.view.next := by
  rw [advance, view_goto, UInt32.toNat_add]
  rfl

theorem view_setReg (m : Machine) (r : Selector) (value : Word) :
    (m.setReg r value).view = m.view.assign r value.toNat := by
  have hreg : (fun r' => ((m.setReg r value).reg r').toNat) =
      Function.update m.view.reg r value.toNat := by
    funext r'
    by_cases h : r' = r
    · rw [h, Function.update_self]
      exact congrArg UInt32.toNat (Registers.read_write_self _ _ _)
    · rw [Function.update_of_ne h]
      exact congrArg UInt32.toNat (Registers.read_write_of_ne _ _ (Ne.symm h))
  exact State.ext rfl hreg rfl rfl rfl rfl

theorem view_store {handle : Handle} {array : Array Word} (h : m.heap.get? handle = some array)
    (offset value : Word) :
    (m.mapHeap (·.store handle offset value)).view =
      m.view.bind handle.toNat ((contents array).set offset.toNat value.toNat) := by
  refine State.ext rfl rfl ?_ rfl rfl rfl
  rw [← contents_setIfInBounds]
  exact ArrayTable.view_modify h _

theorem view_bind (m : Machine) (handle : Handle) (size : Word) :
    (m.mapHeap (·.bind handle size)).view =
      (m.view.bind handle.toNat (List.replicate size.toNat 0)).setCounter
        ((handle.toNat + 1) % 2 ^ 32) := by
  refine State.ext rfl rfl ?_ ?_ rfl rfl
  · rw [← contents_replicate_zero]
    exact ArrayTable.view_insert _ _ _
  · exact UInt32.toNat_add _ _

theorem view_unbind (m : Machine) (handle : Handle) :
    (m.mapHeap (·.unbind handle)).view = m.view.unbind handle.toNat :=
  State.ext rfl rfl (ArrayTable.view_erase _ _) rfl rfl rfl

theorem view_copyToProgram {handle : Handle} {array : Array Word} (hne : handle ≠ 0)
    (h : m.heap.get? handle = some array) :
    (m.mapHeap (·.copyToProgram handle)).view = m.view.bind 0 (contents array) := by
  have hget := Heap.getD_of_get?_eq_some h
  have hcopy : m.heap.copyToProgram handle =
      { m.heap with
        arrays := m.heap.arrays.insert 0 array
        totalWords := m.heap.totalWords - m.heap.program.size + array.size } := by
    rw [Heap.copyToProgram, if_neg hne, hget]
  rw [mapHeap, hcopy]
  exact State.ext rfl rfl (ArrayTable.view_insert _ _ _) rfl rfl rfl

/-! What the view shows -/

theorem program_view (m : Machine) : m.view.program = contents m.heap.program := by
  have h := m.heap.arrays.view_toNat 0
  show (m.heap.arrays.view 0).getD [] = _
  rw [UInt32.toNat_zero] at h
  rw [h, Heap.program, Std.ExtTreeMap.getD_eq_getD_getElem?]
  cases m.heap.arrays[(0 : Handle)]? with
  | none => rfl
  | some array => rfl

theorem word?_view (m : Machine) : m.view.word? = (m.heap.fetch m.ip).map UInt32.toNat := by
  rw [State.word?, program_view]
  exact getElem?_contents _ _

theorem words_view (h : m.heap.WellFormed) : m.view.words = m.heap.totalWords := by
  rw [h.totalWords_eq]
  exact ArrayTable.sum_view _

theorem fetch_of_word? {w : ℕ} (h : m.view.word? = some w) :
    ∃ word : Word, m.heap.fetch m.ip = some word ∧ word.toNat = w := by
  rw [word?_view] at h
  exact Option.map_eq_some_iff.1 h

theorem arrays_view (m : Machine) (handle : Handle) :
    m.view.arrays handle.toNat = (m.heap.get? handle).map contents :=
  m.heap.arrays.view_toNat handle

theorem get?_of_view_some {handle : Handle} {words : List ℕ}
    (h : m.view.arrays handle.toNat = some words) :
    ∃ array, m.heap.get? handle = some array ∧ contents array = words := by
  rw [arrays_view] at h
  exact Option.map_eq_some_iff.1 h

theorem get?_of_view_none {handle : Handle} (h : m.view.arrays handle.toNat = none) :
    m.heap.get? handle = none := by
  rw [arrays_view] at h
  exact Option.map_eq_none_iff.1 h

theorem reg_eq_zero_iff {r : Selector} : m.reg r = 0 ↔ m.view.reg r = 0 :=
  UInt32.toNat_inj.symm

theorem ofNat_reg (m : Machine) (r : Selector) : UInt32.ofNat (m.view.reg r) = m.reg r :=
  UInt32.ofNat_toNat

theorem free_view_iff {handle : Handle} :
    m.view.Free handle.toNat ↔ m.heap.arrays.Free handle := by
  have hzero : handle.toNat ≠ 0 ↔ handle ≠ 0 := not_congr (@UInt32.toNat_inj handle 0)
  rw [State.Free, ArrayTable.Free, arrays_view, hzero, Option.map_eq_none_iff, Heap.get?,
    getElem?_eq_none_iff]

/-- The handle that the rules let an allocation have is the one that the search finds. -/
theorem nextHandle?_of_issues {handle : ℕ} (h : m.view.Issues handle) :
    ∃ found : Handle, found.toNat = handle ∧ m.heap.nextHandle? = some found := by
  obtain ⟨passed, rfl, hfree, hbefore⟩ := h
  have hplace : ∀ j, (m.heap.next + .ofNat j).toNat = (m.view.counter + j) % 2 ^ 32 := by
    intro j
    rw [UInt32.toNat_add, UInt32.toNat_ofNat', Nat.add_mod_mod]
    rfl
  refine ⟨_, hplace passed, Heap.nextHandle?_eq_some_iff.2 ⟨passed, rfl, ?_, ?_⟩⟩
  · rwa [← hplace, free_view_iff] at hfree
  · intro j hj
    have hlive := hbefore j hj
    rwa [← hplace, free_view_iff] at hlive

/-- Some handle is free, unless all are live. -/
theorem exists_free_view (h : m.heap.WellFormed) (hlive : m.heap.size < 2 ^ 32) :
    ∃ handle < 2 ^ 32, m.view.Free handle := by
  obtain ⟨handle, hfree⟩ := ArrayTable.exists_free h.program_live hlive
  exact ⟨handle.toNat, handle.toNat_lt, free_view_iff.2 hfree⟩

/-! ## Checks -/

theorem read_of_inactive {handle : Handle} (h : m.view.arrays handle.toNat = none)
    (offset : Word) : m.heap.read handle offset = .error (.inactiveHandle handle) := by
  simp only [Heap.read, get?_of_view_none h]

theorem read_of_beyond {handle offset : Word} {words : List ℕ}
    (h : m.view.arrays handle.toNat = some words) (hoffset : words.length ≤ offset.toNat) :
    m.heap.read handle offset = .error (.outOfBounds handle offset words.length) := by
  obtain ⟨array, hget, rfl⟩ := get?_of_view_some h
  rw [length_contents] at hoffset ⊢
  simp only [Heap.read, hget, Array.getElem?_eq_none hoffset]

theorem read_of_word {handle offset : Word} {words : List ℕ} {value : ℕ}
    (h : m.view.arrays handle.toNat = some words) (hvalue : words[offset.toNat]? = some value) :
    ∃ word : Word, word.toNat = value ∧ m.heap.read handle offset = .ok word := by
  obtain ⟨array, hget, rfl⟩ := get?_of_view_some h
  rw [getElem?_contents] at hvalue
  obtain ⟨word, hword, rfl⟩ := Option.map_eq_some_iff.1 hvalue
  refine ⟨word, rfl, ?_⟩
  simp only [Heap.read, hget, hword]

theorem checkWrite_of_inactive {handle : Handle} (h : m.view.arrays handle.toNat = none)
    (offset : Word) : m.heap.checkWrite handle offset = .error (.inactiveHandle handle) := by
  simp only [Heap.checkWrite, get?_of_view_none h]

theorem checkWrite_of_beyond {handle offset : Word} {words : List ℕ}
    (h : m.view.arrays handle.toNat = some words) (hoffset : words.length ≤ offset.toNat) :
    m.heap.checkWrite handle offset = .error (.outOfBounds handle offset words.length) := by
  obtain ⟨array, hget, rfl⟩ := get?_of_view_some h
  rw [length_contents] at hoffset ⊢
  simp only [Heap.checkWrite, hget]
  exact if_neg (Nat.not_lt.2 hoffset)

theorem checkWrite_of_lt {handle offset : Word} {words : List ℕ}
    (h : m.view.arrays handle.toNat = some words) (hoffset : offset.toNat < words.length) :
    m.heap.checkWrite handle offset = .ok () := by
  obtain ⟨array, hget, rfl⟩ := get?_of_view_some h
  rw [length_contents] at hoffset
  simp only [Heap.checkWrite, hget]
  exact if_pos hoffset

theorem checkFree_of_inactive {handle : Handle} (hne : handle ≠ 0)
    (h : m.view.arrays handle.toNat = none) :
    m.heap.checkFree handle = .error (.inactiveHandle handle) := by
  have hdead : m.heap.isLive handle = false :=
    Std.ExtTreeMap.contains_eq_isSome_getElem?.trans
      (congrArg Option.isSome (get?_of_view_none h))
  rw [Heap.checkFree, if_neg hne, hdead]
  rfl

theorem checkFree_of_live {handle : Handle} {words : List ℕ} (hne : handle ≠ 0)
    (h : m.view.arrays handle.toNat = some words) : m.heap.checkFree handle = .ok () := by
  obtain ⟨array, hget, -⟩ := get?_of_view_some h
  have hlive : m.heap.isLive handle = true :=
    Std.ExtTreeMap.contains_eq_isSome_getElem?.trans (congrArg Option.isSome hget)
  rw [Heap.checkFree, if_neg hne, if_pos hlive]

theorem checkCapacity_of_fits {inUse requested : ℕ} (h : m.view.Fits inUse requested) :
    m.heap.checkCapacity inUse requested = .ok () := by
  have hview : m.view.capacity = m.heap.capacity := rfl
  rw [State.Fits, hview] at h
  rw [Heap.checkCapacity]
  cases hcapacity : m.heap.capacity with
  | none => rfl
  | some limit =>
    have hle := h limit hcapacity
    exact if_neg (by omega)

theorem checkCapacity_of_exceeds {inUse requested limit : ℕ} (h : m.view.capacity = some limit)
    (hover : limit < inUse + requested) :
    m.heap.checkCapacity inUse requested = .error (.outOfMemory requested inUse limit) := by
  have hcapacity : m.heap.capacity = some limit := h
  rw [Heap.checkCapacity, hcapacity]
  exact if_pos hover

theorem checkAllocate_of_fits (hm : m.heap.WellFormed) {size : Word} {handle : ℕ}
    (hfits : m.view.Fits m.view.words size.toNat) (hissues : m.view.Issues handle) :
    ∃ found : Handle, found.toNat = handle ∧ m.heap.checkAllocate size = .ok found := by
  obtain ⟨found, hfound, hnext⟩ := nextHandle?_of_issues hissues
  refine ⟨found, hfound, ?_⟩
  rw [words_view hm] at hfits
  simp only [Heap.checkAllocate, checkCapacity_of_fits hfits, hnext]

theorem checkAllocate_of_exceeds (hm : m.heap.WellFormed) {size : Word} {limit : ℕ}
    (hlimit : m.view.capacity = some limit) (hover : limit < m.view.words + size.toNat) :
    m.heap.checkAllocate size =
      .error (.outOfMemory size.toNat m.heap.totalWords limit) := by
  rw [words_view hm] at hover
  simp only [Heap.checkAllocate, checkCapacity_of_exceeds hlimit hover]

theorem checkReplace_of_inactive {handle : Handle} (hne : handle ≠ 0)
    (h : m.view.arrays handle.toNat = none) :
    m.heap.checkReplace handle = .error (.inactiveHandle handle) := by
  rw [Heap.checkReplace, if_neg hne]
  simp only [get?_of_view_none h]

theorem checkReplace_of_fits (hm : m.heap.WellFormed) {handle : Handle} {words : List ℕ}
    (hne : handle ≠ 0) (h : m.view.arrays handle.toNat = some words)
    (hfits : m.view.Fits (m.view.words - m.view.program.length) words.length) :
    m.heap.checkReplace handle = .ok () := by
  obtain ⟨array, hget, rfl⟩ := get?_of_view_some h
  rw [words_view hm, program_view, length_contents, length_contents] at hfits
  rw [Heap.checkReplace, if_neg hne]
  simp only [hget, checkCapacity_of_fits hfits]

theorem checkReplace_of_exceeds (hm : m.heap.WellFormed) {handle : Handle} {words : List ℕ}
    {limit : ℕ} (hne : handle ≠ 0) (h : m.view.arrays handle.toNat = some words)
    (hlimit : m.view.capacity = some limit)
    (hover : limit < m.view.words - m.view.program.length + words.length) :
    m.heap.checkReplace handle = .error (.outOfMemory words.length
      (m.heap.totalWords - m.heap.program.size) limit) := by
  obtain ⟨array, hget, rfl⟩ := get?_of_view_some h
  rw [words_view hm, program_view, length_contents, length_contents] at hover
  rw [length_contents, Heap.checkReplace, if_neg hne]
  simp only [hget, checkCapacity_of_exceeds hlimit hover]

end Machine

namespace Configuration

variable {ι σ : Type}

/-- The configuration as a setting of the instruction set. -/
def view (c : Configuration ι σ) : Setting ι σ :=
  ⟨c.machine.view, c.input, c.output⟩

theorem view_injective {c c' : Configuration ι σ} (hc : c.machine.heap.WellFormed)
    (hc' : c'.machine.heap.WellFormed) (h : c.view = c'.view) : c = c' := by
  obtain ⟨m, i, o⟩ := c
  obtain ⟨m', i', o'⟩ := c'
  obtain ⟨hview, hi, ho⟩ := Setting.mk.inj h
  obtain rfl : m = m' := Machine.view_injective hc hc' hview
  obtain rfl : i = i' := hi
  obtain rfl : o = o' := ho
  rfl

end Configuration

end UniversalMachine
