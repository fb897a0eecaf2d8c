/-
  UniversalMachine.Proofs.HandleSearch

  Which handle an allocation gets.

  The search walks over the handles in cyclic order, from the counter on, and takes
  the first that is free, that is, neither 0 nor live (`ArrayTable.FirstFree`). Told
  without a bound it is a loop that goes on as long as it must (`ArrayTable.Search`),
  and the number of its turns is the way it has gone around the circle
  (`Handle.distance`, `ArrayTable.Search.turns_eq`).

  The heap looks at `size + 2` handles at most. That is enough: the handles passed over
  are all different, and each of them is 0 or live, so there are no more than
  `size + 1` of them (`ArrayTable.Search.turns_le`). The search therefore fails only
  when no handle is free at all (`Heap.nextHandle?_eq_some_iff`,
  `ArrayTable.exists_firstFree`), and a counter of 0 is as good as a counter of 1
  (`ArrayTable.firstFree_zero_iff`).
-/

import Mathlib.Algebra.Group.Nat.Defs
import Mathlib.Data.List.Nodup
import Mathlib.Data.Nat.Find
import UniversalMachine.Heap

namespace UniversalMachine

namespace Handle

/-- How far one handle lies after another, counting upwards and on from 0 after the last. -/
def distance (start handle : Handle) : Nat :=
  (handle.toNat + 2 ^ 32 - start.toNat) % 2 ^ 32

theorem add_distance (start handle : Handle) : start + .ofNat (distance start handle) = handle := by
  have hstart := start.toNat_lt
  have hhandle := handle.toNat_lt
  apply UInt32.toNat_inj.1
  rw [UInt32.toNat_add, UInt32.toNat_ofNat', distance]
  omega

theorem distance_add (start : Handle) {n : Nat} (hn : n < 2 ^ 32) :
    distance start (start + .ofNat n) = n := by
  have hstart := start.toNat_lt
  rw [distance, UInt32.toNat_add, UInt32.toNat_ofNat']
  omega

theorem add_ofNat_succ (start : Handle) (n : Nat) :
    start + .ofNat (n + 1) = start + 1 + .ofNat n := by
  rw [Nat.add_comm n 1, UInt32.ofNat_add, ← UInt32.add_assoc]
  rfl

/-- Up to `2 ^ 32` handles in a row are all different. -/
theorem nodup_row (start : Handle) {n : Nat} (hn : n ≤ 2 ^ 32) :
    ((List.range n).map fun j => start + UInt32.ofNat j).Nodup := by
  refine List.Nodup.map_on ?_ List.nodup_range
  intro i hi j hj heq
  have hi := List.mem_range.1 hi
  have hj := List.mem_range.1 hj
  rw [← distance_add start (n := i) (by omega), heq, distance_add start (by omega)]

end Handle

namespace ArrayTable

/-! ## Free handles in cyclic order -/

/-- A handle that may be issued. -/
def Free (arrays : ArrayTable) (handle : Handle) : Prop :=
  handle ≠ 0 ∧ handle ∉ arrays

instance (arrays : ArrayTable) (handle : Handle) : Decidable (arrays.Free handle) :=
  inferInstanceAs (Decidable (handle ≠ 0 ∧ handle ∉ arrays))

/-- The first free handle at or after `start`, in cyclic order. -/
def FirstFree (arrays : ArrayTable) (start handle : Handle) : Prop :=
  ∃ passed : Nat, handle = start + .ofNat passed ∧ arrays.Free handle ∧
    ∀ j < passed, ¬arrays.Free (start + .ofNat j)

theorem not_free_iff {arrays : ArrayTable} {handle : Handle} :
    ¬arrays.Free handle ↔ handle = 0 ∨ handle ∈ arrays := by
  unfold Free
  rw [not_and_or, not_not, not_not]

/-- From every place the search finds a free handle, if there is one at all. -/
theorem exists_firstFree {arrays : ArrayTable} (start : Handle)
    (h : ∃ handle, arrays.Free handle) : ∃ handle, arrays.FirstFree start handle := by
  obtain ⟨handle, hfree⟩ := h
  have hsome : ∃ n : Nat, arrays.Free (start + .ofNat n) := by
    refine ⟨Handle.distance start handle, ?_⟩
    rwa [Handle.add_distance]
  exact ⟨_, Nat.find hsome, rfl, Nat.find_spec hsome, fun j hj => Nat.find_min hsome hj⟩

/-! ## The search as a loop -/

/-- As long as the candidate may not be issued, the search goes on with its successor. It starts at
    the first handle, goes on so many times, and stops at the second. Nothing bounds it. -/
inductive Search (arrays : ArrayTable) : Handle → Nat → Handle → Prop
  | stop {candidate : Handle} (hfree : arrays.Free candidate) :
      Search arrays candidate 0 candidate
  | pass {candidate handle : Handle} {turns : Nat} (htaken : ¬arrays.Free candidate)
      (hrest : Search arrays (candidate + 1) turns handle) :
      Search arrays candidate (turns + 1) handle

/-- The loop stops at the first free handle, and passes over all before it. -/
theorem search_iff {arrays : ArrayTable} {start handle : Handle} {turns : Nat} :
    arrays.Search start turns handle ↔
      handle = start + .ofNat turns ∧ arrays.Free handle ∧
        ∀ j < turns, ¬arrays.Free (start + .ofNat j) := by
  induction turns generalizing start with
  | zero =>
    constructor
    · rintro ⟨hfree⟩
      exact ⟨by simp, hfree, by omega⟩
    · rintro ⟨rfl, hfree, -⟩
      have hstart : start + .ofNat 0 = start := UInt32.add_zero start
      rw [hstart] at hfree ⊢
      exact .stop hfree
  | succ turns ih =>
    constructor
    · intro h
      cases h with
      | pass htaken hrest =>
        obtain ⟨hhandle, hfree, hbefore⟩ := ih.1 hrest
        refine ⟨hhandle.trans (Handle.add_ofNat_succ start turns).symm, hfree, ?_⟩
        intro j hj
        cases j with
        | zero => simpa using htaken
        | succ j =>
          rw [Handle.add_ofNat_succ]
          exact hbefore j (by omega)
    · rintro ⟨hhandle, hfree, hbefore⟩
      rw [Handle.add_ofNat_succ] at hhandle
      refine .pass (by simpa using hbefore 0 (by omega)) (ih.2 ⟨hhandle, hfree, ?_⟩)
      intro j hj
      rw [← Handle.add_ofNat_succ]
      exact hbefore (j + 1) (by omega)

theorem firstFree_iff_search {arrays : ArrayTable} {start handle : Handle} :
    arrays.FirstFree start handle ↔ ∃ turns, arrays.Search start turns handle :=
  exists_congr fun _ => search_iff.symm

/-- Passing over 0 costs nothing: it is never issued. -/
theorem firstFree_zero_iff {arrays : ArrayTable} {handle : Handle} :
    arrays.FirstFree 0 handle ↔ arrays.FirstFree 1 handle := by
  rw [firstFree_iff_search, firstFree_iff_search]
  constructor
  · rintro ⟨turns, h⟩
    cases h with
    | stop hfree => exact absurd rfl hfree.1
    | pass _ hrest => exact ⟨_, hrest⟩
  · rintro ⟨turns, hrest⟩
    exact ⟨turns + 1, .pass (fun hfree => hfree.1 rfl) hrest⟩

/-! ## How far the search has to look -/

section Turns

variable {arrays : ArrayTable} {start handle : Handle} {turns : Nat}

/-- The loop stops within one turn of the circle. -/
theorem Search.turns_lt (h : arrays.Search start turns handle) : turns < 2 ^ 32 := by
  obtain ⟨rfl, hfree, hbefore⟩ := search_iff.1 h
  by_contra hge
  -- one turn of the circle earlier the same handle was passed over
  have hsame : UInt32.ofNat (turns - 2 ^ 32) = .ofNat turns := by
    apply UInt32.toNat_inj.1
    rw [UInt32.toNat_ofNat', UInt32.toNat_ofNat']
    omega
  refine hbefore (turns - 2 ^ 32) (by omega) ?_
  rwa [hsame]

/-- Handles that are passed over are different from one another, and each of them is 0 or
    live. -/
theorem Search.turns_le (h : arrays.Search start turns handle) : turns ≤ arrays.size + 1 := by
  have hsubset : (List.range turns).map (fun j => start + UInt32.ofNat j) ⊆
      0 :: arrays.keys := by
    intro passed hmem
    obtain ⟨j, hj, rfl⟩ := List.mem_map.1 hmem
    rcases not_free_iff.1 ((search_iff.1 h).2.2 j (List.mem_range.1 hj)) with hzero | hlive
    · rw [hzero]
      exact List.mem_cons_self
    · exact List.mem_cons_of_mem _ (Std.ExtTreeMap.mem_keys.2 hlive)
  have hlength :=
    (Handle.nodup_row start (Nat.le_of_lt h.turns_lt)).length_le_of_subset hsubset
  rwa [List.length_map, List.length_range, List.length_cons, Std.ExtTreeMap.length_keys] at hlength

theorem Search.turns_eq (h : arrays.Search start turns handle) :
    turns = Handle.distance start handle := by
  obtain ⟨rfl, -, -⟩ := search_iff.1 h
  exact (Handle.distance_add start h.turns_lt).symm

/-- No free handle is nearer than the one the loop stops at. -/
theorem Search.distance_le (h : arrays.Search start turns handle) {other : Handle}
    (hother : arrays.Free other) : Handle.distance start handle ≤ Handle.distance start other := by
  rw [← h.turns_eq]
  by_contra hnearer
  -- the loop has looked at every handle it passed, so at this one too
  have htaken := (search_iff.1 h).2.2 (Handle.distance start other) (by omega)
  rw [Handle.add_distance] at htaken
  exact htaken hother

/-- A search that starts at or before a free handle ends there at the latest. -/
theorem FirstFree.le {free : Handle} (h : arrays.FirstFree start handle)
    (hfree : arrays.Free free) (hle : start ≤ free) : handle ≤ free := by
  obtain ⟨turns, hsearch⟩ := firstFree_iff_search.1 h
  have hnear := hsearch.distance_le hfree
  have hfree_lt := free.toNat_lt
  have hhandle_lt := handle.toNat_lt
  rw [UInt32.le_iff_toNat_le] at hle ⊢
  rw [Handle.distance, Handle.distance] at hnear
  omega

end Turns

/-- Unless all `2 ^ 32` handles are live, some handle is free. -/
theorem exists_free {arrays : ArrayTable} (hprogram : (0 : Handle) ∈ arrays)
    (hsize : arrays.size < 2 ^ 32) : ∃ handle, arrays.Free handle := by
  by_contra hnone
  have hlive : ∀ handle : Handle, handle ∈ arrays := by
    intro handle
    rcases not_free_iff.1 (fun hfree => hnone ⟨handle, hfree⟩) with hzero | hlive
    · rwa [hzero]
    · exact hlive
  have hsubset : (List.range (2 ^ 32)).map (fun j => 0 + UInt32.ofNat j) ⊆ arrays.keys :=
    fun handle _ => Std.ExtTreeMap.mem_keys.2 (hlive handle)
  have hlength := (Handle.nodup_row 0 (Nat.le_refl _)).length_le_of_subset hsubset
  rw [List.length_map, List.length_range, Std.ExtTreeMap.length_keys] at hlength
  omega

end ArrayTable

namespace Heap

/-! ## The search -/

/-- Looking at no more than `tries` handles, the search finds what the loop stops at after fewer
    turns than that. -/
theorem findHandle_eq_some_iff {arrays : ArrayTable} {tries : Nat} {start handle : Handle} :
    findHandle arrays tries start = some handle ↔
      ∃ turns < tries, arrays.Search start turns handle := by
  induction tries generalizing start with
  | zero => simp [findHandle]
  | succ tries ih =>
    rw [findHandle]
    have hhere : (start = 0 ∨ arrays.contains start) ↔ ¬arrays.Free start := by
      rw [ArrayTable.not_free_iff]
      simp
    by_cases hfree : arrays.Free start
    · -- the search stops at once
      rw [if_neg (fun h => hhere.1 h hfree)]
      constructor
      · intro h
        obtain rfl := Option.some.inj h
        exact ⟨0, by omega, .stop hfree⟩
      · rintro ⟨turns, -, h⟩
        cases h with
        | stop _ => rfl
        | pass htaken _ => exact absurd hfree htaken
    · -- the search moves on by one
      rw [if_pos (hhere.2 hfree), ih]
      constructor
      · rintro ⟨turns, hlt, hrest⟩
        exact ⟨turns + 1, by omega, .pass hfree hrest⟩
      · rintro ⟨turns, hlt, h⟩
        cases h with
        | stop hfree' => exact absurd hfree' hfree
        | pass _ hrest => exact ⟨_, by omega, hrest⟩

/-- The next handle to issue is the one the loop stops at. -/
theorem nextHandle?_eq_some_iff_search {heap : Heap} {handle : Handle} :
    heap.nextHandle? = some handle ↔ ∃ turns, heap.arrays.Search heap.next turns handle := by
  rw [nextHandle?, findHandle_eq_some_iff]
  constructor
  · rintro ⟨turns, -, h⟩
    exact ⟨turns, h⟩
  · rintro ⟨turns, h⟩
    have hle := h.turns_le
    exact ⟨turns, by omega, h⟩

/-- The next handle to issue is the first free one at or after the counter. -/
theorem nextHandle?_eq_some_iff {heap : Heap} {handle : Handle} :
    heap.nextHandle? = some handle ↔ heap.arrays.FirstFree heap.next handle := by
  rw [nextHandle?_eq_some_iff_search, ArrayTable.firstFree_iff_search]

/-! ## The counter above all handles -/

/-- A table with a program has a largest handle, and the counter after its handles follows
    that one. -/
theorem exists_largest {arrays : ArrayTable} (hprogram : (0 : Handle) ∈ arrays) :
    ∃ largest ∈ arrays, (∀ handle ∈ arrays, handle ≤ largest) ∧
      counterAfter arrays.keys = max 1 (largest + 1) := by
  have : Std.LawfulOrderMax Handle :=
    { max_le_iff := by
        intro a b c
        simp only [UInt32.le_iff_toNat_le, UInt32.toNat_max]
        omega
      max_eq_or := by
        intro a b
        simp only [← UInt32.toNat_inj, UInt32.toNat_max]
        omega }
  have hsome := List.isSome_max?_of_mem (Std.ExtTreeMap.mem_keys.2 hprogram)
  obtain ⟨largest, hmax⟩ := Option.isSome_iff_exists.1 hsome
  obtain ⟨hmem, hle⟩ := List.max?_eq_some_iff.1 hmax
  refine ⟨largest, Std.ExtTreeMap.mem_keys.1 hmem, ?_, ?_⟩
  · intro handle hlive
    exact hle handle (Std.ExtTreeMap.mem_keys.2 hlive)
  · rw [counterAfter, hmax]
    rfl

end Heap

end UniversalMachine
