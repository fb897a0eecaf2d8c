/-
  UniversalMachine.Proofs.HandleIssue

  Which handle an allocation issues, and what it adds to the heap.

  The search for a handle is a loop that nothing bounds but the circle of handles
  itself. It ends from every start if any handle is free
  (`ArrayTable.exists_search_iff`), it ends in one way only
  (`ArrayTable.Search.unique`), and what it finds is the free handle nearest to the
  start (`ArrayTable.Search.distance_le`).

  An allocation that is not refused binds that handle and nothing else (`Heap.Adds`).
-/

import UniversalMachine.Proofs.LastWrite

namespace UniversalMachine

namespace ArrayTable

/-! ## The loop -/

variable {arrays : ArrayTable} {start handle : Handle} {turns : Nat}

/-- The loop ends, wherever it starts, exactly if there is a handle to find. -/
theorem exists_search_iff (start : Handle) :
    (∃ handle turns, arrays.Search start turns handle) ↔ ∃ handle, arrays.Free handle := by
  constructor
  · rintro ⟨handle, turns, h⟩
    exact ⟨handle, (search_iff.1 h).2.1⟩
  · intro hfree
    obtain ⟨handle, hfirst⟩ := exists_firstFree start hfree
    exact ⟨handle, firstFree_iff_search.1 hfirst⟩

/-- The loop leaves no choice. -/
theorem Search.unique {handle' : Handle} {turns' : Nat} (h : arrays.Search start turns handle)
    (h' : arrays.Search start turns' handle') : turns' = turns ∧ handle' = handle := by
  induction h generalizing turns' with
  | stop hfree =>
    cases h' with
    | stop _ => exact ⟨rfl, rfl⟩
    | pass htaken _ => exact absurd hfree htaken
  | pass htaken _ ih =>
    cases h' with
    | stop hfree => exact absurd hfree htaken
    | pass _ hrest =>
      obtain ⟨rfl, rfl⟩ := ih hrest
      exact ⟨rfl, rfl⟩

end ArrayTable

namespace Heap

/-! ## Allocation -/

/-- The second heap has one array more than the first: so many zero words, under a handle that was
    neither 0 nor live. The counter stands at the successor of that handle. -/
structure Adds (heap : Heap) (handle : Handle) (size : Word) (after : Heap) : Prop where
  ne_zero : handle ≠ 0
  not_live : heap.get? handle = none
  bound : after.get? handle = some (.replicate size.toNat 0)
  others (other : Handle) : other ≠ handle → after.get? other = heap.get? other
  size_eq : after.size = heap.size + 1
  next_eq : after.next.toNat = (handle.toNat + 1) % 2 ^ 32

theorem adds_bind {heap : Heap} {handle : Handle} (hfree : heap.arrays.Free handle) (size : Word) :
    heap.Adds handle size (heap.bind handle size) where
  ne_zero := hfree.1
  not_live := Std.ExtTreeMap.getElem?_eq_none hfree.2
  bound := by rw [get?_bind, if_pos rfl]
  others other hne := by rw [get?_bind, if_neg hne.symm]
  size_eq := by
    show (heap.arrays.insert handle _).size = heap.arrays.size + 1
    rw [Std.ExtTreeMap.size_insert, if_neg (by simpa using hfree.2)]
  next_eq := UInt32.toNat_add handle 1

/-- Whatever arrays are live and wherever the counter stands: if some handle other than 0 is not
    live, the search for a handle ends, in one way, after passing over each live handle and 0 at
    most once. It gives the first handle at or after the counter, in cyclic order, that is neither 0
    nor live.

    An allocation that does not exceed the capacity is granted this handle. It adds one array, no
    array that was live is overwritten or changed, and the counter stands at the successor of the
    handle. -/
theorem search_ends_at_first_free (heap : Heap)
    (hfree : ∃ handle : Handle, handle ≠ 0 ∧ handle ∉ heap.arrays) :
    ∃ handle turns, heap.arrays.Search heap.next turns handle ∧
      (∀ turns' handle', heap.arrays.Search heap.next turns' handle' →
        turns' = turns ∧ handle' = handle) ∧
      turns ≤ heap.size + 1 ∧ heap.nextHandle? = some handle ∧
      handle ≠ 0 ∧ handle ∉ heap.arrays ∧
      (∀ other : Handle, other ≠ 0 → other ∉ heap.arrays →
        Handle.distance heap.next handle ≤ Handle.distance heap.next other) ∧
      ∀ size : Word,
        (heap.Exceeds (heap.totalWords + size.toNat) ∧
          ∃ limit, heap.allocate size = .error (.outOfMemory size.toNat heap.totalWords limit)) ∨
        (¬heap.Exceeds (heap.totalWords + size.toNat) ∧
          ∃ after, heap.allocate size = .ok (handle, after) ∧ heap.Adds handle size after) := by
  obtain ⟨handle, turns, h⟩ := (ArrayTable.exists_search_iff heap.next).2 hfree
  have hissued : heap.arrays.Free handle := (ArrayTable.search_iff.1 h).2.1
  have hnext := nextHandle?_eq_some_iff_search.2 ⟨turns, h⟩
  refine ⟨handle, turns, h, fun _ _ => h.unique, h.turns_le, hnext, hissued.1, hissued.2,
    fun _ hne hdead => h.distance_le ⟨hne, hdead⟩, ?_⟩
  intro size
  refine (heap.allocate_eq_search size).imp_right ?_
  rintro ⟨hfits, hallocate⟩
  rw [hnext] at hallocate
  exact ⟨hfits, _, hallocate, adds_bind hissued size⟩

/-- The counter stands at the last handle, which is live, and so is the first after 0. -/
def aroundTheEnd : Heap :=
  ofArrays ((((∅ : ArrayTable).insert 0 #[]).insert 1 #[7]).insert 0xFFFFFFFF #[]) 0xFFFFFFFF

theorem search_ends_at_first_free_aroundTheEnd :
    (∃ handle : Handle, handle ≠ 0 ∧ handle ∉ aroundTheEnd.arrays) ∧
    ∃ after, aroundTheEnd.allocate 4 = .ok (2, after) ∧ after.next.toNat = 3 ∧
      after.get? 2 = some #[0, 0, 0, 0] ∧ after.get? 1 = some #[7] := by
  have hfree : ∃ handle : Handle, handle ≠ 0 ∧ handle ∉ aroundTheEnd.arrays :=
    ⟨5, by decide, by decide⟩
  -- past the last handle, past 0, past 1
  have hsearch : aroundTheEnd.arrays.Search aroundTheEnd.next 3 2 :=
    .pass (by decide) (.pass (by decide) (.pass (by decide) (.stop (by decide))))
  obtain ⟨handle, turns, -, hunique, -, -, -, -, -, hallocate⟩ :=
    search_ends_at_first_free aroundTheEnd hfree
  obtain ⟨-, rfl⟩ := hunique 3 2 hsearch
  obtain ⟨⟨limit, hlimit, -⟩, -⟩ | ⟨-, after, hok, hadds⟩ := hallocate 4
  · cases hlimit
  · refine ⟨hfree, after, hok, hadds.next_eq, hadds.bound, ?_⟩
    rw [hadds.others 1 (by decide)]
    decide

end Heap

end UniversalMachine
