/-
  UniversalMachine.Proofs.Accounting

  The invariant of the heap: the program is live, and the running total of words is
  the number of words in the table.

  Everything about the total rests on one fact, `ArrayTable.wordCount_eq_add_erase`:
  the words of a table are those of one of its arrays and those of the others. An
  operation only carries out what a check has allowed, and `Machine.allowed_of_action`
  says which check stands behind each effect of an instruction.
-/

import Mathlib.Data.List.Perm.Basic
import UniversalMachine.Proofs.Transitions

namespace UniversalMachine

namespace ArrayTable

/-! ## Counting words -/

theorem pairwise_toList (arrays : ArrayTable) :
    arrays.toList.Pairwise fun x y => x.1 ≠ y.1 := by
  refine arrays.distinct_keys_toList.imp ?_
  intro x y hne heq
  rw [heq] at hne
  exact hne Std.ReflCmp.compare_self

theorem nodup_toList (arrays : ArrayTable) : arrays.toList.Nodup := by
  refine arrays.pairwise_toList.imp ?_
  intro x y hne heq
  exact hne (congrArg Prod.fst heq)

/-- A table lists one of its arrays and what is left when that is taken out. -/
theorem toList_perm_cons_erase {arrays : ArrayTable} {handle : Handle} {array : Array Word}
    (h : arrays[handle]? = some array) :
    arrays.toList.Perm ((handle, array) :: (arrays.erase handle).toList) := by
  have hfresh : (handle, array) ∉ (arrays.erase handle).toList := by
    rw [Std.ExtTreeMap.mem_toList_iff_getElem?_eq_some, Std.ExtTreeMap.getElem?_erase_self]
    exact nofun
  -- nothing is listed twice on either side, so it is enough that the entries are the same
  rw [List.perm_ext_iff_of_nodup (nodup_toList _)
    (List.nodup_cons.2 ⟨hfresh, nodup_toList _⟩)]
  rintro ⟨k, a⟩
  rw [List.mem_cons, Std.ExtTreeMap.mem_toList_iff_getElem?_eq_some,
    Std.ExtTreeMap.mem_toList_iff_getElem?_eq_some, Std.ExtTreeMap.getElem?_erase]
  by_cases hk : k = handle
  · subst hk
    simp [h, eq_comm]
  · simp [hk, Ne.symm hk]

theorem wordCount_eq_add_erase {arrays : ArrayTable} {handle : Handle} {array : Array Word}
    (h : arrays[handle]? = some array) :
    arrays.wordCount = array.size + wordCount (arrays.erase handle) := by
  -- the order in which the words are counted does not matter
  refine (toList_perm_cons_erase h).foldr_eq' ?_ 0
  intro x _ y _ count
  omega

/-- Tables that differ in one array only are equal without it. -/
theorem erase_eq_erase {s t : ArrayTable} {handle : Handle}
    (h : ∀ k, k ≠ handle → s[k]? = t[k]?) : s.erase handle = t.erase handle := by
  apply Std.ExtTreeMap.ext_getElem?
  intro k
  rw [Std.ExtTreeMap.getElem?_erase, Std.ExtTreeMap.getElem?_erase]
  by_cases hk : k = handle
  · rw [hk, if_pos Std.ReflCmp.compare_self, if_pos Std.ReflCmp.compare_self]
  · rw [h k hk]

theorem wordCount_insert (arrays : ArrayTable) (handle : Handle) (array : Array Word) :
    wordCount (arrays.insert handle array) = array.size + wordCount (arrays.erase handle) := by
  have herase : (arrays.insert handle array).erase handle = arrays.erase handle := by
    apply erase_eq_erase
    intro k hk
    simp [Std.ExtTreeMap.getElem?_insert, Ne.symm hk]
  rw [wordCount_eq_add_erase Std.ExtTreeMap.getElem?_insert_self, herase]

/-- Taking out an array that is not there changes nothing. -/
theorem erase_of_getElem?_eq_none {arrays : ArrayTable} {handle : Handle}
    (h : arrays[handle]? = none) : arrays.erase handle = arrays := by
  apply Std.ExtTreeMap.ext_getElem?
  intro k
  by_cases hk : k = handle
  · rw [hk, Std.ExtTreeMap.getElem?_erase_self, h]
  · simp [Std.ExtTreeMap.getElem?_erase, Ne.symm hk]

/-- Taking an array out takes its words out; a handle that is not live has none. -/
theorem wordCount_erase (arrays : ArrayTable) (handle : Handle) :
    (arrays.getD handle #[]).size + wordCount (arrays.erase handle) = arrays.wordCount := by
  rw [Std.ExtTreeMap.getD_eq_getD_getElem?]
  cases h : arrays[handle]? with
  | some array => exact (wordCount_eq_add_erase h).symm
  | none =>
    have herase := erase_of_getElem?_eq_none h
    rw [herase]
    simp

theorem wordCount_modify (arrays : ArrayTable) (handle : Handle) {f : Array Word → Array Word}
    (hf : ∀ array, (f array).size = array.size) :
    wordCount (arrays.modify handle f) = arrays.wordCount := by
  have herase : (arrays.modify handle f).erase handle = arrays.erase handle := by
    apply erase_eq_erase
    intro k hk
    simp [Std.ExtTreeMap.getElem?_modify, Ne.symm hk]
  have hsize : ((arrays.modify handle f).getD handle #[]).size =
      (arrays.getD handle #[]).size := by
    rw [Std.ExtTreeMap.getD_eq_getD_getElem?, Std.ExtTreeMap.getD_eq_getD_getElem?,
      Std.ExtTreeMap.getElem?_modify_self]
    cases arrays[handle]? with
    | none => rfl
    | some array => exact hf array
  -- count the array at the handle and the others apart, in both tables
  rw [← wordCount_erase _ handle, herase, hsize, wordCount_erase]

theorem withProgram_eq_self {arrays : ArrayTable} (h : (0 : Handle) ∈ arrays) :
    arrays.withProgram = arrays := by
  apply Std.ExtTreeMap.ext_getElem?
  intro k
  rw [withProgram, Std.ExtTreeMap.getElem?_insertIfNew, if_neg (fun hk => hk.2 h)]

theorem program_mem_withProgram (arrays : ArrayTable) : (0 : Handle) ∈ arrays.withProgram :=
  Std.ExtTreeMap.mem_insertIfNew_self

end ArrayTable

/-! ## Heaps -/

/-- The program is live, and the total is right. -/
structure Heap.WellFormed (heap : Heap) : Prop where
  program_live : (0 : Handle) ∈ heap.arrays
  totalWords_eq : heap.totalWords = heap.arrays.wordCount

namespace Heap

theorem getD_of_get?_eq_some {heap : Heap} {handle : Handle} {array : Array Word}
    (h : heap.get? handle = some array) : heap.arrays.getD handle #[] = array := by
  rw [Std.ExtTreeMap.getD_eq_getD_getElem?]
  exact congrArg (Option.getD · #[]) h

theorem wellFormed_ofProgram (program : Array Word) : (ofProgram program).WellFormed where
  program_live := Std.ExtTreeMap.mem_insert_self
  totalWords_eq := by
    rw [ofProgram, ArrayTable.wordCount_insert]
    rfl

theorem wellFormed_ofArrays (arrays : ArrayTable) (next : Handle) :
    (ofArrays arrays next).WellFormed where
  program_live := ArrayTable.program_mem_withProgram arrays
  totalWords_eq := rfl

namespace WellFormed

variable {heap : Heap}

theorem setCapacity (h : heap.WellFormed) (capacity : Option Nat) :
    (heap.setCapacity capacity).WellFormed :=
  ⟨h.program_live, h.totalWords_eq⟩

theorem store (h : heap.WellFormed) (handle : Handle) (offset value : Word) :
    (heap.store handle offset value).WellFormed where
  program_live := Std.ExtTreeMap.mem_modify.2 h.program_live
  totalWords_eq := by
    rw [Heap.store, ArrayTable.wordCount_modify]
    · exact h.totalWords_eq
    · intro array
      exact Array.size_setIfInBounds

theorem bind (h : heap.WellFormed) {handle : Handle} (hfresh : handle ∉ heap.arrays)
    (size : Word) : (heap.bind handle size).WellFormed where
  program_live := Std.ExtTreeMap.mem_insert.2 (.inr h.program_live)
  totalWords_eq := by
    have htotal := h.totalWords_eq
    have hcount := ArrayTable.wordCount_erase heap.arrays handle
    rw [Std.ExtTreeMap.getD_eq_fallback hfresh, Array.size_empty] at hcount
    rw [Heap.bind, ArrayTable.wordCount_insert, Array.size_replicate]
    show heap.totalWords + size.toNat = _
    omega

theorem unbind (h : heap.WellFormed) {handle : Handle} (hne : handle ≠ 0) :
    (heap.unbind handle).WellFormed where
  program_live := Std.ExtTreeMap.mem_erase.2 ⟨by simpa using hne, h.program_live⟩
  totalWords_eq := by
    have htotal := h.totalWords_eq
    have hcount := ArrayTable.wordCount_erase heap.arrays handle
    show heap.totalWords - (heap.arrays.getD handle #[]).size =
      ArrayTable.wordCount (heap.arrays.erase handle)
    omega

theorem copyToProgram (h : heap.WellFormed) (handle : Handle) :
    (heap.copyToProgram handle).WellFormed := by
  by_cases hzero : handle = 0
  · rw [Heap.copyToProgram, if_pos hzero]
    exact h
  · -- the old program goes and a copy of the array comes
    rw [Heap.copyToProgram, if_neg hzero]
    refine ⟨Std.ExtTreeMap.mem_insert_self, ?_⟩
    have htotal := h.totalWords_eq
    have hcount := ArrayTable.wordCount_erase heap.arrays 0
    show heap.totalWords - (heap.arrays.getD 0 #[]).size + (heap.arrays.getD handle #[]).size =
      ArrayTable.wordCount (heap.arrays.insert 0 (heap.arrays.getD handle #[]))
    rw [ArrayTable.wordCount_insert]
    omega

end WellFormed

theorem max_eq_left_of_le {a b : Handle} (h : b ≤ a) : max a b = a := by
  show (if a ≤ b then b else a) = a
  split
  · next h' => exact UInt32.le_antisymm h h'
  · rfl

/-- A heap is rebuilt from its arrays and a counter that is not behind them. -/
theorem ofArrays_eq_self {heap : Heap} (h : heap.WellFormed)
    (hnext : counterAfter heap.handles ≤ heap.next) :
    (ofArrays heap.arrays heap.next).setCapacity heap.capacity = heap := by
  obtain ⟨arrays, next, totalWords, capacity⟩ := heap
  obtain ⟨hprogram, htotal⟩ := h
  have harrays : arrays.withProgram = arrays := ArrayTable.withProgram_eq_self hprogram
  have hkept : max next (counterAfter arrays.keys) = next := max_eq_left_of_le hnext
  have hwords : totalWords = arrays.wordCount := htotal
  rw [ofArrays, setCapacity, harrays, hkept, hwords]

theorem checkAllocate_fresh {heap : Heap} {size : Word} {handle : Handle}
    (h : heap.checkAllocate size = .ok handle) : handle ≠ 0 ∧ handle ∉ heap.arrays := by
  rw [checkAllocate] at h
  split at h
  · cases h
  · split at h
    · cases h
    · next hfound =>
      cases h
      exact findHandle_fresh hfound

theorem checkFree_ne_zero {heap : Heap} {handle : Handle} (h : heap.checkFree handle = .ok ()) :
    handle ≠ 0 := by
  rintro rfl
  rw [checkFree, if_pos rfl] at h
  cases h

end Heap

/-! ## Instructions -/

/-- The check behind an effect has been made and has allowed it. -/
def Effect.Allowed (heap : Heap) : Effect → Prop
  | .skip => True
  | .assign _ _ => True
  | .store handle offset _ => heap.checkWrite handle offset = .ok ()
  | .allocate _ handle size => heap.checkAllocate size = .ok handle
  | .free handle => heap.checkFree handle = .ok ()
  | .load handle _ => heap.checkReplace handle = .ok ()

namespace Machine

theorem attempt_eq_complete {α : Type} {check : Except HeapError α} {f : α → Effect}
    {effect : Effect} (h : attempt check f = .complete effect) :
    ∃ a, check = .ok a ∧ f a = effect := by
  cases check with
  | error e => cases h
  | ok a => exact ⟨a, rfl, Action.complete.inj h⟩

/-- An instruction completes only with an effect that was allowed. -/
theorem allowed_of_action {m : Machine} {effect : Effect} (h : m.action = .complete effect) :
    effect.Allowed m.heap := by
  rw [action] at h
  split at h
  · -- no instruction at the pointer
    cases h
  · next word _ =>
    split at h
    · -- an immediate
      cases h
      trivial
    · next a b c _ =>
      split at h
      · -- no operation has this code
        cases h
      · next op _ =>
        -- the operations that may fail complete only if their check says so
        cases op with
        | conditionalMove =>
          simp only [perform] at h
          split at h <;> cases h <;> trivial
        | arrayIndex =>
          obtain ⟨value, -, rfl⟩ := attempt_eq_complete h
          trivial
        | arrayAmendment =>
          obtain ⟨_, hcheck, rfl⟩ := attempt_eq_complete h
          exact hcheck
        | addition => cases h; trivial
        | multiplication => cases h; trivial
        | division =>
          simp only [perform] at h
          split at h <;> cases h
          trivial
        | notAnd => cases h; trivial
        | halt => cases h
        | allocation =>
          obtain ⟨handle, hcheck, rfl⟩ := attempt_eq_complete h
          exact hcheck
        | abandonment =>
          obtain ⟨_, hcheck, rfl⟩ := attempt_eq_complete h
          exact hcheck
        | output =>
          simp only [perform] at h
          split at h <;> cases h
        | input => cases h
        | loadProgram =>
          obtain ⟨_, hcheck, rfl⟩ := attempt_eq_complete h
          exact hcheck
        | orthography => cases h

theorem wellFormed_apply {m : Machine} {effect : Effect} (h : m.heap.WellFormed)
    (hallowed : effect.Allowed m.heap) : (m.apply effect).heap.WellFormed := by
  cases effect with
  | skip => exact h
  | assign target value => exact h
  | store handle offset value => exact h.store handle offset value
  | allocate target handle size => exact h.bind (Heap.checkAllocate_fresh hallowed).2 size
  | free handle => exact h.unbind (Heap.checkFree_ne_zero hallowed)
  | load handle ip => exact h.copyToProgram handle

end Machine

/-- No instruction spoils the heap, whatever comes of it. -/
theorem Configuration.wellFormed_step {ι σ : Type} [InputSource ι] [OutputSink σ]
    (c : Configuration ι σ) (h : c.machine.heap.WellFormed) :
    c.step.2.machine.heap.WellFormed := by
  cases haction : c.machine.action with
  | complete effect =>
    rw [step_of_complete haction]
    exact Machine.wellFormed_apply h (Machine.allowed_of_action haction)
  | emit byte =>
    rw [step_of_emit haction]
    exact h
  | await target =>
    rcases hnext : InputSource.next c.input with ⟨_ | word, input⟩
    · rw [step_of_await_none haction hnext]
      exact h
    · rw [step_of_await_some haction hnext]
      exact h
  | halt =>
    rw [step_of_halt haction]
    exact h
  | fault cause =>
    rw [step_of_fault haction]
    exact h

end UniversalMachine
