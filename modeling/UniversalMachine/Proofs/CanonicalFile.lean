/-
  UniversalMachine.Proofs.CanonicalFile

  The file of a snapshot is determined by what the snapshot says.

  A table of arrays may be stored in any order. Whatever the order, sorting what is
  stored by handle gives the one listing that is written to a file, because a list
  with distinct keys has only one ascending arrangement
  (`ArrayTable.toList_eq_of_ascending`, `ArrayTable.toList_eq_sort`). The length of
  the file follows from the listing alone (`Snapshot.length_encode`).
-/

import Mathlib.Algebra.Group.Nat.Defs
import Mathlib.Data.List.Pairwise
import Mathlib.Tactic.Tauto
import UniversalMachine.Proofs.Persistence

namespace UniversalMachine

/-! ## Sorting by handle -/

/-- A list arranged by ascending handles. -/
def sortByHandle {α : Type} (handle : α → Handle) (l : List α) : List α :=
  l.mergeSort fun x y => handle x ≤ handle y

theorem sortByHandle_perm {α : Type} (handle : α → Handle) (l : List α) :
    (sortByHandle handle l).Perm l :=
  List.mergeSort_perm l _

theorem ascending_sortByHandle {α : Type} {handle : α → Handle} {l : List α}
    (hdistinct : l.Pairwise fun x y => handle x ≠ handle y) :
    (sortByHandle handle l).Pairwise fun x y => handle x < handle y := by
  have hsorted : (sortByHandle handle l).Pairwise fun x y =>
      decide (handle x ≤ handle y) = true := by
    apply List.pairwise_mergeSort
    · intro x y z hxy hyz
      simp only [decide_eq_true_eq, UInt32.le_iff_toNat_le] at hxy hyz ⊢
      omega
    · intro x y
      simp only [Bool.or_eq_true, decide_eq_true_eq, UInt32.le_iff_toNat_le]
      omega
  have hdistinct' : (sortByHandle handle l).Pairwise fun x y => handle x ≠ handle y :=
    (sortByHandle_perm handle l).symm.pairwise hdistinct fun h => Ne.symm h
  refine hsorted.imp₂ ?_ hdistinct'
  intro x y hle hne
  rw [decide_eq_true_eq, UInt32.le_iff_toNat_le] at hle
  rw [Ne, ← UInt32.toNat_inj] at hne
  rw [UInt32.lt_iff_toNat_lt]
  omega

theorem sortByHandle_eq_self {α : Type} {handle : α → Handle} {l : List α}
    (h : l.Pairwise fun x y => handle x < handle y) : sortByHandle handle l = l := by
  apply List.mergeSort_of_pairwise
  refine h.imp ?_
  intro x y hlt
  rw [UInt32.lt_iff_toNat_lt] at hlt
  rw [decide_eq_true_eq, UInt32.le_iff_toNat_le]
  omega

namespace ArrayTable

/-- The entries of a table, in some order. -/
structure Listing (arrays : ArrayTable) (stored : List (Handle × Array Word)) : Prop where
  distinct : stored.Pairwise fun x y => x.1 ≠ y.1
  mem_iff : ∀ (handle : Handle) (array : Array Word),
    (handle, array) ∈ stored ↔ arrays[handle]? = some array

theorem listing_toList (arrays : ArrayTable) : arrays.Listing arrays.toList where
  distinct := arrays.pairwise_toList
  mem_iff _ _ := Std.ExtTreeMap.mem_toList_iff_getElem?_eq_some

theorem ascending_toList (arrays : ArrayTable) :
    arrays.toList.Pairwise fun x y => x.1 < y.1 := by
  refine Std.ExtTreeMap.ordered_keys_toList.imp ?_
  intro x y hlt
  exact Std.compare_eq_lt.1 hlt

theorem Listing.perm_toList {arrays : ArrayTable} {stored : List (Handle × Array Word)}
    (h : arrays.Listing stored) : stored.Perm arrays.toList := by
  have hnodup : stored.Nodup := h.distinct.imp fun hne heq => hne (congrArg Prod.fst heq)
  rw [List.perm_ext_iff_of_nodup hnodup arrays.nodup_toList]
  rintro ⟨handle, array⟩
  rw [h.mem_iff, Std.ExtTreeMap.mem_toList_iff_getElem?_eq_some]

/-- There is one way to list a table by ascending handles. -/
theorem toList_eq_of_ascending {arrays : ArrayTable} {stored : List (Handle × Array Word)}
    (h : arrays.Listing stored) (hascending : stored.Pairwise fun x y => x.1 < y.1) :
    arrays.toList = stored := by
  refine List.Perm.eq_of_pairwise ?_ arrays.ascending_toList hascending h.perm_toList.symm
  intro x y _ _ hxy hyx
  rw [UInt32.lt_iff_toNat_lt] at hxy hyx
  omega

theorem Listing.sort {arrays : ArrayTable} {stored : List (Handle × Array Word)}
    (h : arrays.Listing stored) : arrays.Listing (sortByHandle Prod.fst stored) where
  distinct := (sortByHandle_perm _ stored).symm.pairwise h.distinct fun hne => Ne.symm hne
  mem_iff handle array := by
    rw [(sortByHandle_perm _ stored).mem_iff, h.mem_iff]

theorem toList_eq_sort {arrays : ArrayTable} {stored : List (Handle × Array Word)}
    (h : arrays.Listing stored) : arrays.toList = sortByHandle Prod.fst stored :=
  toList_eq_of_ascending h.sort (ascending_sortByHandle h.distinct)

end ArrayTable

namespace Snapshot

/-! ## The length of a file -/

theorem length_encodeArray (handle : Handle) (array : Array Word) :
    (encodeArray handle array).length = 8 + 4 * array.size := by
  simp only [encodeArray, List.length_append, Word.length_toBytes, Word.length_listToBytes,
    Array.length_toList]

theorem length_flatMap_encodeArray (entries : List (Handle × Array Word)) :
    (entries.flatMap fun entry => encodeArray entry.1 entry.2).length =
      8 * entries.length +
        4 * entries.foldr (fun entry count => entry.2.size + count) 0 := by
  induction entries with
  | nil => rfl
  | cons entry entries ih =>
    rw [List.flatMap_cons, List.length_append, length_encodeArray, ih, List.length_cons,
      List.foldr_cons]
    omega

/-- The fields of a file in front of its arrays. -/
def preamble (s : Snapshot) : Bytes :=
  magic ++ [version] ++ Word.toBytes s.ip ++ Word.listToBytes s.registers.toList ++
    Word.toBytes s.nextHandle ++ Word.toBytes (.ofNat s.arrays.size)

theorem encode_eq_preamble_append (s : Snapshot) :
    s.encode = s.preamble ++ s.arrays.toList.flatMap fun entry => encodeArray entry.1 entry.2 := rfl

theorem length_preamble (s : Snapshot) : s.preamble.length = 49 := by
  have hregisters : s.registers.toList.length = 8 := by simp
  simp only [preamble, List.length_append, Word.length_toBytes, Word.length_listToBytes, hregisters]
  rfl

theorem length_encode (s : Snapshot) :
    s.encode.length = 49 + 8 * s.arrays.size + 4 * s.arrays.wordCount := by
  rw [encode_eq_preamble_append, List.length_append, length_preamble, length_flatMap_encodeArray,
    Std.ExtTreeMap.length_toList, ArrayTable.wordCount]
  omega

/-! ## One file for one state -/

/-- Writing and reading loses nothing, and what is written depends on the state alone. A snapshot
    whose numbers of arrays and words fit into words is read back as it was. The file of a machine's
    state is its pointer, registers and counter and then its arrays sorted by handle, in whatever
    order they are stored; so machines that bind the same handles to the same arrays, however they
    came to that, have the same file. -/
theorem encode_lossless_canonical :
    (∀ s : Snapshot, (0 : Handle) ∈ s.arrays → s.arrays.size < 2 ^ 32 →
      (∀ (handle : Handle) (array : Array Word), s.arrays[handle]? = some array →
        array.size < 2 ^ 32) →
      decode s.encode = .ok s) ∧
    (∀ (m : Machine) (stored : List (Handle × Array Word)), m.heap.arrays.Listing stored →
      m.capture.encode =
        layOut m.ip m.registers m.heap.next (sortByHandle Prod.fst stored)) ∧
    (∀ m k : Machine, m.ip = k.ip → m.registers = k.registers → m.heap.next = k.heap.next →
      (∀ handle, m.heap.get? handle = k.heap.get? handle) →
      m.capture.encode = k.capture.encode) ∧
    (∀ s : Snapshot, s.encode.length = 49 + 8 * s.arrays.size + 4 * s.arrays.wordCount) ∧
    ∀ m : Machine, m.Reachable →
      m.capture.encode.length = 49 + 8 * m.heap.size + 4 * m.heap.totalWords := by
  have hsorted : ∀ (m : Machine) (stored : List (Handle × Array Word)),
      m.heap.arrays.Listing stored → m.capture.encode =
        layOut m.ip m.registers m.heap.next (sortByHandle Prod.fst stored) := by
    intro m stored hstored
    rw [encode_eq_layOut, ← ArrayTable.toList_eq_sort hstored]
    rfl
  refine ⟨decode_encode, hsorted, ?_, length_encode, ?_⟩
  · intro m k hip hregisters hnext harrays
    -- what the one machine stores is a listing of the arrays of the other
    have hlisting : m.heap.arrays.Listing k.heap.arrays.toList := by
      refine ⟨k.heap.arrays.pairwise_toList, ?_⟩
      intro handle array
      rw [Std.ExtTreeMap.mem_toList_iff_getElem?_eq_some]
      show k.heap.get? handle = some array ↔ m.heap.get? handle = some array
      rw [harrays]
    rw [hsorted m _ hlisting, hsorted k _ k.heap.arrays.listing_toList, hip, hregisters, hnext]
  · intro m hreach
    rw [length_encode, hreach.wellFormed.totalWords_eq]
    rfl

/-- A snapshot with gaps between its handles, one of them bound to an empty array. -/
def threeArrays : Snapshot where
  ip := 1
  registers := #v[0, 1, 2, 3, 4, 5, 6, 0xFFFFFFFF]
  arrays := (((∅ : ArrayTable).insert 7 #[1, 2, 0xFFFFFFFF]).insert
    0 #[0x70000000, 0xD2000041]).insert 3 #[]
  nextHandle := 12

theorem encode_lossless_canonical_threeArrays :
    decode threeArrays.encode = .ok threeArrays ∧ threeArrays.encode.length = 93 ∧
    (Machine.ofSnapshot threeArrays).capture.encode =
      layOut 1 threeArrays.registers 12
        (sortByHandle Prod.fst
          [(7, #[1, 2, 0xFFFFFFFF]), (3, #[]), (0, #[0x70000000, 0xD2000041])]) := by
  obtain ⟨hread, hsorted, -, hlength, -⟩ := encode_lossless_canonical
  have hlisted : threeArrays.arrays.toList =
      [(0, #[0x70000000, 0xD2000041]), (3, #[]), (7, #[1, 2, 0xFFFFFFFF])] := by decide
  refine ⟨hread threeArrays (by decide) (by decide) ?_, ?_, ?_⟩
  · intro handle array h
    have hall : ∀ entry ∈ threeArrays.arrays.toList, entry.2.size < 2 ^ 32 := by decide
    exact hall (handle, array) (Std.ExtTreeMap.mem_toList_iff_getElem?_eq_some.2 h)
  · rw [hlength]
    decide
  · have hprogram : (0 : Handle) ∈ threeArrays.arrays := by decide
    have hnext : (Machine.ofSnapshot threeArrays).heap.next = 12 := by decide
    rw [← hnext]
    apply hsorted (Machine.ofSnapshot threeArrays)
    refine ⟨by decide, ?_⟩
    intro handle array
    show _ ↔ threeArrays.arrays.withProgram[handle]? = some array
    rw [ArrayTable.withProgram_eq_self hprogram,
      ← Std.ExtTreeMap.mem_toList_iff_getElem?_eq_some, hlisted]
    simp only [List.mem_cons, List.not_mem_nil, or_false]
    tauto

end Snapshot

end UniversalMachine
