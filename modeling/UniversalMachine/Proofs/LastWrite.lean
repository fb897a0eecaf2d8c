/-
  UniversalMachine.Proofs.LastWrite

  Reads return the last write.

  An array lives from the event that created it to the event that frees it or, for
  the program, replaces it. `Heap.Origin` finds the creation of a live array in a
  history: the words the array was created with, and the events since, none of
  which creates or frees the array of that handle again. What such events do to the
  array is said by themselves alone (`HeapEvent.amend`): a write that was granted
  replaces one word, and nothing else counts. So the array is its first words with
  all later writes to it carried out (`get?_operateAll`), and each place of it holds
  what was written there last (`getElem?_amendAll`).

  What an event does to each handle is taken from one case analysis
  (`Performs.get?_cases`): it keeps the array and may amend it, it creates one, or it
  frees one.
-/

import UniversalMachine.Proofs.Freshness

namespace UniversalMachine

/-! ## Events and the arrays they concern -/

/-- The handle whose array an operation may change or remove. Loading the program itself does
    neither. -/
def HeapOperation.target? : HeapOperation → Option Handle
  | .free handle => some handle
  | .write handle _ _ => some handle
  | .replaceProgram source => if source = 0 then none else some 0
  | .allocate _ => none
  | .read _ _ => none
  | .setCapacity _ => none

namespace HeapEvent

/-- The handle that an array was created under, if the event is an allocation or a replacement
    of the program that was granted. -/
def creates? (event : HeapEvent) : Option Handle :=
  match event.operation, event.answer with
  | .allocate _, .ok (some handle) => some handle
  | .replaceProgram source, .ok _ => if source = 0 then none else some 0
  | _, _ => none

/-- The event neither creates nor frees the array of a handle. -/
def Keeps (handle : Handle) (event : HeapEvent) : Prop :=
  event.creates? ≠ some handle ∧ event.frees? ≠ some handle

instance (handle : Handle) (event : HeapEvent) : Decidable (event.Keeps handle) :=
  inferInstanceAs (Decidable (_ ∧ _))

/-- The word that was written at a place, if the event is such a write and was granted. -/
def writes? (handle : Handle) (offset : Word) (event : HeapEvent) : Option Word :=
  match event.operation, event.answer with
  | .write target place value, .ok _ =>
    if target = handle ∧ place = offset then some value else none
  | _, _ => none

/-- What an event does to the words of an array that it keeps. -/
def amend (handle : Handle) (event : HeapEvent) (words : Array Word) : Array Word :=
  match event.operation, event.answer with
  | .write target place value, .ok _ =>
    if target = handle then words.setIfInBounds place.toNat value else words
  | _, _ => words

@[simp]
theorem size_amend (handle : Handle) (event : HeapEvent) (words : Array Word) :
    (event.amend handle words).size = words.size := by
  unfold amend
  split
  · split
    · exact Array.size_setIfInBounds
    · rfl
  · rfl

theorem keeps_of_error (handle : Handle) (op : HeapOperation) (e : HeapError) :
    Keeps handle ⟨op, .error e⟩ := by
  have hcreates : creates? ⟨op, .error e⟩ = none := by cases op <;> rfl
  have hfrees : frees? ⟨op, .error e⟩ = none := by cases op <;> rfl
  have hnone : none ≠ some handle := (Option.some_ne_none handle).symm
  rw [Keeps, hcreates, hfrees]
  exact ⟨hnone, hnone⟩

/-- An operation that is refused amends nothing. -/
theorem amend_of_error (handle : Handle) (op : HeapOperation) (e : HeapError)
    (words : Array Word) : amend handle ⟨op, .error e⟩ words = words := by
  cases op <;> rfl

/-- An operation with another target amends nothing. -/
theorem amend_of_target?_ne {handle : Handle} {op : HeapOperation} (h : op.target? ≠ some handle)
    (answer : Except HeapError (Option Word)) (words : Array Word) :
    amend handle ⟨op, answer⟩ words = words := by
  unfold amend
  split
  · next target place value _ hop _ =>
    have htarget : target ≠ handle := by
      rintro rfl
      rw [show op = _ from hop] at h
      exact h rfl
    rw [if_neg htarget]
  · rfl

/-- A place of an amended array holds the word that was written there, if one was. -/
theorem getElem?_amend (handle : Handle) (event : HeapEvent) {words : Array Word} {offset : Word}
    (hoffset : offset.toNat < words.size) :
    (event.amend handle words)[offset.toNat]? =
      (event.writes? handle offset).or words[offset.toNat]? := by
  unfold amend writes?
  split
  · next target place value _ _ _ =>
    by_cases htarget : target = handle
    · rw [if_pos htarget]
      by_cases hplace : place = offset
      · rw [if_pos ⟨htarget, hplace⟩, hplace, Array.getElem?_setIfInBounds_self_of_lt hoffset]
        rfl
      · -- the write goes to another place of this array
        have hne : place.toNat ≠ offset.toNat := fun heq => hplace (UInt32.toNat_inj.1 heq)
        rw [if_neg (fun h => hplace h.2), Array.getElem?_setIfInBounds_ne hne]
        rfl
    · rw [if_neg htarget, if_neg (fun h => htarget h.1)]
      rfl
  · rfl

end HeapEvent

namespace Heap

/-- The word that was written last at a place, if any was. -/
def lastWritten? (handle : Handle) (offset : Word) (events : List HeapEvent) : Option Word :=
  events.reverse.findSome? (HeapEvent.writes? handle offset)

theorem lastWritten?_cons (handle : Handle) (offset : Word) (event : HeapEvent)
    (later : List HeapEvent) :
    lastWritten? handle offset (event :: later) =
      (lastWritten? handle offset later).or (event.writes? handle offset) := by
  rw [lastWritten?, List.reverse_cons, List.findSome?_append, List.findSome?_singleton]
  rfl

/-- The words of an array after some events that keep it. -/
def amendAll (handle : Handle) (words : Array Word) (events : List HeapEvent) : Array Word :=
  events.foldl (fun words event => event.amend handle words) words

@[simp]
theorem size_amendAll (handle : Handle) (words : Array Word) (events : List HeapEvent) :
    (amendAll handle words events).size = words.size := by
  induction events generalizing words with
  | nil => rfl
  | cons event later ih =>
    rw [amendAll, List.foldl_cons, ← amendAll, ih, HeapEvent.size_amend]

/-- Each place holds what was written there last, or else what it held at first. -/
theorem getElem?_amendAll (handle : Handle) {words : Array Word} {offset : Word}
    (hoffset : offset.toNat < words.size) (events : List HeapEvent) :
    (amendAll handle words events)[offset.toNat]? =
      (lastWritten? handle offset events).or words[offset.toNat]? := by
  induction events generalizing words with
  | nil => rfl
  | cons event later ih =>
    have hoffset' : offset.toNat < (event.amend handle words).size := by
      rwa [HeapEvent.size_amend]
    rw [amendAll, List.foldl_cons, ← amendAll, ih hoffset',
      HeapEvent.getElem?_amend handle event hoffset, lastWritten?_cons, Option.or_assoc]

/-! ## Where an array comes from -/

/-- An operation that is granted creates an array under a handle: an allocation creates one of
    zero words, and replacing the program creates a copy of what the source holds at that
    moment. -/
inductive Creates (heap : Heap) : HeapOperation → Handle → Array Word → Prop
  | allocated {size : Word} {handle : Handle} {after : Heap}
      (h : heap.allocate size = .ok (handle, after)) :
      Creates heap (.allocate size) handle (.replicate size.toNat 0)
  | copied {source : Handle} {words : Array Word} {after : Heap} (hne : source ≠ 0)
      (hsource : heap.get? source = some words) (h : heap.replaceProgram source = .ok after) :
      Creates heap (.replaceProgram source) 0 words

/-- The array of a handle goes back to the start of a history, or to the latest operation that
    created it. It had these words then, and these are the events since. -/
inductive Origin (heap : Heap) (ops : List HeapOperation) (handle : Handle) :
    Array Word → List HeapEvent → Prop
  | started {words : Array Word} (hlive : heap.get? handle = some words)
      (hkept : ∀ event ∈ (heap.operateAll ops).1, event.Keeps handle) :
      Origin heap ops handle words (heap.operateAll ops).1
  | created (before : List HeapOperation) (op : HeapOperation) (after : List HeapOperation)
      {words : Array Word} (hops : ops = before ++ op :: after)
      (hcreates : (heap.operateAll before).2.Creates op handle words)
      (hkept : ∀ event ∈ (((heap.operateAll before).2.operate op).2.operateAll after).1,
        event.Keeps handle) :
      Origin heap ops handle words (((heap.operateAll before).2.operate op).2.operateAll after).1

theorem operateAll_cons (heap : Heap) (op : HeapOperation) (ops : List HeapOperation) :
    heap.operateAll (op :: ops) =
      (⟨op, (heap.operate op).1⟩ :: ((heap.operate op).2.operateAll ops).1,
        ((heap.operate op).2.operateAll ops).2) := rfl

theorem operateAll_append (heap : Heap) (before after : List HeapOperation) :
    (heap.operateAll (before ++ after)).2 = ((heap.operateAll before).2.operateAll after).2 := by
  induction before generalizing heap with
  | nil => rfl
  | cons op before ih => exact ih (heap.operate op).2

/-! ## What an operation does to each handle -/

section Lookups

variable (heap : Heap) (handle other : Handle)

theorem get?_bind (size : Word) :
    (heap.bind other size).get? handle =
      if other = handle then some (.replicate size.toNat 0) else heap.get? handle := by
  show (heap.arrays.insert other _)[handle]? = _
  rw [Std.ExtTreeMap.getElem?_insert]
  simp only [Std.LawfulEqCmp.compare_eq_iff_eq]
  rfl

theorem get?_unbind :
    (heap.unbind other).get? handle = if other = handle then none else heap.get? handle := by
  show (heap.arrays.erase other)[handle]? = _
  rw [Std.ExtTreeMap.getElem?_erase]
  simp only [Std.LawfulEqCmp.compare_eq_iff_eq]
  rfl

theorem get?_store (offset value : Word) :
    (heap.store other offset value).get? handle =
      (heap.get? handle).map fun words =>
        if other = handle then words.setIfInBounds offset.toNat value else words := by
  show (heap.arrays.modify other _)[handle]? = _
  rw [Std.ExtTreeMap.getElem?_modify]
  by_cases hsame : other = handle
  · simp only [hsame, Std.ReflCmp.compare_self, if_true]
    rfl
  · simp only [Std.LawfulEqCmp.compare_eq_iff_eq, hsame, if_false, Option.map_id']
    rfl

theorem get?_copyToProgram {words : Array Word} (hne : other ≠ 0)
    (hlive : heap.get? other = some words) :
    (heap.copyToProgram other).get? handle =
      if handle = 0 then some words else heap.get? handle := by
  have hwords := getD_of_get?_eq_some hlive
  rw [copyToProgram, if_neg hne, hwords]
  show (heap.arrays.insert 0 words)[handle]? = _
  rw [Std.ExtTreeMap.getElem?_insert]
  simp only [Std.LawfulEqCmp.compare_eq_iff_eq, eq_comm (a := (0 : Handle))]
  rfl

end Lookups

/-- A replacement that is allowed has a live source. -/
theorem exists_source_of_checkReplace {heap : Heap} {source : Handle} (hne : source ≠ 0)
    (h : heap.checkReplace source = .ok ()) : ∃ words, heap.get? source = some words := by
  rw [checkReplace, if_neg hne] at h
  cases hlive : heap.get? source with
  | none =>
    rw [hlive] at h
    cases h
  | some words => exact ⟨words, rfl⟩

/-- An operation keeps the array of a handle and may amend it, creates one, or frees it. -/
theorem Performs.get?_cases {heap heap' : Heap} {op : HeapOperation}
    {answer : Except HeapError (Option Word)} (hperforms : heap.Performs op answer heap')
    (handle : Handle) :
    (HeapEvent.Keeps handle ⟨op, answer⟩ ∧
      heap'.get? handle = (heap.get? handle).map (HeapEvent.amend handle ⟨op, answer⟩)) ∨
    (HeapEvent.creates? ⟨op, answer⟩ = some handle ∧
      ∃ words, heap.Creates op handle words ∧ heap'.get? handle = some words) ∨
    (HeapEvent.frees? ⟨op, answer⟩ = some handle ∧ heap'.get? handle = none) := by
  have hnone : none ≠ some handle := (Option.some_ne_none handle).symm
  -- most operations keep every array and amend none
  have hsame : ∀ {k : Heap}, HeapEvent.Keeps handle ⟨op, answer⟩ →
      HeapEvent.amend handle ⟨op, answer⟩ = id → k.get? handle = heap.get? handle →
      HeapEvent.Keeps handle ⟨op, answer⟩ ∧
        k.get? handle = (heap.get? handle).map (HeapEvent.amend handle ⟨op, answer⟩) := by
    intro k hkeeps hamend hget
    rw [hamend, Option.map_id, id_eq]
    exact ⟨hkeeps, hget⟩
  cases hperforms with
  | refused _ e =>
    exact .inl (hsame (HeapEvent.keeps_of_error handle op e)
      (funext (HeapEvent.amend_of_error handle op e)) rfl)
  | @allocated size issued hcheck =>
    by_cases hissued : issued = handle
    · subst hissued
      have hallocate := allocate_eq_ok_iff.2 ⟨hcheck, rfl⟩
      refine .inr (.inl ⟨rfl, _, .allocated hallocate, ?_⟩)
      rw [get?_bind, if_pos rfl]
    · refine .inl (hsame ⟨?_, hnone⟩ rfl ?_)
      · exact fun h => hissued (Option.some.inj h)
      · rw [get?_bind, if_neg hissued]
  | @freed freed _ =>
    by_cases hfreed : freed = handle
    · refine .inr (.inr ⟨congrArg some hfreed, ?_⟩)
      rw [get?_unbind, if_pos hfreed]
    · refine .inl (hsame ⟨hnone, ?_⟩ rfl ?_)
      · exact fun h => hfreed (Option.some.inj h)
      · rw [get?_unbind, if_neg hfreed]
  | found _ => exact .inl (hsame ⟨hnone, hnone⟩ rfl rfl)
  | written value _ =>
    refine .inl ⟨⟨hnone, hnone⟩, ?_⟩
    rw [get?_store]
    rfl
  | @replaced source hcheck =>
    by_cases hzero : source = 0
    · refine .inl (hsame ⟨?_, hnone⟩ rfl ?_)
      · simp [HeapEvent.creates?, hzero]
      · rw [copyToProgram, if_pos hzero]
    · obtain ⟨words, hsource⟩ := exists_source_of_checkReplace hzero hcheck
      have hcreates : HeapEvent.creates? ⟨.replaceProgram source, .ok none⟩ = some 0 :=
        if_neg hzero
      have hget := heap.get?_copyToProgram handle source hzero hsource
      by_cases hprogram : handle = 0
      · have hreplace := replaceProgram_eq_ok_iff.2 ⟨hcheck, rfl⟩
        subst hprogram
        exact .inr (.inl ⟨hcreates, words, .copied hzero hsource hreplace, hget⟩)
      · refine .inl (hsame ⟨?_, hnone⟩ rfl ?_)
        · rw [hcreates]
          exact fun h => hprogram (Option.some.inj h).symm
        · rw [hget, if_neg hprogram]
  | bounded capacity => exact .inl (hsame ⟨hnone, hnone⟩ rfl rfl)

theorem Performs.get?_of_keeps {heap heap' : Heap} {op : HeapOperation}
    {answer : Except HeapError (Option Word)} (hperforms : heap.Performs op answer heap')
    {handle : Handle} (hkeeps : HeapEvent.Keeps handle ⟨op, answer⟩) :
    heap'.get? handle = (heap.get? handle).map (HeapEvent.amend handle ⟨op, answer⟩) := by
  obtain ⟨-, hget⟩ | ⟨hcreates, -⟩ | ⟨hfrees, -⟩ := hperforms.get?_cases handle
  · exact hget
  · exact absurd hcreates hkeeps.1
  · exact absurd hfrees hkeeps.2

/-- What an operation has created is there afterwards. -/
theorem Creates.get?_operate {heap : Heap} {op : HeapOperation} {handle : Handle}
    {words : Array Word} (h : heap.Creates op handle words) :
    (heap.operate op).2.get? handle = some words := by
  cases h with
  | @allocated size _ after hallocate =>
    have hafter : (heap.operate (.allocate size)).2 = heap.bind handle size := by
      rw [operate, hallocate]
      exact (allocate_eq_ok_iff.1 hallocate).2.symm
    rw [hafter, get?_bind, if_pos rfl]
  | @copied source _ after hne hsource hreplace =>
    have hafter : (heap.operate (.replaceProgram source)).2 = heap.copyToProgram source := by
      rw [operate, hreplace]
      exact (replaceProgram_eq_ok_iff.1 hreplace).2.symm
    rw [hafter, get?_copyToProgram heap 0 source hne hsource, if_pos rfl]

/-- An operation leaves every live array alone that is not its target. -/
theorem Performs.get?_of_target?_ne {heap heap' : Heap} {op : HeapOperation}
    {answer : Except HeapError (Option Word)} (hperforms : heap.Performs op answer heap')
    {handle : Handle} (hlive : handle ∈ heap.arrays) (htarget : op.target? ≠ some handle) :
    heap'.get? handle = heap.get? handle := by
  obtain ⟨-, hget⟩ | ⟨-, words, hcreates, -⟩ | ⟨hfrees, -⟩ := hperforms.get?_cases handle
  · rw [hget, funext (HeapEvent.amend_of_target?_ne htarget answer)]
    exact Option.map_id'
  · cases hcreates with
    | allocated hallocate =>
      -- a handle that is issued was not live
      exact absurd hlive (checkAllocate_fresh (allocate_eq_ok_iff.1 hallocate).1).2
    | copied hne _ _ => exact absurd (if_neg hne) htarget
  · cases hperforms with
    | refused _ e => cases op <;> cases hfrees
    | freed _ => exact absurd hfrees htarget
    | allocated _ => cases hfrees
    | found _ => cases hfrees
    | written _ _ => cases hfrees
    | replaced _ => cases hfrees
    | bounded _ => cases hfrees

/-! ## Whole histories -/

/-- An array that every event keeps is its first words with all events carried out on them. -/
theorem get?_operateAll {heap : Heap} {ops : List HeapOperation} {handle : Handle}
    (hkept : ∀ event ∈ (heap.operateAll ops).1, event.Keeps handle) :
    (heap.operateAll ops).2.get? handle =
      (heap.get? handle).map (amendAll handle · (heap.operateAll ops).1) := by
  induction ops generalizing heap with
  | nil => exact Option.map_id'.symm
  | cons op ops ih =>
    rw [operateAll_cons] at hkept ⊢
    obtain ⟨hop, hlater⟩ := List.forall_mem_cons.1 hkept
    rw [ih hlater, (heap.performs_operate op).get?_of_keeps hop, Option.map_map]
    rfl

/-- Every live array has an origin. -/
theorem exists_origin {heap : Heap} {ops : List HeapOperation} {handle : Handle}
    {array : Array Word} (hlive : (heap.operateAll ops).2.get? handle = some array) :
    ∃ words since, heap.Origin ops handle words since := by
  induction ops generalizing heap with
  | nil => exact ⟨array, [], .started hlive (by simp [operateAll])⟩
  | cons op ops ih =>
    rw [operateAll_cons] at hlive
    obtain ⟨words, since, horigin⟩ := ih hlive
    cases horigin with
    | created before later after hops hcreates hkept =>
      exact ⟨words, _, .created (op :: before) later after (congrArg (op :: ·) hops) hcreates hkept⟩
    | started hafter hkept =>
      -- the array was there after the first operation: before it as well, or because of it
      obtain ⟨hkeeps, hget⟩ | ⟨-, words', hcreates, -⟩ | ⟨-, hnone⟩ :=
        (heap.performs_operate op).get?_cases handle
      · rw [hget] at hafter
        obtain ⟨first, hfirst, -⟩ := Option.map_eq_some_iff.1 hafter
        exact ⟨first, _, .started hfirst (List.forall_mem_cons.2 ⟨hkeeps, hkept⟩)⟩
      · exact ⟨words', _, .created [] op ops rfl hcreates hkept⟩
      · rw [hnone] at hafter
        cases hafter

/-- An array with a known origin is what has become of its first words. -/
theorem Origin.get? {heap : Heap} {ops : List HeapOperation} {handle : Handle}
    {words : Array Word} {since : List HeapEvent} (h : heap.Origin ops handle words since) :
    (heap.operateAll ops).2.get? handle = some (amendAll handle words since) := by
  cases h with
  | started hlive hkept =>
    rw [get?_operateAll hkept, hlive]
    rfl
  | created before op after hops hcreates hkept =>
    rw [hops, operateAll_append, operateAll_cons]
    dsimp only
    rw [get?_operateAll hkept, hcreates.get?_operate]
    rfl

/-! ## Memory -/

/-- What a heap remembers of a history. -/
structure Remembers (heap : Heap) (ops : List HeapOperation) : Prop where
  /-- The live arrays are those with an origin. -/
  live_iff (handle : Handle) : (heap.operateAll ops).2.isLive handle = true ↔
    ∃ words since, heap.Origin ops handle words since
  /-- An array has the length it was created with. -/
  length_eq {handle : Handle} {words : Array Word} {since : List HeapEvent} :
    heap.Origin ops handle words since →
      ∃ array, (heap.operateAll ops).2.get? handle = some array ∧ array.size = words.size
  /-- Within it, reading gives the word written last since then, or else the first one. -/
  read_eq {handle : Handle} {words : Array Word} {since : List HeapEvent} :
    heap.Origin ops handle words since → ∀ (offset : Word) (_ : offset.toNat < words.size),
      (heap.operateAll ops).2.read handle offset =
        .ok ((lastWritten? handle offset since).getD words[offset.toNat])
  /-- Beyond it there is nothing to read or write. -/
  beyond {handle : Handle} {words : Array Word} {since : List HeapEvent} :
    heap.Origin ops handle words since → ∀ offset : Word, words.size ≤ offset.toNat →
      (heap.operateAll ops).2.read handle offset =
        .error (.outOfBounds handle offset words.size) ∧
      ∀ value, (heap.operateAll ops).2.write handle offset value =
        .error (.outOfBounds handle offset words.size)
  /-- The next operation leaves every array alone that is not its target. -/
  untouched {op : HeapOperation} {other : Handle} :
    (heap.operateAll ops).2.isLive other = true → op.target? ≠ some other →
      ((heap.operateAll ops).2.operate op).2.get? other = (heap.operateAll ops).2.get? other
  /-- An operation that is refused leaves all arrays alone. -/
  unchanged {op : HeapOperation} {e : HeapError} :
    ((heap.operateAll ops).2.operate op).1 = .error e →
      ((heap.operateAll ops).2.operate op).2 = (heap.operateAll ops).2

theorem remembers (heap : Heap) (ops : List HeapOperation) : heap.Remembers ops where
  live_iff handle := by
    rw [isLive, Std.ExtTreeMap.contains_eq_isSome_getElem?]
    constructor
    · intro hlive
      obtain ⟨array, harray⟩ := Option.isSome_iff_exists.1 hlive
      exact exists_origin harray
    · rintro ⟨words, since, horigin⟩
      exact Option.isSome_iff_exists.2 ⟨_, horigin.get?⟩
  length_eq horigin := ⟨_, horigin.get?, size_amendAll _ _ _⟩
  read_eq {handle words since} horigin offset hoffset := by
    have hword : (amendAll handle words since)[offset.toNat]? =
        some ((lastWritten? handle offset since).getD words[offset.toNat]) := by
      rw [getElem?_amendAll handle hoffset, Array.getElem?_eq_getElem hoffset, Option.or_some]
    rw [read, horigin.get?]
    dsimp only
    rw [hword]
  beyond {handle words since} horigin offset hbeyond := by
    have hsize := size_amendAll handle words since
    have hnone : (amendAll handle words since)[offset.toNat]? = none :=
      Array.getElem?_eq_none (by omega)
    constructor
    · rw [read, horigin.get?]
      dsimp only
      rw [hnone, hsize]
    · intro value
      have hcheck : (heap.operateAll ops).2.checkWrite handle offset =
          .error (.outOfBounds handle offset words.size) := by
        rw [checkWrite, horigin.get?]
        dsimp only
        rw [if_neg (by omega), hsize]
      rw [write, hcheck]
  untouched hlive htarget :=
    (performs_operate _ _).get?_of_target?_ne (Std.ExtTreeMap.mem_iff_contains.2 hlive) htarget
  unchanged herror := (performs_operate _ _).unchanged herror

/-- Reads return the last write. After every sequence of operations on a heap that started with
    a program under handle 0, each live array has an origin: it is that program, or it was
    created by an allocation, with zero words, or as a copy that replaced the program. Its length
    is the one it was created with; reading gives the word that was written last at that place
    since then, or else the first one, and places past its length are out of bounds. No
    operation changes an array that is not its target, and none changes anything if it is
    refused. -/
theorem reads_return_last_write (program : Array Word) (ops : List HeapOperation) :
    (∀ handle words, (ofProgram program).get? handle = some words ↔
      handle = 0 ∧ words = program) ∧
    (ofProgram program).Remembers ops := by
  refine ⟨?_, remembers _ ops⟩
  intro handle words
  show ((∅ : ArrayTable).insert 0 program)[handle]? = some words ↔ _
  rw [Std.ExtTreeMap.getElem?_insert]
  simp only [Std.LawfulEqCmp.compare_eq_iff_eq, Std.ExtTreeMap.getElem?_empty]
  constructor
  · intro h
    split at h
    · next hzero => exact ⟨hzero.symm, (Option.some.inj h).symm⟩
    · cases h
  · rintro ⟨rfl, rfl⟩
    rw [if_pos rfl]

/-- An array is filled, past its end in vain, and copied over the program. -/
def copying : List HeapOperation :=
  [.allocate 3, .write 1 2 77, .write 1 3 8, .replaceProgram 1]

/-- Then both are changed, the program where it stands, and the array it came from is freed. -/
def changing : List HeapOperation :=
  [.replaceProgram 0, .write 1 2 9, .write 0 0 5, .write 0 0 6, .free 1, .write 1 0 4]

theorem reads_return_last_write_copied :
    (ofProgram #[1]).Origin (copying ++ changing) 0 #[0, 0, 77]
      (((ofProgram #[1]).operateAll copying).2.operateAll changing).1 ∧
    ((ofProgram #[1]).operateAll (copying ++ changing)).2.read 0 0 = .ok 6 ∧
    ((ofProgram #[1]).operateAll (copying ++ changing)).2.read 0 2 = .ok 77 ∧
    ((ofProgram #[1]).operateAll (copying ++ changing)).2.read 0 3 =
      .error (.outOfBounds 0 3 3) := by
  have horigin : (ofProgram #[1]).Origin (copying ++ changing) 0 #[0, 0, 77]
      (((ofProgram #[1]).operateAll copying).2.operateAll changing).1 :=
    .created [.allocate 3, .write 1 2 77, .write 1 3 8] (.replaceProgram 1) changing rfl
      (.copied (by decide) (by decide) rfl) (by decide)
  obtain ⟨-, hremembers⟩ := reads_return_last_write #[1] (copying ++ changing)
  exact ⟨horigin, hremembers.read_eq horigin 0 (by decide), hremembers.read_eq horigin 2 (by decide),
    (hremembers.beyond horigin 3 (by decide)).1⟩

end Heap

end UniversalMachine
