/-
  UniversalMachine.Heap

  The arrays a program works on. Each live array is known by a handle, a non-zero
  word, except for the running program itself, which is the array of handle 0.

  Handles are issued from a counter that only moves forward, so a handle that was
  given back is not issued again until the counter has run through all `2 ^ 32`
  values; from then on the search skips 0 and every handle still live. The heap
  keeps a running total of live words, and a capacity, when one is set, bounds
  that total. Every operation is a check followed by a change that cannot fail: a
  refused operation leaves the heap as it was. Operations that look and change by
  turns come to the same (UniversalMachine.Proofs.InPlace).
-/

import Std.Data.ExtTreeMap
import UniversalMachine.Word

namespace UniversalMachine

/-- Names a live array; handle 0 is the program. -/
abbrev Handle := Word

/-- The live arrays by handle. -/
abbrev ArrayTable := Std.ExtTreeMap Handle (Array Word)

/-- Tables are equal when they bind the same handles to the same arrays. -/
instance : DecidableEq ArrayTable := fun a b => inferInstanceAs (Decidable (a = b))

/-- Why a heap operation was refused. -/
inductive HeapError where
  | inactiveHandle (handle : Handle)
  | outOfBounds (handle : Handle) (offset : Word) (length : Nat)
  | abandonProgram
  | outOfMemory (requested inUse limit : Nat)
  | handlesExhausted
  deriving DecidableEq, Repr

/-- The wording of a refusal. -/
def HeapError.message : HeapError → String
  | .inactiveHandle handle => s!"handle {handle} is not an active array"
  | .outOfBounds handle offset length =>
    s!"offset {offset} out of bounds for array {handle} of length {length}"
  | .abandonProgram => "cannot abandon the program array"
  | .outOfMemory requested inUse limit =>
    s!"out of memory: requested {requested} words, {inUse} in use, limit is {limit}"
  | .handlesExhausted => "every handle is in use"

namespace ArrayTable

/-- The number of words in all arrays together. -/
def wordCount (arrays : ArrayTable) : Nat :=
  arrays.toList.foldr (fun entry count => entry.2.size + count) 0

/-- The table with an empty program added when it has none. -/
def withProgram (arrays : ArrayTable) : ArrayTable :=
  arrays.insertIfNew 0 #[]

end ArrayTable

/-- The live arrays, the counter handles are issued from, and the accounts. -/
structure Heap where
  arrays : ArrayTable
  /-- Where the search for the next handle starts. -/
  next : Handle
  /-- Words held by all live arrays together. -/
  totalWords : Nat
  /-- The most words that may be live at once, if bounded. -/
  capacity : Option Nat
  deriving DecidableEq

namespace Heap

/-! ## Construction -/

/-- A heap that holds only the program. -/
def ofProgram (program : Array Word) : Heap where
  arrays := (∅ : ArrayTable).insert 0 program
  next := 1
  totalWords := program.size
  capacity := none

/-- The lowest counter above every given handle: one past the largest, or 1 when
    there is none or when the successor of the largest wraps to zero. -/
def counterAfter (handles : List Handle) : Handle :=
  max 1 ((handles.max?.map (· + 1)).getD 1)

/-- A heap with the given arrays. A missing program becomes an empty one, and a
    counter that lies below a live handle is raised past it. -/
def ofArrays (arrays : ArrayTable) (next : Handle) : Heap where
  arrays := arrays.withProgram
  next := max next (counterAfter arrays.withProgram.keys)
  totalWords := arrays.withProgram.wordCount
  capacity := none

/-- Sets or lifts the bound on live words. Arrays already live are not affected. -/
def setCapacity (heap : Heap) (capacity : Option Nat) : Heap :=
  { heap with capacity }

/-! ## Views -/

/-- The array of a handle, if it is live. -/
def get? (heap : Heap) (handle : Handle) : Option (Array Word) :=
  heap.arrays[handle]?

/-- Whether a handle is live. -/
def isLive (heap : Heap) (handle : Handle) : Bool :=
  heap.arrays.contains handle

/-- The number of live arrays, the program included. -/
def size (heap : Heap) : Nat :=
  heap.arrays.size

/-- The live handles in ascending order. -/
def handles (heap : Heap) : List Handle :=
  heap.arrays.keys

/-- The running program. -/
def program (heap : Heap) : Array Word :=
  heap.arrays.getD 0 #[]

/-- The program word at an address, if the program reaches that far. -/
def fetch (heap : Heap) (ip : Word) : Option Word :=
  heap.program[ip.toNat]?

/-! ## Checks

What decides whether an operation is allowed. -/

/-- Refuses to let `requested` words join `inUse` live ones beyond the capacity. -/
def checkCapacity (heap : Heap) (inUse requested : Nat) : Except HeapError Unit :=
  match heap.capacity with
  | none => .ok ()
  | some limit =>
    if inUse + requested > limit then .error (.outOfMemory requested inUse limit) else .ok ()

/-- The first handle at or after `candidate`, in cyclic order, that is neither 0 nor
    live, looking at no more than `tries` handles. -/
def findHandle (arrays : ArrayTable) : (tries : Nat) → (candidate : Handle) → Option Handle
  | 0, _ => none
  | tries + 1, candidate =>
    if candidate = 0 ∨ arrays.contains candidate then findHandle arrays tries (candidate + 1)
    else some candidate

/-- A handle that was found is neither the program's nor live. -/
theorem findHandle_fresh {arrays : ArrayTable} {tries : Nat} {candidate handle : Handle}
    (h : findHandle arrays tries candidate = some handle) :
    handle ≠ 0 ∧ handle ∉ arrays := by
  induction tries generalizing candidate with
  | zero => simp [findHandle] at h
  | succ tries ih =>
    rw [findHandle] at h
    split at h
    · exact ih h
    · next hfree =>
      obtain rfl := Option.some.inj h
      simpa using hfree

/-- The next handle to issue. At most `size` handles are live and one is reserved, so
    a free handle, if there is one, lies among the first `size + 2`. -/
def nextHandle? (heap : Heap) : Option Handle :=
  findHandle heap.arrays (heap.arrays.size + 2) heap.next

/-- The handle that an array of `size` words would get. -/
def checkAllocate (heap : Heap) (size : Word) : Except HeapError Handle :=
  match heap.checkCapacity heap.totalWords size.toNat with
  | .error e => .error e
  | .ok () =>
    match heap.nextHandle? with
    | none => .error .handlesExhausted
    | some handle => .ok handle

/-- Whether an array may be removed. -/
def checkFree (heap : Heap) (handle : Handle) : Except HeapError Unit :=
  if handle = 0 then .error .abandonProgram
  else if heap.isLive handle then .ok ()
  else .error (.inactiveHandle handle)

/-- Whether an array is live and reaches as far as an offset. -/
def checkWrite (heap : Heap) (handle : Handle) (offset : Word) : Except HeapError Unit :=
  match heap.get? handle with
  | none => .error (.inactiveHandle handle)
  | some array =>
    if offset.toNat < array.size then .ok ()
    else .error (.outOfBounds handle offset array.size)

/-- Whether a copy of an array may become the running program. -/
def checkReplace (heap : Heap) (handle : Handle) : Except HeapError Unit :=
  if handle = 0 then .ok ()
  else
    match heap.get? handle with
    | none => .error (.inactiveHandle handle)
    | some array => heap.checkCapacity (heap.totalWords - heap.program.size) array.size

/-! ## Changes

What an operation does to the heap once it is allowed. Each takes the heap apart
before it touches the table, so that a heap nobody else holds changes in place. -/

/-- Adds an array of `size` zero words under a handle, and moves the counter past it. -/
def bind (heap : Heap) (handle : Handle) (size : Word) : Heap :=
  match heap with
  | { arrays, next := _, totalWords, capacity } =>
    { arrays := arrays.insert handle (Array.replicate size.toNat 0)
      next := handle + 1
      totalWords := totalWords + size.toNat
      capacity }

/-- Removes the array of a handle. -/
def unbind (heap : Heap) (handle : Handle) : Heap :=
  match heap with
  | { arrays, next, totalWords, capacity } =>
    { totalWords := totalWords - (arrays.getD handle #[]).size
      arrays := arrays.erase handle
      next
      capacity }

/-- Replaces the word at an offset of an array. -/
def store (heap : Heap) (handle : Handle) (offset value : Word) : Heap :=
  match heap with
  | { arrays, next, totalWords, capacity } =>
    { arrays := arrays.modify handle (·.setIfInBounds offset.toNat value)
      next
      totalWords
      capacity }

/-- Makes a copy of an array the running program. Handle 0 names the program already,
    and copying it onto itself changes nothing. -/
def copyToProgram (heap : Heap) (handle : Handle) : Heap :=
  if handle = 0 then heap
  else
    let array := heap.arrays.getD handle #[]
    { heap with
      arrays := heap.arrays.insert 0 array
      totalWords := heap.totalWords - heap.program.size + array.size }

/-! ## Operations -/

/-- Adds an array of `size` zero words under a fresh handle. -/
def allocate (heap : Heap) (size : Word) : Except HeapError (Handle × Heap) :=
  match heap.checkAllocate size with
  | .error e => .error e
  | .ok handle => .ok (handle, heap.bind handle size)

/-- Removes an array. The program cannot be removed. -/
def free (heap : Heap) (handle : Handle) : Except HeapError Heap :=
  match heap.checkFree handle with
  | .error e => .error e
  | .ok () => .ok (heap.unbind handle)

/-- The word at an offset of an array. -/
def read (heap : Heap) (handle : Handle) (offset : Word) : Except HeapError Word :=
  match heap.get? handle with
  | none => .error (.inactiveHandle handle)
  | some array =>
    match array[offset.toNat]? with
    | none => .error (.outOfBounds handle offset array.size)
    | some word => .ok word

/-- Replaces the word at an offset of an array. -/
def write (heap : Heap) (handle : Handle) (offset value : Word) : Except HeapError Heap :=
  match heap.checkWrite handle offset with
  | .error e => .error e
  | .ok () => .ok (heap.store handle offset value)

/-- Makes a copy of an array the running program. -/
def replaceProgram (heap : Heap) (handle : Handle) : Except HeapError Heap :=
  match heap.checkReplace handle with
  | .error e => .error e
  | .ok () => .ok (heap.copyToProgram handle)

end Heap

end UniversalMachine
