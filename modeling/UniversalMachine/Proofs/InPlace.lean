/-
  UniversalMachine.Proofs.InPlace

  The machine as one that changes in place.

  Here an operation is a series of small changes to the one heap or machine there is,
  in an order in which some of them come before it is known whether the operation will
  succeed: freeing takes an array out of the table before it looks whether there was
  one, and an instruction stores what a heap operation has left of the heap before it
  looks at the result. An operation that fails keeps what it has changed until then.

  It comes to the same. A heap operation that fails has changed nothing, and one that
  succeeds has changed the heap as the operation of the same name does
  (`Heap.InPlace.applyTo_operate`); so it is for series of operations (`operateAll_eq`),
  for instructions (`Configuration.InPlace.applyTo_step`) and for runs (`applyTo_run`).
  That a fault leaves the machine as it was (`unchanged_of_fault`) is here a fact about
  the changes an instruction makes, not about what it returns.
-/

import UniversalMachine.Proofs.HeapOperations
import UniversalMachine.Proofs.Standstill

namespace UniversalMachine

/-- Changes to a state, which may be given up; what has been changed by then stays changed. -/
abbrev Changes (σ ε : Type) := ExceptT ε (StateM σ)

namespace Changes

variable {σ ε α β : Type}

/-- What changes lead to from a state. -/
def applyTo (s : σ) (changes : Changes σ ε α) : Except ε α × σ :=
  StateT.run (ExceptT.run changes) s

theorem applyTo_bind (s : σ) (first : Changes σ ε α) (next : α → Changes σ ε β) :
    (first >>= next).applyTo s =
      match first.applyTo s with
      | (.ok a, s) => (next a).applyTo s
      | (.error e, s) => (.error e, s) := by
  unfold applyTo
  rw [ExceptT.run_bind, StateT.run_bind]
  rcases StateT.run (ExceptT.run first) s with ⟨e | a, s'⟩
  · rfl
  · rfl

theorem applyTo_get_bind (s : σ) (next : σ → Changes σ ε β) :
    (get >>= next).applyTo s = (next s).applyTo s := rfl

theorem applyTo_modify (s : σ) (change : σ → σ) :
    (modify change : Changes σ ε PUnit).applyTo s = (.ok ⟨⟩, change s) := rfl

theorem applyTo_modify_bind (s : σ) (change : σ → σ) (next : PUnit → Changes σ ε β) :
    (modify change >>= next).applyTo s = (next ⟨⟩).applyTo (change s) := rfl

end Changes

/-! ## Heap operations -/

namespace Heap.InPlace

/-- Changes to a heap. -/
abbrev HeapChanges := Changes Heap HeapError

/-- Fails if `requested` words more than `inUse` exceed the capacity. -/
def checkCapacity (inUse requested : Nat) : HeapChanges Unit := do
  match (← get).capacity with
  | some limit =>
    if inUse + requested > limit then throw (.outOfMemory requested inUse limit)
  | none => return

/-- Takes the next handle that is free and moves the counter past it. -/
def issueHandle : HeapChanges Handle := do
  match (← get).nextHandle? with
  | none => throw .handlesExhausted
  | some handle =>
    modify ({ · with next := handle + 1 })
    return handle

def allocate (size : Word) : HeapChanges Handle := do
  checkCapacity (← get).totalWords size.toNat
  let handle ← issueHandle
  modify fun heap => { heap with arrays := heap.arrays.insert handle (.replicate size.toNat 0) }
  modify fun heap => { heap with totalWords := heap.totalWords + size.toNat }
  return handle

/-- The array is taken out of the table before it is known whether there is one. -/
def free (handle : Handle) : HeapChanges Unit := do
  if handle = 0 then
    throw .abandonProgram
  let removed := (← get).get? handle
  modify fun heap => { heap with arrays := heap.arrays.erase handle }
  match removed with
  | some array => modify fun heap => { heap with totalWords := heap.totalWords - array.size }
  | none => throw (.inactiveHandle handle)

def read (handle : Handle) (offset : Word) : HeapChanges Word := do
  match (← get).get? handle with
  | none => throw (.inactiveHandle handle)
  | some array =>
    match array[offset.toNat]? with
    | none => throw (.outOfBounds handle offset array.size)
    | some word => return word

def write (handle : Handle) (offset value : Word) : HeapChanges Unit := do
  match (← get).get? handle with
  | none => throw (.inactiveHandle handle)
  | some array =>
    if offset.toNat < array.size then
      modify fun heap =>
        { heap with
          arrays := heap.arrays.insert handle (array.setIfInBounds offset.toNat value) }
    else throw (.outOfBounds handle offset array.size)

def replaceProgram (handle : Handle) : HeapChanges Unit := do
  if handle = 0 then
    return
  match (← get).get? handle with
  | none => throw (.inactiveHandle handle)
  | some copy =>
    let remaining := (← get).totalWords - (← get).program.size
    checkCapacity remaining copy.size
    modify ({ · with totalWords := remaining + copy.size })
    modify fun heap => { heap with arrays := heap.arrays.insert 0 copy }

/-- What an operation leaves in place: what it returned, or the heap as it was. -/
def left {α : Type} (heap : Heap) : Except HeapError (α × Heap) → Except HeapError α × Heap
  | .ok (a, after) => (.ok a, after)
  | .error e => (.error e, heap)

open Changes

theorem applyTo_checkCapacity (heap : Heap) (inUse requested : Nat) :
    (checkCapacity inUse requested).applyTo heap = (heap.checkCapacity inUse requested, heap) := by
  rw [checkCapacity, applyTo_get_bind, Heap.checkCapacity]
  cases heap.capacity with
  | none => rfl
  | some limit =>
    dsimp only
    split
    · rfl
    · rfl

theorem applyTo_allocate (heap : Heap) (size : Word) :
    (allocate size).applyTo heap = left heap (heap.allocate size) := by
  rw [allocate, applyTo_get_bind, applyTo_bind, applyTo_checkCapacity, Heap.allocate,
    checkAllocate]
  cases heap.checkCapacity heap.totalWords size.toNat with
  | error e => rfl
  | ok _ =>
    dsimp only
    rw [applyTo_bind, issueHandle, applyTo_get_bind]
    cases heap.nextHandle? with
    | none => rfl
    | some handle => rfl

theorem isLive_eq_isSome_get? (heap : Heap) (handle : Handle) :
    heap.isLive handle = (heap.get? handle).isSome :=
  Std.ExtTreeMap.contains_eq_isSome_getElem?

theorem applyTo_free (heap : Heap) (handle : Handle) :
    (free handle).applyTo heap = left heap ((heap.free handle).map ((), ·)) := by
  rw [free, Heap.free, checkFree]
  by_cases hzero : handle = 0
  · rw [if_pos hzero, if_pos hzero]
    rfl
  · rw [if_neg hzero, if_neg hzero, applyTo_get_bind, applyTo_modify_bind, isLive_eq_isSome_get?]
    cases hget : heap.get? handle with
    | some array =>
      have hsize := getD_of_get?_eq_some hget
      show (Except.ok (), _) = (Except.ok (), heap.unbind handle)
      rw [unbind, hsize]
    | none =>
      -- the table is the same without an array it did not have
      have herase := ArrayTable.erase_of_getElem?_eq_none hget
      show (Except.error (HeapError.inactiveHandle handle), _) = (_, heap)
      rw [herase]

theorem applyTo_read (heap : Heap) (handle : Handle) (offset : Word) :
    (read handle offset).applyTo heap = (heap.read handle offset, heap) := by
  rw [read, Heap.read, applyTo_get_bind]
  cases heap.get? handle with
  | none => rfl
  | some array =>
    dsimp only
    cases array[offset.toNat]? with
    | none => rfl
    | some word => rfl

/-- Putting an altered array back in its place alters it there. -/
theorem insert_eq_modify {heap : Heap} {handle : Handle} {array : Array Word}
    (h : heap.get? handle = some array) (alter : Array Word → Array Word) :
    heap.arrays.insert handle (alter array) = heap.arrays.modify handle alter := by
  have hget : heap.arrays[handle]? = some array := h
  apply Std.ExtTreeMap.ext_getElem?
  intro other
  rw [Std.ExtTreeMap.getElem?_insert, Std.ExtTreeMap.getElem?_modify]
  split
  · next heq =>
    obtain rfl := Std.LawfulEqCmp.eq_of_compare heq
    rw [hget]
    rfl
  · rfl

theorem applyTo_write (heap : Heap) (handle : Handle) (offset value : Word) :
    (write handle offset value).applyTo heap =
      left heap ((heap.write handle offset value).map ((), ·)) := by
  rw [write, Heap.write, checkWrite, applyTo_get_bind]
  cases hget : heap.get? handle with
  | none => rfl
  | some array =>
    dsimp only
    by_cases hoffset : offset.toNat < array.size
    · have hstore := insert_eq_modify hget (·.setIfInBounds offset.toNat value)
      rw [if_pos hoffset, if_pos hoffset, applyTo_modify, hstore]
      rfl
    · rw [if_neg hoffset, if_neg hoffset]
      rfl

theorem applyTo_replaceProgram (heap : Heap) (handle : Handle) :
    (replaceProgram handle).applyTo heap =
      left heap ((heap.replaceProgram handle).map ((), ·)) := by
  rw [replaceProgram, Heap.replaceProgram, checkReplace]
  by_cases hzero : handle = 0
  · rw [if_pos hzero, if_pos hzero, copyToProgram, if_pos hzero]
    rfl
  · rw [if_neg hzero, if_neg hzero, applyTo_get_bind]
    cases hget : heap.get? handle with
    | none => rfl
    | some copy =>
      have hcopy := getD_of_get?_eq_some hget
      dsimp only
      rw [applyTo_get_bind, applyTo_get_bind, applyTo_bind, applyTo_checkCapacity]
      cases heap.checkCapacity (heap.totalWords - heap.program.size) copy.size with
      | error e => rfl
      | ok _ =>
        show (Except.ok (), _) = (Except.ok (), heap.copyToProgram handle)
        rw [copyToProgram, if_neg hzero, hcopy]

/-- Carries out one operation. -/
def operate : HeapOperation → HeapChanges (Option Word)
  | .allocate size => do return some (← allocate size)
  | .free handle => do
    free handle
    return none
  | .read handle offset => do return some (← read handle offset)
  | .write handle offset value => do
    write handle offset value
    return none
  | .replaceProgram handle => do
    replaceProgram handle
    return none
  | .setCapacity capacity => do
    modify ({ · with capacity })
    return none

theorem applyTo_operate (heap : Heap) (op : HeapOperation) :
    (operate op).applyTo heap = heap.operate op := by
  cases op with
  | allocate size =>
    rw [operate, Heap.operate, applyTo_bind, applyTo_allocate]
    rcases heap.allocate size with e | ⟨handle, after⟩
    · rfl
    · rfl
  | free handle =>
    rw [operate, Heap.operate, applyTo_bind, applyTo_free]
    cases heap.free handle with
    | error e => rfl
    | ok after => rfl
  | read handle offset =>
    rw [operate, Heap.operate, applyTo_bind, applyTo_read]
    cases heap.read handle offset with
    | error e => rfl
    | ok word => rfl
  | write handle offset value =>
    rw [operate, Heap.operate, applyTo_bind, applyTo_write]
    cases heap.write handle offset value with
    | error e => rfl
    | ok after => rfl
  | replaceProgram handle =>
    rw [operate, Heap.operate, applyTo_bind, applyTo_replaceProgram]
    cases heap.replaceProgram handle with
    | error e => rfl
    | ok after => rfl
  | setCapacity capacity => rfl

/-- An operation that failed has changed nothing. -/
theorem unchanged_of_error {heap after : Heap} {op : HeapOperation} {e : HeapError}
    (h : (operate op).applyTo heap = (.error e, after)) : after = heap := by
  rw [applyTo_operate] at h
  have hperforms := heap.performs_operate op
  rw [h] at hperforms
  exact hperforms.unchanged rfl

/-- Carries out operations one after the other, each on what the last one has left. -/
def operateAll (heap : Heap) : List HeapOperation → List HeapEvent × Heap
  | [] => ([], heap)
  | op :: ops =>
    let (answer, heap) := (operate op).applyTo heap
    let (events, heap) := operateAll heap ops
    ({ operation := op, answer } :: events, heap)

theorem operateAll_eq (heap : Heap) (ops : List HeapOperation) :
    operateAll heap ops = heap.operateAll ops := by
  induction ops generalizing heap with
  | nil => rfl
  | cons op ops ih =>
    rw [operateAll, Heap.operateAll, applyTo_operate]
    dsimp only
    rw [ih]

end Heap.InPlace

/-! ## Instructions -/

/-- An outcome as it is reported: a fault is a failure. -/
def Outcome.report : Outcome → Except Fault Outcome
  | .fault f => .error f
  | outcome => .ok outcome

theorem Outcome.eq_of_mapM_report_eq_error {outcome : Option Outcome} {f : Fault}
    (h : outcome.mapM Outcome.report = .error f) : outcome = some (.fault f) := by
  rcases outcome with _ | (_ | _ | _ | _ | g)
  all_goals cases h
  rfl

theorem Outcome.eq_of_mapM_report_eq_ok {outcome reported : Option Outcome}
    (h : outcome.mapM Outcome.report = .ok reported) : outcome = reported := by
  rcases outcome with _ | (_ | _ | _ | _ | g)
  all_goals cases h
  all_goals rfl

namespace Configuration.InPlace

variable {ι σ : Type}

/-- Changes to a machine and its devices. -/
abbrev Work (ι σ : Type) := Changes (Configuration ι σ) Fault

def reg (r : Selector) : Work ι σ Word := do
  return (← get).machine.reg r

def setReg (r : Selector) (value : Word) : Work ι σ Unit :=
  modify fun c => { c with machine := c.machine.setReg r value }

def advance : Work ι σ Unit := do
  modify fun c => { c with machine := { c.machine with ip := c.machine.ip + 1 } }
  modify fun c => { c with machine := { c.machine with cycles := c.machine.cycles + 1 } }

/-- Lets a heap operation change the machine's heap, and raises the fault of one that fails. -/
def onHeap {α : Type} (ip : Word) (changes : Heap.InPlace.HeapChanges α) : Work ι σ α := do
  let (answer, heap) := changes.applyTo (← get).machine.heap
  modify fun c => { c with machine := { c.machine with heap } }
  match answer with
  | .ok a => return a
  | .error e => throw (.ofHeap e ip)

/-- Delivers a byte; says whether the sink lets the run go on. -/
def emit [OutputSink σ] (byte : UInt8) : Work ι σ Bool := do
  let (go, output) := OutputSink.emit (← get).output byte
  modify ({ · with output })
  return go

def nextWord [InputSource ι] : Work ι σ (Option Word) := do
  let (word, input) := InputSource.next (← get).input
  modify ({ · with input })
  return word

open Changes

theorem applyTo_reg_bind {α : Type} (c : Configuration ι σ) (r : Selector)
    (next : Word → Work ι σ α) :
    (reg r >>= next).applyTo c = (next (c.machine.reg r)).applyTo c := rfl

theorem applyTo_onHeap {α : Type} (c : Configuration ι σ) (ip : Word)
    (changes : Heap.InPlace.HeapChanges α) :
    (onHeap ip changes).applyTo c =
      match changes.applyTo c.machine.heap with
      | (.ok a, heap) => (.ok a, { c with machine := { c.machine with heap } })
      | (.error e, heap) =>
        (.error (.ofHeap e ip), { c with machine := { c.machine with heap } }) := by
  rw [onHeap, applyTo_get_bind]
  rcases changes.applyTo c.machine.heap with ⟨e | a, heap⟩
  · rfl
  · rfl

theorem applyTo_advance (c : Configuration ι σ) :
    advance.applyTo c = (.ok (), { c with machine := c.machine.advance }) := rfl

theorem applyTo_emit [OutputSink σ] (c : Configuration ι σ) (byte : UInt8) :
    (emit byte).applyTo c =
      (.ok (OutputSink.emit c.output byte).1,
        { c with output := (OutputSink.emit c.output byte).2 }) := rfl

theorem applyTo_nextWord [InputSource ι] (c : Configuration ι σ) :
    nextWord.applyTo c =
      (.ok (InputSource.next c.input).1, { c with input := (InputSource.next c.input).2 }) := rfl

variable [InputSource ι] [OutputSink σ]

/-- Carries out the operation of the instruction word at `ip` with registers `a`, `b` and
    `c`. What returns early has seen to the pointer itself. -/
def perform (ip word : Word) (op : Opcode) (a b c : Selector) : Work ι σ (Option Outcome) := do
  match op with
  | .conditionalMove =>
    if (← reg c) ≠ 0 then
      setReg a (← reg b)
  | .arrayIndex =>
    let value ← onHeap ip (Heap.InPlace.read (← reg b) (← reg c))
    setReg a value
  | .arrayAmendment => onHeap ip (Heap.InPlace.write (← reg a) (← reg b) (← reg c))
  | .addition => setReg a ((← reg b) + (← reg c))
  | .multiplication => setReg a ((← reg b) * (← reg c))
  | .division =>
    let divisor ← reg c
    if divisor = 0 then
      throw { cause := .divisionByZero, ip }
    setReg a ((← reg b) / divisor)
  | .notAnd => setReg a (~~~((← reg b) &&& (← reg c)))
  | .halt => return some .halted
  | .allocation =>
    let handle ← onHeap ip (Heap.InPlace.allocate (← reg c))
    setReg b handle
  | .abandonment => onHeap ip (Heap.InPlace.free (← reg c))
  | .output =>
    let value ← reg c
    if value.toNat ≥ 256 then
      throw { cause := .outputOutOfRange value, ip }
    advance
    if !(← emit value.toUInt8) then
      return some .stopRequested
    return none
  | .input =>
    match ← nextWord with
    | some value => setReg c value
    | none => return some .inputNeeded
  | .loadProgram =>
    let target ← reg c
    onHeap ip (Heap.InPlace.replaceProgram (← reg b))
    modify fun c => { c with machine := { c.machine with ip := target } }
    modify fun c => { c with machine := { c.machine with cycles := c.machine.cycles + 1 } }
    return none
  | .orthography =>
    throw { cause := .invalidInstruction op.code word, ip }
  advance
  return none

/-- Carries out one instruction. -/
def step : Work ι σ (Option Outcome) := do
  let ip := (← get).machine.ip
  match (← get).machine.heap.fetch ip with
  | none => throw { cause := .counterOutOfBounds (← get).machine.heap.program.size, ip }
  | some word =>
    match Instruction.decode word with
    | .orthography a value =>
      setReg a value
      advance
      return none
    | .standard code a b c =>
      match Opcode.ofNat? code with
      | none => throw { cause := .invalidInstruction code word, ip }
      | some op => perform ip word op a b c

theorem step_of_attempt {α : Type} {c : Configuration ι σ} {check : Except HeapError α}
    {effect : α → Effect} :
    c.machine.action = Machine.attempt check effect →
      c.step =
        match check with
        | .ok a => (none, { c with machine := c.machine.apply (effect a) })
        | .error e => (some (.fault (.ofHeap e c.machine.ip)), c) := by
  intro h
  cases check with
  | ok a => exact step_of_complete h
  | error e => exact step_of_fault h

theorem applyTo_perform {c : Configuration ι σ} {word : Word} {op : Opcode} {x y z : Selector}
    (h : c.machine.action = c.machine.perform word op x y z) :
    (perform c.machine.ip word op x y z).applyTo c = (c.step.1.mapM Outcome.report, c.step.2) := by
  unfold perform
  cases op with
  | conditionalMove =>
    dsimp only
    rw [applyTo_reg_bind]
    by_cases hzero : c.machine.reg z = 0
    · rw [if_neg (not_not_intro hzero), step_of_complete (h.trans (if_pos hzero))]
      rfl
    · rw [if_pos hzero, step_of_complete (h.trans (if_neg hzero))]
      rfl
  | arrayIndex =>
    dsimp only
    rw [step_of_attempt h, applyTo_reg_bind, applyTo_reg_bind, applyTo_bind, applyTo_onHeap,
      Heap.InPlace.applyTo_read]
    cases c.machine.heap.read (c.machine.reg y) (c.machine.reg z) with
    | error e => rfl
    | ok value => rfl
  | arrayAmendment =>
    dsimp only
    rw [step_of_attempt h, applyTo_reg_bind, applyTo_reg_bind, applyTo_reg_bind, applyTo_bind,
      applyTo_onHeap, Heap.InPlace.applyTo_write, Heap.write]
    cases c.machine.heap.checkWrite (c.machine.reg x) (c.machine.reg y) with
    | error e => rfl
    | ok _ => rfl
  | addition =>
    rw [step_of_complete h]
    rfl
  | multiplication =>
    rw [step_of_complete h]
    rfl
  | division =>
    dsimp only
    rw [applyTo_reg_bind]
    by_cases hzero : c.machine.reg z = 0
    · rw [if_pos hzero, step_of_fault (h.trans (if_pos hzero))]
      rfl
    · rw [if_neg hzero, step_of_complete (h.trans (if_neg hzero))]
      rfl
  | notAnd =>
    rw [step_of_complete h]
    rfl
  | halt =>
    rw [step_of_halt h]
    rfl
  | allocation =>
    dsimp only
    rw [step_of_attempt h, applyTo_reg_bind, applyTo_bind, applyTo_onHeap,
      Heap.InPlace.applyTo_allocate, Heap.allocate]
    cases c.machine.heap.checkAllocate (c.machine.reg z) with
    | error e => rfl
    | ok handle => rfl
  | abandonment =>
    dsimp only
    rw [step_of_attempt h, applyTo_reg_bind, applyTo_bind, applyTo_onHeap,
      Heap.InPlace.applyTo_free, Heap.free]
    cases c.machine.heap.checkFree (c.machine.reg z) with
    | error e => rfl
    | ok _ => rfl
  | output =>
    dsimp only
    rw [applyTo_reg_bind]
    by_cases hbyte : (c.machine.reg z).toNat < 256
    · rw [if_neg (Nat.not_le.2 hbyte), step_of_emit (h.trans (if_pos hbyte)), applyTo_bind,
        applyTo_advance]
      dsimp only
      rw [applyTo_bind, applyTo_emit]
      cases (OutputSink.emit c.output (c.machine.reg z).toUInt8).1 with
      | true => rfl
      | false => rfl
    · rw [if_pos (Nat.not_lt.1 hbyte), step_of_fault (h.trans (if_neg hbyte))]
      rfl
  | input =>
    dsimp only
    rw [applyTo_bind, applyTo_nextWord]
    rcases hnext : InputSource.next c.input with ⟨_ | value, input⟩
    · rw [step_of_await_none h hnext]
      rfl
    · rw [step_of_await_some h hnext]
      rfl
  | loadProgram =>
    dsimp only
    rw [step_of_attempt h, applyTo_reg_bind, applyTo_reg_bind, applyTo_bind, applyTo_onHeap,
      Heap.InPlace.applyTo_replaceProgram, Heap.replaceProgram]
    cases c.machine.heap.checkReplace (c.machine.reg y) with
    | error e => rfl
    | ok _ => rfl
  | orthography =>
    rw [step_of_fault h]
    rfl

theorem applyTo_step (c : Configuration ι σ) :
    step.applyTo c = (c.step.1.mapM Outcome.report, c.step.2) := by
  rw [step, applyTo_get_bind]
  dsimp only
  rw [applyTo_get_bind]
  cases hfetch : c.machine.heap.fetch c.machine.ip with
  | none =>
    have haction : c.machine.action = .fault (.counterOutOfBounds c.machine.heap.program.size) := by
      rw [Machine.action, hfetch]
    rw [step_of_fault haction]
    rfl
  | some word =>
    dsimp only
    cases hdecode : Instruction.decode word with
    | orthography a value =>
      have haction : c.machine.action = .complete (.assign a value) := by
        simp only [Machine.action, hfetch, hdecode]
      rw [step_of_complete haction]
      rfl
    | standard code a b r =>
      dsimp only
      cases hop : Opcode.ofNat? code with
      | none =>
        have haction : c.machine.action = .fault (.invalidInstruction code word) := by
          simp only [Machine.action, hfetch, hdecode, hop]
        rw [step_of_fault haction]
        rfl
      | some op =>
        have haction : c.machine.action = c.machine.perform word op a b r := by
          simp only [Machine.action, hfetch, hdecode, hop]
        exact applyTo_perform haction

/-- An instruction that faults has changed nothing. -/
theorem unchanged_of_fault {c after : Configuration ι σ} {f : Fault}
    (h : step.applyTo c = (.error f, after)) : after = c := by
  rw [applyTo_step] at h
  obtain ⟨hreport, rfl⟩ := Prod.mk.inj h
  have hstep : c.step = (some (.fault f), c.step.2) :=
    Prod.ext (Outcome.eq_of_mapM_report_eq_error hreport) rfl
  rcases step_cases_of_not_cutShort hstep rfl with ⟨houtcome, -⟩ | ⟨-, hafter⟩
  · cases houtcome
  · exact hafter

/-- An instruction that finds no word has changed nothing but the source it has asked. -/
theorem unchanged_of_inputNeeded {c after : Configuration ι σ}
    (h : step.applyTo c = (.ok (some .inputNeeded), after)) :
    after = { c with input := after.input } := by
  rw [applyTo_step] at h
  obtain ⟨hreport, rfl⟩ := Prod.mk.inj h
  have hstep : c.step = (some .inputNeeded, c.step.2) :=
    Prod.ext (Outcome.eq_of_mapM_report_eq_ok hreport) rfl
  rcases step_cases_of_not_cutShort hstep rfl with ⟨-, -, -, hafter⟩ | ⟨hstands, -⟩
  · exact hafter
  · exact hstands.elim

/-- Carries out one instruction and, unless it ends the run, goes on. -/
def stepThen (next : Work ι σ Outcome) : Work ι σ Outcome := do
  match ← step with
  | some outcome => return outcome
  | none => next

/-- Carries out instructions until one ends the run or the clock has been found expired. -/
def run : (patience : Nat) → Work ι σ Outcome
  | 0 => stepThen (return .timeExpired)
  | patience + 1 => stepThen (run patience)

theorem applyTo_stepThen (next : Work ι σ Outcome) (c : Configuration ι σ) :
    (stepThen next).applyTo c =
      match c.step with
      | (some outcome, after) => (outcome.report, after)
      | (none, after) => next.applyTo after := by
  rw [stepThen, applyTo_bind, applyTo_step]
  rcases c.step with ⟨_ | outcome, after⟩
  · rfl
  · dsimp only
    rw [Option.mapM_some]
    cases outcome.report with
    | error f => rfl
    | ok reported => rfl

theorem applyTo_run (patience : Nat) (c : Configuration ι σ) :
    (run patience).applyTo c = ((c.run patience).1.report, (c.run patience).2) := by
  induction patience generalizing c with
  | zero =>
    rw [run, applyTo_stepThen]
    rcases hstep : c.step with ⟨_ | outcome, after⟩
    · rw [run_zero_of_step_none hstep]
      rfl
    · rw [run_of_step_some hstep]
  | succ patience ih =>
    rw [run, applyTo_stepThen]
    rcases hstep : c.step with ⟨_ | outcome, after⟩
    · rw [run_succ_of_step_none hstep]
      exact ih after
    · rw [run_of_step_some hstep]

end Configuration.InPlace

end UniversalMachine
