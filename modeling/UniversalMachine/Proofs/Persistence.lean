/-
  UniversalMachine.Proofs.Persistence

  A machine rebuilt from its snapshot file goes on exactly as the original would have.

  A snapshot leaves out the running total of words, the capacity and the cycles. The
  total is determined by the arrays of every machine that can come about
  (`Reachable.wellFormed`), the capacity is set again, and the cycles are only ever
  counted up: a machine with more cycles behind it does the same
  (`Configuration.step_addCycles`). So the rebuilt machine is the original with its
  cycles counted anew (`ofSnapshot_capture`), and nothing that can be observed of a
  call tells the two apart (`resumes_from_file`).
-/

import UniversalMachine.Proofs.RoundTrip

namespace UniversalMachine

namespace Machine

/-! ## Machines that can come about -/

inductive Reachable : Machine → Prop
  | ofProgram (program : Array Word) : Reachable (.ofProgram program)
  | ofSnapshot (s : Snapshot) : Reachable (.ofSnapshot s)
  | step {ι σ : Type} [InputSource ι] [OutputSink σ] (c : Configuration ι σ)
      (h : Reachable c.machine) : Reachable c.step.2.machine
  | restore {m : Machine} (h : Reachable m) (s : Snapshot) : Reachable (m.restore s)
  | setCapacity {m : Machine} (h : Reachable m) (capacity : Option Nat) :
      Reachable (m.setCapacity capacity)

theorem wellFormed_restore (m : Machine) (s : Snapshot) : (m.restore s).heap.WellFormed :=
  (Heap.wellFormed_ofArrays s.arrays s.nextHandle).setCapacity m.heap.capacity

theorem Reachable.wellFormed {m : Machine} (h : m.Reachable) : m.heap.WellFormed := by
  induction h with
  | ofProgram program => exact Heap.wellFormed_ofProgram program
  | ofSnapshot s => exact wellFormed_restore _ s
  | step c _ ih => exact c.wellFormed_step ih
  | restore _ s _ => exact wellFormed_restore _ s
  | setCapacity _ capacity ih => exact ih.setCapacity capacity

/-! ## Counting cycles anew -/

/-- The machine with some more instructions behind it. -/
def addCycles (m : Machine) (n : Nat) : Machine :=
  { m with cycles := m.cycles + n }

theorem action_addCycles (m : Machine) (n : Nat) : (m.addCycles n).action = m.action := rfl

theorem apply_addCycles (m : Machine) (n : Nat) (effect : Effect) :
    (m.addCycles n).apply effect = (m.apply effect).addCycles n := by
  have hcycles : m.cycles + n + 1 = m.cycles + 1 + n := by omega
  cases effect with
  | skip => simp [apply, advance, goto, addCycles, hcycles]
  | assign target value => simp [apply, advance, goto, setReg, addCycles, hcycles]
  | store handle offset value => simp [apply, advance, goto, mapHeap, addCycles, hcycles]
  | allocate target handle size =>
    simp [apply, advance, goto, mapHeap, setReg, addCycles, hcycles]
  | free handle => simp [apply, advance, goto, mapHeap, addCycles, hcycles]
  | load handle ip => simp [apply, goto, mapHeap, addCycles, hcycles]

theorem advance_addCycles (m : Machine) (n : Nat) :
    (m.addCycles n).advance = m.advance.addCycles n :=
  apply_addCycles m n .skip

end Machine

namespace Configuration

variable {ι σ : Type} [InputSource ι] [OutputSink σ]

omit [InputSource ι] [OutputSink σ] in
/-- The configuration with some more instructions behind its machine. -/
def addCycles (c : Configuration ι σ) (n : Nat) : Configuration ι σ :=
  { c with machine := c.machine.addCycles n }

/-- No instruction looks at the cycles. -/
theorem step_addCycles (c : Configuration ι σ) (n : Nat) :
    (c.addCycles n).step = (c.step.1, c.step.2.addCycles n) := by
  -- both take the same action, and counting it does not depend on the count
  have haction' : (c.addCycles n).machine.action = c.machine.action :=
    c.machine.action_addCycles n
  cases haction : c.machine.action with
  | complete effect =>
    rw [haction] at haction'
    rw [step_of_complete haction, step_of_complete haction']
    simp [addCycles, Machine.apply_addCycles]
  | emit byte =>
    rw [haction] at haction'
    rw [step_of_emit haction, step_of_emit haction']
    show (_, { c with machine := (c.machine.addCycles n).advance, output := _ }) = _
    rw [Machine.advance_addCycles]
    rfl
  | await target =>
    rw [haction] at haction'
    rcases hnext : InputSource.next c.input with ⟨_ | word, input⟩
    · rw [step_of_await_none haction hnext, step_of_await_none haction' hnext]
      rfl
    · rw [step_of_await_some haction hnext, step_of_await_some haction' hnext]
      simp [addCycles, Machine.apply_addCycles]
  | halt =>
    rw [haction] at haction'
    rw [step_of_halt haction, step_of_halt haction']
  | fault cause =>
    rw [haction] at haction'
    rw [step_of_fault haction, step_of_fault haction']
    rfl

theorem run_addCycles (patience : Nat) (c : Configuration ι σ) (n : Nat) :
    run patience (c.addCycles n) = ((run patience c).1, (run patience c).2.addCycles n) := by
  induction patience generalizing c with
  | zero =>
    have hstep := c.step_addCycles n
    rcases hs : c.step with ⟨_ | outcome, c'⟩
    · rw [hs] at hstep
      rw [run_zero_of_step_none hs, run_zero_of_step_none hstep]
    · rw [hs] at hstep
      rw [run_of_step_some hs, run_of_step_some hstep]
  | succ patience ih =>
    have hstep := c.step_addCycles n
    rcases hs : c.step with ⟨_ | outcome, c'⟩
    · rw [hs] at hstep
      rw [run_succ_of_step_none hs, run_succ_of_step_none hstep]
      exact ih c'
    · rw [hs] at hstep
      rw [run_of_step_some hs, run_of_step_some hstep]

end Configuration

/-! ## What can be observed -/

namespace Machine

/-- A call on a machine, with the devices it is given. -/
structure Call (ι σ : Type) where
  /-- The patience of a run; none for a single instruction. -/
  patience : Option Nat
  input : ι
  output : σ

/-- What a call shows to its caller. -/
structure Observation (ι σ : Type) where
  returned : Option Outcome
  /-- The bytes printed during the call. -/
  emitted : Bytes
  /-- The handles issued during the call. -/
  issued : List Handle
  /-- The state of the machine after the call. -/
  state : Snapshot
  input : ι
  output : σ

/-- The handle that the instruction at the pointer issues, if it issues one. -/
def issues? (m : Machine) : Option Handle :=
  match m.action with
  | .complete (.allocate _ handle _) => some handle
  | _ => none

end Machine

namespace Configuration

variable {ι σ : Type} [InputSource ι] [OutputSink σ]

/-- Carries out a single instruction, or a run of some patience. -/
def perform (c : Configuration ι σ) : Option Nat → Option Outcome × Configuration ι σ
  | none => c.step
  | some patience => (some (c.run patience).1, (c.run patience).2)

/-- The handles that a run issues. -/
def issued : (patience : Nat) → Configuration ι σ → List Handle
  | 0, c => c.machine.issues?.toList
  | patience + 1, c =>
    c.machine.issues?.toList ++
      match c.step with
      | (none, c) => issued patience c
      | (some _, _) => []

theorem perform_addCycles (c : Configuration ι σ) (n : Nat) (patience : Option Nat) :
    (c.addCycles n).perform patience =
      ((c.perform patience).1, (c.perform patience).2.addCycles n) := by
  cases patience with
  | none => exact c.step_addCycles n
  | some patience => simp only [perform, run_addCycles]

theorem issued_addCycles (patience : Nat) (c : Configuration ι σ) (n : Nat) :
    issued patience (c.addCycles n) = issued patience c := by
  induction patience generalizing c with
  | zero => rfl
  | succ patience ih =>
    have hstep := c.step_addCycles n
    rw [issued, issued]
    rcases hs : c.step with ⟨_ | outcome, c'⟩
    · rw [hs] at hstep
      rw [hstep]
      exact congrArg (_ ++ ·) (ih c')
    · rw [hs] at hstep
      rw [hstep]
      rfl

end Configuration

namespace Machine

variable {ι σ : Type} [InputSource ι] [OutputSink σ]

omit [InputSource ι] [OutputSink σ] in
/-- The machine with the devices of a call, watched while it prints. -/
def connect (m : Machine) (call : Call ι σ) : Configuration ι (Tap σ) where
  machine := m
  input := call.input
  output := { sink := call.output, emitted := [] }

/-- The configuration in which a call leaves a machine and its devices. -/
def afterCall (m : Machine) (call : Call ι σ) : Configuration ι (Tap σ) :=
  ((m.connect call).perform call.patience).2

/-- What a machine shows in a call. -/
def observeCall (m : Machine) (call : Call ι σ) : Observation ι σ where
  returned := ((m.connect call).perform call.patience).1
  emitted := (m.afterCall call).output.emitted
  issued := (m.connect call).issued (call.patience.getD 0)
  state := (m.afterCall call).machine.capture
  input := (m.afterCall call).input
  output := (m.afterCall call).output.sink

/-- What a machine shows in a sequence of calls, call by call. -/
def observe (m : Machine) : List (Call ι σ) → List (Observation ι σ)
  | [] => []
  | call :: calls => m.observeCall call :: (m.afterCall call).machine.observe calls

/-- The machine after a sequence of calls. -/
def after (m : Machine) : List (Call ι σ) → Machine
  | [] => m
  | call :: calls => (m.afterCall call).machine.after calls

omit [InputSource ι] [OutputSink σ] in
theorem connect_addCycles (m : Machine) (n : Nat) (call : Call ι σ) :
    (m.addCycles n).connect call = (m.connect call).addCycles n := rfl

theorem afterCall_addCycles (m : Machine) (n : Nat) (call : Call ι σ) :
    (m.addCycles n).afterCall call = (m.afterCall call).addCycles n := by
  rw [afterCall, connect_addCycles, Configuration.perform_addCycles]
  rfl

theorem observeCall_addCycles (m : Machine) (n : Nat) (call : Call ι σ) :
    (m.addCycles n).observeCall call = m.observeCall call := by
  rw [observeCall, observeCall, afterCall_addCycles, connect_addCycles,
    Configuration.perform_addCycles, Configuration.issued_addCycles]
  rfl

theorem observe_addCycles (m : Machine) (n : Nat) (calls : List (Call ι σ)) :
    (m.addCycles n).observe calls = m.observe calls := by
  induction calls generalizing m with
  | nil => rfl
  | cons call calls ih =>
    rw [observe, observe, observeCall_addCycles, afterCall_addCycles]
    exact congrArg _ (ih _)

theorem after_addCycles (m : Machine) (n : Nat) (calls : List (Call ι σ)) :
    (m.addCycles n).after calls = (m.after calls).addCycles n := by
  induction calls generalizing m with
  | nil => rfl
  | cons call calls ih =>
    rw [after, after, afterCall_addCycles]
    exact ih _

/-! ## Rebuilding a machine -/

/-- A machine whose counter is not behind its handles is rebuilt from its own snapshot:
    only the cycles are counted anew. -/
theorem ofSnapshot_capture {m : Machine} (h : m.heap.WellFormed)
    (hnext : Heap.counterAfter m.heap.handles ≤ m.heap.next) :
    ((ofSnapshot m.capture).setCapacity m.heap.capacity).addCycles m.cycles = m := by
  have hheap := Heap.ofArrays_eq_self h hnext
  obtain ⟨ip, registers, heap, cycles⟩ := m
  -- the pointer and the registers are copied; what is left is the heap
  show Machine.mk ip registers _ (0 + cycles) = _
  rw [Nat.zero_add]
  exact congrArg (Machine.mk ip registers · cycles) hheap

/-- A persisted snapshot resumes exactly. The file of a machine's state can be read, and
    the machine built from it, given the same capacity, has the same state and shows the
    same in every sequence of calls: what it returns and prints, the handles it issues, its
    state and its devices after each call. Only its cycles differ, and always by as much. -/
theorem resumes_from_file {m : Machine} (hreach : m.Reachable)
    (hsizes : ∀ (handle : Handle) (array : Array Word), m.heap.get? handle = some array →
      array.size < UInt32.size)
    (hlive : m.heap.size < UInt32.size)
    (hnext : Heap.counterAfter m.heap.handles ≤ m.heap.next) :
    ∃ s, Snapshot.decode m.capture.encode = .ok s ∧
      ((ofSnapshot s).setCapacity m.heap.capacity).capture = m.capture ∧
      ∀ {ι σ : Type} [InputSource ι] [OutputSink σ] (calls : List (Call ι σ)),
        ((ofSnapshot s).setCapacity m.heap.capacity).observe calls = m.observe calls ∧
        (m.after calls).cycles =
          (((ofSnapshot s).setCapacity m.heap.capacity).after calls).cycles + m.cycles := by
  have hwell := hreach.wellFormed
  have hsame := ofSnapshot_capture hwell hnext
  refine ⟨m.capture, Snapshot.decode_encode m.capture hwell.program_live hlive hsizes, ?_, ?_⟩
  · have hcapture := congrArg capture hsame
    exact hcapture
  · -- `m` is the rebuilt machine with more cycles, which no call can see
    intro ι σ _ _ calls
    have hobserve := observe_addCycles ((ofSnapshot m.capture).setCapacity m.heap.capacity)
      m.cycles calls
    have hafter := after_addCycles ((ofSnapshot m.capture).setCapacity m.heap.capacity)
      m.cycles calls
    rw [hsame] at hobserve hafter
    exact ⟨hobserve.symm, congrArg cycles hafter⟩

/-- A machine with bounded memory that has just been given an array of three words. -/
def oneArrayLive : Machine :=
  let start : Configuration InputQueue OutputBuffer :=
    { machine := (ofProgram #[Instruction.assembleImmediate 1 3,
        Instruction.assembleStandard 8 0 2 1]).setCapacity (some 100)
      input := .empty
      output := .empty }
  start.step.2.step.2.machine

theorem resumes_from_file_oneArrayLive :
    oneArrayLive.Reachable ∧ oneArrayLive.heap.handles = [0, 1] ∧ oneArrayLive.heap.next = 2 ∧
    ∃ s, Snapshot.decode oneArrayLive.capture.encode = .ok s ∧
      ((ofSnapshot s).setCapacity (some 100)).capture = oneArrayLive.capture := by
  have hreach : oneArrayLive.Reachable := .step _ (.step _ (.setCapacity (.ofProgram _) _))
  have hsizes : ∀ (handle : Handle) (array : Array Word),
      oneArrayLive.heap.get? handle = some array → array.size < UInt32.size := by
    intro handle array h
    have hall : ∀ entry ∈ oneArrayLive.heap.arrays.toList, entry.2.size < UInt32.size := by decide
    exact hall (handle, array) (Std.ExtTreeMap.mem_toList_iff_getElem?_eq_some.2 h)
  obtain ⟨s, hdecode, hcapture, -⟩ :=
    resumes_from_file hreach hsizes (by decide) (by decide)
  exact ⟨hreach, by decide, by decide, s, hdecode, hcapture⟩

end Machine

end UniversalMachine
