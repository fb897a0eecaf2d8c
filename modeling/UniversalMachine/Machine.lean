/-
  UniversalMachine.Machine

  The machine: an instruction pointer, eight registers and a heap.

  What an instruction does falls into two halves. `Machine.action` is the half
  that only looks: it reads all operands, makes every check, and says whether the
  instruction completes, prints a byte, waits for a word of input, halts or
  faults. An instruction that completes is described by its effect, and
  `Machine.apply` carries an effect out. `Configuration.step`
  (UniversalMachine.Execution) joins the two and consults the devices. Halting,
  faulting and waiting have no effect, so none of them can change a machine.
-/

import UniversalMachine.Fault
import UniversalMachine.Instruction

namespace UniversalMachine

/-- A machine between two instructions. -/
structure Machine where
  /-- Address of the next instruction. -/
  ip : Word
  registers : Registers
  heap : Heap
  /-- Instructions completed since the machine was built. -/
  cycles : Nat
  deriving DecidableEq

/-- What an instruction changes, apart from the pointer moving on. All checks have been
    made. -/
inductive Effect where
  /-- Nothing else changes. -/
  | skip
  /-- A register is set. -/
  | assign (target : Selector) (value : Word)
  /-- A word of an array is replaced. -/
  | store (handle : Handle) (offset value : Word)
  /-- An array of zero words is added, and a register is set to its handle. -/
  | allocate (target : Selector) (handle : Handle) (size : Word)
  /-- An array is removed. -/
  | free (handle : Handle)
  /-- A copy of an array becomes the program, which goes on at an address. -/
  | load (handle : Handle) (ip : Word)
  deriving DecidableEq, Repr

/-- What the instruction at the pointer asks for. -/
inductive Action where
  /-- The instruction completes. -/
  | complete (effect : Effect)
  /-- The instruction prints a byte and completes. -/
  | emit (byte : UInt8)
  /-- The instruction completes once a word arrives for the target register. -/
  | await (target : Selector)
  /-- The program ends here. -/
  | halt
  /-- The instruction cannot be carried out. -/
  | fault (cause : FaultCause)
  deriving DecidableEq, Repr

namespace Machine

/-- A machine about to run a program. -/
def ofProgram (program : Array Word) : Machine where
  ip := 0
  registers := .zero
  heap := .ofProgram program
  cycles := 0

/-- Bounds the live words of the heap, or lifts the bound. -/
def setCapacity (m : Machine) (capacity : Option Nat) : Machine :=
  { m with heap := m.heap.setCapacity capacity }

/-- The contents of a register. -/
def reg (m : Machine) (r : Selector) : Word :=
  m.registers.read r

/-- The instruction at the pointer, if the program reaches that far. -/
def currentInstruction (m : Machine) : Option Instruction :=
  (m.heap.fetch m.ip).map Instruction.decode

/-! ## What an instruction asks for -/

/-- The outcome of a check as an action: a refusal is a fault. -/
def attempt {α : Type} (check : Except HeapError α) (effect : α → Effect) : Action :=
  match check with
  | .ok a => .complete (effect a)
  | .error e => .fault e.faultCause

/-- What the operation of an instruction word does with registers `a`, `b` and `c`; all
    of them are read before anything is written. Orthography has no standard form. -/
def perform (m : Machine) (word : Word) (op : Opcode) (a b c : Selector) : Action :=
  match op with
  | .conditionalMove =>
    if m.reg c = 0 then .complete .skip else .complete (.assign a (m.reg b))
  | .arrayIndex => attempt (m.heap.read (m.reg b) (m.reg c)) (.assign a)
  | .arrayAmendment =>
    attempt (m.heap.checkWrite (m.reg a) (m.reg b)) fun () =>
      .store (m.reg a) (m.reg b) (m.reg c)
  | .addition => .complete (.assign a (m.reg b + m.reg c))
  | .multiplication => .complete (.assign a (m.reg b * m.reg c))
  | .division =>
    if m.reg c = 0 then .fault .divisionByZero
    else .complete (.assign a (m.reg b / m.reg c))
  | .notAnd => .complete (.assign a (~~~(m.reg b &&& m.reg c)))
  | .halt => .halt
  | .allocation =>
    attempt (m.heap.checkAllocate (m.reg c)) fun handle => .allocate b handle (m.reg c)
  | .abandonment => attempt (m.heap.checkFree (m.reg c)) fun () => .free (m.reg c)
  | .output =>
    if (m.reg c).toNat < 256 then .emit (m.reg c).toUInt8
    else .fault (.outputOutOfRange (m.reg c))
  | .input => .await c
  | .loadProgram =>
    attempt (m.heap.checkReplace (m.reg b)) fun () => .load (m.reg b) (m.reg c)
  | .orthography => .fault (.invalidInstruction op.code word)

/-- What the instruction at the pointer asks for. -/
def action (m : Machine) : Action :=
  match m.heap.fetch m.ip with
  | none => .fault (.counterOutOfBounds m.heap.program.size)
  | some word =>
    match Instruction.decode word with
    | .orthography a value => .complete (.assign a value)
    | .standard code a b c =>
      match Opcode.ofNat? code with
      | none => .fault (.invalidInstruction code word)
      | some op => m.perform word op a b c

/-! ## Completing an instruction

Each of these takes the machine apart before it changes a part of it, so that a
machine nobody else holds changes in place. -/

/-- One more instruction is complete and the pointer is at `ip`. -/
def goto (m : Machine) (ip : Word) : Machine :=
  match m with
  | { ip := _, registers, heap, cycles } => { ip, registers, heap, cycles := cycles + 1 }

/-- One more instruction is complete and the pointer is at the following word. -/
def advance (m : Machine) : Machine :=
  m.goto (m.ip + 1)

/-- The machine with a register set. -/
def setReg (m : Machine) (r : Selector) (value : Word) : Machine :=
  match m with
  | { ip, registers, heap, cycles } =>
    { ip, registers := registers.write r value, heap, cycles }

/-- The machine with its heap changed. -/
def mapHeap (m : Machine) (change : Heap → Heap) : Machine :=
  match m with
  | { ip, registers, heap, cycles } => { ip, registers, heap := change heap, cycles }

/-- Completes an instruction whose effect is known. -/
def apply (m : Machine) : Effect → Machine
  | .skip => m.advance
  | .assign target value => (m.setReg target value).advance
  | .store handle offset value => (m.mapHeap (·.store handle offset value)).advance
  | .allocate target handle size =>
    ((m.mapHeap (·.bind handle size)).setReg target handle).advance
  | .free handle => (m.mapHeap (·.unbind handle)).advance
  | .load handle ip => (m.mapHeap (·.copyToProgram handle)).goto ip

end Machine

end UniversalMachine
