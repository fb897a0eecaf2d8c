/-
  UniversalMachine.Fault

  Faults: why an instruction could not be carried out, and where.
-/

import UniversalMachine.Heap
import UniversalMachine.Text.Hexadecimal

namespace UniversalMachine

/-- What an instruction attempted that the machine does not allow. -/
inductive FaultCause where
  | invalidInstruction (code : Fin 16) (word : Word)
  | inactiveHandle (handle : Handle)
  | outOfBounds (handle : Handle) (offset : Word) (length : Nat)
  | divisionByZero
  | outputOutOfRange (value : Word)
  | abandonProgram
  | counterOutOfBounds (length : Nat)
  | outOfMemory (requested limit : Nat)
  | handlesExhausted
  deriving DecidableEq, Repr

/-- A fault and the address of the instruction that raised it. -/
structure Fault where
  cause : FaultCause
  ip : Word
  deriving DecidableEq, Repr

/-- The fault cause of a refused heap operation. -/
def HeapError.faultCause : HeapError → FaultCause
  | .inactiveHandle handle => .inactiveHandle handle
  | .outOfBounds handle offset length => .outOfBounds handle offset length
  | .abandonProgram => .abandonProgram
  | .outOfMemory requested _ limit => .outOfMemory requested limit
  | .handlesExhausted => .handlesExhausted

namespace Fault

/-- The fault of an instruction at `ip` whose heap operation was refused. -/
def ofHeap (error : HeapError) (ip : Word) : Fault :=
  { cause := error.faultCause, ip }

/-- The handle that a failed array access named. -/
def handle? (fault : Fault) : Option Handle :=
  match fault.cause with
  | .inactiveHandle handle => some handle
  | .outOfBounds handle _ _ => some handle
  | _ => none

/-- The wording of a fault. -/
def message (fault : Fault) : String :=
  let ip := fault.ip
  match fault.cause with
  | .invalidInstruction code word =>
    let digits := Text.hex8 word
    s!"Invalid instruction 0x{digits} (opcode {code}) at ip {ip}"
  | .inactiveHandle handle => s!"Inactive array handle {handle} at ip {ip}"
  | .outOfBounds handle offset length =>
    s!"Array {handle} index {offset} out of bounds for length {length} at ip {ip}"
  | .divisionByZero => s!"Division by zero at ip {ip}"
  | .outputOutOfRange value => s!"Output value {value} does not fit in a byte at ip {ip}"
  | .abandonProgram => s!"Attempted to abandon the program array at ip {ip}"
  | .counterOutOfBounds length =>
    s!"Instruction pointer {ip} is past the end of the program ({length} words)"
  | .outOfMemory requested limit =>
    s!"Out of memory: requested {requested} words, limit is {limit} at ip {ip}"
  | .handlesExhausted => s!"Every array handle is in use at ip {ip}"

end Fault

end UniversalMachine
