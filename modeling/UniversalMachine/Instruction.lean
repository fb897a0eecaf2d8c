/-
  UniversalMachine.Instruction

  Instruction words: how a word is split into an operation and its operands, and
  how an instruction is assembled into a word.

  The four highest bits hold the operation code. Code 13 is the immediate form:
  bits 25 to 27 name the target register and bits 0 to 24 are the value. Every
  other code is the standard form, whose operands A, B and C are the register
  names in bits 6 to 8, 3 to 5 and 0 to 2; the bits between are ignored.

  Decoding accepts every word. Codes 14 and 15 name no operation, and a machine
  that meets one of them faults.
-/

import UniversalMachine.Registers

namespace UniversalMachine

/-! ## Operations -/

/-- The operations of the machine, in the order of their codes. -/
inductive Opcode where
  | conditionalMove
  | arrayIndex
  | arrayAmendment
  | addition
  | multiplication
  | division
  | notAnd
  | halt
  | allocation
  | abandonment
  | output
  | input
  | loadProgram
  | orthography
  deriving DecidableEq, Repr

namespace Opcode

/-- The operation with the given code, if the code names one. -/
def ofNat? : Nat → Option Opcode
  | 0 => some conditionalMove
  | 1 => some arrayIndex
  | 2 => some arrayAmendment
  | 3 => some addition
  | 4 => some multiplication
  | 5 => some division
  | 6 => some notAnd
  | 7 => some halt
  | 8 => some allocation
  | 9 => some abandonment
  | 10 => some output
  | 11 => some input
  | 12 => some loadProgram
  | 13 => some orthography
  | _ => none

/-- The code of an operation. -/
def code : Opcode → Fin 16
  | conditionalMove => 0
  | arrayIndex => 1
  | arrayAmendment => 2
  | addition => 3
  | multiplication => 4
  | division => 5
  | notAnd => 6
  | halt => 7
  | allocation => 8
  | abandonment => 9
  | output => 10
  | input => 11
  | loadProgram => 12
  | orthography => 13

/-- The short name an operation is displayed under. -/
def mnemonic : Opcode → String
  | conditionalMove => "cmov"
  | arrayIndex => "index"
  | arrayAmendment => "amend"
  | addition => "add"
  | multiplication => "mul"
  | division => "div"
  | notAnd => "nand"
  | halt => "halt"
  | allocation => "alloc"
  | abandonment => "free"
  | output => "out"
  | input => "in"
  | loadProgram => "load"
  | orthography => "ortho"

@[simp]
theorem ofNat?_code (op : Opcode) : ofNat? op.code = some op := by
  cases op <;> rfl

end Opcode

/-! ## Instructions -/

/-- A decoded instruction word. -/
inductive Instruction where
  /-- An operation on the registers `a`, `b` and `c`. -/
  | standard (code : Fin 16) (a b c : Selector)
  /-- Load the immediate `value` into register `a`. -/
  | orthography (a : Selector) (value : Word)
  deriving DecidableEq, Repr

namespace Instruction

/-- The operation code of a word. -/
def codeOf (w : Word) : Fin 16 :=
  Fin.ofNat 16 (w.toNat / 0x10000000)

/-- The register named by bits 6 to 8. -/
def operandA (w : Word) : Selector :=
  Selector.ofNat (w.toNat / 0x40)

/-- The register named by bits 3 to 5. -/
def operandB (w : Word) : Selector :=
  Selector.ofNat (w.toNat / 0x8)

/-- The register named by bits 0 to 2. -/
def operandC (w : Word) : Selector :=
  Selector.ofNat w.toNat

/-- The register an immediate is loaded into, named by bits 25 to 27. -/
def immediateTarget (w : Word) : Selector :=
  Selector.ofNat (w.toNat / 0x2000000)

/-- The immediate in bits 0 to 24. -/
def immediate (w : Word) : Word :=
  .ofNat (w.toNat % 0x2000000)

/-- Splits a word into operation and operands. -/
def decode (w : Word) : Instruction :=
  if codeOf w = Opcode.orthography.code then
    orthography (immediateTarget w) (immediate w)
  else
    standard (codeOf w) (operandA w) (operandB w) (operandC w)

/-- The word of a standard instruction. Only the low four bits of the code and the
    low three bits of each operand are used. -/
def assembleStandard (code a b c : Nat) : Word :=
  .ofNat (code % 16 * 0x10000000 + a % 8 * 0x40 + b % 8 * 0x8 + c % 8)

/-- The word that loads an immediate. Only the low three bits of the target and the
    low twenty-five bits of the value are used. -/
def assembleImmediate (a : Nat) (value : Word) : Word :=
  .ofNat (Opcode.orthography.code * 0x10000000 + a % 8 * 0x2000000 + value.toNat % 0x2000000)

/-- The word of an instruction, with every unused bit zero. -/
def encode : Instruction → Word
  | standard code a b c => assembleStandard code a b c
  | orthography a value => assembleImmediate a value

end Instruction

end UniversalMachine
