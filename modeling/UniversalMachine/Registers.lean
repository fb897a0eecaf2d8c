/-
  UniversalMachine.Registers

  The register file: eight words, addressed by three-bit selectors.
-/

import UniversalMachine.Word

namespace UniversalMachine

/-- Names one of the eight registers. -/
abbrev Selector := Fin 8

/-- The low three bits of a number, as a register name. -/
def Selector.ofNat (n : Nat) : Selector :=
  Fin.ofNat 8 n

/-- The contents of the eight registers. -/
abbrev Registers := Vector Word 8

namespace Registers

/-- All registers zero, as a machine starts. -/
def zero : Registers :=
  Vector.replicate 8 0

/-- The contents of one register. -/
def read (regs : Registers) (r : Selector) : Word :=
  regs[r]

/-- The registers with one of them replaced. -/
def write (regs : Registers) (r : Selector) (value : Word) : Registers :=
  regs.set r value

@[simp]
theorem read_write_self (regs : Registers) (r : Selector) (value : Word) :
    (regs.write r value).read r = value := by
  simp [read, write]

@[simp]
theorem read_write_of_ne (regs : Registers) {r s : Selector} (value : Word) (h : r ≠ s) :
    (regs.write r value).read s = regs.read s := by
  have : (r : Nat) ≠ s := fun e => h (Fin.ext e)
  simp [read, write, this]

end Registers

end UniversalMachine
