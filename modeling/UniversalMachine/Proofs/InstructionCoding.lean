/-
  UniversalMachine.Proofs.InstructionCoding

  Words and instructions correspond, up to the bits that no instruction reads.

  Both ways of assembling a word put every field where decoding looks for it and keep
  the fields apart (`Instruction.decode_assembleStandard`,
  `Instruction.decode_assembleImmediate`). So decoding undoes encoding on the
  instructions that decoding can give (`Instruction.Proper`), and two words have the
  same instruction exactly if they are encoded alike. The other way round it depends
  on the form: an immediate word uses all its bits, a standard word only the four
  highest and the nine lowest, and encoding clears the rest
  (`Instruction.testBit_encode_decode`).

  A standard instruction never has the code of the immediate form. The machine has an
  answer to that code all the same, and it is never given: an instruction that is
  refused as invalid has code 14 or 15 (`Machine.code_of_action_invalid`).
-/

import Mathlib.Algebra.Group.Nat.Defs
import UniversalMachine.Proofs.Standstill

namespace UniversalMachine

/-- An operation is found under its own code and no other. -/
theorem Opcode.ofNat?_eq_some_iff {n : ℕ} {op : Opcode} : ofNat? n = some op ↔ n = op.code := by
  constructor
  · intro h
    unfold ofNat? at h
    split at h <;> cases h <;> rfl
  · rintro rfl
    exact ofNat?_code op

namespace Selector

theorem ofNat_congr {m n : ℕ} (h : m % 8 = n % 8) : ofNat m = ofNat n :=
  Fin.ext h

@[simp]
theorem ofNat_val (r : Selector) : ofNat r = r :=
  Fin.ofNat_val_eq_self r

end Selector

namespace Instruction

/-! ## Fields -/

theorem val_codeOf (w : Word) : (codeOf w : ℕ) = w.toNat / 2 ^ 28 := by
  have hlt := w.toNat_lt
  show w.toNat / 0x10000000 % 16 = _
  omega

theorem codeOf_eq_thirteen_iff {w : Word} : codeOf w = 13 ↔ w.toNat / 2 ^ 28 = 13 := by
  rw [← val_codeOf, Fin.ext_iff]
  rfl

theorem decode_immediate {w : Word} (h : codeOf w = 13) :
    decode w = orthography (immediateTarget w) (immediate w) :=
  if_pos h

theorem decode_standard {w : Word} (h : codeOf w ≠ 13) :
    decode w = standard (codeOf w) (operandA w) (operandB w) (operandC w) :=
  if_neg h

theorem toNat_assembleStandard (code a b c : ℕ) :
    (assembleStandard code a b c).toNat =
      code % 16 * 2 ^ 28 + a % 8 * 2 ^ 6 + b % 8 * 2 ^ 3 + c % 8 := by
  rw [assembleStandard, UInt32.toNat_ofNat']
  omega

theorem toNat_assembleImmediate (a : ℕ) (value : Word) :
    (assembleImmediate a value).toNat = 13 * 2 ^ 28 + a % 8 * 2 ^ 25 + value.toNat % 2 ^ 25 := by
  rw [assembleImmediate, UInt32.toNat_ofNat']
  show (13 * 0x10000000 + a % 8 * 0x2000000 + value.toNat % 0x2000000) % 2 ^ 32 = _
  omega

/-- The fields of a standard word are read back, each reduced to its width. -/
theorem decode_assembleStandard {code : ℕ} (a b c : ℕ) (h : code % 16 ≠ 13) :
    decode (assembleStandard code a b c) =
      standard (Fin.ofNat 16 code) (Selector.ofNat a) (Selector.ofNat b) (Selector.ofNat c) := by
  have hword := toNat_assembleStandard code a b c
  have hcode : codeOf (assembleStandard code a b c) = Fin.ofNat 16 code := by
    apply Fin.ext
    rw [val_codeOf, hword]
    show _ = code % 16
    omega
  have ha : operandA (assembleStandard code a b c) = Selector.ofNat a :=
    Selector.ofNat_congr (by omega)
  have hb : operandB (assembleStandard code a b c) = Selector.ofNat b :=
    Selector.ofNat_congr (by omega)
  have hc : operandC (assembleStandard code a b c) = Selector.ofNat c :=
    Selector.ofNat_congr (by omega)
  have hne : codeOf (assembleStandard code a b c) ≠ 13 := by
    rw [hcode]
    exact fun heq => h (congrArg Fin.val heq)
  rw [decode_standard hne, hcode, ha, hb, hc]

/-- With code 13 the same fields are read in the immediate form: the operands are the low bits of
    the value. -/
theorem decode_assembleStandard_thirteen {code : ℕ} (a b c : ℕ) (h : code % 16 = 13) :
    decode (assembleStandard code a b c) =
      orthography 0 (.ofNat (64 * (a % 8) + 8 * (b % 8) + c % 8)) := by
  have hword := toNat_assembleStandard code a b c
  have hcode : codeOf (assembleStandard code a b c) = 13 := by
    rw [codeOf_eq_thirteen_iff]
    omega
  have htarget : immediateTarget (assembleStandard code a b c) = Selector.ofNat 0 :=
    Selector.ofNat_congr (by omega)
  have hvalue : (assembleStandard code a b c).toNat % 0x2000000 =
      64 * (a % 8) + 8 * (b % 8) + c % 8 := by
    omega
  rw [decode_immediate hcode, htarget, immediate, hvalue]
  rfl

theorem decode_assembleImmediate (a : ℕ) (value : Word) :
    decode (assembleImmediate a value) =
      orthography (Selector.ofNat a) (.ofNat (value.toNat % 2 ^ 25)) := by
  have hword := toNat_assembleImmediate a value
  have hcode : codeOf (assembleImmediate a value) = 13 := by
    rw [codeOf_eq_thirteen_iff]
    omega
  have htarget : immediateTarget (assembleImmediate a value) = Selector.ofNat a :=
    Selector.ofNat_congr (by omega)
  have hvalue : (assembleImmediate a value).toNat % 0x2000000 = value.toNat % 2 ^ 25 := by
    omega
  rw [decode_immediate hcode, htarget, immediate, hvalue]

/-! ## Decoding after encoding -/

/-- An instruction that a word can have: code 13 belongs to the immediate form, and immediates
    have 25 bits. -/
def Proper : Instruction → Prop
  | standard code _ _ _ => code ≠ Opcode.orthography.code
  | orthography _ value => value.toNat < 2 ^ 25

theorem proper_decode (w : Word) : (decode w).Proper := by
  by_cases hcode : codeOf w = 13
  · rw [decode_immediate hcode]
    show (UInt32.ofNat (w.toNat % 0x2000000)).toNat < 2 ^ 25
    rw [UInt32.toNat_ofNat']
    omega
  · rw [decode_standard hcode]
    exact hcode

theorem Proper.decode_encode {i : Instruction} (h : i.Proper) : decode i.encode = i := by
  cases i with
  | standard code a b c =>
    have hcode : (code : ℕ) % 16 ≠ 13 := by
      intro heq
      have hlt := code.isLt
      exact h (Fin.ext (by show (code : ℕ) = 13; omega))
    rw [encode, decode_assembleStandard a b c hcode, Fin.ofNat_val_eq_self, Selector.ofNat_val,
      Selector.ofNat_val, Selector.ofNat_val]
  | orthography a value =>
    have hvalue : value.toNat % 2 ^ 25 = value.toNat := Nat.mod_eq_of_lt h
    rw [encode, decode_assembleImmediate, hvalue, UInt32.ofNat_toNat, Selector.ofNat_val]

/-- No word decodes to a standard instruction that names the immediate form. -/
theorem ofNat?_ne_orthography {w : Word} {code : Fin 16} {a b c : Selector}
    (h : decode w = standard code a b c) : Opcode.ofNat? code ≠ some .orthography := by
  intro hop
  have hproper := proper_decode w
  rw [h] at hproper
  exact hproper (Fin.ext (Opcode.ofNat?_eq_some_iff.1 hop))

/-- Encoding is one-to-one on the instructions that words have. -/
theorem Proper.encode_inj {i j : Instruction} (hi : i.Proper) (hj : j.Proper) :
    i.encode = j.encode ↔ i = j := by
  constructor
  · intro h
    rw [← hi.decode_encode, h, hj.decode_encode]
  · intro h
    rw [h]

/-! ## Encoding after decoding -/

theorem encode_decode {w : Word} (h : codeOf w = 13) : encode (decode w) = w := by
  rw [decode_immediate h, encode]
  apply UInt32.toNat_inj.1
  rw [toNat_assembleImmediate]
  show 13 * 2 ^ 28 + w.toNat / 0x2000000 % 8 % 8 * 2 ^ 25 +
    (UInt32.ofNat (w.toNat % 0x2000000)).toNat % 2 ^ 25 = w.toNat
  have hcode := codeOf_eq_thirteen_iff.1 h
  rw [UInt32.toNat_ofNat']
  omega

/-- A standard word keeps its highest four bits and its lowest nine. -/
theorem toNat_encode_decode {w : Word} (h : codeOf w ≠ 13) :
    (encode (decode w)).toNat = 2 ^ 28 * (w.toNat / 2 ^ 28) + w.toNat % 2 ^ 9 := by
  have hlt := w.toNat_lt
  rw [decode_standard h, encode, toNat_assembleStandard, val_codeOf]
  show w.toNat / 2 ^ 28 % 16 * 2 ^ 28 + w.toNat / 0x40 % 8 % 8 * 2 ^ 6 +
    w.toNat / 0x8 % 8 % 8 * 2 ^ 3 + w.toNat % 8 % 8 = _
  omega

/-- Encoding clears bits 9 to 27 of a standard word, and no others. -/
theorem testBit_encode_decode {w : Word} (h : codeOf w ≠ 13) (i : ℕ) :
    (encode (decode w)).toNat.testBit i = (w.toNat.testBit i && !decide (9 ≤ i ∧ i ≤ 27)) := by
  have hsmall : w.toNat % 2 ^ 9 < 2 ^ 28 := by omega
  rw [toNat_encode_decode h, Nat.testBit_two_pow_mul_add _ hsmall, Nat.testBit_mod_two_pow,
    Nat.testBit_div_two_pow]
  by_cases hhigh : i < 28
  · rw [if_pos hhigh]
    by_cases hlow : i < 9
    · simp [hlow, show ¬9 ≤ i by omega]
    · simp [hlow, show 9 ≤ i by omega, show i ≤ 27 by omega]
  · rw [if_neg hhigh, Nat.sub_add_cancel (by omega)]
    simp [show ¬i ≤ 27 by omega]

end Instruction

/-! ## The code of the immediate form -/

namespace Machine

theorem attempt_ne_invalid {α : Type} (check : Except HeapError α) (effect : α → Effect)
    (code : Fin 16) (word : Word) :
    attempt check effect ≠ .fault (.invalidInstruction code word) := by
  cases check with
  | ok a => nofun
  | error e => cases e <;> nofun

/-- No operation with a standard form calls a word invalid. -/
theorem perform_ne_invalid (m : Machine) {op : Opcode} (hop : op ≠ .orthography) (word : Word)
    (a b c : Selector) (code : Fin 16) (invalid : Word) :
    m.perform word op a b c ≠ .fault (.invalidInstruction code invalid) := by
  cases op with
  | orthography => exact absurd rfl hop
  | arrayIndex => exact attempt_ne_invalid _ _ code invalid
  | arrayAmendment => exact attempt_ne_invalid _ _ code invalid
  | allocation => exact attempt_ne_invalid _ _ code invalid
  | abandonment => exact attempt_ne_invalid _ _ code invalid
  | loadProgram => exact attempt_ne_invalid _ _ code invalid
  | conditionalMove => rw [perform]; split <;> nofun
  | division => rw [perform]; split <;> nofun
  | output => rw [perform]; split <;> nofun
  | _ => nofun

/-- A word that is refused as an invalid instruction has a code that names no operation. -/
theorem code_of_action_invalid {m : Machine} {code : Fin 16} {word : Word}
    (h : m.action = .fault (.invalidInstruction code word)) : code = 14 ∨ code = 15 := by
  rw [action] at h
  split at h
  · cases h
  next w hfetch =>
  split at h
  · cases h
  next found a b c hdecode =>
  split at h
  · -- the code found in the word names no operation
    next hnone =>
    cases h
    have hcodes : ∀ code : Fin 16, Opcode.ofNat? code = none → code = 14 ∨ code = 15 := by decide
    exact hcodes code hnone
  · -- an operation is carried out, and it is not the immediate form
    next op hop =>
    have hne : op ≠ .orthography := by
      rintro rfl
      exact Instruction.ofNat?_ne_orthography hdecode hop
    exact absurd h (m.perform_ne_invalid hne w a b c code word)

end Machine

namespace Instruction

/-- Words and instructions correspond up to unused bits.

    Encoding what a word decodes to gives back a word with code 13, and any other word with bits 9
    to 27 cleared. The result decodes to the same instruction, and words decode alike if and only if
    their results are equal.

    An assembled word decodes to its fields, each reduced to its width; with code 13 the operands of
    the standard form are read as the value of an immediate for register 0.

    No word decodes to a standard instruction of code 13, so the machine never comes to carry out
    the immediate form as a standard operation, and a step that reports an invalid instruction
    reports code 14 or 15. -/
theorem coding_up_to_unused_bits :
    (∀ w, codeOf w = 13 → encode (decode w) = w) ∧
    (∀ w, codeOf w ≠ 13 → ∀ i, (encode (decode w)).toNat.testBit i =
      (w.toNat.testBit i && !decide (9 ≤ i ∧ i ≤ 27))) ∧
    (∀ w, decode (encode (decode w)) = decode w) ∧
    (∀ v w, decode v = decode w ↔ encode (decode v) = encode (decode w)) ∧
    (∀ code a b c, code % 16 ≠ 13 → decode (assembleStandard code a b c) =
      standard (Fin.ofNat 16 code) (Selector.ofNat a) (Selector.ofNat b) (Selector.ofNat c)) ∧
    (∀ code a b c, code % 16 = 13 → decode (assembleStandard code a b c) =
      orthography 0 (.ofNat (64 * (a % 8) + 8 * (b % 8) + c % 8))) ∧
    (∀ a value, decode (assembleImmediate a value) =
      orthography (Selector.ofNat a) (.ofNat (value.toNat % 2 ^ 25))) ∧
    (∀ w code a b c, decode w = standard code a b c →
      code ≠ 13 ∧ Opcode.ofNat? code ≠ some .orthography) ∧
    ∀ {ι σ : Type} [InputSource ι] [OutputSink σ] (c : Configuration ι σ) (code : Fin 16)
      (word ip : Word), c.step.1 = some (.fault ⟨.invalidInstruction code word, ip⟩) →
      code = 14 ∨ code = 15 := by
  refine ⟨fun _ => encode_decode, fun _ => testBit_encode_decode,
    fun w => (proper_decode w).decode_encode, ?_, fun _ => decode_assembleStandard,
    fun _ => decode_assembleStandard_thirteen, decode_assembleImmediate, ?_, ?_⟩
  · intro v w
    exact ((proper_decode v).encode_inj (proper_decode w)).symm
  · intro w code a b c hdecode
    have hproper := proper_decode w
    rw [hdecode] at hproper
    exact ⟨hproper, ofNat?_ne_orthography hdecode⟩
  · intro ι σ _ _ c code word ip hstep
    have hstands := Configuration.standsAt_of_step (Prod.ext hstep rfl : c.step = (_, c.step.2)) rfl
    exact Machine.code_of_action_invalid hstands.1

/-- A program whose only word has code 14. -/
def unknownCode : Configuration InputQueue OutputBuffer where
  machine := .ofProgram #[0xEFFFFE53]
  input := .empty
  output := .empty

theorem coding_up_to_unused_bits_noisy :
    encode (decode 0xDBABCDEF) = 0xDBABCDEF ∧
    (encode (decode 0x6FFFFFC4)).toNat.testBit 9 = false ∧
    (encode (decode 0x6FFFFFC4)).toNat.testBit 8 = true ∧
    decode (encode (decode 0x6FFFFFC4)) = standard 6 7 0 4 ∧
    decode (assembleStandard 0xFE 0xFF 10 3) = standard 14 7 2 3 ∧
    decode (assembleStandard 0x1D 0xFF 10 3) = orthography 0 0x1D3 ∧
    Opcode.ofNat? 14 ≠ some .orthography ∧
    ∃ code word, unknownCode.step.1 = some (.fault ⟨.invalidInstruction code word, 0⟩) ∧
      (code = 14 ∨ code = 15) := by
  obtain ⟨himmediate, hcleared, hagain, -, hstandard, hthirteen, -, hproper, hsteps⟩ :=
    coding_up_to_unused_bits
  refine ⟨himmediate _ rfl, ?_, ?_, hagain _, hstandard 0xFE 0xFF 10 3 (by decide),
    hthirteen 0x1D 0xFF 10 3 rfl, (hproper 0xEFFFFE53 14 1 2 3 rfl).2, ?_⟩
  · rw [hcleared _ (by decide)]
    rfl
  · rw [hcleared _ (by decide)]
    rfl
  · have hstep : unknownCode.step.1 = some (.fault ⟨.invalidInstruction 14 0xEFFFFE53, 0⟩) := by
      decide
    exact ⟨14, 0xEFFFFE53, hstep, hsteps unknownCode 14 _ 0 hstep⟩

end Instruction

end UniversalMachine
