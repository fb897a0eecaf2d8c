/-
  UniversalMachine.Proofs.InstructionEffect

  Each instruction has exactly the effect that the instruction set gives it.

  A rule that applies to the view of a machine determines the action of the machine
  (`Machine.action_of_completes`, `Machine.action_of_faults`), and so its whole step
  (`Configuration.step_of_transition`). Since there is a rule for every state, the
  step follows one, and `Configuration.step_iff_transition` has both directions.
-/

import UniversalMachine.Proofs.InstructionCoding
import UniversalMachine.Proofs.MachineView
import UniversalMachine.Proofs.Persistence

namespace UniversalMachine

open Reference

/-! ## Actions -/

namespace Machine

variable {m : Machine}

/-- The operation that the rules read off the word at the pointer is the one carried out. -/
theorem action_of_at {a b c : Selector} (op : Opcode) (hop : op ≠ .orthography)
    (h : m.view.At op.code a b c) : m.action = m.perform 0 op a b c := by
  obtain ⟨w, hw, hcode, ha, hb, hc⟩ := h
  obtain ⟨word, hfetch, rfl⟩ := fetch_of_word? hw
  have hcodeOf : Instruction.codeOf word = op.code :=
    Fin.ext ((Instruction.val_codeOf word).trans hcode)
  have hne : Instruction.codeOf word ≠ Opcode.orthography.code := by
    intro heq
    have hsame := Opcode.ofNat?_code op
    rw [← hcodeOf, heq, Opcode.ofNat?_code] at hsame
    exact hop (Option.some.inj hsame).symm
  have hA : Instruction.operandA word = a := Fin.ext ha.symm
  have hB : Instruction.operandB word = b := Fin.ext hb.symm
  have hC : Instruction.operandC word = c := Fin.ext hc.symm
  have hdecode : Instruction.decode word = .standard op.code a b c := by
    rw [Instruction.decode, if_neg hne, hcodeOf, hA, hB, hC]
  simp only [action, hfetch, hdecode, Opcode.ofNat?_code]
  -- only the immediate form looks at the word again
  cases op with
  | orthography => exact absurd rfl hop
  | _ => rfl

theorem action_of_immediate {w : ℕ} {a : Selector} (hw : m.view.word? = some w)
    (hop : w / 2 ^ 28 = 13) (ha : (a : ℕ) = w / 2 ^ 25 % 8) :
    m.action = .complete (.assign a (.ofNat (w % 2 ^ 25))) := by
  obtain ⟨word, hfetch, rfl⟩ := fetch_of_word? hw
  have hcode : Instruction.codeOf word = Opcode.orthography.code :=
    Fin.ext ((Instruction.val_codeOf word).trans hop)
  have htarget : Instruction.immediateTarget word = a := Fin.ext ha.symm
  have hdecode : Instruction.decode word = .orthography a (.ofNat (word.toNat % 2 ^ 25)) := by
    rw [Instruction.decode, if_pos hcode, htarget]
    rfl
  simp only [action, hfetch, hdecode]

theorem action_of_invalid {w : ℕ} (hw : m.view.word? = some w) (hop : 14 ≤ w / 2 ^ 28) :
    m.action = .fault (.invalidInstruction (Fin.ofNat 16 (w / 2 ^ 28)) (.ofNat w)) := by
  obtain ⟨word, hfetch, rfl⟩ := fetch_of_word? hw
  have hcode := Instruction.val_codeOf word
  have hlt := (Instruction.codeOf word).isLt
  have hne : Instruction.codeOf word ≠ Opcode.orthography.code := by
    intro heq
    have hval : (Instruction.codeOf word : ℕ) = 13 := congrArg Fin.val heq
    omega
  have hnone : Opcode.ofNat? (Instruction.codeOf word) = none := by
    have hcases : (Instruction.codeOf word : ℕ) = 14 ∨ (Instruction.codeOf word : ℕ) = 15 := by
      omega
    rcases hcases with h | h <;> rw [h] <;> rfl
  have hdecode : Instruction.decode word = .standard (Instruction.codeOf word) _ _ _ :=
    if_neg hne
  simp only [action, hfetch, hdecode, hnone, UInt32.ofNat_toNat]
  rfl

theorem action_of_output {a b c : Selector} (h : m.view.At 10 a b c) (hc : m.view.reg c < 256) :
    m.action = .emit (.ofNat (m.view.reg c)) := by
  have haction := action_of_at .output (by decide) h
  have hrange : (m.reg c).toNat < 256 := hc
  have hbyte : (m.reg c).toUInt8 = .ofNat (m.reg c).toNat := by
    apply UInt8.toNat_inj.1
    rw [UInt32.toNat_toUInt8, UInt8.toNat_ofNat']
  rwa [perform, if_pos hrange, hbyte] at haction

/-- An arithmetic instruction, or another that only sets a register. -/
theorem view_assign (m : Machine) (r : Selector) {value : Word} {n : ℕ} (h : value.toNat = n) :
    (m.apply (.assign r value)).view = (m.view.assign r n).next := by
  rw [apply, view_advance, view_setReg, h]

/-- A rule by which the instruction completes determines its effect. -/
theorem action_of_completes {s : State} (hm : m.heap.WellFormed) (h : m.view.Completes s) :
    ∃ effect, m.action = .complete effect ∧ (m.apply effect).view = s := by
  cases h with
  | @move a b c h hc =>
    have haction := action_of_at .conditionalMove (by decide) h
    rw [perform, if_neg (mt reg_eq_zero_iff.1 hc)] at haction
    exact ⟨_, haction, view_assign m a rfl⟩
  | @keep a b c h hc =>
    have haction := action_of_at .conditionalMove (by decide) h
    rw [perform, if_pos (reg_eq_zero_iff.2 hc)] at haction
    exact ⟨_, haction, view_advance m⟩
  | @index a b c array value h hb hc =>
    have haction := action_of_at .arrayIndex (by decide) h
    obtain ⟨word, hword, hread⟩ := read_of_word hb hc
    rw [perform, hread] at haction
    exact ⟨_, haction, view_assign m a hword⟩
  | @amend a b c array h ha hb =>
    have haction := action_of_at .arrayAmendment (by decide) h
    rw [perform, checkWrite_of_lt ha hb] at haction
    refine ⟨_, haction, ?_⟩
    obtain ⟨array, hget, rfl⟩ := get?_of_view_some ha
    rw [apply, view_advance, view_store hget]
    rfl
  | @add a b c h =>
    have haction := action_of_at .addition (by decide) h
    exact ⟨_, haction, view_assign m a (UInt32.toNat_add _ _)⟩
  | @multiply a b c h =>
    have haction := action_of_at .multiplication (by decide) h
    exact ⟨_, haction, view_assign m a (UInt32.toNat_mul _ _)⟩
  | @divide a b c h hc =>
    have haction := action_of_at .division (by decide) h
    rw [perform, if_neg (mt reg_eq_zero_iff.1 hc)] at haction
    exact ⟨_, haction, view_assign m a (UInt32.toNat_div _ _)⟩
  | @notAnd a b c h =>
    have haction := action_of_at .notAnd (by decide) h
    have hvalue : (~~~(m.reg b &&& m.reg c)).toNat =
        2 ^ 32 - 1 - (m.view.reg b &&& m.view.reg c) := by
      rw [UInt32.toNat_not, UInt32.toNat_and]
      rfl
    exact ⟨_, haction, view_assign m a hvalue⟩
  | @allocate a b c handle h hfits hissues =>
    have haction := action_of_at .allocation (by decide) h
    obtain ⟨found, rfl, hcheck⟩ := checkAllocate_of_fits hm hfits hissues
    rw [perform, hcheck] at haction
    refine ⟨_, haction, ?_⟩
    rw [apply, view_advance, view_setReg, view_bind]
    rfl
  | @abandon a b c array h hc hlive =>
    have haction := action_of_at .abandonment (by decide) h
    rw [perform, checkFree_of_live (mt reg_eq_zero_iff.1 hc) hlive] at haction
    refine ⟨_, haction, ?_⟩
    rw [apply, view_advance, view_unbind]
    rfl
  | @jump a b c h hb =>
    have haction := action_of_at .loadProgram (by decide) h
    have hzero : m.reg b = 0 := reg_eq_zero_iff.2 hb
    have hcheck : m.heap.checkReplace (m.reg b) = .ok () := if_pos hzero
    rw [perform, hcheck] at haction
    refine ⟨_, haction, ?_⟩
    -- handle 0 is the program already, so nothing is copied
    have hsame : m.mapHeap (·.copyToProgram (m.reg b)) = m := by
      rw [mapHeap, Heap.copyToProgram, if_pos hzero]
    rw [apply, hsame]
    rfl
  | @load a b c array h hb hlive hfits =>
    have haction := action_of_at .loadProgram (by decide) h
    have hne : m.reg b ≠ 0 := mt reg_eq_zero_iff.1 hb
    rw [perform, checkReplace_of_fits hm hne hlive hfits] at haction
    refine ⟨_, haction, ?_⟩
    obtain ⟨array, hget, rfl⟩ := get?_of_view_some hlive
    rw [apply, view_goto, view_copyToProgram hne hget]
    rfl
  | @immediate w a hw hop ha =>
    have hvalue : (UInt32.ofNat (w % 2 ^ 25)).toNat = w % 2 ^ 25 := by
      rw [UInt32.toNat_ofNat']
      omega
    exact ⟨_, action_of_immediate hw hop ha, view_assign m a hvalue⟩

/-- A rule by which the instruction faults determines the fault. -/
theorem action_of_faults {cause : FaultCause} (hm : m.heap.WellFormed)
    (h : m.view.Faults cause) : m.action = .fault cause := by
  cases h with
  | pastTheEnd h =>
    rw [word?_view, Option.map_eq_none_iff] at h
    rw [program_view, length_contents]
    simp only [action, h]
  | invalid hw hop => exact action_of_invalid hw hop
  | @indexInactive a b c h hb =>
    have haction := action_of_at .arrayIndex (by decide) h
    rw [perform, read_of_inactive hb] at haction
    rw [haction, ofNat_reg]
    rfl
  | @indexBeyond a b c array h hb hc =>
    have haction := action_of_at .arrayIndex (by decide) h
    rw [perform, read_of_beyond hb hc] at haction
    rw [haction, ofNat_reg, ofNat_reg]
    rfl
  | @amendInactive a b c h ha =>
    have haction := action_of_at .arrayAmendment (by decide) h
    rw [perform, checkWrite_of_inactive ha] at haction
    rw [haction, ofNat_reg]
    rfl
  | @amendBeyond a b c array h ha hb =>
    have haction := action_of_at .arrayAmendment (by decide) h
    rw [perform, checkWrite_of_beyond ha hb] at haction
    rw [haction, ofNat_reg, ofNat_reg]
    rfl
  | @divideByZero a b c h hc =>
    have haction := action_of_at .division (by decide) h
    rwa [perform, if_pos (reg_eq_zero_iff.2 hc)] at haction
  | @allocateBeyond a b c limit h hlimit hover =>
    have haction := action_of_at .allocation (by decide) h
    rwa [perform, checkAllocate_of_exceeds hm hlimit hover] at haction
  | @abandonProgram a b c h hc =>
    have haction := action_of_at .abandonment (by decide) h
    have hcheck : m.heap.checkFree (m.reg c) = .error .abandonProgram :=
      if_pos (reg_eq_zero_iff.2 hc)
    rwa [perform, hcheck] at haction
  | @abandonInactive a b c h hc hlive =>
    have haction := action_of_at .abandonment (by decide) h
    rw [perform, checkFree_of_inactive (mt reg_eq_zero_iff.1 hc) hlive] at haction
    rw [haction, ofNat_reg]
    rfl
  | @outputOutOfRange a b c h hc =>
    have haction := action_of_at .output (by decide) h
    have hrange : ¬(m.reg c).toNat < 256 := Nat.not_lt.2 hc
    rw [perform, if_neg hrange] at haction
    rw [haction, ofNat_reg]
  | @loadInactive a b c h hb hlive =>
    have haction := action_of_at .loadProgram (by decide) h
    rw [perform, checkReplace_of_inactive (mt reg_eq_zero_iff.1 hb) hlive] at haction
    rw [haction, ofNat_reg]
    rfl
  | @loadBeyond a b c array limit h hb hlive hlimit hover =>
    have haction := action_of_at .loadProgram (by decide) h
    have hne : m.reg b ≠ 0 := mt reg_eq_zero_iff.1 hb
    rwa [perform, checkReplace_of_exceeds hm hne hlive hlimit hover] at haction

end Machine

/-! ## Steps -/

namespace Configuration

variable {ι σ : Type} [InputSource ι] [OutputSink σ]

/-- A transition of the view is what the step does. -/
theorem step_of_transition {c : Configuration ι σ} {outcome : Option Outcome} {x : Setting ι σ}
    (hm : c.machine.heap.WellFormed) (h : Transition c.view outcome x) :
    outcome = c.step.1 ∧ x = c.step.2.view := by
  obtain ⟨m, i, o⟩ := c
  cases h with
  | complete h =>
    obtain ⟨effect, haction, hview⟩ := Machine.action_of_completes hm h
    rw [step_of_complete haction, ← hview]
    exact ⟨rfl, rfl⟩
  | fault h =>
    rw [step_of_fault (Machine.action_of_faults hm h)]
    refine ⟨?_, rfl⟩
    rw [Machine.view, UInt32.ofNat_toNat]
  | halt h =>
    rw [step_of_halt (Machine.action_of_at .halt (by decide) h)]
    exact ⟨rfl, rfl⟩
  | print h hc ho | stop h hc ho =>
    rw [step_of_emit (Machine.action_of_output h hc)]
    refine ⟨?_, ?_⟩
    · rw [ho]
      rfl
    · rw [view, ho, Machine.view_advance]
  | read h hi =>
    rw [step_of_await_some (Machine.action_of_at .input (by decide) h) hi]
    refine ⟨rfl, ?_⟩
    rw [view, Machine.view_assign m _ rfl]
  | wait h hi =>
    rw [step_of_await_none (Machine.action_of_at .input (by decide) h) hi]
    exact ⟨rfl, rfl⟩

/-- One step is the transition that the instruction set gives, and no other, whatever the word
    at the pointer, its register names and the devices are. -/
theorem step_iff_transition {c : Configuration ι σ} (hreach : c.machine.Reachable)
    (hlive : c.machine.heap.size < 2 ^ 32) :
    (∀ outcome after, Transition c.view outcome after ↔
      outcome = c.step.1 ∧ after = c.step.2.view) ∧
    (∀ outcome c', c'.machine.Reachable →
      (Transition c.view outcome c'.view ↔ (outcome, c') = c.step)) ∧
    Confined c.view.state c.step.1 c.step.2.view.state := by
  have hm := hreach.wellFormed
  -- there is a rule for this state, and it can only be the step
  obtain ⟨outcome, after, htransition⟩ :=
    Transition.total c.view (Machine.exists_free_view hm hlive)
  obtain ⟨rfl, rfl⟩ := step_of_transition hm htransition
  refine ⟨?_, ?_, htransition.confined⟩
  · intro outcome after
    constructor
    · exact step_of_transition hm
    · rintro ⟨rfl, rfl⟩
      exact htransition
  · intro outcome c' hreach'
    constructor
    · intro h
      obtain ⟨houtcome, hview⟩ := step_of_transition hm h
      have hafter : c' = c.step.2 :=
        view_injective hreach'.wellFormed (c.wellFormed_step hm) hview
      rw [houtcome, hafter]
    · intro h
      rw [← h] at htransition
      exact htransition

/-- A machine about to ask for an array of three words with the last handle there is. The register
    that holds the size also receives the handle. -/
def lastHandle : Configuration InputQueue OutputBuffer where
  machine := .ofSnapshot
    { ip := 0
      registers := Registers.zero.write (.ofNat 1) 3
      arrays := (∅ : ArrayTable).insert 0 #[Instruction.assembleStandard 8 0 1 1]
      nextHandle := 0xFFFFFFFF }
  input := .empty
  output := .empty

theorem step_iff_transition_lastHandle :
    lastHandle.machine.Reachable ∧ lastHandle.machine.heap.size < 2 ^ 32 ∧
    (∀ outcome after, Transition lastHandle.view outcome after ↔
      outcome = none ∧ after = lastHandle.step.2.view) ∧
    lastHandle.step.2.machine.reg 1 = 0xFFFFFFFF ∧
    lastHandle.step.2.machine.heap.get? 0xFFFFFFFF = some #[0, 0, 0] ∧
    lastHandle.step.2.machine.heap.next = 0 := by
  have hreach : lastHandle.machine.Reachable := .ofSnapshot _
  have hlive : lastHandle.machine.heap.size < 2 ^ 32 := by decide
  have houtcome : lastHandle.step.1 = none := by decide
  refine ⟨hreach, hlive, ?_, by decide, by decide, by decide⟩
  rw [← houtcome]
  exact (step_iff_transition hreach hlive).1

end Configuration

end UniversalMachine
