/-
  UniversalMachine.Proofs.Standstill

  Instructions that do not complete.

  An instruction that faults, halts or finds no word of input leaves the machine, the
  sink and what can be read as they were (`Configuration.step_cases_of_not_cutShort`).
  A halt and a fault are decided by the machine alone: `Machine.StandsAt` says that the
  instruction at the pointer ends every run in this way. Such a machine answers every
  call alike, whatever devices come with it, and no call moves it
  (`StandsAt.of_afterCalls`).
-/

import UniversalMachine.Proofs.Resumption

namespace UniversalMachine

/-- The machine will not get any further, whatever input comes. -/
def Outcome.isFinal : Outcome → Bool
  | .halted => true
  | .fault _ => true
  | _ => false

/-- A queue that has no word to give is open and empty, and asking it changes nothing. -/
theorem InputQueue.of_next_eq_none {q q' : InputQueue} (h : q.next = (none, q')) :
    q' = q ∧ q.pending = [] ∧ q.closed = false := by
  unfold next at h
  cases hpending : q.pending with
  | cons word rest =>
    rw [hpending] at h
    cases h
  | nil =>
    rw [hpending] at h
    obtain ⟨hword, hq⟩ := Prod.mk.inj h
    have hopen : q.closed = false := by
      cases hclosed : q.closed with
      | false => rfl
      | true =>
        rw [hclosed] at hword
        cases hword
    exact ⟨hq.symm, rfl, hopen⟩

/-! ## Machines at a standstill -/

namespace Machine

/-- The instruction at the pointer ends every run with this outcome. -/
def StandsAt (m : Machine) : Outcome → Prop
  | .halted => m.action = .halt
  | .fault f => m.action = .fault f.cause ∧ f.ip = m.ip
  | _ => False

/-- The machines that further calls lead to. Each call brings an input and a sink of its
    own, carries out one instruction, or runs with or without a deadline. -/
inductive AfterCalls (m : Machine) : Machine → Prop
  | none : AfterCalls m m
  | step {ι σ : Type} [InputSource ι] [OutputSink σ] (c : Configuration ι σ)
      (h : AfterCalls m c.machine) : AfterCalls m c.step.2.machine
  | run {ι σ : Type} [InputSource ι] [OutputSink σ] (patience : Nat) (c : Configuration ι σ)
      (h : AfterCalls m c.machine) : AfterCalls m (c.run patience).2.machine
  | runToEnd {ι σ : Type} [InputSource ι] [OutputSink σ] {c final : Configuration ι σ}
      {outcome : Outcome} (h : AfterCalls m c.machine)
      (hends : Configuration.Ends c outcome final) : AfterCalls m final.machine

namespace StandsAt

variable {ι σ : Type} [InputSource ι] [OutputSink σ] {c : Configuration ι σ} {outcome : Outcome}

theorem step (h : c.machine.StandsAt outcome) : c.step = (some outcome, c) := by
  cases outcome with
  | halted => exact Configuration.step_of_halt h
  | fault f =>
    obtain ⟨haction, hip⟩ := h
    rw [Configuration.step_of_fault haction, ← hip]
  | inputNeeded => exact h.elim
  | stopRequested => exact h.elim
  | timeExpired => exact h.elim

theorem run (h : c.machine.StandsAt outcome) (patience : Nat) :
    c.run patience = (outcome, c) :=
  Configuration.run_of_step_some h.step patience

theorem ends_iff (h : c.machine.StandsAt outcome) {returned : Outcome}
    {final : Configuration ι σ} :
    Configuration.Ends c returned final ↔ returned = outcome ∧ final = c :=
  Configuration.ends_iff_of_step_some h.step

/-- No call moves a machine that stands. -/
theorem of_afterCalls {m n : Machine} (h : m.StandsAt outcome) (hcalls : m.AfterCalls n) :
    n = m := by
  induction hcalls with
  | none => rfl
  | step c _ ih =>
    have hc : c.machine.StandsAt outcome := ih ▸ h
    rw [hc.step]
    exact ih
  | run patience c _ ih =>
    have hc : c.machine.StandsAt outcome := ih ▸ h
    rw [hc.run]
    exact ih
  | @runToEnd _ _ _ _ c final _ _ hends ih =>
    have hc : c.machine.StandsAt outcome := ih ▸ h
    obtain ⟨-, rfl⟩ := hc.ends_iff.1 hends
    exact ih

end StandsAt

end Machine

/-! ## Instructions that do not complete -/

namespace Configuration

variable {ι σ : Type} [InputSource ι] [OutputSink σ] {c c' : Configuration ι σ}
  {outcome : Outcome}

/-- An instruction that ends a run without completing found no input, or the machine stands
    at it. -/
theorem step_cases_of_not_cutShort (h : c.step = (some outcome, c'))
    (hcut : outcome.cutShort = false) :
    (outcome = .inputNeeded ∧ (∃ target, c.machine.action = .await target) ∧
      InputSource.next c.input = (none, c'.input) ∧ c' = { c with input := c'.input }) ∨
    (c.machine.StandsAt outcome ∧ c' = c) := by
  cases haction : c.machine.action with
  | complete effect =>
    rw [step_of_complete haction] at h
    cases h
  | emit byte =>
    -- a byte ends a run only if the sink asks for it, and then the run is cut short
    rw [step_of_emit haction] at h
    obtain ⟨hstopped, -⟩ := Prod.mk.inj h
    split at hstopped
    · cases hstopped
    · cases hstopped
      cases hcut
  | await target =>
    rcases hnext : InputSource.next c.input with ⟨_ | word, input⟩
    · rw [step_of_await_none haction hnext] at h
      cases h
      exact .inl ⟨rfl, ⟨target, rfl⟩, rfl, rfl⟩
    · rw [step_of_await_some haction hnext] at h
      cases h
  | halt =>
    rw [step_of_halt haction] at h
    cases h
    exact .inr ⟨haction, rfl⟩
  | fault cause =>
    rw [step_of_fault haction] at h
    cases h
    exact .inr ⟨⟨haction, rfl⟩, rfl⟩

theorem standsAt_of_step (h : c.step = (some outcome, c')) (hfinal : outcome.isFinal = true) :
    c'.machine.StandsAt outcome := by
  have hcut : outcome.cutShort = false := by
    cases outcome with
    | halted => rfl
    | fault f => rfl
    | inputNeeded => cases hfinal
    | stopRequested => cases hfinal
    | timeExpired => cases hfinal
  obtain ⟨rfl, -⟩ | ⟨hstands, rfl⟩ := step_cases_of_not_cutShort h hcut
  · cases hfinal
  · exact hstands

/-- A run that ends with a halt or a fault leaves a machine that stands at it. -/
theorem standsAt_of_ends (h : Ends c outcome c') (hfinal : outcome.isFinal = true) :
    c'.machine.StandsAt outcome := by
  induction h with
  | last hlast => exact standsAt_of_step hlast hfinal
  | next _ _ ih => exact ih hfinal

theorem standsAt_of_run {patience : Nat} (h : c.run patience = (outcome, c'))
    (hfinal : outcome.isFinal = true) : c'.machine.StandsAt outcome := by
  have hne : outcome ≠ .timeExpired := by
    rintro rfl
    cases hfinal
  exact standsAt_of_ends (ends_iff_run.2 ⟨hne, patience, h⟩) hfinal

/-- An instruction that faults, halts or finds no input changes nothing: not the machine, not
    the sink, and not the input, which was not asked or had no word to give. A fault names the
    address it happened at.

    Hence halts and faults last. After a run that ended with one of them, any calls, each with
    its own input and sink, leave the machine as it is, and the next call, with whatever input
    and sink, returns the same outcome and changes nothing. -/
theorem stop_changes_nothing_and_lasts :
    (c.step = (some outcome, c') → outcome.cutShort = false →
      c'.machine = c.machine ∧ c'.output = c.output ∧
        (c'.input = c.input ∨
          outcome = .inputNeeded ∧ InputSource.next c.input = (none, c'.input)) ∧
        ∀ f, outcome = .fault f → f.ip = c.machine.ip) ∧
    ((∃ patience, c.run patience = (outcome, c')) → outcome.isFinal = true →
      ∀ m, c'.machine.AfterCalls m → m = c'.machine ∧
        ∀ {κ τ : Type} [InputSource κ] [OutputSink τ] (d : Configuration κ τ), d.machine = m →
          d.step = (some outcome, d) ∧ (∀ patience, d.run patience = (outcome, d)) ∧
            ∀ returned final, Ends d returned final ↔ returned = outcome ∧ final = d) := by
  constructor
  · intro hstep hcut
    obtain ⟨rfl, -, hnext, hc'⟩ | ⟨hstands, rfl⟩ := step_cases_of_not_cutShort hstep hcut
    · have hmachine : c'.machine = c.machine := by rw [hc']
      have houtput : c'.output = c.output := by rw [hc']
      exact ⟨hmachine, houtput, .inr ⟨rfl, hnext⟩, nofun⟩
    · refine ⟨rfl, rfl, .inl rfl, ?_⟩
      rintro f rfl
      exact hstands.2
  · rintro ⟨patience, hrun⟩ hfinal m hcalls
    have hstands := standsAt_of_run hrun hfinal
    have hm := hstands.of_afterCalls hcalls
    refine ⟨hm, ?_⟩
    intro κ τ _ _ d hd
    have hdstands : d.machine.StandsAt outcome := by
      rw [hd, hm]
      exact hstands
    exact ⟨hdstands.step, hdstands.run, fun _ _ => hdstands.ends_iff⟩

/-- Prints a byte, then divides by zero. -/
def printThenDivide : Configuration InputQueue OutputBuffer where
  machine := .ofProgram #[Instruction.assembleStandard 10 0 0 0,
    Instruction.assembleStandard 5 0 0 0, Instruction.assembleStandard 7 0 0 0]
  input := .empty
  output := .empty

/-- Where it comes to a standstill. -/
def divided : Configuration InputQueue OutputBuffer :=
  (printThenDivide.run 5).2

/-- The same machine with input at hand and a sink that stops it after every byte. -/
def dividedAgain : Configuration InputScript OutputBuffer where
  machine := divided.machine
  input := ⟨[some 65]⟩
  output := { stop := .always }

theorem stop_changes_nothing_and_lasts_divided :
    printThenDivide.run 5 = (.fault { cause := .divisionByZero, ip := 1 }, divided) ∧
    divided.output.toList = [0] ∧
    divided.step = (some (.fault { cause := .divisionByZero, ip := 1 }), divided) ∧
    dividedAgain.run 9 = (.fault { cause := .divisionByZero, ip := 1 }, dividedAgain) ∧
    divided.machine.ip = 1 := by
  have hrun : printThenDivide.run 5 = (.fault { cause := .divisionByZero, ip := 1 }, divided) :=
    Prod.ext (by decide) rfl
  obtain ⟨-, hcalls⟩ :=
    stop_changes_nothing_and_lasts.2 ⟨5, hrun⟩ rfl divided.machine .none
  have hstep := (hcalls divided rfl).1
  obtain ⟨-, -, -, hip⟩ := stop_changes_nothing_and_lasts.1 hstep rfl
  exact ⟨hrun, by decide, hstep, (hcalls dividedAgain rfl).2.1 9, (hip _ rfl).symm⟩

end Configuration

end UniversalMachine
