/-
  UniversalMachine.Proofs.Transitions

  What one instruction can do to a configuration, and what follows for runs.

  `Configuration.step` has one equation for each thing the machine can ask for;
  proofs about single instructions split on `Machine.action` and rewrite with the
  equation of the case. `Configuration.Ends` is the run without a deadline, as a
  relation: such a run need not end, and `ends_iff_run` says that when it does, a
  large enough patience ends the same way. What every instruction preserves, a run
  preserves (`run_preserves`, `Ends.preserves`). Devices that are watched give the same
  answers as without, so nothing else changes (`run_mapDevices`, `ends_mapDevices_iff`).
-/

import Mathlib.Logic.Relation
import UniversalMachine.Execution

namespace UniversalMachine

namespace Machine

@[simp]
theorem cycles_advance (m : Machine) : m.advance.cycles = m.cycles + 1 := rfl

/-- An instruction that completes is counted once. -/
@[simp]
theorem cycles_apply (m : Machine) (effect : Effect) :
    (m.apply effect).cycles = m.cycles + 1 := by
  cases effect <;> rfl

end Machine

namespace Configuration

variable {ι σ : Type} [InputSource ι] [OutputSink σ]

/-! ## One instruction -/

theorem step_of_complete {c : Configuration ι σ} {effect : Effect}
    (h : c.machine.action = .complete effect) :
    c.step = (none, { c with machine := c.machine.apply effect }) := by
  rw [step, h]

theorem step_of_emit {c : Configuration ι σ} {byte : UInt8} (h : c.machine.action = .emit byte) :
    c.step =
      (if (OutputSink.emit c.output byte).1 then none else some .stopRequested,
        { c with
          machine := c.machine.advance
          output := (OutputSink.emit c.output byte).2 }) := by
  rw [step, h]

theorem step_of_await_some {c : Configuration ι σ} {target : Selector} {word : Word} {input : ι}
    (h : c.machine.action = .await target) (hnext : InputSource.next c.input = (some word, input)) :
    c.step = (none, { c with machine := c.machine.apply (.assign target word), input }) := by
  simp only [step, h, hnext]

theorem step_of_await_none {c : Configuration ι σ} {target : Selector} {input : ι}
    (h : c.machine.action = .await target) (hnext : InputSource.next c.input = (none, input)) :
    c.step = (some .inputNeeded, { c with input }) := by
  simp only [step, h, hnext]

theorem step_of_halt {c : Configuration ι σ} (h : c.machine.action = .halt) :
    c.step = (some .halted, c) := by
  rw [step, h]

theorem step_of_fault {c : Configuration ι σ} {cause : FaultCause}
    (h : c.machine.action = .fault cause) :
    c.step = (some (.fault { cause, ip := c.machine.ip }), c) := by
  rw [step, h]

/-- The clock is not read within an instruction. -/
theorem step_ne_timeExpired (c : Configuration ι σ) : c.step.1 ≠ some .timeExpired := by
  cases h : c.machine.action with
  | complete effect => simp [step_of_complete h]
  | emit byte =>
    rw [step_of_emit h]
    by_cases hgo : (OutputSink.emit c.output byte).1 <;> simp [hgo]
  | await target =>
    rcases hnext : InputSource.next c.input with ⟨_ | word, input⟩
    · simp [step_of_await_none h hnext]
    · simp [step_of_await_some h hnext]
  | halt => simp [step_of_halt h]
  | fault cause => simp [step_of_fault h]

/-- An instruction leaves the source alone or asks it once. -/
theorem input_step (c : Configuration ι σ) :
    c.step.2.input = c.input ∨ c.step.2.input = (InputSource.next c.input).2 := by
  cases h : c.machine.action with
  | complete effect => exact .inl (by rw [step_of_complete h])
  | emit byte => exact .inl (by rw [step_of_emit h])
  | await target =>
    rcases hnext : InputSource.next c.input with ⟨_ | word, input⟩
    · exact .inr (by rw [step_of_await_none h hnext])
    · exact .inr (by rw [step_of_await_some h hnext])
  | halt => exact .inl (by rw [step_of_halt h])
  | fault cause => exact .inl (by rw [step_of_fault h])

/-- An instruction leaves the sink alone or prints one byte. -/
theorem output_step (c : Configuration ι σ) :
    c.step.2.output = c.output ∨ ∃ byte, c.step.2.output = (OutputSink.emit c.output byte).2 := by
  cases h : c.machine.action with
  | complete effect => exact .inl (by rw [step_of_complete h])
  | emit byte => exact .inr ⟨byte, by rw [step_of_emit h]⟩
  | await target =>
    rcases hnext : InputSource.next c.input with ⟨_ | word, input⟩
    · exact .inl (by rw [step_of_await_none h hnext])
    · exact .inl (by rw [step_of_await_some h hnext])
  | halt => exact .inl (by rw [step_of_halt h])
  | fault cause => exact .inl (by rw [step_of_fault h])

/-! ## Runs -/

/-- What every instruction preserves, a run preserves. -/
theorem run_preserves {P : Configuration ι σ → Prop} (hstep : ∀ c, P c → P c.step.2)
    (patience : Nat) (c : Configuration ι σ) (h : P c) : P (run patience c).2 := by
  induction patience generalizing c with
  | zero =>
    have hc := hstep c h
    rcases hs : c.step with ⟨_ | outcome, c'⟩
    · rw [run_zero_of_step_none hs]
      rwa [hs] at hc
    · rw [run_of_step_some hs]
      rwa [hs] at hc
  | succ patience ih =>
    have hc := hstep c h
    rcases hs : c.step with ⟨_ | outcome, c'⟩
    · rw [run_succ_of_step_none hs]
      rw [hs] at hc
      exact ih c' hc
    · rw [run_of_step_some hs]
      rwa [hs] at hc

/-- A run without a deadline goes on until an instruction ends it. -/
inductive Ends : Configuration ι σ → Outcome → Configuration ι σ → Prop
  | last {c c' : Configuration ι σ} {outcome : Outcome} (h : c.step = (some outcome, c')) :
      Ends c outcome c'
  | next {c c' final : Configuration ι σ} {outcome : Outcome} (h : c.step = (none, c'))
      (rest : Ends c' outcome final) : Ends c outcome final

/-- One configuration is met on the way from another, with nothing having ended the run. -/
def Reaches : Configuration ι σ → Configuration ι σ → Prop :=
  Relation.ReflTransGen fun c c' => c.step = (none, c')

/-- A run without a deadline that ends is a run with a deadline far enough away. -/
theorem ends_iff_run {c final : Configuration ι σ} {outcome : Outcome} :
    Ends c outcome final ↔
      outcome ≠ .timeExpired ∧ ∃ patience, run patience c = (outcome, final) := by
  constructor
  · intro h
    induction h with
    | @last c c' outcome h =>
      refine ⟨?_, 0, run_of_step_some h 0⟩
      rintro rfl
      exact step_ne_timeExpired c (congrArg Prod.fst h)
    | @next c c' final outcome h rest ih =>
      -- one more instruction, so one more reading of the clock
      obtain ⟨hne, patience, hrun⟩ := ih
      exact ⟨hne, patience + 1, (run_succ_of_step_none h patience).trans hrun⟩
  · rintro ⟨hne, patience, hrun⟩
    induction patience generalizing c with
    | zero =>
      rcases hs : c.step with ⟨_ | stopped, c'⟩
      · -- here the clock would have ended the run
        rw [run_zero_of_step_none hs] at hrun
        exact absurd (congrArg Prod.fst hrun).symm hne
      · rw [run_of_step_some hs] at hrun
        obtain ⟨rfl, rfl⟩ := Prod.mk.inj hrun
        exact .last hs
    | succ patience ih =>
      rcases hs : c.step with ⟨_ | stopped, c'⟩
      · rw [run_succ_of_step_none hs] at hrun
        exact .next hs (ih hrun)
      · rw [run_of_step_some hs] at hrun
        obtain ⟨rfl, rfl⟩ := Prod.mk.inj hrun
        exact .last hs

/-- A run whose first instruction ends it. -/
theorem ends_iff_of_step_some {c c' final : Configuration ι σ} {outcome returned : Outcome}
    (h : c.step = (some outcome, c')) :
    Ends c returned final ↔ returned = outcome ∧ final = c' := by
  constructor
  · intro hends
    cases hends with
    | last hlast =>
      rw [h] at hlast
      cases hlast
      exact ⟨rfl, rfl⟩
    | next hnext _ =>
      -- the first instruction ends the run, so there is no next one
      rw [h] at hnext
      cases hnext
  · rintro ⟨rfl, rfl⟩
    exact .last h

/-- A run that ends, ends the same way from every configuration on its way. -/
theorem Ends.of_reaches {c d final : Configuration ι σ} {outcome : Outcome}
    (h : Ends c outcome final) (hreach : Reaches c d) : Ends d outcome final := by
  induction hreach with
  | refl => exact h
  | tail _ hstep ih =>
    -- an instruction has one result, so the run took the step to `d` as well
    cases ih with
    | last hlast => rw [hstep] at hlast; cases hlast
    | next hnext rest =>
      rw [hstep] at hnext
      cases hnext
      exact rest

/-- What every instruction preserves holds where a run without a deadline ends. -/
theorem Ends.preserves {P : Configuration ι σ → Prop} (hstep : ∀ c, P c → P c.step.2)
    {c final : Configuration ι σ} {outcome : Outcome} (hends : Ends c outcome final) (h : P c) :
    P final := by
  obtain ⟨-, patience, hrun⟩ := ends_iff_run.1 hends
  have := run_preserves hstep patience c h
  rwa [hrun] at this

/-! ## What only grows -/

theorem cycles_le_step (c : Configuration ι σ) : c.machine.cycles ≤ c.step.2.machine.cycles := by
  cases h : c.machine.action with
  | complete effect => simp [step_of_complete h]
  | emit byte => simp [step_of_emit h]
  | await target =>
    rcases hnext : InputSource.next c.input with ⟨_ | word, input⟩
    · simp [step_of_await_none h hnext]
    · simp [step_of_await_some h hnext]
  | halt => simp [step_of_halt h]
  | fault cause => simp [step_of_fault h]

/-- A buffer keeps what was printed and prints behind it. -/
theorem printed_prefix_step (c : Configuration ι OutputBuffer) :
    c.output.toList <+: c.step.2.output.toList := by
  rcases c.output_step with hkept | ⟨byte, hprinted⟩
  · exact hkept ▸ List.prefix_refl _
  · rw [hprinted]
    exact ⟨[byte], (c.output.toList_emit byte).symm⟩

theorem printed_prefix_run (patience : Nat) (c : Configuration ι OutputBuffer) :
    c.output.toList <+: (run patience c).2.output.toList :=
  run_preserves (P := fun d => c.output.toList <+: d.output.toList)
    (fun d h => h.trans d.printed_prefix_step) patience c (List.prefix_refl _)

end Configuration

/-! ## Watching a sink -/

/-- Passes bytes on to a sink and keeps them. -/
structure Tap (σ : Type) where
  sink : σ
  emitted : Bytes

instance {σ : Type} [OutputSink σ] : OutputSink (Tap σ) where
  emit tap byte :=
    let (go, sink) := OutputSink.emit tap.sink byte
    (go, { sink, emitted := tap.emitted ++ [byte] })

/-! ## Seeing through devices -/

/-- Devices that give the same answers as the devices seen through them. -/
structure Transparent {ι ι' σ σ' : Type} [InputSource ι] [InputSource ι'] [OutputSink σ]
    [OutputSink σ'] (f : ι → ι') (g : σ → σ') : Prop where
  next (input : ι) :
    InputSource.next (f input) = ((InputSource.next input).1, f (InputSource.next input).2)
  emit (output : σ) (byte : UInt8) :
    OutputSink.emit (g output) byte =
      ((OutputSink.emit output byte).1, g (OutputSink.emit output byte).2)

/-- A sink answers as it does when it is watched. -/
theorem transparent_tap {ι σ : Type} [InputSource ι] [OutputSink σ] :
    Transparent (id : ι → ι) (Tap.sink : Tap σ → σ) :=
  ⟨fun _ => rfl, fun _ _ => rfl⟩

namespace Configuration

variable {ι ι' σ σ' : Type}

/-- The configuration with its devices seen through. -/
def mapDevices (f : ι → ι') (g : σ → σ') (c : Configuration ι σ) : Configuration ι' σ' where
  machine := c.machine
  input := f c.input
  output := g c.output

variable [InputSource ι] [InputSource ι'] [OutputSink σ] [OutputSink σ'] {f : ι → ι'} {g : σ → σ'}

theorem step_mapDevices (h : Transparent f g) (c : Configuration ι σ) :
    (c.mapDevices f g).step = (c.step.1, c.step.2.mapDevices f g) := by
  cases haction : c.machine.action with
  | complete effect =>
    rw [step_of_complete haction, step_of_complete (c := c.mapDevices f g) haction]
    rfl
  | emit byte =>
    have hemit : OutputSink.emit (c.mapDevices f g).output byte = _ := h.emit c.output byte
    rw [step_of_emit haction, step_of_emit (c := c.mapDevices f g) haction, hemit]
    rfl
  | await target =>
    have hasked := h.next c.input
    rcases hnext : InputSource.next c.input with ⟨_ | word, input⟩
    · rw [hnext] at hasked
      rw [step_of_await_none haction hnext,
        step_of_await_none (c := c.mapDevices f g) haction hasked]
      rfl
    · rw [hnext] at hasked
      rw [step_of_await_some haction hnext,
        step_of_await_some (c := c.mapDevices f g) haction hasked]
      rfl
  | halt => rw [step_of_halt haction, step_of_halt (c := c.mapDevices f g) haction]
  | fault cause =>
    rw [step_of_fault haction, step_of_fault (c := c.mapDevices f g) haction]
    rfl

/-- Runs do not depend on whether devices are seen through. -/
theorem run_mapDevices (h : Transparent f g) (patience : Nat) (c : Configuration ι σ) :
    (c.mapDevices f g).run patience =
      ((c.run patience).1, (c.run patience).2.mapDevices f g) := by
  induction patience generalizing c with
  | zero =>
    have hstep := step_mapDevices h c
    rcases hs : c.step with ⟨_ | outcome, c'⟩
    · rw [hs] at hstep
      rw [run_zero_of_step_none hs, run_zero_of_step_none hstep]
    · rw [hs] at hstep
      rw [run_of_step_some hs, run_of_step_some hstep]
  | succ patience ih =>
    have hstep := step_mapDevices h c
    rcases hs : c.step with ⟨_ | outcome, c'⟩
    · rw [hs] at hstep
      rw [run_succ_of_step_none hs, run_succ_of_step_none hstep]
      exact ih c'
    · rw [hs] at hstep
      rw [run_of_step_some hs, run_of_step_some hstep]

theorem ends_mapDevices_iff (h : Transparent f g) {c : Configuration ι σ}
    {d : Configuration ι' σ'} {outcome : Outcome} :
    Ends (c.mapDevices f g) outcome d ↔
      ∃ final, Ends c outcome final ∧ final.mapDevices f g = d := by
  rw [ends_iff_run]
  constructor
  · rintro ⟨hne, patience, hrun⟩
    rw [run_mapDevices h] at hrun
    obtain ⟨houtcome, hd⟩ := Prod.mk.inj hrun
    exact ⟨_, ends_iff_run.2 ⟨hne, patience, Prod.ext houtcome rfl⟩, hd⟩
  · rintro ⟨final, hends, rfl⟩
    obtain ⟨hne, patience, hrun⟩ := ends_iff_run.1 hends
    refine ⟨hne, patience, ?_⟩
    rw [run_mapDevices h, hrun]

end Configuration

end UniversalMachine
