/-
  UniversalMachine.Execution

  Running a machine between an input source and an output sink.

  A run carries out instructions until one of them ends it or the clock does. The
  clock is read after every completed instruction, and all that matters about it
  is how many of these readings find time left: this number is the run's
  `patience`. With patience 0 the deadline has passed already, and a run
  completes at most one instruction. To run without a deadline is to run with a
  patience that is large enough for an instruction to end the run.
-/

import UniversalMachine.Device.Input
import UniversalMachine.Device.Output
import UniversalMachine.Machine

namespace UniversalMachine

/-- Why a run returned. -/
inductive Outcome where
  /-- The program has ended. -/
  | halted
  /-- An input instruction found no word; it is tried again when the run resumes. -/
  | inputNeeded
  /-- The sink asked to stop; the byte has been delivered. -/
  | stopRequested
  /-- The deadline passed between two instructions. -/
  | timeExpired
  /-- An instruction could not be carried out. -/
  | fault (fault : Fault)
  deriving DecidableEq, Repr

/-- A machine and its two devices. -/
structure Configuration (ι σ : Type) where
  machine : Machine
  input : ι
  output : σ

namespace Configuration

variable {ι σ : Type} [InputSource ι] [OutputSink σ]

/-- Carries out one instruction. `none` means that the machine simply carries on. -/
def step : Configuration ι σ → Option Outcome × Configuration ι σ
  | { machine, input, output } =>
    match machine.action with
    | .complete effect => (none, { machine := machine.apply effect, input, output })
    | .emit byte =>
      let (go, output) := OutputSink.emit output byte
      (if go then none else some .stopRequested, { machine := machine.advance, input, output })
    | .await target =>
      match InputSource.next input with
      | (some word, input) =>
        (none, { machine := machine.apply (.assign target word), input, output })
      | (none, input) => (some .inputNeeded, { machine, input, output })
    | .halt => (some .halted, { machine, input, output })
    | .fault cause =>
      (some (.fault { cause, ip := machine.ip }), { machine, input, output })

/-- Carries out instructions until one ends the run or the clock has been found
    expired; `patience` readings of the clock find time left. -/
def run : (patience : Nat) → Configuration ι σ → Outcome × Configuration ι σ
  | patience, c =>
    match c.step with
    | (some outcome, c) => (outcome, c)
    | (none, c) =>
      match patience with
      | 0 => (.timeExpired, c)
      | patience + 1 => run patience c

theorem run_of_step_some {c c' : Configuration ι σ} {outcome : Outcome}
    (h : c.step = (some outcome, c')) (patience : Nat) : run patience c = (outcome, c') := by
  rw [run, h]

theorem run_zero_of_step_none {c c' : Configuration ι σ} (h : c.step = (none, c')) :
    run 0 c = (.timeExpired, c') := by
  rw [run, h]

theorem run_succ_of_step_none {c c' : Configuration ι σ} (h : c.step = (none, c'))
    (patience : Nat) : run (patience + 1) c = run patience c' := by
  rw [run, h]

/-- Carries out up to `count` instructions, stopping at the first that ends a run. -/
def steps : (count : Nat) → Configuration ι σ → Option Outcome × Configuration ι σ
  | 0, c => (none, c)
  | count + 1, c =>
    match c.step with
    | (some outcome, c) => (some outcome, c)
    | (none, c) => steps count c

end Configuration

end UniversalMachine
