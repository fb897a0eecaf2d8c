/-
  UniversalMachine.Proofs.ScreenStatus

  The full-screen console runs the machine when there is something to run, and only
  then.

  What the console goes by is the outcome of the latest run. Since that run lines may
  have been queued, a state loaded, a command undone; each of these either forgets the
  outcome or leaves the machine as the outcome describes it. `Session.Current` is the
  invariant: a halt or a fault is one that the machine still stands at, and a want of
  input is one that the machine still has, though there may be something to read by
  now. With nothing to read, a run would end where it starts; with something, its first
  instruction completes.
-/

import UniversalMachine.Proofs.PlainOutput
import UniversalMachine.Proofs.ScreenEvents

namespace UniversalMachine

/-! ## Runs that get somewhere -/

namespace Configuration

variable {ι σ : Type} [InputSource ι] [OutputSink σ]

/-- A run completes at least what its first instruction completes. -/
theorem cycles_step_le_run (patience : Nat) (c : Configuration ι σ) :
    c.step.2.machine.cycles ≤ (run patience c).2.machine.cycles := by
  rcases hs : c.step with ⟨_ | outcome, c'⟩
  · cases patience with
    | zero => exact Nat.le_of_eq (by rw [run_zero_of_step_none hs])
    | succ patience =>
      rw [run_succ_of_step_none hs]
      exact run_preserves (P := fun d => c'.machine.cycles ≤ d.machine.cycles)
        (fun d h => Nat.le_trans h d.cycles_le_step) patience c' (Nat.le_refl _)
  · exact Nat.le_of_eq (by rw [run_of_step_some hs])

/-- A machine that asks for input and finds some completes an instruction. -/
theorem cycles_lt_run_of_pending {c : Configuration InputQueue σ} (hawaits : c.machine.Awaits)
    (hpending : c.input.pending ≠ []) (patience : Nat) :
    c.machine.cycles < (run patience c).2.machine.cycles := by
  obtain ⟨target, haction⟩ := hawaits
  obtain ⟨word, rest, hread⟩ := List.exists_cons_of_ne_nil hpending
  have hnext : InputSource.next c.input = (some word, { c.input with pending := rest }) :=
    InputQueue.next_of_pending hread
  have hstep : c.step.2.machine.cycles = c.machine.cycles + 1 := by
    rw [step_of_await_some haction hnext]
    exact Machine.cycles_apply _ _
  have hle := cycles_step_le_run patience c
  omega

end Configuration

namespace Session

/-- The session's machine with its devices. -/
def configuration (s : Session) : Configuration InputQueue OutputBuffer where
  machine := s.machine
  input := s.input
  output := s.transcript

/-- The session after a run that ended with this outcome in this configuration. -/
def conclude (s : Session) (outcome : Outcome) (c : Configuration InputQueue OutputBuffer) :
    Session :=
  { s with
    machine := c.machine
    input := c.input
    transcript := c.output
    lastOutcome := some outcome }

theorem run_eq_conclude (s : Session) (patience : Nat) :
    s.run patience =
      ((s.configuration.run patience).1,
        s.conclude (s.configuration.run patience).1 (s.configuration.run patience).2) := rfl

/-- A session that has returned its latest outcome returns it again and stays as it is. -/
theorem run_again {s : Session} {outcome : Outcome} (hlast : s.lastOutcome = some outcome)
    (hstep : s.configuration.step = (some outcome, s.configuration)) (patience : Nat) :
    s.run patience = (outcome, s) := by
  have hsame : s.conclude outcome s.configuration = s := by
    rw [conclude, ← hlast]
    rfl
  rw [run_eq_conclude, Configuration.run_of_step_some hstep, hsame]

/-! ## Outcomes that still hold -/

/-- What the latest outcome says of the machine is true of the machine as it is now. -/
structure Current (s : Session) : Prop where
  waits : s.lastOutcome = some .inputNeeded → s.machine.Awaits ∧ s.input.closed = false
  stands : ∀ outcome, s.lastOutcome = some outcome → outcome.isFinal = true →
    s.machine.StandsAt outcome

theorem current_of_none {s : Session} (h : s.lastOutcome = none) : s.Current where
  waits hlast := by
    rw [h] at hlast
    cases hlast
  stands outcome hlast := by
    rw [h] at hlast
    cases hlast

/-- A run leaves an outcome that holds. -/
theorem current_run (s : Session) (patience : Nat) : (s.run patience).2.Current where
  waits hlast := by
    have hneeded : (s.run patience).1 = .inputNeeded := Option.some.inj hlast
    have hstarved := starved_of_run hneeded
    exact ⟨hstarved.awaits, hstarved.still_open⟩
  stands outcome hlast hfinal := by
    have houtcome : (s.configuration.run patience).1 = outcome := Option.some.inj hlast
    exact Configuration.standsAt_of_run (Prod.ext houtcome rfl) hfinal

/-- More to read does not make an outcome wrong. -/
theorem Current.submitLine {s : Session} (h : s.Current) (line : String) :
    (s.submitLine line).2.Current := by
  obtain ⟨_, _, hsubmit⟩ := s.exists_submitLine line
  rw [hsubmit]
  exact ⟨h.waits, h.stands⟩

theorem lastOutcome_of_undo? {s u : Session} (h : s.undo? = some u) : u.lastOutcome = none := by
  rw [undo?] at h
  split at h
  · cases h
  · cases h
    rfl

end Session

namespace FullScreen

variable {app : FullScreen}

/-- Whatever happens, the latest outcome still holds. -/
theorem current_of_alters {app' : FullScreen} (h : app.session.Current) (halters : app.Alters app') :
    app'.session.Current := by
  cases halters with
  | neither hsession => rwa [hsession]
  | ran patience => exact app.session.current_run patience
  | drawn width height => exact h
  | submitted line hsession =>
    rw [hsession]
    exact h.submitLine line
  | loaded snapshot hsession =>
    -- the machine is another one, and the outcome of the old one is forgotten
    rw [hsession]
    exact Session.current_of_none rfl
  | undone hundo => exact Session.current_of_none (Session.lastOutcome_of_undo? hundo)

/-- A console that does not run has an outcome that a run would return at once. -/
theorem step_of_not_isRunning (h : app.session.Current) (hidle : app.isRunning = false) :
    ∃ outcome, app.session.lastOutcome = some outcome ∧
      app.session.configuration.step = (some outcome, app.session.configuration) := by
  rw [isRunning] at hidle
  cases hlast : app.session.lastOutcome with
  | none =>
    rw [hlast] at hidle
    cases hidle
  | some outcome =>
    rw [hlast] at hidle
    refine ⟨outcome, rfl, ?_⟩
    cases outcome with
    | timeExpired | stopRequested => cases hidle
    | halted => exact (h.stands _ hlast rfl).step
    | fault f => exact (h.stands _ hlast rfl).step
    | inputNeeded =>
      -- nothing is pending, so the machine is still waiting for a word
      obtain ⟨hawaits, hopen⟩ := h.waits hlast
      have hpending : app.session.input.pending = [] := by
        simpa [Session.hasPendingInput, InputQueue.isEmpty] using hidle
      exact Machine.Starved.step (c := app.session.configuration) ⟨hawaits, hpending, hopen⟩

variable {φ : Type} [FileSystem (StateM φ)]

/-- Whatever keys are pressed, lines submitted, slices run and pictures drawn: if the console
    does not run the machine, then a run, with any deadline or none, would return the latest
    outcome and change nothing; and if it runs a machine that has asked for input, the next
    slice completes an instruction. -/
theorem idle_still_running_progresses (machine : Machine) (limit : Nat) (files : φ)
    (events : List ScreenEvent) :
    let app := ((start (.start machine limit)).play files events).1
    (app.isRunning = false →
      ∃ outcome, app.session.lastOutcome = some outcome ∧
        (∀ patience, app.session.run patience = (outcome, app.session)) ∧
        ∀ returned final, Configuration.Ends app.session.configuration returned final ↔
          returned = outcome ∧ final = app.session.configuration) ∧
    (app.isRunning = true → app.session.lastOutcome = some .inputNeeded →
      ∀ patience, app.session.machine.cycles < (app.runSlice patience).session.machine.cycles) := by
  intro app
  have hcurrent : app.session.Current :=
    play_preserves (P := fun app => app.session.Current) current_of_alters
      (Session.current_of_none rfl) files events
  constructor
  · intro hidle
    obtain ⟨outcome, hlast, hstep⟩ := step_of_not_isRunning hcurrent hidle
    exact ⟨outcome, hlast, Session.run_again hlast hstep,
      fun _ _ => Configuration.ends_iff_of_step_some hstep⟩
  · intro hrunning hlast patience
    have hpending : app.session.input.pending ≠ [] := by
      rw [isRunning, hlast] at hrunning
      simpa [Session.hasPendingInput, InputQueue.isEmpty] using hrunning
    exact Configuration.cycles_lt_run_of_pending (c := app.session.configuration)
      (hcurrent.waits hlast).1 hpending patience

/-- A console on which a machine prints what it reads, after some events. -/
def echoing (events : List ScreenEvent) : FullScreen :=
  ((start (.start Launch.echoer 1000)).play ({} : Disk) events).1

theorem idle_still_running_progresses_echoing :
    (echoing [.slice 9]).isRunning = false ∧
    (∀ patience, (echoing [.slice 9]).session.run patience =
      (.inputNeeded, (echoing [.slice 9]).session)) ∧
    (echoing [.slice 9, .press (.character 'a'), .press .enter]).isRunning = true ∧
    ∀ patience, (echoing [.slice 9, .press (.character 'a'), .press .enter]).session.machine.cycles <
      ((echoing [.slice 9, .press (.character 'a'), .press .enter]).runSlice
        patience).session.machine.cycles := by
  have hidle : (echoing [.slice 9]).isRunning = false := by decide +kernel
  have hlast : (echoing [.slice 9]).session.lastOutcome = some .inputNeeded := by decide +kernel
  obtain ⟨outcome, hlast', hrun, -⟩ :=
    (idle_still_running_progresses Launch.echoer 1000 ({} : Disk) [.slice 9]).1 hidle
  obtain rfl := Option.some.inj (hlast.symm.trans hlast')
  have hrunning : (echoing [.slice 9, .press (.character 'a'), .press .enter]).isRunning = true := by
    decide +kernel
  exact ⟨hidle, hrun, hrunning,
    (idle_still_running_progresses Launch.echoer 1000 ({} : Disk)
      [.slice 9, .press (.character 'a'), .press .enter]).2 hrunning (by decide +kernel)⟩

end FullScreen

end UniversalMachine
