/-
  UniversalMachine.Proofs.Settling

  Running a session to its end, in one go or in slices.

  `Session.Concludes` is the session that a run without a deadline leaves. There is at
  most one, and a run that only the clock cut short is on the way to it
  (`concludes_run_iff`). The full-screen console runs its machine slice by slice for as
  long as it has work to do (`FullScreen.Settles`). Whatever the slices are, it settles in
  the session that its own session concludes in: the clock loses nothing, the transcript
  never asks to stop, and any other end of a run is one that the console rests at.
-/

import UniversalMachine.Proofs.ScreenStatus

namespace UniversalMachine

namespace Configuration

variable {ι σ : Type} [InputSource ι] [OutputSink σ] {c d : Configuration ι σ}

/-! ## Runs to the end -/

/-- A run has one end. -/
theorem Ends.unique {first second : Outcome} {c₁ c₂ : Configuration ι σ}
    (h₁ : Ends c first c₁) (h₂ : Ends c second c₂) : first = second ∧ c₁ = c₂ := by
  induction h₁ with
  | last hlast => exact ((ends_iff_of_step_some hlast).1 h₂).imp Eq.symm Eq.symm
  | next hnext _ ih => exact ih (h₂.of_reaches (.single hnext))

/-- From where a run has got to, it ends as it does from the start. -/
theorem Reaches.ends_iff (h : Reaches c d) {outcome : Outcome} {final : Configuration ι σ} :
    Ends d outcome final ↔ Ends c outcome final := by
  refine ⟨fun hends => ?_, fun hends => hends.of_reaches h⟩
  induction h with
  | refl => exact hends
  | tail _ hstep ih => exact ih (.next hstep hends)

theorem reaches_run {patience : Nat} (h : (run patience c).1 = .timeExpired) :
    Reaches c (run patience c).2 := by
  induction patience generalizing c with
  | zero =>
    rcases hs : c.step with ⟨_ | outcome, c'⟩
    · rw [run_zero_of_step_none hs]
      exact .single hs
    · rw [run_of_step_some hs] at h
      cases h
      exact absurd (congrArg Prod.fst hs) c.step_ne_timeExpired
  | succ patience ih =>
    rcases hs : c.step with ⟨_ | outcome, c'⟩
    · rw [run_succ_of_step_none hs] at h ⊢
      exact .head hs (ih h)
    · rw [run_of_step_some hs] at h
      cases h
      exact absurd (congrArg Prod.fst hs) c.step_ne_timeExpired

/-! ## Sinks that never ask to stop -/

theorem stop_step (c : Configuration ι OutputBuffer) : c.step.2.output.stop = c.output.stop := by
  rcases c.output_step with hkept | ⟨byte, hprinted⟩
  · rw [hkept]
  · rw [hprinted]
    rfl

theorem step_ne_stopRequested {c : Configuration ι OutputBuffer} (h : c.output.stop = .never) :
    c.step.1 ≠ some .stopRequested := by
  cases haction : c.machine.action with
  | complete effect => simp [step_of_complete haction]
  | emit byte => simp [step_of_emit haction, OutputSink.emit, OutputBuffer.emit, h, StopRule.stops]
  | await target =>
    rcases hnext : InputSource.next c.input with ⟨_ | word, input⟩
    · simp [step_of_await_none haction hnext]
    · simp [step_of_await_some haction hnext]
  | halt => simp [step_of_halt haction]
  | fault cause => simp [step_of_fault haction]

theorem Ends.ne_stopRequested {c final : Configuration ι OutputBuffer} {outcome : Outcome}
    (hends : Ends c outcome final) (h : c.output.stop = .never) : outcome ≠ .stopRequested := by
  induction hends with
  | last hlast =>
    have hne := step_ne_stopRequested h
    rw [hlast] at hne
    exact fun heq => hne (congrArg some heq)
  | @next c c' _ _ hnext _ ih =>
    have hstop := c.stop_step
    rw [hnext] at hstop
    exact ih (hstop.trans h)

end Configuration

namespace Session

variable {s t : Session}

/-- A run without a deadline leaves this session. -/
def Concludes (s t : Session) : Prop :=
  ∃ outcome final, s.configuration.Ends outcome final ∧ t = s.conclude outcome final

/-- The transcript never asks the machine to stop. -/
def Willing (s : Session) : Prop :=
  s.transcript.stop = .never

theorem Concludes.unique {t₁ t₂ : Session} (h₁ : s.Concludes t₁) (h₂ : s.Concludes t₂) :
    t₁ = t₂ := by
  obtain ⟨outcome₁, final₁, hends₁, rfl⟩ := h₁
  obtain ⟨outcome₂, final₂, hends₂, rfl⟩ := h₂
  obtain ⟨rfl, rfl⟩ := hends₁.unique hends₂
  rfl

/-- A run that is not cut short by the clock leaves the session in its conclusion. -/
theorem concludes_run {patience : Nat} (h : (s.run patience).1 ≠ .timeExpired) :
    s.Concludes (s.run patience).2 :=
  ⟨(s.configuration.run patience).1, (s.configuration.run patience).2,
    Configuration.ends_iff_run.2 ⟨h, patience, rfl⟩, rfl⟩

/-- The clock does not change what a session concludes in. -/
theorem concludes_run_iff {patience : Nat} (h : (s.run patience).1 = .timeExpired) :
    (s.run patience).2.Concludes t ↔ s.Concludes t := by
  have hreach : s.configuration.Reaches (s.run patience).2.configuration :=
    Configuration.reaches_run h
  constructor
  · rintro ⟨outcome, final, hends, rfl⟩
    exact ⟨outcome, final, hreach.ends_iff.1 hends, rfl⟩
  · rintro ⟨outcome, final, hends, rfl⟩
    exact ⟨outcome, final, hreach.ends_iff.2 hends, rfl⟩

/-- A session that would return its latest outcome at once is its own conclusion. -/
theorem concludes_self {outcome : Outcome} (hlast : s.lastOutcome = some outcome)
    (hstep : s.configuration.step = (some outcome, s.configuration)) : s.Concludes s := by
  refine ⟨outcome, s.configuration, .last hstep, ?_⟩
  rw [conclude, ← hlast]
  rfl

theorem Willing.run_ne_stopRequested (h : s.Willing) (patience : Nat) :
    (s.run patience).1 ≠ .stopRequested := by
  intro hstopped
  have hends : s.configuration.Ends .stopRequested (s.configuration.run patience).2 :=
    Configuration.ends_iff_run.2 ⟨nofun, patience, Prod.ext hstopped rfl⟩
  exact hends.ne_stopRequested h rfl

theorem Willing.cutShort_run (h : s.Willing) {patience : Nat}
    (hclock : (s.run patience).1 ≠ .timeExpired) : (s.run patience).1.cutShort = false := by
  have hstop := h.run_ne_stopRequested patience
  cases houtcome : (s.run patience).1 with
  | timeExpired => exact absurd houtcome hclock
  | stopRequested => exact absurd houtcome hstop
  | halted | inputNeeded | fault f => rfl

theorem willing_invariant : Invariant Willing where
  run {s} h patience :=
    Configuration.run_preserves
      (P := fun c : Configuration InputQueue OutputBuffer => c.output.stop = .never)
      (fun c hc => c.stop_step.trans hc) patience s.configuration h
  setInput h _ := h
  setReplyStart h _ := h
  tryCheckpoint {s} h := by
    show s.tryCheckpoint.2.transcript.stop = .never
    rwa [s.transcript_tryCheckpoint]
  undo {s u} h hundo := by
    rw [undo?] at hundo
    split at hundo
    · cases hundo
    · cases hundo
      unfold Willing
      dsimp only
      split
      · exact h
      · exact h
  restore h _ := h

end Session

/-! ## Slices -/

namespace FullScreen

/-- The console runs slices, of whatever length, until it has no work to do. -/
inductive Settles : FullScreen → FullScreen → Prop
  | idle {app : FullScreen} (h : app.isRunning = false) : Settles app app
  | slice {app app' : FullScreen} (h : app.isRunning = true) (patience : Nat)
      (rest : Settles (app.runSlice patience) app') : Settles app app'

variable {app : FullScreen} {t : Session}

/-- The console rests after a run that was not cut short. -/
theorem isRunning_runSlice {patience : Nat}
    (h : (app.session.run patience).1.cutShort = false) :
    (app.runSlice patience).isRunning = false := by
  have hlast : (app.runSlice patience).session.lastOutcome =
      some (app.session.run patience).1 := rfl
  rw [isRunning, hlast]
  cases houtcome : (app.session.run patience).1 with
  | halted | fault f => rfl
  | inputNeeded =>
    -- there was nothing left to read
    have hpending := (Session.starved_of_run houtcome).nothing_pending
    show (!(app.session.run patience).2.input.isEmpty) = false
    rw [InputQueue.isEmpty, hpending]
    rfl
  | timeExpired | stopRequested =>
    rw [houtcome] at h
    cases h

theorem Settles.current {app' : FullScreen} (h : app.Settles app')
    (hcurrent : app.session.Current) : app'.session.Current := by
  induction h with
  | idle _ => exact hcurrent
  | @slice app _ _ patience _ ih => exact ih (app.session.current_run patience)

theorem Settles.willing {app' : FullScreen} (h : app.Settles app')
    (hwilling : app.session.Willing) : app'.session.Willing := by
  induction h with
  | idle _ => exact hwilling
  | slice _ patience _ ih => exact ih (Session.willing_invariant.run hwilling patience)

/-- However the time is cut into slices, the console settles where its session concludes. -/
theorem Settles.session_eq {app' : FullScreen} (h : app.Settles app')
    (hcurrent : app.session.Current) (hwilling : app.session.Willing)
    (ht : app.session.Concludes t) : app'.session = t := by
  induction h with
  | idle hidle =>
    obtain ⟨outcome, hlast, hstep⟩ := step_of_not_isRunning hcurrent hidle
    exact (Session.concludes_self hlast hstep).unique ht
  | @slice app _ _ patience _ ih =>
    have hcurrent' : (app.runSlice patience).session.Current := app.session.current_run patience
    refine ih hcurrent' (Session.willing_invariant.run hwilling patience) ?_
    show (app.session.run patience).2.Concludes t
    by_cases hcut : (app.session.run patience).1 = .timeExpired
    · exact (Session.concludes_run_iff hcut).2 ht
    · -- the slice has come to the conclusion, which concludes in itself
      obtain rfl := (Session.concludes_run hcut).unique ht
      obtain ⟨outcome, hlast, hstep⟩ :=
        step_of_not_isRunning hcurrent' (isRunning_runSlice (hwilling.cutShort_run hcut))
      exact Session.concludes_self hlast hstep

/-- A session that concludes can be settled. -/
theorem exists_settles (hwilling : app.session.Willing) (ht : app.session.Concludes t) :
    ∃ app', app.Settles app' := by
  obtain ⟨outcome, final, hends, -⟩ := ht
  obtain ⟨hne, patience, hrun⟩ := Configuration.ends_iff_run.1 hends
  have hcut : (app.session.run patience).1 ≠ .timeExpired := by
    show (app.session.configuration.run patience).1 ≠ .timeExpired
    rwa [hrun]
  cases hidle : app.isRunning with
  | false => exact ⟨app, .idle hidle⟩
  | true =>
    exact ⟨app.runSlice patience, .slice hidle patience
      (.idle (isRunning_runSlice (hwilling.cutShort_run hcut)))⟩

end FullScreen

end UniversalMachine
