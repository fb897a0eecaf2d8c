/-
  UniversalMachine.Proofs.CommandReply

  What a command is answered.

  A command is a run of the machine to its end, on what was queued before and on the line
  itself (`Session.execute_cases`, `Willing.ends_settle`). Both devices of that run can be
  watched without changing it (`Session.observing`): a tap keeps the bytes that are
  printed, a meter keeps the words that are read. The reply is cut out of the transcript
  at a position that the session stores; since every line stores it anew, what stands
  behind it is what went through the tap. What went through the meter is a beginning of
  what was queued, and the rest is still there (`InputQueue.Consumed`).
-/

import UniversalMachine.Proofs.Settling

namespace UniversalMachine

/-! ## Watching a source -/

/-- Passes words on from a source and keeps them. -/
structure Meter (ι : Type) where
  source : ι
  taken : List Word

instance {ι : Type} [InputSource ι] : InputSource (Meter ι) where
  next meter :=
    let (word, source) := InputSource.next meter.source
    (word, { source, taken := meter.taken ++ word.toList })

/-- Watching both devices does not change what they answer. -/
theorem transparent_watches {ι σ : Type} [InputSource ι] [OutputSink σ] :
    Transparent (Meter.source : Meter ι → ι) (Tap.sink : Tap σ → σ) :=
  ⟨fun _ => rfl, fun _ _ => rfl⟩

namespace InputQueue

variable {q rest : InputQueue} {taken : List Word}

/-- What has been taken from a queue, and what is left of it. -/
inductive Consumed (q : InputQueue) : List Word → InputQueue → Prop
  | reading {read left : List Word} (h : q.pending = read ++ left) :
      Consumed q read { q with pending := left }
  /-- Behind everything that was pending, the end of input was read. -/
  | exhausted (h : q.closed = true) (count : Nat) :
      Consumed q (q.pending ++ List.replicate count endOfInput) { q with pending := [] }

theorem consumed_refl (q : InputQueue) : q.Consumed [] q :=
  .reading rfl

/-- Asking for the next word takes it from what is left. -/
theorem Consumed.next (h : q.Consumed taken rest) :
    q.Consumed (taken ++ rest.next.1.toList) rest.next.2 := by
  cases h with
  | @reading _ left h =>
    cases left with
    | cons word left =>
      refine .reading ?_
      rw [h, List.append_assoc]
      rfl
    | nil =>
      -- everything has been read, and only a closed queue answers
      obtain ⟨pending, closed⟩ := q
      obtain rfl : pending = taken := h.trans (List.append_nil _)
      cases closed with
      | true => exact .exhausted rfl 1
      | false => exact .reading (by simp [InputQueue.next])
  | exhausted h count =>
    obtain ⟨pending, closed⟩ := q
    obtain rfl : closed = true := h
    have hend := Consumed.exhausted (q := ⟨pending, true⟩) rfl (count + 1)
    rwa [List.replicate_succ', ← List.append_assoc] at hend

/-- A queue that is open and has nothing left has given everything that was pending. -/
theorem Consumed.taken_eq (h : q.Consumed taken rest) (hpending : rest.pending = [])
    (hopen : rest.closed = false) : taken = q.pending := by
  cases h with
  | reading h =>
    obtain rfl := hpending
    rw [h, List.append_nil]
  | exhausted h _ =>
    rw [show q.closed = false from hopen] at h
    cases h

end InputQueue

namespace Configuration

theorem consumed_step {σ : Type} [OutputSink σ] {q : InputQueue}
    (c : Configuration (Meter InputQueue) σ) (h : q.Consumed c.input.taken c.input.source) :
    q.Consumed c.step.2.input.taken c.step.2.input.source := by
  rcases c.input_step with hinput | hinput
  · rwa [hinput]
  · rw [hinput]
    exact h.next

end Configuration

namespace Session

variable {s t : Session} {patience rounds : Nat} {line : String}

/-! ## A command is one run -/

/-- Settling is a run without a deadline, as long as the transcript never asks to stop. -/
theorem Willing.ends_settle (h : s.Willing)
    (hclock : (s.settle patience rounds).1 ≠ .timeExpired) :
    ∃ final, s.configuration.Ends (s.settle patience rounds).1 final ∧
      (s.settle patience rounds).2 = s.conclude (s.settle patience rounds).1 final := by
  induction rounds generalizing s with
  | zero =>
    exact ⟨_, Configuration.ends_iff_run.2 ⟨hclock, patience, rfl⟩, rfl⟩
  | succ rounds ih =>
    have hstop := h.run_ne_stopRequested patience
    rcases hrun : s.run patience with ⟨outcome, s'⟩
    have hends (hne : outcome ≠ .timeExpired) :
        ∃ final, s.configuration.Ends outcome final ∧ s' = s.conclude outcome final := by
      obtain ⟨rfl, rfl⟩ := Prod.mk.inj hrun
      exact ⟨_, Configuration.ends_iff_run.2 ⟨hne, patience, rfl⟩, rfl⟩
    rw [settle, hrun] at hclock ⊢
    rw [hrun] at hstop
    cases outcome with
    | stopRequested => exact absurd rfl hstop
    | halted => exact hends (by simp)
    | inputNeeded => exact hends (by simp)
    | fault f => exact hends (by simp)
    | timeExpired =>
      -- the clock has only interrupted the run
      have hclocked : (s.run patience).1 = .timeExpired := congrArg Prod.fst hrun
      obtain rfl : (s.run patience).2 = s' := congrArg Prod.snd hrun
      obtain ⟨final, hends, hconclude⟩ := ih (willing_invariant.run h patience) hclock
      exact ⟨final, (Configuration.reaches_run hclocked).ends_iff.1 hends, hconclude⟩

/-- What a command that returns has done. -/
theorem execute_cases {result : Except Fault Reply}
    (h : s.execute patience rounds line = (some result, t)) :
    ∃ outcome, (s.submitLine line).2.settle patience rounds = (outcome, t) ∧
      ((outcome = .inputNeeded ∨ outcome = .halted) ∧
          result = .ok
            { outcome, text := t.replyText, undoAvailable := s.tryCheckpoint.1 matches .ok () } ∨
        ∃ f, outcome = .fault f ∧ result = .error f) := by
  rcases hsettle : (s.submitLine line).2.settle patience rounds with ⟨outcome, t'⟩
  rw [execute] at h
  rcases hsubmit : s.submitLine line with ⟨kept, s₁⟩
  obtain rfl : s.tryCheckpoint.1 = kept := congrArg Prod.fst hsubmit
  rw [hsubmit] at h hsettle
  dsimp only at h hsettle
  rw [hsettle] at h
  obtain ⟨hresult, rfl⟩ := Prod.mk.inj h
  refine ⟨outcome, rfl, ?_⟩
  cases outcome with
  | inputNeeded => exact .inl ⟨.inl rfl, (Option.some.inj hresult).symm⟩
  | halted => exact .inl ⟨.inr rfl, (Option.some.inj hresult).symm⟩
  | fault f => exact .inr ⟨f, rfl, (Option.some.inj hresult).symm⟩
  | stopRequested => cases hresult
  | timeExpired => cases hresult

/-! ## What a command reads and prints -/

/-- The machine with the line in its queue, both devices being watched. -/
def observing (s : Session) (line : String) :
    Configuration (Meter InputQueue) (Tap OutputBuffer) where
  machine := s.machine
  input := { source := s.input.pushLine line, taken := [] }
  output := { sink := s.transcript, emitted := [] }

theorem printed_of_observing {outcome : Outcome}
    {final : Configuration (Meter InputQueue) (Tap OutputBuffer)}
    (h : (s.observing line).Ends outcome final) :
    final.output.sink.toList = s.transcript.toList ++ final.output.emitted :=
  h.preserves (P := fun c => c.output.sink.toList = s.transcript.toList ++ c.output.emitted)
    (fun c => c.toList_sink_step) (List.append_nil _).symm

theorem consumed_of_observing {outcome : Outcome}
    {final : Configuration (Meter InputQueue) (Tap OutputBuffer)}
    (h : (s.observing line).Ends outcome final) :
    (s.input.pushLine line).Consumed final.input.taken final.input.source :=
  h.preserves (P := fun c => (s.input.pushLine line).Consumed c.input.taken c.input.source)
    (fun c => c.consumed_step) (InputQueue.consumed_refl _)

theorem Reached.willing (h : s.Reached) : s.Willing := by
  obtain ⟨φ, _, files, machine, limit, ops, -, rfl⟩ := h
  have hstart : (start machine limit).Willing := rfl
  exact willing_invariant.operateAll hstart files ops

/-- A command that returns has run the machine to its end. -/
theorem exists_observing (hwilling : s.Willing) {result : Except Fault Reply}
    (h : s.execute patience rounds line = (some result, t)) :
    ∃ outcome final, (s.observing line).Ends outcome final ∧
      t.machine = final.machine ∧ t.input = final.input.source ∧
      t.transcript = final.output.sink ∧ t.lastOutcome = some outcome ∧
      t.replyStart = s.transcript.size ∧
      ((outcome = .inputNeeded ∨ outcome = .halted) ∧
          result = .ok
            { outcome, text := t.replyText, undoAvailable := s.tryCheckpoint.1 matches .ok () } ∨
        ∃ f, outcome = .fault f ∧ result = .error f) := by
  obtain ⟨outcome, hsettle, hcases⟩ := execute_cases h
  obtain ⟨history, marks, hsubmit⟩ := s.exists_submitLine line
  have hclock : ((s.submitLine line).2.settle patience rounds).1 ≠ .timeExpired := by
    rw [hsettle]
    obtain ⟨rfl | rfl, -⟩ | ⟨f, rfl, -⟩ := hcases <;> nofun
  obtain ⟨final, hends, hconclude⟩ :=
    (willing_invariant.submitLine hwilling line).ends_settle hclock
  rw [hsettle, hsubmit] at hends hconclude
  obtain ⟨watched, hwatched, rfl⟩ :=
    (Configuration.ends_mapDevices_iff transparent_watches (c := s.observing line)).1 hends
  dsimp only at hconclude
  subst hconclude
  exact ⟨outcome, watched, hwatched, rfl, rfl, rfl, rfl, rfl, hcases⟩

/-- A command is answered with what it printed. The transcript grows by what the machine emits
    in the run that the line starts, and the reply is the text of just that. A machine that
    wants input has read all there was; one that has faulted left the rest in the queue. -/
theorem reply_is_what_was_printed {result : Except Fault Reply} (hreached : s.Reached)
    (hexecute : s.execute patience rounds line = (some result, t)) :
    ∃ outcome final, (s.observing line).Ends outcome final ∧
      -- the session has come to where this run ends
      t.machine = final.machine ∧ t.input = final.input.source ∧
      t.transcript = final.output.sink ∧ t.lastOutcome = some outcome ∧
      t.transcript.toList = s.transcript.toList ++ final.output.emitted ∧
      (∀ reply, result = .ok reply →
        reply.text = Text.ofBytes final.output.emitted ∧
        reply.outcome = outcome ∧ (outcome = .inputNeeded ∨ outcome = .halted) ∧
        (reply.undoAvailable = true ↔ s.machine.capture.estimatedSize ≤ s.history.limit) ∧
        (outcome = .inputNeeded →
          final.input.taken =
            s.input.pending ++ (InputQueue.lineBytes line).map UInt8.toUInt32 ∧
          t.input = { pending := [], closed := false })) ∧
      ∀ f, result = .error f →
        t.lastOutcome = some (.fault f) ∧
        (s.input.pushLine line).Consumed final.input.taken t.input := by
  have hwilling : s.Willing := hreached.willing
  obtain ⟨outcome, final, hends, hmachine, hinput, htranscript, hlast, hstart, hcases⟩ :=
    exists_observing hwilling hexecute
  have hprinted : t.transcript.toList = s.transcript.toList ++ final.output.emitted := by
    rw [htranscript]
    exact printed_of_observing hends
  have hconsumed : (s.input.pushLine line).Consumed final.input.taken t.input := by
    rw [hinput]
    exact consumed_of_observing hends
  refine ⟨outcome, final, hends, hmachine, hinput, htranscript, hlast, hprinted, ?_, ?_⟩
  · rintro reply rfl
    obtain ⟨houtcome, hreply⟩ | ⟨f, -, hfault⟩ := hcases
    · obtain rfl := Except.ok.inj hreply
      refine ⟨?_, rfl, houtcome, s.tryCheckpoint_kept_iff, ?_⟩
      · -- the reply starts where the transcript ended before the command
        show Text.ofBytes (t.transcript.toList.drop t.replyStart) = _
        rw [hstart, hprinted, ← OutputBuffer.length_toList, List.drop_left]
      · rintro rfl
        have hstarved := Configuration.starved_of_ends
          ((Configuration.ends_mapDevices_iff transparent_watches).2 ⟨final, hends, rfl⟩) rfl
        have hpending : t.input.pending = [] := hinput ▸ hstarved.nothing_pending
        have hopen : t.input.closed = false := hinput ▸ hstarved.still_open
        refine ⟨hconsumed.taken_eq hpending hopen, ?_⟩
        rw [← hpending, ← hopen]
    · cases hfault
  · rintro f rfl
    obtain ⟨-, hreply⟩ | ⟨f', rfl, hfault⟩ := hcases
    · cases hreply
    · cases hfault
      exact ⟨hlast, hconsumed⟩

/-- A session in which a command was undone and a line is still to be read. -/
def leftover : Session :=
  ((start Launch.echoer 1000).operateAll ({} : Disk)
    [.run 9, .execute 20 0 "x", .undo, .sendLine "a"]).2.1

/-- A session with a machine that divides by zero after the first word. -/
def dividing : Session :=
  start (.ofProgram #[Instruction.assembleStandard 11 0 0 1,
    Instruction.assembleStandard 5 0 1 2]) 1000

theorem reply_is_what_was_printed_leftover :
    leftover.Reached ∧
    (∃ t final, leftover.execute 99 0 "b" =
        (some (.ok { outcome := .inputNeeded, text := "a\nb\n", undoAvailable := true }), t) ∧
      (leftover.observing "b").Ends .inputNeeded final ∧
      final.input.taken = [97, 10, 98, 10] ∧ t.input = { pending := [], closed := false }) ∧
    dividing.Reached ∧
    ∃ t final, dividing.execute 99 0 "b" =
        (some (.error { cause := .divisionByZero, ip := 1 }), t) ∧
      (dividing.observing "b").Ends (.fault { cause := .divisionByZero, ip := 1 }) final ∧
      (dividing.input.pushLine "b").Consumed final.input.taken t.input ∧
      t.input.pending = [10] := by
  have hleftover : leftover.Reached :=
    ⟨Disk, inferInstance, {}, Launch.echoer, 1000, _, .ofProgram _, rfl⟩
  have hdividing : dividing.Reached :=
    ⟨Disk, inferInstance, {}, dividing.machine, 1000, [], .ofProgram _, rfl⟩
  refine ⟨hleftover, ?_, hdividing, ?_⟩
  · have hexecute : leftover.execute 99 0 "b" =
        (some (.ok { outcome := .inputNeeded, text := "a\nb\n", undoAvailable := true }),
          (leftover.execute 99 0 "b").2) :=
      Prod.ext (by decide +kernel) rfl
    obtain ⟨outcome, final, hends, -, -, -, -, -, hok, -⟩ :=
      reply_is_what_was_printed hleftover hexecute
    obtain ⟨-, rfl, -, -, hneeded⟩ := hok _ rfl
    exact ⟨_, final, hexecute, hends, hneeded rfl⟩
  · have hexecute : dividing.execute 99 0 "b" =
        (some (.error { cause := .divisionByZero, ip := 1 }), (dividing.execute 99 0 "b").2) :=
      Prod.ext (by decide +kernel) rfl
    obtain ⟨outcome, final, hends, -, -, -, hlast, -, -, herror⟩ :=
      reply_is_what_was_printed hdividing hexecute
    obtain ⟨hfault, hconsumed⟩ := herror _ rfl
    obtain rfl := Option.some.inj (hlast.symm.trans hfault)
    exact ⟨_, final, hexecute, hends, hconsumed, by decide +kernel⟩

end Session

end UniversalMachine
