/-
  UniversalMachine.Proofs.Resumption

  Suspending and resuming a machine is transparent.

  A host runs a machine in pieces: it hands over input words in chunks and calls
  for runs in between, each with a patience and a sink of its own. The reference is
  one run without a deadline that has all the words from the start and a sink that
  never asks to stop. A run can be cut in three places: before an input instruction
  that finds no word, after an output instruction whose byte made the sink ask to
  stop, and between two instructions by the clock. `Tracks` relates a host to the
  point of the reference run it has come to; no cut leaves that run
  (`Tracks.step_cases`), so however the host goes about it, it prints the reference
  run's bytes and ends where the reference run ends (`play_transparent`).
-/

import UniversalMachine.Proofs.Transitions

namespace UniversalMachine

/-- The run was cut short between two instructions, by the sink or by the clock. -/
def Outcome.cutShort : Outcome → Bool
  | .stopRequested => true
  | .timeExpired => true
  | _ => false

/-- Queues words. -/
def InputQueue.push (q : InputQueue) (words : List Word) : InputQueue :=
  { q with pending := q.pending ++ words }

@[simp]
theorem InputQueue.push_nil (q : InputQueue) : q.push [] = q := by
  simp [push]

theorem InputQueue.push_append (q : InputQueue) (xs ys : List Word) :
    q.push (xs ++ ys) = (q.push xs).push ys := by
  simp [push]

/-! ## Hosts -/

/-- A machine that is run in pieces. -/
structure Host where
  machine : Machine
  /-- The words handed over and not read yet. -/
  input : InputQueue := .empty
  /-- Every byte printed so far. -/
  emitted : Bytes := []
  /-- How the runs so far returned, the oldest first. -/
  returned : List Outcome := []

/-- What a host does next. -/
inductive HostEvent (σ : Type) where
  /-- Hands over a chunk of input. -/
  | push (words : List Word)
  /-- Calls for a run. -/
  | run (patience : Nat) (sink : σ)

namespace Host

variable {σ : Type} [OutputSink σ]

/-- A host with no input to hand on yet. -/
def start (machine : Machine) : Host := { machine }

/-- Runs the machine on the words at hand. -/
def run (h : Host) (patience : Nat) (sink : σ) : Outcome × Host :=
  let (outcome, c) :=
    Configuration.run patience
      { machine := h.machine
        input := h.input
        output := ({ sink, emitted := h.emitted } : Tap σ) }
  (outcome,
    { machine := c.machine
      input := c.input
      emitted := c.output.emitted
      returned := h.returned ++ [outcome] })

/-- Does one thing. -/
def handle (h : Host) : HostEvent σ → Host
  | .push words => { h with input := h.input.push words }
  | .run patience sink => (h.run patience sink).2

/-- Does one thing after the other. -/
def play (h : Host) (events : List (HostEvent σ)) : Host :=
  events.foldl handle h

omit [OutputSink σ] in
/-- The words that events hand over, all chunks together. -/
def pushed (events : List (HostEvent σ)) : List Word :=
  events.flatMap fun
    | .push words => words
    | .run _ _ => []

/-- The machine with all of its input at hand and a sink that never asks to stop. -/
def reference (machine : Machine) (words : List Word) :
    Configuration InputQueue OutputBuffer where
  machine := machine
  input := InputQueue.empty.push words
  output := .empty

/-! ## Following the reference run -/

/-- A host with this machine, these words at hand and these bytes printed has come to the
    point `d` of the reference run, with the words `ahead` still to be handed over. -/
structure Tracks (ahead : List Word) (machine : Machine) (input : InputQueue) (emitted : Bytes)
    (d : Configuration InputQueue OutputBuffer) : Prop where
  machine_eq : machine = d.machine
  input_open : input.closed = false
  input_eq : d.input = input.push ahead
  emitted_eq : emitted = d.output.toList
  willing : d.output.stop = .never

theorem tracks_reference (machine : Machine) (words : List Word) :
    Tracks words machine .empty [] (reference machine words) where
  machine_eq := rfl
  input_open := rfl
  input_eq := rfl
  emitted_eq := rfl
  willing := rfl

/-- Handing over words that the reference run had from the start changes nothing else. -/
theorem Tracks.push {words ahead : List Word} {machine : Machine} {input : InputQueue}
    {emitted : Bytes} {d : Configuration InputQueue OutputBuffer}
    (h : Tracks (words ++ ahead) machine input emitted d) :
    Tracks ahead machine (input.push words) emitted d where
  machine_eq := h.machine_eq
  input_open := h.input_open
  input_eq := by rw [h.input_eq, InputQueue.push_append]
  emitted_eq := h.emitted_eq
  willing := h.willing

/-- `Tracks` for a configuration in the middle of a run. -/
abbrev TracksRun (ahead : List Word) (c : Configuration InputQueue (Tap σ))
    (d : Configuration InputQueue OutputBuffer) : Prop :=
  Tracks ahead c.machine c.input c.output.emitted d

/-- One instruction of the host is one of the reference run, even when the sink asks to
    stop. One that does not complete changes nothing, and neither does it in the reference
    run, unless it waits for a word that is still to be handed over. -/
theorem Tracks.step_cases {ahead : List Word} {c : Configuration InputQueue (Tap σ)}
    {d : Configuration InputQueue OutputBuffer} (h : TracksRun ahead c d) :
    (∃ stopped c' d', c.step = (stopped, c') ∧ (stopped = none ∨ stopped = some .stopRequested) ∧
      d.step = (none, d') ∧ TracksRun ahead c' d' ∧
      c'.machine.cycles = c.machine.cycles + 1) ∨
    (∃ outcome, c.step = (some outcome, c) ∧ outcome.cutShort = false ∧
      (ahead = [] → d.step = (some outcome, d))) := by
  obtain ⟨hmachine, hopen, hinput, hemitted, hwilling⟩ := h
  cases haction : c.machine.action with
  | complete effect =>
    have hd : d.machine.action = .complete effect := hmachine ▸ haction
    refine .inl ⟨none, _, _, Configuration.step_of_complete haction, .inl rfl,
      Configuration.step_of_complete hd, ⟨?_, hopen, hinput, hemitted, hwilling⟩, by simp⟩
    rw [hmachine]
  | emit byte =>
    have hd : d.machine.action = .emit byte := hmachine ▸ haction
    -- the reference sink is willing, so its step goes on whatever the host's sink answers
    have hgo : (OutputSink.emit d.output byte).1 = true := by
      simp [OutputSink.emit, OutputBuffer.emit, hwilling, StopRule.stops]
    have hdstep := Configuration.step_of_emit hd
    rw [if_pos hgo] at hdstep
    refine .inl ⟨_, _, _, Configuration.step_of_emit haction, ?_, hdstep,
      ⟨?_, hopen, hinput, ?_, hwilling⟩, by simp⟩
    · by_cases hstop : (OutputSink.emit c.output byte).1 <;> simp [hstop]
    · rw [hmachine]
    · show c.output.emitted ++ [byte] = (d.output.emit byte).2.toList
      rw [OutputBuffer.toList_emit, hemitted]
  | await target =>
    have hd : d.machine.action = .await target := hmachine ▸ haction
    cases hpending : c.input.pending with
    | cons word rest =>
      have hc : InputSource.next c.input = (some word, { c.input with pending := rest }) :=
        InputQueue.next_of_pending hpending
      have hdnext : InputSource.next d.input =
          (some word, { d.input with pending := rest ++ ahead }) :=
        InputQueue.next_of_pending (by rw [hinput, InputQueue.push, hpending]; rfl)
      refine .inl ⟨none, _, _, Configuration.step_of_await_some haction hc, .inl rfl,
        Configuration.step_of_await_some hd hdnext, ⟨?_, hopen, ?_, hemitted, hwilling⟩, by simp⟩
      · rw [hmachine]
      · simp [hinput, InputQueue.push]
    | nil =>
      have hc : InputSource.next c.input = (none, c.input) := by
        simp [InputSource.next, InputQueue.next, hpending, hopen]
      refine .inr ⟨.inputNeeded, Configuration.step_of_await_none haction hc, rfl, ?_⟩
      rintro rfl
      have hdnext : InputSource.next d.input = (none, d.input) := by
        rw [hinput, InputQueue.push_nil]
        exact hc
      exact Configuration.step_of_await_none hd hdnext
  | halt =>
    have hd : d.machine.action = .halt := hmachine ▸ haction
    exact .inr ⟨.halted, Configuration.step_of_halt haction, rfl,
      fun _ => Configuration.step_of_halt hd⟩
  | fault cause =>
    have hd : d.machine.action = .fault cause := hmachine ▸ haction
    refine .inr ⟨_, Configuration.step_of_fault haction, rfl, fun _ => ?_⟩
    rw [Configuration.step_of_fault hd, hmachine]

/-- A run of the host goes along the reference run. If it is cut short, it has completed
    an instruction; if not, and all input was handed over, the reference run ends there. -/
theorem Tracks.run {ahead : List Word} {c : Configuration InputQueue (Tap σ)}
    {d : Configuration InputQueue OutputBuffer} (h : TracksRun ahead c d) (patience : Nat) :
    ∃ d', Configuration.Reaches d d' ∧ TracksRun ahead (Configuration.run patience c).2 d' ∧
      ((Configuration.run patience c).1.cutShort = true →
        c.machine.cycles < (Configuration.run patience c).2.machine.cycles) ∧
      ((Configuration.run patience c).1.cutShort = false → ahead = [] →
        d'.step = (some (Configuration.run patience c).1, d')) := by
  induction patience generalizing c d with
  | zero =>
    obtain ⟨stopped, c', d', hc, hstopped, hd, htracks, hcycles⟩ | ⟨outcome, hc, hcut, hd⟩ :=
      h.step_cases
    · have hlt : c.machine.cycles < c'.machine.cycles := by omega
      rcases hstopped with rfl | rfl
      · rw [Configuration.run_zero_of_step_none hc]
        exact ⟨d', .single hd, htracks, fun _ => hlt, nofun⟩
      · rw [Configuration.run_of_step_some hc]
        exact ⟨d', .single hd, htracks, fun _ => hlt, nofun⟩
    · rw [Configuration.run_of_step_some hc]
      exact ⟨d, .refl, h, fun hcut' => by simp [hcut] at hcut', fun _ => hd⟩
  | succ patience ih =>
    obtain ⟨stopped, c', d', hc, hstopped, hd, htracks, hcycles⟩ | ⟨outcome, hc, hcut, hd⟩ :=
      h.step_cases
    · have hlt : c.machine.cycles < c'.machine.cycles := by omega
      rcases hstopped with rfl | rfl
      · obtain ⟨d'', hreach, htracks', hcutlt, hend⟩ := ih htracks
        rw [Configuration.run_succ_of_step_none hc]
        exact ⟨d'', .head hd hreach, htracks', fun hcut => Nat.lt_trans hlt (hcutlt hcut), hend⟩
      · rw [Configuration.run_of_step_some hc]
        exact ⟨d', .single hd, htracks, fun _ => hlt, nofun⟩
    · rw [Configuration.run_of_step_some hc]
      exact ⟨d, .refl, h, fun hcut' => by simp [hcut] at hcut', fun _ => hd⟩

/-! ## Whole schedules -/

/-- The host has followed the reference run so far, and every run that was cut short has
    completed an instruction. -/
structure Follows (machine : Machine) (words ahead : List Word) (h : Host) : Prop where
  tracks : ∃ d, Configuration.Reaches (reference machine words) d ∧
    Tracks ahead h.machine h.input h.emitted d
  cuts_le : machine.cycles + h.returned.countP Outcome.cutShort ≤ h.machine.cycles

theorem follows_start (machine : Machine) (words : List Word) :
    Follows machine words words (start machine) where
  tracks := ⟨_, .refl, tracks_reference machine words⟩
  cuts_le := Nat.le_refl _

theorem Follows.run {machine : Machine} {words ahead : List Word} {h : Host}
    (hf : Follows machine words ahead h) (patience : Nat) (sink : σ) :
    Follows machine words ahead (h.run patience sink).2 := by
  obtain ⟨⟨d, hreach, htracks⟩, hcuts⟩ := hf
  let c : Configuration InputQueue (Tap σ) :=
    { machine := h.machine, input := h.input, output := { sink, emitted := h.emitted } }
  obtain ⟨d', hreach', htracks', hlt, -⟩ := Tracks.run (c := c) htracks patience
  have hle : c.machine.cycles ≤ (Configuration.run patience c).2.machine.cycles :=
    Configuration.run_preserves (P := fun e => c.machine.cycles ≤ e.machine.cycles)
      (fun e he => Nat.le_trans he e.cycles_le_step) patience c (Nat.le_refl _)
  refine ⟨⟨d', hreach.trans hreach', htracks'⟩, ?_⟩
  show machine.cycles + (h.returned ++ [(Configuration.run patience c).1]).countP
    Outcome.cutShort ≤ (Configuration.run patience c).2.machine.cycles
  have hc : c.machine.cycles = h.machine.cycles := rfl
  rw [List.countP_append, List.countP_singleton]
  cases hcut : (Configuration.run patience c).1.cutShort with
  | true =>
    have := hlt hcut
    simp only [if_true]
    omega
  | false =>
    simp only [Bool.false_eq_true, if_false]
    omega

theorem Follows.play {machine : Machine} {words ahead rest : List Word} {h : Host}
    (events : List (HostEvent σ)) (hf : Follows machine words ahead h)
    (hahead : ahead = pushed events ++ rest) :
    Follows machine words rest (h.play events) := by
  induction events generalizing h ahead with
  | nil =>
    obtain rfl : ahead = rest := hahead
    exact hf
  | cons event events ih =>
    cases event with
    | push chunk =>
      have hchunk : ahead = chunk ++ (pushed events ++ rest) := by
        rw [hahead, ← List.append_assoc]
        rfl
      subst hchunk
      obtain ⟨⟨d, hreach, htracks⟩, hcuts⟩ := hf
      exact ih (h := { h with input := h.input.push chunk })
        ⟨⟨d, hreach, htracks.push⟩, hcuts⟩ rfl
    | run patience sink => exact ih (hf.run patience sink) hahead

/-- Suspension and resumption are transparent. Suppose the reference run on `words` ends,
    and consider a host after any events that have handed over a part of `words`, chunk by
    chunk. What it has printed is a beginning of what the reference run prints, and its
    runs were cut short no more often than the reference run completes instructions. Its
    next run completes an instruction if it is cut short; if it is not, and all words were
    handed over, it returns what the reference run returns, with the same machine, the
    same bytes printed and the same words unread. -/
theorem play_transparent (machine : Machine) (words : List Word) {outcome : Outcome}
    {final : Configuration InputQueue OutputBuffer}
    (hends : Configuration.Ends (reference machine words) outcome final)
    (events : List (HostEvent σ)) (hpushed : pushed events <+: words) :
    ((start machine).play events).emitted <+: final.output.toList ∧
    machine.cycles + ((start machine).play events).returned.countP Outcome.cutShort ≤
      final.machine.cycles ∧
    ∀ (patience : Nat) (sink : σ) (returned : Outcome) (h : Host),
      ((start machine).play events).run patience sink = (returned, h) →
      (returned.cutShort = true →
        ((start machine).play events).machine.cycles < h.machine.cycles) ∧
      (returned.cutShort = false → pushed events = words →
        returned = outcome ∧ h.machine = final.machine ∧ h.emitted = final.output.toList ∧
          h.input = final.input) := by
  obtain ⟨rest, hrest⟩ := hpushed
  obtain ⟨⟨d, hreach, htracks⟩, hcuts⟩ := (follows_start machine words).play events hrest.symm
  have hd := hends.of_reaches hreach
  refine ⟨?_, ?_, ?_⟩
  · rw [htracks.emitted_eq]
    exact hd.preserves (P := fun e => d.output.toList <+: e.output.toList)
      (fun e he => he.trans e.printed_prefix_step) (List.prefix_refl _)
  · refine Nat.le_trans hcuts ?_
    rw [htracks.machine_eq]
    exact hd.preserves (P := fun e => d.machine.cycles ≤ e.machine.cycles)
      (fun e he => Nat.le_trans he e.cycles_le_step) (Nat.le_refl _)
  · rintro patience sink returned h hrun
    obtain ⟨d', hreach', htracks', hlt, hend⟩ :=
      Tracks.run (c := { machine := _, input := _, output := { sink, emitted := _ } })
        htracks patience
    obtain ⟨rfl, rfl⟩ := Prod.mk.inj hrun
    refine ⟨hlt, fun hcut hall => ?_⟩
    obtain rfl : rest = [] := by
      rw [hall] at hrest
      exact List.append_right_eq_self.1 hrest
    -- the reference run has nowhere to go from here, so this is its end
    cases hd.of_reaches hreach' with
    | last hlast =>
      rw [hend hcut rfl] at hlast
      obtain ⟨hout, rfl⟩ := Prod.mk.inj hlast
      refine ⟨Option.some.inj hout, htracks'.machine_eq, htracks'.emitted_eq, ?_⟩
      rw [htracks'.input_eq, InputQueue.push_nil]
    | next hnext _ =>
      rw [hend hcut rfl] at hnext
      cases hnext

/-- Prints one byte of input and halts. -/
def echoOnce : Machine :=
  .ofProgram #[Instruction.assembleStandard 11 0 0 0, Instruction.assembleStandard 10 0 0 0,
    Instruction.assembleStandard 7 0 0 0]

/-- Runs without input first, then up to the clock, then up to the sink. -/
def echoEvents : List (HostEvent OutputBuffer) :=
  [.run 5 .empty, .push [65], .run 0 .empty, .run 9 { stop := .always }]

theorem play_transparent_echoOnce :
    Configuration.Ends (reference echoOnce [65]) .halted
      (Configuration.run 3 (reference echoOnce [65])).2 ∧
    pushed echoEvents = [65] ∧
    ((start echoOnce).play echoEvents).returned = [.inputNeeded, .timeExpired, .stopRequested] ∧
    (((start echoOnce).play echoEvents).run 0 OutputBuffer.empty).1 = .halted ∧
    (((start echoOnce).play echoEvents).run 0 OutputBuffer.empty).2.machine =
      (Configuration.run 3 (reference echoOnce [65])).2.machine := by
  have hends : Configuration.Ends (reference echoOnce [65]) .halted
      (Configuration.run 3 (reference echoOnce [65])).2 :=
    Configuration.ends_iff_run.2 ⟨nofun, 3, Prod.ext (by decide) rfl⟩
  have hpushed : pushed echoEvents = [65] := by decide
  have hrun : (((start echoOnce).play echoEvents).run 0 OutputBuffer.empty).1 = .halted := by
    decide
  obtain ⟨-, -, hnext⟩ :=
    play_transparent echoOnce [65] hends echoEvents (hpushed ▸ List.prefix_refl _)
  obtain ⟨-, hmachine, -, -⟩ :=
    (hnext 0 .empty .halted _ (Prod.ext hrun rfl)).2 rfl hpushed
  exact ⟨hends, hpushed, by decide, hrun, hmachine⟩

end Host

end UniversalMachine
