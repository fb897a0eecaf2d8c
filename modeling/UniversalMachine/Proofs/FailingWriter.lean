/-
  UniversalMachine.Proofs.FailingWriter

  Output to a writer that fails now and then.

  The owner of a machine runs it again whenever the writer's failure made it stop, and
  collects failures when it likes (`Attends`). A journal of the calls that the writer
  sees, with its answers, is kept beside (`Journal`); the writer itself may be anything.
  Whatever it answers, each byte meets it in one of four ways (`Delivery`), and a run is
  a row of deliveries of which only the last one may fail (`Ends.accounted`). A byte that
  fails is delivered as far as the machine is concerned: `Mirrors` relates the machine to
  the point it would have come to with a sink that never fails, and every instruction
  keeps the two together (`Mirrors.step`). So a run gets to the end of the undisturbed
  run or to the next failure (`Mirrors.exists_ends`), and since a failure uses up a byte,
  there are only so many of them (`Attends.exists_end`).
-/

import UniversalMachine.Device.Writer
import UniversalMachine.Proofs.Settling

namespace UniversalMachine

/-! ## What a writer sees -/

/-- A call on a writer, with the writer's answer. -/
inductive WriterCall where
  | write (byte : UInt8) (answer : Except String Unit)
  | flush (answer : Except String Unit)

namespace WriterCall

/-- The failure that the call met. -/
def failure? : WriterCall → Option String
  | .write _ (.error e) => some e
  | .flush (.error e) => some e
  | _ => none

/-- The byte that was to be written. -/
def offered? : WriterCall → Option UInt8
  | .write byte _ => some byte
  | .flush _ => none

/-- The byte that was written. -/
def accepted? : WriterCall → Option UInt8
  | .write byte (.ok ()) => some byte
  | _ => none

end WriterCall

/-- Passes calls on to a writer and keeps them. -/
structure Journal (ω : Type) where
  writer : ω
  calls : List WriterCall := []

instance {ω : Type} [ByteWriter ω] : ByteWriter (Journal ω) where
  write journal byte :=
    let (answer, writer) := ByteWriter.write journal.writer byte
    (answer, { writer, calls := journal.calls ++ [.write byte answer] })
  flush journal :=
    let (answer, writer) := ByteWriter.flush journal.writer
    (answer, { writer, calls := journal.calls ++ [.flush answer] })

/-- What a writer holds is what was written to it. -/
structure ByteWriter.Holds {ω : Type} [ByteWriter ω] (held : ω → Bytes) : Prop where
  write (w : ω) (byte : UInt8) :
    held (ByteWriter.write w byte).2 =
      held w ++ (WriterCall.write byte (ByteWriter.write w byte).1).accepted?.toList
  flush (w : ω) : held (ByteWriter.flush w).2 = held w

theorem LimitedWriter.holds_accepted :
    ByteWriter.Holds fun w : LimitedWriter => w.accepted.toList where
  write w byte := by
    rcases hroom : w.room with _ | _ | room
    · simp [ByteWriter.write, hroom, WriterCall.accepted?]
    · simp [ByteWriter.write, hroom, WriterCall.accepted?]
    · simp [ByteWriter.write, hroom, WriterCall.accepted?]
  flush _ := rfl

/-- How a byte fares with a writer. -/
inductive Delivery where
  /-- The byte could not be written. -/
  | refused (byte : UInt8) (failure : String)
  /-- The byte was written, and no newline. -/
  | written (byte : UInt8) (h : byte ≠ newline)
  /-- A newline was written and the writer flushed. -/
  | flushed
  /-- A newline was written, but the writer could not be flushed. -/
  | unflushed (failure : String)

namespace Delivery

/-- The byte that was to be delivered. -/
def byte : Delivery → UInt8
  | .refused byte _ => byte
  | .written byte _ => byte
  | .flushed => newline
  | .unflushed _ => newline

/-- The failure that it met. -/
def failure? : Delivery → Option String
  | .refused _ e => some e
  | .written _ _ => none
  | .flushed => none
  | .unflushed e => some e

/-- What the writer sees of it. -/
def calls : Delivery → List WriterCall
  | .refused byte e => [.write byte (.error e)]
  | .written byte _ => [.write byte (.ok ())]
  | .flushed => [.write newline (.ok ()), .flush (.ok ())]
  | .unflushed e => [.write newline (.ok ()), .flush (.error e)]

theorem offered_calls (delivery : Delivery) :
    delivery.calls.filterMap WriterCall.offered? = [delivery.byte] := by
  cases delivery <;> rfl

theorem failures_calls (delivery : Delivery) :
    delivery.calls.filterMap WriterCall.failure? = delivery.failure?.toList := by
  cases delivery <;> rfl

end Delivery

namespace WriterSink

variable {ω : Type} [ByteWriter ω]

/-- Passing a byte on is one delivery of it. -/
theorem pass_journal (journal : Journal ω) (byte : UInt8) :
    ∃ delivery : Delivery, delivery.byte = byte ∧
      (pass journal byte).2.calls = journal.calls ++ delivery.calls ∧
      (pass journal byte).1 = delivery.failure?.elim (.ok ()) .error := by
  rcases hwrite : ByteWriter.write journal.writer byte with ⟨e | ⟨⟩, writer⟩
  · refine ⟨.refused byte e, rfl, ?_, ?_⟩ <;>
      simp [pass, ByteWriter.write, hwrite, Delivery.calls, Delivery.failure?]
  · by_cases hnewline : byte = newline
    · -- a newline that was written is followed by a flush, which may fail as well
      subst hnewline
      rcases hflush : ByteWriter.flush writer with ⟨e | ⟨⟩, writer'⟩
      · refine ⟨.unflushed e, rfl, ?_, ?_⟩ <;>
          simp [pass, ByteWriter.write, ByteWriter.flush, hwrite, hflush, Delivery.calls,
            Delivery.failure?]
      · refine ⟨.flushed, rfl, ?_, ?_⟩ <;>
          simp [pass, ByteWriter.write, ByteWriter.flush, hwrite, hflush, Delivery.calls,
            Delivery.failure?]
    · refine ⟨.written byte hnewline, rfl, ?_, ?_⟩ <;>
        simp [pass, ByteWriter.write, hwrite, hnewline, Delivery.calls, Delivery.failure?]

/-- The writer holds, beyond what it held at first, the bytes that the journal has as written. -/
def Agrees (held : ω → Bytes) (base : Bytes) (journal : Journal ω) : Prop :=
  held journal.writer = base ++ journal.calls.filterMap WriterCall.accepted?

theorem agrees_pass {held : ω → Bytes} (hheld : ByteWriter.Holds held) {base : Bytes}
    {journal : Journal ω} (h : Agrees held base journal) (byte : UInt8) :
    Agrees held base (pass journal byte).2 := by
  have hwrite : Agrees held base (ByteWriter.write journal byte).2 := by
    show held (ByteWriter.write journal.writer byte).2 =
      base ++ (journal.calls ++ [_]).filterMap WriterCall.accepted?
    rw [hheld.write, h, List.filterMap_append, List.append_assoc]
    rfl
  have hflush {journal : Journal ω} (h : Agrees held base journal) :
      Agrees held base (ByteWriter.flush journal).2 := by
    show held (ByteWriter.flush journal.writer).2 = _
    rw [hheld.flush, h]
    simp [ByteWriter.flush, WriterCall.accepted?]
  rw [pass]
  rcases hanswer : ByteWriter.write journal byte with ⟨_ | ⟨⟩, written⟩
  · rw [hanswer] at hwrite
    exact hwrite
  · rw [hanswer] at hwrite
    by_cases hnewline : byte = newline
    · simp only [hnewline, if_true]
      exact hflush hwrite
    · simp only [hnewline, if_false]
      exact hwrite

/-- The sink without the journal. -/
def unwatched (sink : WriterSink (Journal ω)) : WriterSink ω :=
  { sink with writer := sink.writer.writer }

theorem pass_journal_writer (journal : Journal ω) (byte : UInt8) :
    pass journal.writer byte = ((pass journal byte).1, (pass journal byte).2.writer) := by
  rcases hwrite : ByteWriter.write journal.writer byte with ⟨_ | ⟨⟩, writer⟩
  · simp [pass, ByteWriter.write, hwrite]
  · by_cases hnewline : byte = newline
    · subst hnewline
      simp [pass, ByteWriter.write, ByteWriter.flush, hwrite]
    · simp [pass, ByteWriter.write, hwrite, hnewline]

theorem emit_unwatched (sink : WriterSink (Journal ω)) (byte : UInt8) :
    sink.unwatched.emit byte = ((sink.emit byte).1, (sink.emit byte).2.unwatched) := by
  rw [emit, emit, unwatched, pass_journal_writer]
  rcases pass sink.writer byte with ⟨_ | ⟨⟩, journal⟩
  · rfl
  · rfl

/-- Emitting a byte is one delivery of it, recorded whatever comes of it. A failure asks the
    machine to stop and is kept. -/
theorem emit_journal (sink : WriterSink (Journal ω)) (byte : UInt8) :
    ∃ delivery : Delivery, delivery.byte = byte ∧
      (sink.emit byte).1 = delivery.failure?.isNone ∧
      (sink.emit byte).2.writer.calls = sink.writer.calls ++ delivery.calls ∧
      (sink.emit byte).2.capture = sink.capture.map (·.push byte) ∧
      (sink.emit byte).2.error = delivery.failure?.or sink.error := by
  obtain ⟨delivery, hbyte, hcalls, hanswer⟩ := pass_journal sink.writer byte
  refine ⟨delivery, hbyte, ?_⟩
  rw [emit]
  rcases hpass : pass sink.writer byte with ⟨answer, writer⟩
  rw [hpass] at hcalls hanswer
  cases hfailure : delivery.failure? with
  | none =>
    rw [hfailure] at hanswer
    cases hanswer
    exact ⟨rfl, hcalls, rfl, rfl⟩
  | some e =>
    rw [hfailure] at hanswer
    cases hanswer
    exact ⟨rfl, hcalls, rfl, rfl⟩

end WriterSink

/-! ## One run -/

/-- What its owner sees of a run: how it returned, where the machine was left, and what the
    writer was asked for. -/
structure Return where
  outcome : Outcome
  machine : Machine
  calls : List WriterCall

/-- A run is stopped exactly by a delivery that failed. It is the last one, and the machine
    has got past the instruction that printed the byte. -/
inductive Return.Accounted : Return → Prop
  | unfailing {outcome : Outcome} {machine : Machine} {passed : List Delivery}
      (hpassed : ∀ delivery ∈ passed, delivery.failure? = none) (h : outcome ≠ .stopRequested) :
      Accounted { outcome, machine, calls := passed.flatMap Delivery.calls }
  | failing {printing : Machine} {passed : List Delivery} {failed : Delivery}
      (hpassed : ∀ delivery ∈ passed, delivery.failure? = none)
      (hfailed : failed.failure?.isSome) (hprints : printing.action = .emit failed.byte) :
      Accounted
        { outcome := .stopRequested
          machine := printing.advance
          calls := (passed ++ [failed]).flatMap Delivery.calls }

/-- The failure that the run met. -/
def Return.failure? (r : Return) : Option String :=
  (r.calls.filterMap WriterCall.failure?).getLast?

theorem Return.Accounted.cons {outcome : Outcome} {machine : Machine} {calls : List WriterCall}
    (h : Accounted { outcome, machine, calls }) {delivery : Delivery}
    (hpassed : delivery.failure? = none) :
    Accounted { outcome, machine, calls := delivery.calls ++ calls } := by
  cases h with
  | unfailing hrest hne =>
    rw [← List.flatMap_cons]
    exact .unfailing (List.forall_mem_cons.2 ⟨hpassed, hrest⟩) hne
  | failing hrest hfailed hprints =>
    rw [← List.flatMap_cons, ← List.cons_append]
    exact .failing (List.forall_mem_cons.2 ⟨hpassed, hrest⟩) hfailed hprints

/-- A run that was stopped has offered a byte. -/
theorem Return.Accounted.offers {machine : Machine} {calls : List WriterCall}
    (h : Accounted { outcome := .stopRequested, machine, calls }) :
    0 < (calls.filterMap WriterCall.offered?).length := by
  cases h with
  | unfailing _ hne => exact absurd rfl hne
  | @failing _ passed failed _ _ _ =>
    rw [List.flatMap_append, List.flatMap_singleton, List.filterMap_append, failed.offered_calls]
    simp

namespace Configuration

variable {ι ω : Type} [InputSource ι] [ByteWriter ω]
  {c c' : Configuration ι (WriterSink (Journal ω))} {outcome returned : Outcome}

/-- An instruction delivers one byte, and stops the machine if that failed, or it leaves the
    sink alone. -/
theorem step_journal (c : Configuration ι (WriterSink (Journal ω))) :
    (∃ delivery : Delivery, c.machine.action = .emit delivery.byte ∧
      c.step.2.machine = c.machine.advance ∧
      c.step.1 = (if delivery.failure?.isNone then none else some .stopRequested) ∧
      c.step.2.output.writer.calls = c.output.writer.calls ++ delivery.calls ∧
      c.step.2.output.error = delivery.failure?.or c.output.error) ∨
    (c.step.1 ≠ some .stopRequested ∧ c.step.2.output = c.output) := by
  cases haction : c.machine.action with
  | complete effect =>
    rw [step_of_complete haction]
    exact .inr ⟨nofun, rfl⟩
  | emit byte =>
    obtain ⟨delivery, rfl, hgo, hcalls, -, herror⟩ := c.output.emit_journal byte
    rw [step_of_emit haction]
    refine .inl ⟨delivery, rfl, rfl, ?_, hcalls, herror⟩
    show (if (c.output.emit delivery.byte).1 then none else some Outcome.stopRequested) = _
    rw [hgo]
  | await target =>
    rcases hnext : InputSource.next c.input with ⟨_ | word, input⟩
    · rw [step_of_await_none haction hnext]
      exact .inr ⟨nofun, rfl⟩
    · rw [step_of_await_some haction hnext]
      exact .inr ⟨nofun, rfl⟩
  | halt =>
    rw [step_of_halt haction]
    exact .inr ⟨nofun, rfl⟩
  | fault cause =>
    rw [step_of_fault haction]
    exact .inr ⟨nofun, rfl⟩

theorem agrees_step (c : Configuration ι (WriterSink (Journal ω))) {held : ω → Bytes}
    (hheld : ByteWriter.Holds held) {base : Bytes}
    (h : WriterSink.Agrees held base c.output.writer) :
    WriterSink.Agrees held base c.step.2.output.writer := by
  rcases c.output_step with hkept | ⟨byte, hprinted⟩
  · rwa [hkept]
  · have hpass := WriterSink.agrees_pass hheld h byte
    rw [hprinted]
    show WriterSink.Agrees held base (c.output.emit byte).2.writer
    rw [WriterSink.emit]
    rcases hanswer : WriterSink.pass c.output.writer byte with ⟨_ | ⟨⟩, writer⟩
    · rwa [hanswer] at hpass
    · rwa [hanswer] at hpass

/-- Every run is accounted for, and the failure that it met is there to be collected. -/
theorem Ends.accounted (h : Ends c returned c') :
    ∃ calls, c'.output.writer.calls = c.output.writer.calls ++ calls ∧
      Return.Accounted { outcome := returned, machine := c'.machine, calls } ∧
      c'.output.error =
        ((calls.filterMap WriterCall.failure?).getLast?).or c.output.error := by
  induction h with
  | @last c c' returned hlast =>
    obtain ⟨delivery, hprints, hmachine, hstopped, hcalls, herror⟩ | ⟨hne, houtput⟩ :=
      c.step_journal
    · rw [hlast] at hmachine hstopped hcalls herror
      cases hfailure : delivery.failure? with
      | none =>
        -- the run would have gone on
        rw [hfailure] at hstopped
        cases hstopped
      | some e =>
        rw [hfailure] at hstopped
        cases hstopped
        refine ⟨delivery.calls, hcalls, ?_, ?_⟩
        · have haccounted : Return.Accounted
              { outcome := .stopRequested
                machine := c.machine.advance
                calls := ([] ++ [delivery]).flatMap Delivery.calls } :=
            .failing nofun (Option.isSome_of_eq_some hfailure) hprints
          rwa [← hmachine, List.nil_append, List.flatMap_singleton] at haccounted
        · rw [herror, delivery.failures_calls, hfailure]
          rfl
    · rw [hlast] at hne houtput
      refine ⟨[], ?_, ?_, ?_⟩
      · rw [houtput, List.append_nil]
      · rw [← List.flatMap_nil]
        exact .unfailing nofun fun heq => hne (congrArg some heq)
      · rw [houtput]
        rfl
  | @next c c' _ returned hnext _ ih =>
    obtain ⟨calls, hcalls, haccounted, herror⟩ := ih
    obtain ⟨delivery, -, -, hstopped, hcalls', herror'⟩ | ⟨-, houtput⟩ := c.step_journal
    · rw [hnext] at hstopped hcalls' herror'
      cases hfailure : delivery.failure? with
      | some e =>
        -- the run would have ended here
        rw [hfailure] at hstopped
        cases hstopped
      | none =>
        rw [hfailure] at herror'
        refine ⟨delivery.calls ++ calls, ?_, haccounted.cons hfailure, ?_⟩
        · rw [hcalls, hcalls', List.append_assoc]
        · rw [herror, herror', List.filterMap_append, delivery.failures_calls, hfailure]
          rfl
    · rw [hnext] at houtput
      rw [houtput] at hcalls herror
      exact ⟨calls, hcalls, haccounted, herror⟩

/-! ## Beside a sink that never fails -/

/-- A machine whose output goes to a writer has come as far as one whose output is only
    recorded; its sink has recorded the same, and has offered it to the writer. -/
structure Mirrors (c : Configuration ι (WriterSink (Journal ω)))
    (d : Configuration ι OutputBuffer) : Prop where
  machine_eq : c.machine = d.machine
  input_eq : c.input = d.input
  capture_eq : c.output.capture = some d.output.bytes
  offered_eq : c.output.writer.calls.filterMap WriterCall.offered? = d.output.toList
  willing : d.output.stop = .never

variable {d final : Configuration ι OutputBuffer}

namespace Mirrors

omit [InputSource ι] [ByteWriter ω] in
theorem captured_eq (h : Mirrors c d) : c.output.captured = d.output.toList := by
  rw [WriterSink.captured, h.capture_eq]
  rfl

/-- Both machines carry out the same instruction. Only a failing writer makes a difference:
    it ends the one run and not the other. -/
theorem step (h : Mirrors c d) :
    d.step.1 = (if c.step.1 = some .stopRequested then none else c.step.1) ∧
      Mirrors c.step.2 d.step.2 := by
  obtain ⟨hmachine, hinput, hcapture, hoffered, hwilling⟩ := h
  cases haction : c.machine.action with
  | complete effect =>
    have hd : d.machine.action = .complete effect := hmachine ▸ haction
    rw [step_of_complete haction, step_of_complete hd]
    exact ⟨rfl, congrArg (·.apply effect) hmachine, hinput, hcapture, hoffered, hwilling⟩
  | emit byte =>
    have hd : d.machine.action = .emit byte := hmachine ▸ haction
    have hgo : (OutputSink.emit d.output byte).1 = true := by
      simp [OutputSink.emit, OutputBuffer.emit, hwilling, StopRule.stops]
    obtain ⟨delivery, rfl, hanswer, hcalls, hcaptured, -⟩ := c.output.emit_journal byte
    rw [step_of_emit haction, step_of_emit hd, if_pos hgo]
    refine ⟨?_, congrArg Machine.advance hmachine, hinput, ?_, ?_, hwilling⟩
    · -- the answer is to carry on or to stop, and to stop is no concern of the other run
      dsimp only
      split <;> rfl
    · show (c.output.emit delivery.byte).2.capture = some (d.output.bytes.push delivery.byte)
      rw [hcaptured, hcapture]
      rfl
    · show (c.output.emit delivery.byte).2.writer.calls.filterMap _ =
        (d.output.emit delivery.byte).2.toList
      rw [hcalls, List.filterMap_append, delivery.offered_calls, hoffered, d.output.toList_emit]
  | await target =>
    have hd : d.machine.action = .await target := hmachine ▸ haction
    rcases hnext : InputSource.next c.input with ⟨_ | word, input⟩
    · rw [step_of_await_none haction hnext, step_of_await_none hd (hinput ▸ hnext)]
      exact ⟨rfl, hmachine, rfl, hcapture, hoffered, hwilling⟩
    · rw [step_of_await_some haction hnext, step_of_await_some hd (hinput ▸ hnext)]
      exact ⟨rfl, congrArg (·.apply (.assign target word)) hmachine, rfl, hcapture, hoffered,
        hwilling⟩
  | halt =>
    have hd : d.machine.action = .halt := hmachine ▸ haction
    rw [step_of_halt haction, step_of_halt hd]
    exact ⟨rfl, hmachine, hinput, hcapture, hoffered, hwilling⟩
  | fault cause =>
    have hd : d.machine.action = .fault cause := hmachine ▸ haction
    rw [step_of_fault haction, step_of_fault hd, hmachine]
    exact ⟨rfl, hmachine, hinput, hcapture, hoffered, hwilling⟩

/-- If the run that is not disturbed comes to an end, the other one comes there as well or is
    stopped on the way. -/
theorem exists_ends (hends : Ends d outcome final) (h : Mirrors c d) :
    ∃ returned c', Ends c returned c' ∧
      (returned = outcome ∧ Mirrors c' final ∨
        returned = .stopRequested ∧ ∃ d', Mirrors c' d' ∧ Ends d' outcome final) := by
  induction hends generalizing c with
  | @last d d' outcome hlast =>
    obtain ⟨hreturned, hmirrors⟩ := h.step
    rw [hlast] at hreturned hmirrors
    rcases hstep : c.step with ⟨_ | returned, c'⟩
    · rw [hstep] at hreturned
      cases hreturned
    · rw [hstep] at hreturned hmirrors
      by_cases hstopped : (some returned : Option Outcome) = some .stopRequested
      · rw [if_pos hstopped] at hreturned
        cases hreturned
      · rw [if_neg hstopped] at hreturned
        cases hreturned
        exact ⟨_, c', .last hstep, .inl ⟨rfl, hmirrors⟩⟩
  | @next d d' final outcome hnext rest ih =>
    obtain ⟨hreturned, hmirrors⟩ := h.step
    rw [hnext] at hreturned hmirrors
    rcases hstep : c.step with ⟨_ | returned, c'⟩
    · rw [hstep] at hmirrors
      obtain ⟨returned, c'', hends, hcases⟩ := ih hmirrors
      exact ⟨returned, c'', .next hstep hends, hcases⟩
    · rw [hstep] at hreturned hmirrors
      by_cases hstopped : (some returned : Option Outcome) = some .stopRequested
      · -- only the machine with the writer stops here, behind the byte
        cases hstopped
        exact ⟨.stopRequested, c', .last hstep, .inr ⟨rfl, d', hmirrors, rest⟩⟩
      · rw [if_neg hstopped] at hreturned
        cases hreturned

/-- Where a run got to, given where the undisturbed one ends. -/
theorem of_ends (hends : Ends d outcome final) (h : Mirrors c d) (hran : Ends c returned c') :
    returned = outcome ∧ Mirrors c' final ∨
      returned = .stopRequested ∧ ∃ d', Mirrors c' d' ∧ Ends d' outcome final := by
  obtain ⟨returned', c'', hran', hcases⟩ := h.exists_ends hends
  obtain ⟨rfl, rfl⟩ := hran.unique hran'
  exact hcases

end Mirrors

/-! ## Running again and again -/

/-- What the owner of a machine does with it. -/
inductive Visit where
  | ran (r : Return)
  /-- The latest failure was collected. -/
  | collected (failure : Option String)

namespace Visit

/-- What the writer was asked for meanwhile. -/
def calls : Visit → List WriterCall
  | .ran r => r.calls
  | .collected _ => []

end Visit

/-- The latest failure since failures were last collected; the latest visit comes first. -/
def latestFailure : List Visit → Option String
  | [] => none
  | .ran r :: earlier => r.failure?.or (latestFailure earlier)
  | .collected _ :: _ => none

/-- Whether every run so far was stopped. -/
def Interrupted (visits : List Visit) : Prop :=
  ∀ r, .ran r ∈ visits → r.outcome = .stopRequested

theorem interrupted_ran_cons {r : Return} {visits : List Visit} :
    Interrupted (.ran r :: visits) ↔ r.outcome = .stopRequested ∧ Interrupted visits := by
  simp [Interrupted]

theorem interrupted_collected_cons {failure : Option String} {visits : List Visit} :
    Interrupted (.collected failure :: visits) ↔ Interrupted visits := by
  simp [Interrupted]

/-- The owner runs a machine, again and again as long as it is stopped, and collects failures
    at any time. The latest visit comes first. -/
inductive Attends (start : Configuration ι (WriterSink (Journal ω))) :
    List Visit → Configuration ι (WriterSink (Journal ω)) → Prop
  | start : Attends start [] start
  | ran {visits : List Visit} {c c' : Configuration ι (WriterSink (Journal ω))}
      {outcome : Outcome} {calls : List WriterCall} (h : Attends start visits c)
      (hstopped : Interrupted visits) (hends : Ends c outcome c')
      (hcalls : c'.output.writer.calls = c.output.writer.calls ++ calls) :
      Attends start (.ran { outcome, machine := c'.machine, calls } :: visits) c'
  | collected {visits : List Visit} {c : Configuration ι (WriterSink (Journal ω))}
      (h : Attends start visits c) :
      Attends start (.collected c.output.takeError.1 :: visits)
        { c with output := c.output.takeError.2 }

namespace Attends

variable {start : Configuration ι (WriterSink (Journal ω))} {visits : List Visit}

theorem calls_eq (h : Attends start visits c) :
    c.output.writer.calls =
      start.output.writer.calls ++ visits.reverse.flatMap Visit.calls := by
  induction h with
  | start => exact (List.append_nil _).symm
  | ran _ _ _ hcalls ih =>
    rw [hcalls, ih, List.append_assoc, List.reverse_cons, List.flatMap_append,
      List.flatMap_singleton]
    rfl
  | @collected visits c _ ih =>
    rw [List.reverse_cons, List.flatMap_append, List.flatMap_singleton, Visit.calls,
      List.append_nil]
    exact ih

theorem accounted (h : Attends start visits c) {r : Return} (hr : .ran r ∈ visits) :
    r.Accounted := by
  induction h with
  | start => cases hr
  | ran _ _ hends hcalls ih =>
    cases hr with
    | tail _ hr => exact ih hr
    | head =>
      obtain ⟨calls', hcalls', haccounted, -⟩ := hends.accounted
      rw [hcalls] at hcalls'
      rwa [List.append_cancel_left hcalls']
  | collected _ ih =>
    cases hr with
    | tail _ hr => exact ih hr

theorem error_eq (h : Attends start visits c) (hstart : start.output.error = none) :
    c.output.error = latestFailure visits := by
  induction h with
  | start => exact hstart
  | ran _ _ hends hcalls ih =>
    obtain ⟨calls', hcalls', -, herror⟩ := hends.accounted
    rw [hcalls] at hcalls'
    rw [herror, ih, ← List.append_cancel_left hcalls']
    rfl
  | collected _ _ => rfl

/-- Whoever collects gets the latest failure that was not collected before. -/
theorem collected_eq (h : Attends start visits c) (hstart : start.output.error = none)
    {later earlier : List Visit} {failure : Option String}
    (hvisits : visits = later ++ .collected failure :: earlier) :
    failure = latestFailure earlier := by
  induction h generalizing later with
  | start => exact absurd hvisits.symm (by simp)
  | ran _ _ _ _ ih =>
    cases later with
    | nil => cases hvisits
    | cons _ later => exact ih (List.cons.inj hvisits).2
  | collected h ih =>
    cases later with
    | nil =>
      cases hvisits
      exact h.error_eq hstart
    | cons _ later => exact ih (List.cons.inj hvisits).2

/-- As long as every run was stopped, the rest of the undisturbed run is still to come. A run
    that was not stopped has come to its end. -/
theorem mirrors (h : Attends start visits c) (hstart : Mirrors start d)
    (hends : Ends d outcome final) :
    (Interrupted visits ∧ ∃ d', Mirrors c d' ∧ Ends d' outcome final) ∨
    (¬Interrupted visits ∧ Mirrors c final ∧
      ∀ r, .ran r ∈ visits → r.outcome ≠ .stopRequested → r.outcome = outcome) := by
  induction h with
  | start => exact .inl ⟨nofun, d, hstart, hends⟩
  | ran _ hstopped hran _ ih =>
    obtain ⟨-, d', hmirrors, hends'⟩ | ⟨hnot, -⟩ := ih
    · obtain ⟨rfl, hmirrors'⟩ | ⟨rfl, hrest⟩ := hmirrors.of_ends hends' hran
      · refine .inr ⟨?_, hmirrors', ?_⟩
        · rw [interrupted_ran_cons]
          exact fun h => hends.ne_stopRequested hstart.willing h.1
        · intro r hr hne
          cases hr with
          | head => rfl
          | tail _ hr => exact absurd (hstopped r hr) hne
      · exact .inl ⟨interrupted_ran_cons.2 ⟨rfl, hstopped⟩, hrest⟩
    · exact absurd hstopped hnot
  | @collected visits c _ ih =>
    -- to collect a failure is nothing to the machine
    have hkept {d' : Configuration ι OutputBuffer} (h : Mirrors c d') :
        Mirrors { c with output := c.output.takeError.2 } d' :=
      ⟨h.machine_eq, h.input_eq, h.capture_eq, h.offered_eq, h.willing⟩
    rw [interrupted_collected_cons]
    obtain ⟨hstopped, d', hmirrors, hends'⟩ | ⟨hnot, hmirrors, hlast⟩ := ih
    · exact .inl ⟨hstopped, d', hkept hmirrors, hends'⟩
    · refine .inr ⟨hnot, hkept hmirrors, ?_⟩
      intro r hr hne
      cases hr with
      | tail _ hr => exact hlast r hr hne

/-- What is recorded is the beginning of what the undisturbed run prints. -/
theorem captured_prefix (h : Attends start visits c) (hstart : Mirrors start d)
    (hends : Ends d outcome final) : c.output.captured <+: final.output.toList := by
  obtain ⟨-, d', hmirrors, hends'⟩ | ⟨-, hmirrors, -⟩ := h.mirrors hstart hends
  · rw [hmirrors.captured_eq]
    exact hends'.preserves (P := fun e => d'.output.toList <+: e.output.toList)
      (fun e he => he.trans e.printed_prefix_step) (List.prefix_refl _)
  · exact hmirrors.captured_eq ▸ List.prefix_refl _

/-- Every stop uses up a byte, so running again and again comes to an end. -/
theorem exists_end (h : Attends start visits c) (hstart : Mirrors start d)
    (hends : Ends d outcome final) (hstopped : Interrupted visits) :
    ∃ (r : Return) (runs : List Return) (c' : Configuration ι (WriterSink (Journal ω))),
      r.outcome = outcome ∧ Attends start (.ran r :: (runs.map .ran ++ visits)) c' := by
  induction hleft : final.output.size - c.output.captured.length using Nat.strongRecOn
    generalizing visits c with
  | ind left ih =>
    obtain ⟨-, d', hmirrors, hends'⟩ | ⟨hnot, -⟩ := h.mirrors hstart hends
    · obtain ⟨returned, c', hran, hcases⟩ := hmirrors.exists_ends hends'
      obtain ⟨calls, hcalls, haccounted, -⟩ := hran.accounted
      have hattends := h.ran hstopped hran hcalls
      obtain ⟨rfl, -⟩ | ⟨rfl, d'', hmirrors', -⟩ := hcases
      · exact ⟨_, [], c', rfl, hattends⟩
      · -- the byte that failed was offered, so fewer are left to come
        have hoffered := hmirrors'.offered_eq
        rw [hcalls, List.filterMap_append, hmirrors.offered_eq, ← hmirrors.captured_eq,
          ← hmirrors'.captured_eq] at hoffered
        have hgrows := congrArg List.length hoffered
        have hsome := haccounted.offers
        have hbound := (hattends.captured_prefix hstart hends).length_le
        rw [List.length_append] at hgrows
        rw [OutputBuffer.length_toList] at hbound
        obtain ⟨r, runs, c'', houtcome, hattends'⟩ :=
          ih _ (by omega) hattends (interrupted_ran_cons.2 ⟨rfl, hstopped⟩) rfl
        refine ⟨r, runs ++ [{ outcome := .stopRequested, machine := c'.machine, calls }], c'',
          houtcome, ?_⟩
        rw [List.map_append, List.append_assoc]
        exact hattends'
    · exact absurd hstopped hnot

/-- The writer holds what was written to it in all these runs. -/
theorem agrees (h : Attends start visits c) {held : ω → Bytes} (hheld : ByteWriter.Holds held)
    {base : Bytes} (hstart : WriterSink.Agrees held base start.output.writer) :
    WriterSink.Agrees held base c.output.writer := by
  induction h with
  | start => exact hstart
  | ran _ _ hends _ ih =>
    exact hends.preserves (P := fun e => WriterSink.Agrees held base e.output.writer)
      (fun e he => e.agrees_step hheld he) ih
  | collected _ ih => exact ih

end Attends

/-- A failing writer loses no track of the output. However its answers fall, whoever runs the
    machine again after every stop gets to where a run with a sink that never fails gets; no
    byte is repeated or left out on the way, and every failure is reported. -/
theorem failing_writer_keeps_track {machine : Machine} {input : ι} {writer : ω}
    {visits : List Visit}
    (hends : Ends { machine, input, output := OutputBuffer.empty } outcome final)
    (hattends : Attends { machine, input, output := .capturing { writer } } visits c) :
    -- every byte so far was recorded and offered to the writer, once and in order
    c.output.captured <+: final.output.toList ∧
    c.output.writer.calls = visits.reverse.flatMap Visit.calls ∧
    c.output.writer.calls.filterMap WriterCall.offered? = c.output.captured ∧
    -- the writer holds those of them that could be written
    (∀ held : ω → Bytes, ByteWriter.Holds held →
      held c.output.writer.writer =
        held writer ++ c.output.writer.calls.filterMap WriterCall.accepted?) ∧
    -- a delivery that fails stops the machine behind the byte, and nothing else does
    (∀ r, .ran r ∈ visits → r.Accounted) ∧
    -- the latest failure can be collected once
    (∀ later failure earlier, visits = later ++ .collected failure :: earlier →
      failure = latestFailure earlier) ∧
    -- a run that is not stopped has come to the end
    (∀ r, .ran r ∈ visits → r.outcome ≠ .stopRequested →
      r.outcome = outcome ∧ c.machine = final.machine ∧ c.input = final.input ∧
        c.output.captured = final.output.toList) ∧
    -- and there is such a run after some that are
    (Interrupted visits →
      ∃ (r : Return) (runs : List Return) (c' : Configuration ι (WriterSink (Journal ω))),
        r.outcome = outcome ∧
        Attends { machine, input, output := .capturing { writer } }
          (.ran r :: (runs.map .ran ++ visits)) c') ∧
    -- and without the journal the machine runs as well
    (∀ returned e, Ends (c.mapDevices id WriterSink.unwatched) returned e ↔
      ∃ c', Ends c returned c' ∧ c'.mapDevices id WriterSink.unwatched = e) := by
  have hstart : Mirrors
      { machine, input, output := WriterSink.capturing ({ writer } : Journal ω) }
      { machine, input, output := OutputBuffer.empty } :=
    ⟨rfl, rfl, rfl, rfl, rfl⟩
  have hoffered : ∀ {d}, Mirrors c d →
      c.output.writer.calls.filterMap WriterCall.offered? = c.output.captured :=
    fun h => h.offered_eq.trans h.captured_eq.symm
  refine ⟨hattends.captured_prefix hstart hends, hattends.calls_eq, ?_, ?_,
    fun r => hattends.accounted, ?_, ?_, hattends.exists_end hstart hends,
    fun _ _ => ends_mapDevices_iff ⟨fun _ => rfl, WriterSink.emit_unwatched⟩⟩
  · obtain ⟨-, d, hmirrors, -⟩ | ⟨-, hmirrors, -⟩ := hattends.mirrors hstart hends
    · exact hoffered hmirrors
    · exact hoffered hmirrors
  · intro held hheld
    exact hattends.agrees hheld (List.append_nil _).symm
  · intro later failure earlier hvisits
    exact hattends.collected_eq rfl hvisits
  · intro r hr hne
    obtain ⟨hstopped, -⟩ | ⟨-, hmirrors, hlast⟩ := hattends.mirrors hstart hends
    · exact absurd (hstopped r hr) hne
    · exact ⟨hlast r hr hne, hmirrors.machine_eq, hmirrors.input_eq, hmirrors.captured_eq⟩

/-- Prints three bytes of input and halts. -/
def echoThrice : Machine :=
  .ofProgram #[Instruction.assembleStandard 11 0 0 0, Instruction.assembleStandard 10 0 0 0,
    Instruction.assembleStandard 11 0 0 0, Instruction.assembleStandard 10 0 0 0,
    Instruction.assembleStandard 11 0 0 0, Instruction.assembleStandard 10 0 0 0,
    Instruction.assembleStandard 7 0 0 0]

/-- The three bytes, to be printed on a device that has room for two and cannot be flushed. -/
def narrow : Configuration InputQueue (WriterSink (Journal LimitedWriter)) where
  machine := echoThrice
  input := { pending := [97, 10, 98] }
  output := .capturing { writer := { room := some 2, flushFails := true } }

/-- Collects the latest failure after a run. -/
def runAndCollect (c : Configuration InputQueue (WriterSink (Journal LimitedWriter))) :
    Configuration InputQueue (WriterSink (Journal LimitedWriter)) :=
  { (c.run 9).2 with output := (c.run 9).2.output.takeError.2 }

/-- The newline is written but not flushed. -/
def firstReturn : Return where
  outcome := .stopRequested
  machine := (narrow.run 9).2.machine
  calls := [.write 97 (.ok ()), .write 10 (.ok ()), .flush (.error "flush failed")]

/-- Then there is no room. -/
def secondReturn : Return where
  outcome := .stopRequested
  machine := ((runAndCollect narrow).run 9).2.machine
  calls := [.write 98 (.error "device full")]

theorem failing_writer_keeps_track_narrow :
    ∃ visits c final,
      Ends { narrow with output := OutputBuffer.empty } .halted final ∧
      final.output.toList = [97, 10, 98] ∧
      Attends narrow (.ran { outcome := .halted, machine := final.machine, calls := [] } :: visits)
        c ∧
      visits = [.collected (some "device full"), .ran secondReturn,
        .collected (some "flush failed"), .ran firstReturn] ∧
      c.machine = final.machine ∧ c.output.captured = final.output.toList ∧
      c.output.writer.writer.accepted.toList = [97, 10] := by
  have hreference : Ends { narrow with output := OutputBuffer.empty } .halted
      (run 9 { narrow with output := OutputBuffer.empty }).2 :=
    ends_iff_run.2 ⟨nofun, 9, Prod.ext (by decide) rfl⟩
  have hends₁ : Ends narrow .stopRequested (narrow.run 9).2 :=
    ends_iff_run.2 ⟨nofun, 9, Prod.ext (by decide) rfl⟩
  have hfirst : Attends narrow [.collected (some "flush failed"), .ran firstReturn]
      (runAndCollect narrow) :=
    .collected (.ran .start nofun hends₁ rfl)
  have hends₂ : Ends (runAndCollect narrow) .stopRequested ((runAndCollect narrow).run 9).2 :=
    ends_iff_run.2 ⟨nofun, 9, Prod.ext (by decide) rfl⟩
  have hsecond : Attends narrow
      [.collected (some "device full"), .ran secondReturn, .collected (some "flush failed"),
        .ran firstReturn] (runAndCollect (runAndCollect narrow)) :=
    .collected (.ran hfirst (by simp [firstReturn, Interrupted]) hends₂ rfl)
  have hends₃ : Ends (runAndCollect (runAndCollect narrow)) .halted
      ((runAndCollect (runAndCollect narrow)).run 9).2 :=
    ends_iff_run.2 ⟨nofun, 9, Prod.ext (by decide) rfl⟩
  have hthird := hsecond.ran (by simp [firstReturn, secondReturn, Interrupted]) hends₃
    (List.append_nil _).symm
  obtain ⟨-, -, -, hheld, -, -, hend, -, -⟩ := failing_writer_keeps_track hreference hthird
  obtain ⟨-, hmachine, -, hcaptured⟩ := hend _ List.mem_cons_self nofun
  exact ⟨_, _, _, hreference, by decide, hmachine ▸ hthird, rfl, hmachine, hcaptured,
    hheld _ LimitedWriter.holds_accepted⟩

end Configuration

end UniversalMachine
