/-
  UniversalMachine.Proofs.PlainOutput

  The plain console prints every byte the machine emits, and prints it once.

  Each turn prints the transcript from the length on that it had when it was last
  printed. Undoing shortens the transcript, and a machine that emitted something right
  after that would fill up what counts as printed already. It cannot: a checkpoint is
  made only while the machine waits for input, so undoing leaves it at an input
  instruction with nothing to read, and the run of the next turn ends where it starts.
  `PlainConsole.Settled` is this invariant; `Settled.of_leads` says that turns keep it,
  whatever lines come and whatever the files hold.
-/

import UniversalMachine.Proofs.CommandUndo
import UniversalMachine.Proofs.PlainTurns
import UniversalMachine.Proofs.Readback
import UniversalMachine.Proofs.Standstill

namespace UniversalMachine

/-! ## Waiting for input -/

namespace Machine

/-- The instruction at the pointer asks for input. -/
def Awaits (m : Machine) : Prop :=
  ∃ target, m.action = .await target

theorem attempt_ne_await {α : Type} (check : Except HeapError α) (f : α → Effect)
    (target : Selector) : attempt check f ≠ .await target := by
  cases check with
  | error e => exact nofun
  | ok a => exact nofun

/-- Only the input operation waits. -/
theorem op_of_perform_eq_await {m : Machine} {word : Word} {op : Opcode} {a b c target : Selector}
    (h : m.perform word op a b c = .await target) : op = .input := by
  cases op with
  | input => rfl
  | arrayIndex | arrayAmendment | allocation | abandonment | loadProgram =>
    exact absurd h (attempt_ne_await _ _ target)
  | conditionalMove | division | output =>
    rw [perform] at h
    split at h
    · cases h
    · cases h
  | addition | multiplication | notAnd | halt | orthography => cases h

/-- Whether a machine asks for input is decided by its program and its pointer. -/
theorem Awaits.congr {m n : Machine} (h : m.Awaits) (hip : n.ip = m.ip)
    (hprogram : n.heap.program = m.heap.program) : n.Awaits := by
  obtain ⟨target, h⟩ := h
  have hfetch : n.heap.fetch n.ip = m.heap.fetch m.ip := by
    rw [Heap.fetch, Heap.fetch, hip, hprogram]
  refine ⟨target, ?_⟩
  -- both fetch the same word, and only for other operations would registers and heap count
  unfold action at h ⊢
  rw [hfetch]
  cases hword : m.heap.fetch m.ip with
  | none =>
    rw [hword] at h
    cases h
  | some word =>
    rw [hword] at h
    dsimp only at h ⊢
    cases hdecode : Instruction.decode word with
    | orthography a value =>
      rw [hdecode] at h
      cases h
    | standard code a b c =>
      rw [hdecode] at h
      dsimp only at h ⊢
      cases hop : Opcode.ofNat? code with
      | none =>
        rw [hop] at h
        cases h
      | some op =>
        rw [hop] at h
        dsimp only at h ⊢
        obtain rfl := op_of_perform_eq_await h
        exact h

/-- A missing program counts as an empty one before and after. -/
theorem program_restore (m : Machine) (s : Snapshot) :
    (m.restore s).heap.program = s.arrays.getD 0 #[] := by
  show s.arrays.withProgram.getD 0 #[] = s.arrays.getD 0 #[]
  by_cases h : (0 : Handle) ∈ s.arrays
  · rw [ArrayTable.withProgram_eq_self h]
  · -- the program that restoring adds is the one that stands in for a missing program
    rw [ArrayTable.withProgram, Std.ExtTreeMap.getD_insertIfNew, if_pos ⟨rfl, h⟩,
      Std.ExtTreeMap.getD_eq_fallback h]

/-- A machine that is put into the state of a waiting machine waits as well. -/
theorem Awaits.restore_capture {m : Machine} (h : m.Awaits) (n : Machine) :
    (n.restore m.capture).Awaits :=
  h.congr rfl (n.program_restore m.capture)

/-- The machine asks for input, and there is none yet. -/
structure Starved (m : Machine) (input : InputQueue) : Prop where
  awaits : m.Awaits
  nothing_pending : input.pending = []
  still_open : input.closed = false

variable {σ : Type} [OutputSink σ]

theorem Starved.step {c : Configuration InputQueue σ} (h : c.machine.Starved c.input) :
    c.step = (some .inputNeeded, c) := by
  obtain ⟨⟨target, haction⟩, hpending, hopen⟩ := h
  have hnext : InputSource.next c.input = (none, c.input) := by
    show c.input.next = _
    rw [InputQueue.next, hpending, hopen]
    rfl
  rw [Configuration.step_of_await_none haction hnext]

theorem Starved.run {c : Configuration InputQueue σ} (h : c.machine.Starved c.input)
    (patience : Nat) : c.run patience = (.inputNeeded, c) :=
  Configuration.run_of_step_some h.step patience

end Machine

namespace Configuration

variable {σ : Type} [OutputSink σ]

theorem starved_of_ends {c c' : Configuration InputQueue σ} {outcome : Outcome}
    (h : Ends c outcome c') (houtcome : outcome = .inputNeeded) :
    c'.machine.Starved c'.input := by
  induction h with
  | @last c c' outcome hlast =>
    subst houtcome
    obtain ⟨-, hawaits, hnext, hc'⟩ | ⟨hstands, -⟩ := step_cases_of_not_cutShort hlast rfl
    · obtain ⟨hinput, hpending, hopen⟩ := InputQueue.of_next_eq_none hnext
      rw [hc', hinput]
      exact ⟨hawaits, hpending, hopen⟩
    · exact hstands.elim
  | next _ _ ih => exact ih houtcome

/-- A run that ends for want of input leaves a machine that waits and nothing to read. -/
theorem starved_of_run {patience : Nat} {c : Configuration InputQueue σ}
    (h : (c.run patience).1 = .inputNeeded) :
    (c.run patience).2.machine.Starved (c.run patience).2.input := by
  have hrun : c.run patience = (.inputNeeded, (c.run patience).2) := Prod.ext h rfl
  have hends : Ends c .inputNeeded (c.run patience).2 :=
    ends_iff_run.2 ⟨nofun, patience, hrun⟩
  exact starved_of_ends hends rfl

/-! ## Watching a run -/

/-- What a watched buffer holds behind what it held at first is what was emitted. -/
theorem toList_sink_step {ι : Type} [InputSource ι] {printed : Bytes}
    (c : Configuration ι (Tap OutputBuffer))
    (h : c.output.sink.toList = printed ++ c.output.emitted) :
    c.step.2.output.sink.toList = printed ++ c.step.2.output.emitted := by
  rcases c.output_step with hkept | ⟨byte, hprinted⟩
  · rwa [hkept]
  · rw [hprinted]
    show (c.output.sink.emit byte).2.toList = printed ++ (c.output.emitted ++ [byte])
    rw [OutputBuffer.toList_emit, h, List.append_assoc]

end Configuration

namespace Session

/-- The session's machine with its devices, its transcript being watched. -/
def watched (s : Session) : Configuration InputQueue (Tap OutputBuffer) where
  machine := s.machine
  input := s.input
  output := { sink := s.transcript, emitted := [] }

/-- The bytes that the machine emits in a run of the session, in order. -/
def emitted (s : Session) (patience : Nat) : Bytes :=
  (s.watched.run patience).2.output.emitted

/-- A run adds to the transcript what the machine emits in it, and nothing else. -/
theorem toList_transcript_run (s : Session) (patience : Nat) :
    (s.run patience).2.transcript.toList = s.transcript.toList ++ s.emitted patience := by
  have hrun := Configuration.run_mapDevices transparent_tap patience s.watched
  have htranscript : (s.run patience).2.transcript = (s.watched.run patience).2.output.sink :=
    congrArg (fun returned => returned.2.output) hrun
  rw [htranscript]
  exact Configuration.run_preserves
    (P := fun c => c.output.sink.toList = s.transcript.toList ++ c.output.emitted)
    (fun c => c.toList_sink_step) patience s.watched (List.append_nil _).symm

theorem emitted_of_starved {s : Session} (h : s.machine.Starved s.input) (patience : Nat) :
    s.emitted patience = [] := by
  rw [emitted, Machine.Starved.run (c := s.watched) h]
  rfl

theorem starved_of_run {s : Session} {patience : Nat} (h : (s.run patience).1 = .inputNeeded) :
    (s.run patience).2.machine.Starved (s.run patience).2.input :=
  Configuration.starved_of_run h

/-! ## Checkpoints -/

/-- Every kept checkpoint was made while the machine waited for input. -/
def KeepsWaiting (s : Session) : Prop :=
  ∀ snapshot ∈ s.history.snapshots, (Machine.ofSnapshot snapshot).Awaits

theorem KeepsWaiting.tryCheckpoint {s : Session} (h : s.KeepsWaiting) (hawaits : s.machine.Awaits) :
    s.tryCheckpoint.2.KeepsWaiting := by
  rcases Nat.lt_or_ge s.history.limit s.machine.capture.estimatedSize with hlarge | hfits
  · rwa [tryCheckpoint_of_large hlarge]
  · obtain ⟨older, usage, marks, hsuffix, heq⟩ := tryCheckpoint_of_fits hfits
    rw [heq]
    intro snapshot hmem
    rcases List.mem_append.1 hmem with hold | hnew
    · exact h snapshot (hsuffix.subset hold)
    · -- the new snapshot is the state the machine waits in
      rw [List.mem_singleton.1 hnew]
      exact hawaits.restore_capture _

theorem Heeds.transcript_eq {s t : Session} (h : s.Heeds t) : t.transcript = s.transcript := by
  cases h with
  | kept => rfl
  | closed => rfl
  | submitted line => exact s.transcript_tryCheckpoint
  | loaded snapshot => exact s.transcript_tryCheckpoint

theorem Heeds.keepsWaiting {s t : Session} (h : s.Heeds t) (hs : s.KeepsWaiting)
    (hawaits : s.machine.Awaits) : t.KeepsWaiting := by
  cases h with
  | kept => exact hs
  | closed => exact hs
  | submitted line => exact hs.tryCheckpoint hawaits
  | loaded snapshot => exact hs.tryCheckpoint hawaits

/-- Undoing goes back to one of the snapshots and shortens the transcript. -/
theorem of_undo? {s u : Session} (h : s.undo? = some u) :
    u.history.snapshots ⊆ s.history.snapshots ∧ u.input = s.input.clear ∧
      u.transcript.size ≤ s.transcript.size ∧
      ∃ snapshot ∈ s.history.snapshots, u.machine = s.machine.restore snapshot := by
  rw [undo?, History.pop?] at h
  cases hlast : s.history.snapshots.getLast? with
  | none =>
    rw [hlast] at h
    cases h
  | some snapshot =>
    rw [hlast] at h
    cases h
    refine ⟨List.dropLast_subset _, rfl, ?_, snapshot, List.mem_of_getLast? hlast, rfl⟩
    cases s.marks.getLast? with
    | none => exact Nat.le_refl _
    | some mark =>
      show (s.transcript.truncate mark).size ≤ s.transcript.size
      rw [← OutputBuffer.length_toList, ← OutputBuffer.length_toList, OutputBuffer.toList_truncate]
      exact List.length_take_le' _ _

/-- Undoing while the machine waits leaves it waiting, with nothing to read. -/
theorem KeepsWaiting.starved_undo? {s u : Session} (h : s.KeepsWaiting)
    (hopen : s.input.closed = false) (hundo : s.undo? = some u) : u.machine.Starved u.input := by
  obtain ⟨-, hinput, -, snapshot, hmem, hmachine⟩ := of_undo? hundo
  rw [hmachine, hinput]
  refine ⟨?_, rfl, hopen⟩
  have hsame : (s.machine.restore snapshot).heap.program =
      (Machine.ofSnapshot snapshot).heap.program := by
    rw [Machine.ofSnapshot, Machine.program_restore, Machine.program_restore]
  exact (h snapshot hmem).congr rfl hsame

end Session

namespace PlainConsole

variable {patience : Nat} {c : PlainConsole} {w : World}

/-! ## What turns preserve -/

/-- All of the transcript has been printed; or it got shorter since, and then the machine
    waits and there is nothing to read. -/
structure Settled (c : PlainConsole) : Prop where
  keepsWaiting : c.session.KeepsWaiting
  printed : c.echoed = c.session.transcript.size ∨
    (c.session.transcript.size ≤ c.echoed ∧ c.session.machine.Starved c.session.input)

theorem settled_start (machine : Machine) (limit : Nat) :
    Settled { session := .start machine limit } where
  keepsWaiting := nofun
  printed := .inl rfl

/-- A turn prints what the machine emits in it. -/
theorem Settled.echoes_eq (h : c.Settled) : c.echoes patience = c.session.emitted patience := by
  have htranscript := c.session.toList_transcript_run patience
  show (c.session.run patience).2.transcript.toList.drop c.echoed = _
  rw [htranscript]
  rcases h.printed with heq | ⟨hle, hstarved⟩
  · rw [heq, ← OutputBuffer.length_toList, List.drop_left]
  · -- the machine emits nothing, and what there is was printed before
    rw [Session.emitted_of_starved hstarved, List.append_nil]
    apply List.drop_of_length_le
    rwa [OutputBuffer.length_toList]

theorem Settled.of_leads {c' : PlainConsole} (h : c.Settled) (hleads : c.Leads patience w (.inl c')) :
    c'.Settled := by
  have hrun : (c.session.run patience).2.KeepsWaiting := h.keepsWaiting
  cases hleads with
  | cut => exact ⟨hrun, .inl rfl⟩
  | answered hneeded hline =>
    have hstarved := Session.starved_of_run hneeded
    cases hline with
    | heeded ht =>
      refine ⟨ht.keepsWaiting hrun hstarved.awaits, .inl ?_⟩
      exact congrArg OutputBuffer.size ht.transcript_eq.symm
    | undone _ hu =>
      -- the one case in which less is left than was printed
      obtain ⟨hsubset, -, hsize, -⟩ := Session.of_undo? hu
      refine ⟨fun snapshot hmem => hrun snapshot (hsubset hmem), .inr ⟨hsize, ?_⟩⟩
      exact hrun.starved_undo? hstarved.still_open hu

/-! ## Whole runs -/

instance (patience : Nat) (c : PlainConsole) (w : World) : Decidable (c.Undoes patience w) :=
  inferInstanceAs (Decidable (_ ∧ _ ∧ _))

/-- Everything that the machine emits in some turns, in order. -/
def emittedIn (patience : Nat) (turns : List (PlainConsole × World)) : Bytes :=
  turns.flatMap fun turn => turn.1.session.emitted patience

theorem emittedIn_nil : emittedIn patience [] = [] := rfl

theorem emittedIn_cons (turn : PlainConsole × World) (rest : List (PlainConsole × World)) :
    emittedIn patience (turn :: rest) =
      turn.1.session.emitted patience ++ emittedIn patience rest := rfl

/-- What the loop prints. -/
theorem Settled.output_loop (h : c.Settled) (rounds : Nat) (w : World) :
    (StateT.run (loop patience rounds c : StateM World _) w).2.output.toList =
      w.output.toList ++ emittedIn patience (turns patience rounds c w) := by
  induction rounds generalizing c w with
  | zero => exact (List.append_nil _).symm
  | succ rounds ih =>
    obtain ⟨houtput, hleads⟩ := leads_turn patience c w
    rw [run_loop_succ, turns]
    rcases hturn : StateT.run (c.turn patience : StateM World _) w with ⟨c' | ending, w'⟩
    · -- what this turn prints comes before what the later turns print
      rw [hturn] at houtput hleads
      have hnext := ih (h.of_leads hleads) w'
      rw [emittedIn_cons, ← List.append_assoc, ← h.echoes_eq]
      show (StateT.run (loop patience rounds c' : StateM World _) w').2.output.toList = _
      rw [hnext, houtput, Array.toList_appendList]
    · rw [hturn] at houtput
      rw [emittedIn_cons, ← h.echoes_eq]
      show w'.output.toList = _
      rw [houtput, Array.toList_appendList, emittedIn_nil, List.append_nil]

/-- Where a turn ends the loop, it leaves the session as the run left it. -/
theorem Leads.session?_eq {ending : PlainEnding} {s : Session}
    (h : c.Leads patience w (.inr ending)) (hs : ending.session? = some s) :
    s = (c.session.run patience).2 := by
  cases h with
  | halted => exact (Option.some.inj hs).symm
  | faulted => exact (Option.some.inj hs).symm
  | answered _ hline =>
    cases hline with
    | quit => exact (Option.some.inj hs).symm
    | unreadable => cases hs

/-- Only undoing takes something out of the transcript. -/
theorem Leads.transcript_eq {c' : PlainConsole} (h : c.Leads patience w (.inl c'))
    (hundoes : ¬c.Undoes patience w) :
    c'.session.transcript = (c.session.run patience).2.transcript := by
  cases h with
  | cut => rfl
  | answered hneeded hline =>
    cases hline with
    | heeded ht => exact ht.transcript_eq
    | undone hasked hu => exact absurd ⟨hneeded, hasked, Option.isSome_of_eq_some hu⟩ hundoes

/-- Without a successful undo, the transcript at the end holds all that was emitted. -/
theorem transcript_loop {rounds : Nat} {ending : PlainEnding} {s : Session}
    (hnever : ∀ turn ∈ turns patience rounds c w, ¬turn.1.Undoes patience turn.2)
    (hending : (StateT.run (loop patience rounds c : StateM World _) w).1 = some ending)
    (hs : ending.session? = some s) :
    s.transcript.toList =
      c.session.transcript.toList ++ emittedIn patience (turns patience rounds c w) := by
  induction rounds generalizing c w with
  | zero => cases hending
  | succ rounds ih =>
    obtain ⟨-, hleads⟩ := leads_turn patience c w
    have hrun := c.session.toList_transcript_run patience
    rw [run_loop_succ] at hending
    rw [turns] at hnever ⊢
    rcases hturn : StateT.run (c.turn patience : StateM World _) w with ⟨c' | ended, w'⟩
    · -- the transcript is handed on as it is, since this turn undoes nothing
      rw [hturn] at hending hleads hnever
      have hnow : ¬c.Undoes patience w := hnever (c, w) List.mem_cons_self
      have hlater := ih (fun turn hmem => hnever turn (List.mem_cons_of_mem _ hmem)) hending
      rw [hlater, hleads.transcript_eq hnow, hrun, List.append_assoc, emittedIn_cons]
    · rw [hturn] at hending hleads
      obtain rfl := Option.some.inj hending
      rw [hleads.session?_eq hs, hrun, emittedIn_cons, emittedIn_nil, List.append_nil]

end PlainConsole

/-! ## The output file -/

namespace Launch

/-- At the end nothing is printed. The transcript goes into the file that was asked for, or
    the file was refused, and then the program fails and no file changes. -/
theorem run_finish (options : Options) (s : Session) (code : UInt32) (w : World) :
    (StateT.run (finish options s code : StateM World _) w).2.output = w.output ∧
      ∀ path, options.output = some path →
        w.disk.write path s.transcript.toList =
            .ok (StateT.run (finish options s code : StateM World _) w).2.disk ∨
          (∃ e, w.disk.write path s.transcript.toList = .error e) ∧
            (StateT.run (finish options s code : StateM World _) w).1 = failure ∧
            (StateT.run (finish options s code : StateM World _) w).2.disk = w.disk := by
  rw [finish]
  cases options.output with
  | none => exact ⟨rfl, nofun⟩
  | some path =>
    dsimp only
    rw [StateT.run_bind, World.run_writeFile]
    cases hwrite : w.disk.write path s.transcript.toList with
    | ok disk =>
      refine ⟨rfl, fun _ h => ?_⟩
      cases h
      exact .inl hwrite
    | error e =>
      refine ⟨rfl, fun _ h => ?_⟩
      cases h
      exact .inr ⟨⟨e, hwrite⟩, rfl, rfl⟩

/-- The console runs to its end, and then the output file is written if the machine halted
    or faulted or the user quit. -/
theorem run_runPlain (rounds patience : Nat) (options : Options) (session : Session) (w : World) :
    StateT.run (runPlain rounds patience options session : StateM World _) w =
      match StateT.run (PlainConsole.loop patience rounds { session } : StateM World _) w with
      | (some (.finished s), w) => StateT.run (finish options s success : StateM World _) w
      | (some (.faulted s), w) => StateT.run (finish options s failure : StateM World _) w
      | (some .unreadable, w) =>
        StateT.run (fail s!"Error: {unreadableInput}" : StateM World _) w
      | (none, w) => (failure, w) := by
  rw [runPlain, StateT.run_bind]
  obtain ⟨_ | ⟨_ | _ | _⟩, w'⟩ :=
    StateT.run (PlainConsole.loop patience rounds { session } : StateM World _) w
  · rfl
  · rfl
  · rfl
  · rfl

/-- Ending a session prints nothing. -/
theorem output_runPlain (rounds patience : Nat) (options : Options) (session : Session)
    (w : World) :
    (StateT.run (runPlain rounds patience options session : StateM World _) w).2.output =
      (StateT.run (PlainConsole.loop patience rounds { session } : StateM World _) w).2.output := by
  rw [run_runPlain]
  obtain ⟨_ | ⟨s | s | _⟩, w'⟩ :=
    StateT.run (PlainConsole.loop patience rounds { session } : StateM World _) w
  · rfl
  · exact (run_finish options s success w').1
  · exact (run_finish options s failure w').1
  · rfl

/-- What became of the output file, if the machine halted or faulted or the user quit. -/
theorem disk_runPlain {rounds patience : Nat} {options : Options} {session s : Session}
    {ending : PlainEnding} {w w' : World}
    (hloop : StateT.run (PlainConsole.loop patience rounds { session } : StateM World _) w =
      (some ending, w')) (hs : ending.session? = some s) {path : String}
    (hpath : options.output = some path) :
    w'.disk.write path s.transcript.toList =
        .ok (StateT.run (runPlain rounds patience options session : StateM World _) w).2.disk ∨
      (∃ e, w'.disk.write path s.transcript.toList = .error e) ∧
        (StateT.run (runPlain rounds patience options session : StateM World _) w).1 = failure ∧
        (StateT.run (runPlain rounds patience options session : StateM World _) w).2.disk =
          w'.disk := by
  rw [run_runPlain, hloop]
  cases ending with
  | finished t =>
    cases hs
    exact (run_finish options s success w').2 path hpath
  | faulted t =>
    cases hs
    exact (run_finish options s failure w').2 path hpath
  | unreadable => cases hs

/-- For every machine, every standard input and all files: standard output gets all bytes
    that the machine emits in all its runs, in order, each of them once.

    If the machine halts or faults or the user quits, the transcript that is left goes into
    the output file, which then holds it, unless the path is refused or leads to a device.
    If no undo succeeded, the transcript is all that was emitted. -/
theorem plain_prints_every_byte_once (rounds patience : Nat) (options : Options)
    (machine : Machine) (limit : Nat) (w : World) :
    let console : PlainConsole := { session := .start machine limit }
    let turns := console.turns patience rounds w
    let ended := StateT.run (console.loop patience rounds : StateM World _) w
    let final :=
      StateT.run (runPlain rounds patience options (.start machine limit) : StateM World _) w
    final.2.output.toList = w.output.toList ++ PlainConsole.emittedIn patience turns ∧
    ∀ s, ended.1.bind PlainEnding.session? = some s →
      (∀ path, options.output = some path →
        (ended.2.disk.write path s.transcript.toList = .ok final.2.disk ∧
          ((∀ device, ended.2.disk.find path ≠ .ok (.device device)) →
            final.2.disk.read path = .ok s.transcript.toList)) ∨
        ((∃ e, ended.2.disk.write path s.transcript.toList = .error e) ∧
          final.1 = failure ∧ final.2.disk = ended.2.disk)) ∧
      ((∀ turn ∈ turns, ¬turn.1.Undoes patience turn.2) →
        s.transcript.toList = PlainConsole.emittedIn patience turns) := by
  intro console turns ended final
  have hsettled : console.Settled := PlainConsole.settled_start machine limit
  refine ⟨?_, fun s hs => ?_⟩
  · rw [output_runPlain]
    exact hsettled.output_loop rounds w
  · obtain ⟨ending, hending, hsession⟩ := Option.bind_eq_some_iff.1 hs
    refine ⟨fun path hpath => ?_, fun hnever => ?_⟩
    · have hloop : ended = (some ending, ended.2) := Prod.ext hending rfl
      rcases disk_runPlain hloop hsession hpath with hwrite | hrefused
      · exact .inl ⟨hwrite, Disk.read_of_write hwrite⟩
      · exact .inr hrefused
    · exact PlainConsole.transcript_loop hnever hending hsession

/-- A machine that prints what it reads. -/
def echoer : Machine :=
  .ofProgram #[Instruction.assembleStandard 11 0 0 1, Instruction.assembleStandard 10 0 0 1,
    Instruction.assembleStandard 12 0 0 0]

/-- Surroundings in which a text was typed. -/
def typed (text : String) : World :=
  { input := { rest := Text.Utf8.encode text } }

/-- Options that ask for an output file. -/
def toFile : Options :=
  { program := "echo", output := some "out" }

theorem plain_prints_every_byte_once_echoer :
    (StateT.run (runPlain 9 20 toFile (.start echoer 1000) : StateM World _)
      (typed "a\n:undo\nb\n:quit\n")).2.output.toList = Text.Utf8.encode "a\nb\n" ∧
    (StateT.run (runPlain 9 20 toFile (.start echoer 1000) : StateM World _)
      (typed "a\nb\n:quit\n")).2.disk.read "out" = .ok (Text.Utf8.encode "a\nb\n") := by
  constructor
  · have h := plain_prints_every_byte_once 9 20 toFile echoer 1000 (typed "a\n:undo\nb\n:quit\n")
    have hemitted : PlainConsole.emittedIn 20 (PlainConsole.turns 20 9
        { session := .start echoer 1000 } (typed "a\n:undo\nb\n:quit\n")) =
          Text.Utf8.encode "a\nb\n" := by
      decide +kernel
    rw [h.1, hemitted]
    rfl
  · have h := plain_prints_every_byte_once 9 20 toFile echoer 1000 (typed "a\nb\n:quit\n")
    have hquit : ((StateT.run (PlainConsole.loop 20 9 { session := .start echoer 1000 } :
        StateM World _) (typed "a\nb\n:quit\n")).1.bind PlainEnding.session?).isSome = true := by
      decide +kernel
    obtain ⟨s, hs⟩ := Option.isSome_iff_exists.1 hquit
    obtain ⟨hfile, htranscript⟩ := h.2 s hs
    have hnever : ∀ turn ∈ PlainConsole.turns 20 9 { session := .start echoer 1000 }
        (typed "a\nb\n:quit\n"), ¬turn.1.Undoes 20 turn.2 := by
      decide +kernel
    have hemitted : PlainConsole.emittedIn 20 (PlainConsole.turns 20 9
        { session := .start echoer 1000 } (typed "a\nb\n:quit\n")) =
          Text.Utf8.encode "a\nb\n" := by
      decide +kernel
    have hfree : (StateT.run (PlainConsole.loop 20 9 { session := .start echoer 1000 } :
        StateM World _) (typed "a\nb\n:quit\n")).2.disk.find "out" = .error .notFound := by
      decide +kernel
    have hsucceeds : (StateT.run (runPlain 9 20 toFile (.start echoer 1000) : StateM World _)
        (typed "a\nb\n:quit\n")).1 = success := by
      decide +kernel
    rcases hfile "out" rfl with ⟨-, hread⟩ | ⟨-, hfails, -⟩
    · rw [hfree] at hread
      rw [hread nofun, htranscript hnever, hemitted]
    · rw [hsucceeds] at hfails
      cases hfails

end Launch

end UniversalMachine
