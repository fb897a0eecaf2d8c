/-
  UniversalMachine.Proofs.PlainTurns

  What one turn of the plain console can do, and the turns it takes.

  A turn runs the machine once, prints, and perhaps reads a line. `PlainConsole.Leads`
  lists what may come of it, one case for each way in which the run can end; what may
  come of a line is `PlainConsole.Ensues`, with a case of its own for a line that takes
  back a command. The console's surroundings decide only which of the cases it is, and
  standard output gets nothing but what the turn echoes (`leads_turn`).

  `PlainConsole.turns` lists all turns that the loop takes, each with the console and
  the world it starts from. There is one run of the machine in each.
-/

import UniversalMachine.Console.Launch
import UniversalMachine.Console.World
import UniversalMachine.Proofs.Resumption
import UniversalMachine.Proofs.SessionOperations

namespace UniversalMachine

/-! ## Files in a world -/

namespace World

theorem run_writeFile (w : World) (path : String) (contents : Bytes) :
    StateT.run (FileSystem.writeFile path contents : StateM World _) w =
      match w.disk.write path contents with
      | .ok disk => (.ok (), { w with disk })
      | .error e => (.error e, w) := by
  simp only [FileSystem.writeFile, StateT.run_bind, StateT.run_get, pure_bind]
  cases w.disk.write path contents with
  | ok disk => rfl
  | error e => rfl

/-- Saving changes nothing but files. -/
theorem run_save (w : World) (s : Snapshot) (path : String) :
    ∃ result disk, StateT.run (s.save path : StateM World _) w = (result, { w with disk }) := by
  rw [Snapshot.save, StateT.run_bind, run_writeFile]
  cases w.disk.write path s.encode with
  | ok disk => exact ⟨.ok (), disk, rfl⟩
  | error e => exact ⟨.error (.io e), w.disk, rfl⟩

/-- Loading changes nothing. -/
theorem run_load (w : World) (path : String) :
    ∃ result, StateT.run (Snapshot.load path : StateM World _) w = (result, w) := by
  rw [Snapshot.run_load]
  exact ⟨_, rfl⟩

end World

/-! ## Commands -/

namespace Session

/-- What a line can make of a session, other than by taking back a command. -/
inductive Heeds (s : Session) : Session → Prop
  | kept : Heeds s s
  | closed : Heeds s s.closeInput
  | submitted (line : String) : Heeds s (s.submitLine line).2
  | loaded (snapshot : Snapshot) : Heeds s (s.replaceMachine snapshot).2

/-- A command leaves the session to go on with, in a world in which only files have changed;
    or it takes back a command; or it ends the session. -/
theorem perform_cases (s : Session) (command : Command) (w : World) :
    (∃ response t disk,
      StateT.run (s.perform command : StateM World _) w = ((response, t), { w with disk }) ∧
        response ≠ .quit ∧ s.Heeds t) ∨
    (command = .undo ∧ ∃ u,
      StateT.run (s.perform command : StateM World _) w = ((.undone true, u), w) ∧
        s.undo? = some u) ∨
    StateT.run (s.perform command : StateM World _) w = ((.quit, s), w) := by
  cases command with
  | input line => exact .inl ⟨_, _, w.disk, rfl, nofun, .submitted line⟩
  | save path =>
    obtain ⟨result, disk, hsave⟩ := w.run_save s.machine.capture path
    refine .inl ⟨.saved path result, s, disk, ?_, nofun, .kept⟩
    rw [perform, StateT.run_bind, saveState, hsave]
    rfl
  | load path =>
    obtain ⟨result, hload⟩ := w.run_load path
    rw [perform, StateT.run_bind, run_loadState, hload]
    cases result with
    | error e => exact .inl ⟨_, s, w.disk, rfl, nofun, .kept⟩
    | ok snapshot => exact .inl ⟨_, _, w.disk, rfl, nofun, .loaded snapshot⟩
  | undo =>
    rw [perform]
    cases hundo : s.undo? with
    | none => exact .inl ⟨_, s, w.disk, rfl, nofun, .kept⟩
    | some u => exact .inr (.inl ⟨rfl, u, rfl, rfl⟩)
  | quit => exact .inr (.inr rfl)

end Session

/-! ## Turns -/

/-- The session that was left when the program halted or faulted or the user quit. -/
def PlainEnding.session? : PlainEnding → Option Session
  | .finished session => some session
  | .faulted session => some session
  | .unreadable => none

namespace PlainConsole

/-- What the next line of standard input asks for, if it is text. -/
def asked? (w : World) : Option (Except CommandError Command) :=
  (Text.Utf8.decode? w.input.readLine.1).map fun line =>
    Command.parse (String.ofList (withoutLineEnding line))

/-- In this turn the machine wants input, the next line asks to undo, and there is something
    to undo. -/
def Undoes (patience : Nat) (c : PlainConsole) (w : World) : Prop :=
  (c.session.run patience).1 = .inputNeeded ∧ asked? w = some (.ok .undo) ∧
    (c.session.run patience).2.undo?.isSome = true

/-- The console when the run of a turn is over and its output has been printed. -/
def afterEcho (patience : Nat) (c : PlainConsole) : PlainConsole where
  session := (c.session.run patience).2
  echoed := (c.session.run patience).2.transcript.size

/-- What a turn prints. -/
def echoes (patience : Nat) (c : PlainConsole) : Bytes :=
  unprinted { c with session := (c.session.run patience).2 }

/-- What a line can lead to; `undoing` says that it asks to undo. -/
inductive Ensues (undoing : Prop) (c : PlainConsole) : PlainConsole ⊕ PlainEnding → Prop
  | heeded {t : Session} (ht : c.session.Heeds t) :
      Ensues undoing c (.inl { c with session := t })
  | undone {u : Session} (h : undoing) (hu : c.session.undo? = some u) :
      Ensues undoing c (.inl { c with session := u })
  | quit : Ensues undoing c (.inr (.finished c.session))
  | unreadable : Ensues undoing c (.inr .unreadable)

/-- What a turn can lead to. -/
inductive Leads (patience : Nat) (c : PlainConsole) (w : World) :
    PlainConsole ⊕ PlainEnding → Prop
  | halted (h : (c.session.run patience).1 = .halted) :
      Leads patience c w (.inr (.finished (c.session.run patience).2))
  | faulted {f : Fault} (h : (c.session.run patience).1 = .fault f) :
      Leads patience c w (.inr (.faulted (c.session.run patience).2))
  | cut (h : (c.session.run patience).1.cutShort = true) :
      Leads patience c w (.inl (c.afterEcho patience))
  | answered {next : PlainConsole ⊕ PlainEnding} (h : (c.session.run patience).1 = .inputNeeded)
      (hline : (c.afterEcho patience).Ensues (asked? w = some (.ok .undo)) next) :
      Leads patience c w next

/-! ### Lines -/

/-- Where a response takes the console. -/
def proceed (c : PlainConsole) (session : Session) : Response → PlainConsole ⊕ PlainEnding
  | .quit => .inr (.finished session)
  | _ => .inl { c with session }

theorem proceed_of_ne_quit (c : PlainConsole) (session : Session) {response : Response}
    (h : response ≠ .quit) : c.proceed session response = .inl { c with session } := by
  cases response with
  | quit => exact absurd rfl h
  | queued checkpoint => rfl
  | saved path result => rfl
  | loaded path result => rfl
  | undone found => rfl

/-- Obeying a command is carrying it out, telling the user, and proceeding by the response. -/
theorem run_obey_of_perform {c : PlainConsole} {line : String} {command : Command}
    (hparse : Command.parse line = .ok command) {w w' : World} {response : Response}
    {session : Session}
    (h : StateT.run (c.session.perform command : StateM World _) w = ((response, session), w')) :
    ∃ reports, StateT.run (c.obey line : StateM World _) w =
      (c.proceed session response, { w' with reports }) := by
  rw [obey, hparse]
  dsimp only
  rw [StateT.run_bind, h]
  -- telling the user is the only effect left
  dsimp only [bind]
  cases response.message? checkpointWarning with
  | none =>
    refine ⟨w'.reports, ?_⟩
    cases response <;> rfl
  | some message =>
    refine ⟨w'.reports.push message, ?_⟩
    cases response <;> rfl

/-- What obeying a line can lead to, and that it prints nothing. -/
theorem ensues_obey (c : PlainConsole) (line : String) (w : World) :
    (StateT.run (c.obey line : StateM World _) w).2.output = w.output ∧
      c.Ensues (Command.parse line = .ok .undo)
        (StateT.run (c.obey line : StateM World _) w).1 := by
  cases hparse : Command.parse line with
  | error e =>
    rw [obey, hparse]
    exact ⟨rfl, .heeded .kept⟩
  | ok command =>
    obtain ⟨response, t, disk, hrun, hne, ht⟩ | ⟨rfl, u, hrun, hu⟩ | hrun :=
      c.session.perform_cases command w
    · obtain ⟨reports, hobey⟩ := run_obey_of_perform hparse hrun
      rw [hobey, proceed_of_ne_quit c t hne]
      exact ⟨rfl, .heeded ht⟩
    · obtain ⟨reports, hobey⟩ := run_obey_of_perform hparse hrun
      rw [hobey]
      exact ⟨rfl, .undone rfl hu⟩
    · obtain ⟨reports, hobey⟩ := run_obey_of_perform hparse hrun
      rw [hobey]
      exact ⟨rfl, .quit⟩

theorem run_readAndObey (c : PlainConsole) (w : World) :
    StateT.run (c.readAndObey : StateM World _) w =
      (if w.input.readLine.1.isEmpty = true then
        (.inl { c with session := c.session.closeInput }, { w with input := w.input.readLine.2 })
      else match Text.Utf8.decode? w.input.readLine.1 with
        | none => (.inr .unreadable, { w with input := w.input.readLine.2 })
        | some line =>
          StateT.run (c.obey (String.ofList (withoutLineEnding line)) : StateM World _)
            { w with input := w.input.readLine.2 } : (PlainConsole ⊕ PlainEnding) × World) := by
  have hread : StateT.run (Terminal.readLine : StateM World _) w =
      (w.input.readLine.1, { w with input := w.input.readLine.2 }) := rfl
  rw [readAndObey, StateT.run_bind, hread]
  show StateT.run (if w.input.readLine.1.isEmpty = true then _ else _ : StateM World _)
    { w with input := w.input.readLine.2 } = _
  split
  · rfl
  · cases Text.Utf8.decode? w.input.readLine.1 with
    | none => rfl
    | some line => rfl

/-- What reading a line can lead to, and that it prints nothing. -/
theorem ensues_readAndObey (c : PlainConsole) (w : World) :
    (StateT.run (c.readAndObey : StateM World _) w).2.output = w.output ∧
      c.Ensues (asked? w = some (.ok .undo)) (StateT.run (c.readAndObey : StateM World _) w).1 := by
  rw [run_readAndObey]
  by_cases hend : w.input.readLine.1.isEmpty = true
  · rw [if_pos hend]
    exact ⟨rfl, .heeded .closed⟩
  · rw [if_neg hend]
    cases hline : Text.Utf8.decode? w.input.readLine.1 with
    | none => exact ⟨rfl, .unreadable⟩
    | some line =>
      have hasked : asked? w = some (Command.parse (String.ofList (withoutLineEnding line))) := by
        rw [asked?, hline, Option.map_some]
      rw [hasked, Option.some_inj]
      exact c.ensues_obey (String.ofList (withoutLineEnding line))
        { w with input := w.input.readLine.2 }

/-! ### The turn -/

/-- A turn as what it does after echoing. -/
theorem run_turn (patience : Nat) (c : PlainConsole) (w : World) :
    StateT.run (c.turn patience : StateM World _) w =
      match (c.session.run patience).1 with
      | .halted =>
        (.inr (.finished (c.session.run patience).2),
          { w with output := w.output ++ c.echoes patience })
      | .stopRequested =>
        (.inl (c.afterEcho patience), { w with output := w.output ++ c.echoes patience })
      | .timeExpired =>
        (.inl (c.afterEcho patience), { w with output := w.output ++ c.echoes patience })
      | .inputNeeded =>
        StateT.run ((c.afterEcho patience).readAndObey : StateM World _)
          { w with output := w.output ++ c.echoes patience }
      | .fault f =>
        (.inr (.faulted (c.session.run patience).2),
          { w with
            output := w.output ++ c.echoes patience
            reports := w.reports.push s!"Machine fault: {f.message}" }) := by
  -- running and echoing come first in every turn; the outcome decides what is left to do
  rw [turn]
  show StateT.run (match (c.session.run patience).1 with
    | .halted => return .inr (.finished (c.session.run patience).2)
    | .stopRequested => return .inl (c.afterEcho patience)
    | .timeExpired => return .inl (c.afterEcho patience)
    | .inputNeeded => (c.afterEcho patience).readAndObey
    | .fault f => do
      Terminal.report s!"Machine fault: {f.message}"
      return .inr (.faulted (c.session.run patience).2) : StateM World _)
    { w with output := w.output ++ c.echoes patience } = _
  cases (c.session.run patience).1 <;> rfl

/-- One turn: what it prints, and what it can lead to. -/
theorem leads_turn (patience : Nat) (c : PlainConsole) (w : World) :
    (StateT.run (c.turn patience : StateM World _) w).2.output = w.output ++ c.echoes patience ∧
      c.Leads patience w (StateT.run (c.turn patience : StateM World _) w).1 := by
  rw [run_turn]
  cases h : (c.session.run patience).1 with
  | halted => exact ⟨rfl, .halted h⟩
  | stopRequested => exact ⟨rfl, .cut (by rw [h]; rfl)⟩
  | timeExpired => exact ⟨rfl, .cut (by rw [h]; rfl)⟩
  | fault f => exact ⟨rfl, .faulted h⟩
  | inputNeeded =>
    obtain ⟨houtput, hline⟩ :=
      (c.afterEcho patience).ensues_readAndObey { w with output := w.output ++ c.echoes patience }
    exact ⟨houtput, .answered h hline⟩

/-! ## The loop -/

/-- The turns the loop takes, each with the console and the world it starts from. -/
def turns (patience : Nat) : (rounds : Nat) → PlainConsole → World → List (PlainConsole × World)
  | 0, _, _ => []
  | rounds + 1, c, w =>
    (c, w) ::
      match StateT.run (c.turn patience : StateM World _) w with
      | (.inl c, w) => turns patience rounds c w
      | (.inr _, _) => []

theorem run_loop_succ (patience rounds : Nat) (c : PlainConsole) (w : World) :
    StateT.run (loop patience (rounds + 1) c : StateM World _) w =
      match StateT.run (c.turn patience : StateM World _) w with
      | (.inl c, w) => StateT.run (loop patience rounds c : StateM World _) w
      | (.inr ending, w) => (some ending, w) := by
  rw [loop, StateT.run_bind]
  obtain ⟨_ | ending, w'⟩ := StateT.run (c.turn patience : StateM World _) w
  · rfl
  · rfl

end PlainConsole

end UniversalMachine
