/-
  UniversalMachine.Proofs.ConsoleAgreement

  The two consoles do the same with the same lines.

  What they should do is said by `Session.Hears`: before each line the machine runs to
  its end, which has to be a want of input, then the line is obeyed, and after the last
  line the machine runs to its end once more. The plain console does this as long as
  there are lines to read (`PlainConsole.hears_of_restsAt?`), although it runs the machine
  again after every command. The full-screen console does it as well
  (`FullScreen.session_eq_of_fed`), although it runs only what it believes to have work
  to do.
-/

import UniversalMachine.Proofs.Decoding
import UniversalMachine.Proofs.Settling

namespace UniversalMachine

/-! ## Lines on standard input -/

theorem StandardInput.splitLine_append {line : Bytes} (h : newline ∉ line) (rest : Bytes) :
    splitLine (line ++ newline :: rest) = (line ++ [newline], rest) := by
  induction line with
  | nil => rfl
  | cons byte line ih =>
    have hne : byte ≠ newline := fun heq => h (heq ▸ List.mem_cons_self)
    rw [List.cons_append, splitLine, if_neg hne, ih (fun hmem => h (List.mem_cons_of_mem _ hmem))]
    rfl

namespace PlainConsole

/-- A text that can be typed as a line: there is no newline in it, and it does not end in
    a carriage return, which would be taken for a part of the line's ending. -/
def IsLine (line : String) : Prop :=
  '\n' ∉ line.toList ∧ line.toList.getLast? ≠ some '\r'

instance : DecidablePred IsLine := fun _ => inferInstanceAs (Decidable (_ ∧ _))

variable {line : String}

theorem withoutLineEnding_append (h : IsLine line) :
    withoutLineEnding (line.toList ++ ['\n']) = line.toList := by
  obtain ⟨hnewline, hreturn⟩ := h
  have hkept : line.toList.reverse.dropWhile (fun c => c = '\n' || c = '\r') =
      line.toList.reverse := by
    cases hlast : line.toList.reverse with
    | nil => rfl
    | cons last front =>
      have hmem : last ∈ line.toList := by
        rw [← List.mem_reverse, hlast]
        exact List.mem_cons_self
      have hne : last ≠ '\n' := fun heq => hnewline (heq ▸ hmem)
      have hne' : last ≠ '\r' := by
        rintro rfl
        rw [← List.head?_reverse, hlast] at hreturn
        exact hreturn rfl
      rw [List.dropWhile_cons_of_neg (by simp [hne, hne'])]
  rw [withoutLineEnding, List.reverse_append, List.reverse_singleton, List.singleton_append,
    List.dropWhile_cons_of_pos (by simp), hkept, List.reverse_reverse]

theorem decode?_lineBytes (line : String) :
    Text.Utf8.decode? (InputQueue.lineBytes line) = some (line.toList ++ ['\n']) := by
  have hbytes : InputQueue.lineBytes line =
      Text.Utf8.encode (String.ofList (line.toList ++ ['\n'])) := by
    rw [Text.Utf8.encode, String.toList_ofList, List.flatMap_append]
    rfl
  rw [hbytes, Text.Utf8.decode?_encode, String.toList_ofList]

theorem readLine_lineBytes (h : IsLine line) {input : StandardInput} {rest : Bytes}
    (hinput : input.rest = InputQueue.lineBytes line ++ rest) :
    input.readLine = (InputQueue.lineBytes line, { input with rest }) := by
  have hnewline : newline ∉ Text.Utf8.encode line := mt Text.Utf8.newline_mem_encode_iff.1 h.1
  rw [InputQueue.lineBytes, List.append_assoc, List.singleton_append] at hinput
  rw [StandardInput.readLine, hinput, StandardInput.splitLine_append hnewline]
  rfl

/-- A line that was typed is obeyed as it was typed. -/
theorem run_readAndObey_line (h : IsLine line) (c : PlainConsole) {w : World} {rest : Bytes}
    (hinput : w.input.rest = InputQueue.lineBytes line ++ rest) :
    StateT.run (c.readAndObey : StateM World _) w =
      StateT.run (c.obey line : StateM World _) { w with input := { w.input with rest } } := by
  have hsome : ¬(InputQueue.lineBytes line).isEmpty = true := by
    rw [InputQueue.lineBytes]
    simp
  rw [run_readAndObey, readLine_lineBytes h hinput, if_neg hsome, decode?_lineBytes]
  dsimp only
  rw [withoutLineEnding_append h, String.ofList_toList]

end PlainConsole

/-! ## What a line does -/

namespace Session

variable {φ : Type} [FileSystem (StateM φ)] {s t : Session}

/-- The session and the files after a line. A line that is not understood does nothing. -/
def obey (s : Session) (files : φ) (line : String) : Session × φ :=
  match Command.parse line with
  | .error _ => (s, files)
  | .ok command =>
    let ((_, t), files) := StateT.run (s.perform command : StateM φ _) files
    (t, files)

theorem obey_of_quit {line : String} (h : Command.parse line = .ok .quit) (s : Session)
    (files : φ) : s.obey files line = (s, files) := by
  rw [obey, h]
  rfl

/-- What every change to a session preserves, commands preserve. -/
theorem Invariant.responds {P : Session → Prop} (inv : Invariant P) (h : P s) {response : Response}
    (hresponds : s.Responds response t) : P t := by
  cases hresponds with
  | queued line => exact inv.submitLine h line
  | loaded path snapshot => exact inv.restore (inv.tryCheckpoint h) snapshot
  | undone hundo => exact inv.undo h hundo
  | saved path result | notLoaded path e | notUndone | quit => exact h

theorem Invariant.obey {P : Session → Prop} (inv : Invariant P) (h : P s) (files : φ)
    (line : String) : P (s.obey files line).1 := by
  rw [Session.obey]
  cases Command.parse line with
  | error e => exact h
  | ok command => exact inv.responds h (s.responds_perform command files)

/-- Lines are heard one after the other, each by a machine that wants input, and after them
    the machine runs to its end. -/
inductive Hears : Session → φ → List String → Session → φ → Prop
  | done {s t : Session} {files : φ} (h : s.Concludes t) : Hears s files [] t files
  | line {s t u : Session} {files files' : φ} {line : String} {lines : List String}
      (h : s.Concludes t) (hwaits : t.lastOutcome = some .inputNeeded)
      (rest : Hears (t.obey files line).1 (t.obey files line).2 lines u files') :
      Hears s files (line :: lines) u files'

/-- Only what the session concludes in matters. -/
theorem Hears.congr {s' u : Session} {files files' : φ} {lines : List String}
    (h : s.Hears files lines u files') (hconcludes : ∀ t, s.Concludes t → s'.Concludes t) :
    s'.Hears files lines u files' := by
  cases h with
  | done h => exact .done (hconcludes _ h)
  | line h hwaits rest => exact .line (hconcludes _ h) hwaits rest

/-- A session that waits for input concludes in itself. -/
theorem concludes_run_self {patience : Nat} (h : (s.run patience).1 = .inputNeeded) :
    (s.run patience).2.Concludes (s.run patience).2 := by
  have hstep := Machine.Starved.step (c := (s.run patience).2.configuration) (starved_of_run h)
  exact concludes_self (congrArg some h) hstep

end Session

/-! ## The plain console -/

namespace World

/-- Commands see nothing of the world but its disk. -/
theorem run_perform (w : World) (s : Session) (command : Command) :
    StateT.run (s.perform command : StateM World _) w =
      let (answer, disk) := StateT.run (s.perform command : StateM Disk _) w.disk
      (answer, { w with disk }) := by
  cases command with
  | input line => rfl
  | save path =>
    rw [Session.perform, StateT.run_bind, Session.perform, StateT.run_bind, Session.saveState,
      Session.saveState, Snapshot.run_save, Snapshot.run_save, run_writeFile, Disk.run_writeFile]
    cases w.disk.write path s.machine.capture.encode with
    | ok disk => rfl
    | error e => rfl
  | load path =>
    have hread : StateT.run (FileSystem.readFile path : StateM World _) w =
        (w.disk.read path, w) := rfl
    have hread' : StateT.run (FileSystem.readFile path : StateM Disk _) w.disk =
        (w.disk.read path, w.disk) := rfl
    rw [Session.perform, StateT.run_bind, Session.perform, StateT.run_bind, Session.run_loadState,
      Session.run_loadState, Snapshot.run_load, Snapshot.run_load, hread, hread']
    dsimp only
    cases (w.disk.read path).mapError .io >>= Snapshot.decode with
    | ok snapshot => rfl
    | error e => rfl
  | undo =>
    rw [Session.perform, Session.perform]
    cases s.undo? with
    | some u => rfl
    | none => rfl
  | quit => rfl

end World

theorem Session.response_ne_quit {φ : Type} [FileSystem (StateM φ)] (s : Session)
    {command : Command} (h : command ≠ .quit) (files : φ) :
    (StateT.run (s.perform command : StateM φ _) files).1.1 ≠ .quit := by
  intro hquit
  cases command with
  | input line => cases hquit
  | save path => cases hquit
  | load path =>
    rw [perform, StateT.run_bind] at hquit
    cases hquit
  | undo =>
    rw [perform] at hquit
    cases hundo : s.undo? with
    | some u =>
      rw [hundo] at hquit
      cases hquit
    | none =>
      rw [hundo] at hquit
      cases hquit
  | quit => exact h rfl

namespace PlainConsole

variable {line : String} {patience rounds : Nat} {c : PlainConsole} {w w' : World} {s : Session}

/-- Obeying a line on the console does to the session and to the disk what the line does,
    unless it is asked to quit. -/
theorem run_obey (h : Command.parse line ≠ .ok .quit) (c : PlainConsole) (w : World) :
    ∃ reports, StateT.run (c.obey line : StateM World _) w =
      (.inl { c with session := (c.session.obey w.disk line).1 },
        { w with disk := (c.session.obey w.disk line).2, reports }) := by
  rw [Session.obey]
  cases hparse : Command.parse line with
  | error e =>
    rw [obey, hparse]
    exact ⟨w.reports.push e.message, rfl⟩
  | ok command =>
    have hne := c.session.response_ne_quit (fun heq => h (heq ▸ hparse)) w.disk
    have hworld := w.run_perform c.session command
    dsimp only
    generalize StateT.run (c.session.perform command : StateM Disk _) w.disk = result
      at hne hworld ⊢
    obtain ⟨⟨response, t⟩, disk⟩ := result
    obtain ⟨reports, hobey⟩ := run_obey_of_perform hparse hworld
    rw [hobey, proceed_of_ne_quit c t hne]
    exact ⟨reports, rfl⟩

theorem run_obey_of_quit (h : Command.parse line = .ok .quit) (c : PlainConsole) (w : World) :
    ∃ reports, StateT.run (c.obey line : StateM World _) w =
      (.inr (.finished c.session), { w with reports }) := by
  have hperform : StateT.run (c.session.perform .quit : StateM World _) w =
      ((.quit, c.session), w) := rfl
  exact run_obey_of_perform h hperform

/-- In this turn the machine wants input, and there is none. -/
def wantsMore (patience : Nat) (turn : PlainConsole × World) : Bool :=
  (turn.1.session.run patience).1 = .inputNeeded ∧ turn.2.input.rest = []

/-- Where the console comes to rest, in at most so many turns: where it would read past the end
    of standard input, or else where it ends. -/
def restsAt? (patience rounds : Nat) (c : PlainConsole) (w : World) : Option (Session × World) :=
  match (turns patience rounds c w).find? (wantsMore patience) with
  | some (c, w) => some ((c.session.run patience).2, w)
  | none =>
    match StateT.run (loop patience rounds c : StateM World _) w with
    | (some ending, w) => ending.session?.map (·, w)
    | (none, _) => none

theorem restsAt?_succ_of_wantsMore (h : (c.session.run patience).1 = .inputNeeded)
    (hrest : w.input.rest = []) :
    restsAt? patience (rounds + 1) c w = some ((c.session.run patience).2, w) := by
  have hwants : wantsMore patience (c, w) = true := by
    simp [wantsMore, h, hrest]
  rw [restsAt?, turns, List.find?_cons_of_pos hwants]

theorem restsAt?_succ (h : wantsMore patience (c, w) = false) :
    restsAt? patience (rounds + 1) c w =
      match StateT.run (c.turn patience : StateM World _) w with
      | (.inl c, w) => restsAt? patience rounds c w
      | (.inr ending, w) => ending.session?.map (·, w) := by
  rw [restsAt?, turns, List.find?_cons_of_neg (by simp [h]), run_loop_succ]
  rcases StateT.run (c.turn patience : StateM World _) w with ⟨_ | ending, w'⟩
  · rfl
  · rfl

/-- In a turn in which the machine wants input, a line that was typed is read and obeyed. -/
theorem run_turn_line (h : (c.session.run patience).1 = .inputNeeded) (hline : IsLine line)
    {rest : Bytes} (hinput : w.input.rest = InputQueue.lineBytes line ++ rest) :
    ∃ w₁ : World, w₁.disk = w.disk ∧ w₁.input.rest = rest ∧
      StateT.run (c.turn patience : StateM World _) w =
        StateT.run ((c.afterEcho patience).obey line : StateM World _) w₁ := by
  refine ⟨{ w with input := { w.input with rest }, output := w.output ++ c.echoes patience },
    rfl, rfl, ?_⟩
  rw [run_turn, h]
  exact run_readAndObey_line hline (c.afterEcho patience)
    (w := { w with output := w.output ++ c.echoes patience }) hinput

/-- Nothing was typed only if there are no lines. -/
theorem eq_nil_of_typed {lines : List String} (h : lines.flatMap InputQueue.lineBytes = []) :
    lines = [] := by
  cases lines with
  | nil => rfl
  | cons line lines =>
    rw [List.flatMap_cons, InputQueue.lineBytes] at h
    simp at h

/-- The console that has read all lines at its resting point has heard them. -/
theorem hears_of_restsAt? {lines : List String} (hlines : ∀ line ∈ lines, IsLine line)
    (hwilling : c.session.Willing) (hinput : w.input.rest = lines.flatMap InputQueue.lineBytes)
    (h : restsAt? patience rounds c w = some (s, w')) (hread : w'.input.rest = []) :
    c.session.Hears w.disk lines s w'.disk := by
  induction rounds generalizing c w lines with
  | zero => cases h
  | succ rounds ih =>
    cases houtcome : (c.session.run patience).1 with
    | stopRequested => exact absurd houtcome (hwilling.run_ne_stopRequested patience)
    | timeExpired =>
      -- the clock only splits a turn in two
      rw [restsAt?_succ (by simp [wantsMore, houtcome]), run_turn, houtcome] at h
      have hrest := ih (c := c.afterEcho patience)
        (w := { w with output := w.output ++ c.echoes patience }) hlines
        (Session.willing_invariant.run hwilling patience) hinput h
      exact hrest.congr fun t => (Session.concludes_run_iff houtcome).1
    | halted =>
      rw [restsAt?_succ (by simp [wantsMore, houtcome]), run_turn, houtcome] at h
      cases h
      obtain rfl := eq_nil_of_typed (hinput.symm.trans hread)
      exact .done (Session.concludes_run (by rw [houtcome]; exact nofun))
    | fault f =>
      rw [restsAt?_succ (by simp [wantsMore, houtcome]), run_turn, houtcome] at h
      cases h
      obtain rfl := eq_nil_of_typed (hinput.symm.trans hread)
      exact .done (Session.concludes_run (by rw [houtcome]; exact nofun))
    | inputNeeded =>
      have hconcludes : c.session.Concludes (c.session.run patience).2 :=
        Session.concludes_run (by rw [houtcome]; exact nofun)
      cases lines with
      | nil =>
        rw [restsAt?_succ_of_wantsMore houtcome hinput] at h
        cases h
        exact .done hconcludes
      | cons line lines =>
        have hsome : w.input.rest ≠ [] := fun hnil =>
          List.cons_ne_nil _ _ (eq_nil_of_typed (hinput.symm.trans hnil))
        obtain ⟨w₁, hdisk, hrest, hturn⟩ :=
          run_turn_line houtcome (hlines line List.mem_cons_self) hinput
        rw [restsAt?_succ (by simp [wantsMore, hsome]), hturn] at h
        refine .line hconcludes (congrArg some houtcome) ?_
        rw [← hdisk]
        by_cases hquit : Command.parse line = .ok .quit
        · obtain ⟨reports, hobey⟩ := run_obey_of_quit hquit (c.afterEcho patience) w₁
          rw [hobey] at h
          cases h
          obtain rfl := eq_nil_of_typed (hrest.symm.trans hread)
          rw [Session.obey_of_quit hquit]
          exact .done (Session.concludes_run_self houtcome)
        · obtain ⟨reports, hobey⟩ := run_obey hquit (c.afterEcho patience) w₁
          rw [hobey] at h
          have hwilling' := Session.willing_invariant.obey
            (Session.willing_invariant.run hwilling patience) w₁.disk line
          have hlines' : ∀ other ∈ lines, IsLine other := fun other hmem =>
            hlines other (List.mem_cons_of_mem _ hmem)
          refine ih hlines' ?_ ?_ h
          · exact hwilling'
          · exact hrest

end PlainConsole

/-! ## The full-screen console -/

namespace FullScreen

variable {φ : Type} [FileSystem (StateM φ)] {app app' : FullScreen} {files files' : φ}
  {lines : List String} {s : Session}

/-- The console is given lines one after the other. It settles before each of them and after
    the last one. -/
inductive Fed : FullScreen → φ → List String → FullScreen → φ → Prop
  | done {app app' : FullScreen} {files : φ} (h : app.Settles app') : Fed app files [] app' files
  | line {app settled submitted app' : FullScreen} {files files₁ files' : φ} {line : String}
      {lines : List String} (h : app.Settles settled)
      (hsubmit : StateT.run (settled.submit line : StateM φ _) files = (submitted, files₁))
      (rest : Fed submitted files₁ lines app' files') : Fed app files (line :: lines) app' files'

/-- A line submitted to a console that waits for input does what it does to the session. -/
theorem submit_of_waiting (h : app.session.lastOutcome = some .inputNeeded) (line : String)
    (files : φ) :
    (StateT.run (app.submit line : StateM φ _) files).1.session =
        (app.session.obey files line).1 ∧
      (StateT.run (app.submit line : StateM φ _) files).2 = (app.session.obey files line).2 := by
  have hperform : ∀ command,
      (StateT.run (app.perform command : StateM φ _) files).1.session =
          (StateT.run (app.session.perform command : StateM φ _) files).1.2 ∧
        (StateT.run (app.perform command : StateM φ _) files).2 =
          (StateT.run (app.session.perform command : StateM φ _) files).2 := by
    intro command
    rw [run_perform]
    exact ⟨session_acknowledge _ _, rfl⟩
  have haccepted : app.inputRefusal? = none := by
    rw [inputRefusal?, h]
  rw [submit, Session.obey]
  cases Command.parse line with
  | error e => exact ⟨rfl, rfl⟩
  | ok command =>
    cases command with
    | input text =>
      dsimp only
      rw [haccepted]
      exact hperform (.input text)
    | save path => exact hperform (.save path)
    | load path => exact hperform (.load path)
    | undo => exact hperform .undo
    | quit => exact hperform .quit

/-- When a waiting console has been given a line, its session hears the other lines. -/
theorem hears_submit {line : String} (hwaits : app.session.lastOutcome = some .inputNeeded)
    (hcurrent : app.session.Current) (hwilling : app.session.Willing)
    (h : (app.session.obey files line).1.Hears (app.session.obey files line).2 lines s files') :
    let (submitted, files₁) := StateT.run (app.submit line : StateM φ _) files
    submitted.session.Hears files₁ lines s files' ∧ submitted.session.Current ∧
      submitted.session.Willing := by
  obtain ⟨hsession, hfiles⟩ := submit_of_waiting hwaits line files
  have halters : app.Alters (StateT.run (app.submit line : StateM φ _) files).1 :=
    alters_submit rfl rfl line files
  have hwilling' := Session.willing_invariant.obey hwilling files line
  rw [← hsession, ← hfiles] at h
  rw [← hsession] at hwilling'
  exact ⟨h, current_of_alters hcurrent halters, hwilling'⟩

/-- A console can be given the lines that its session hears. -/
theorem exists_fed (h : app.session.Hears files lines s files')
    (hcurrent : app.session.Current) (hwilling : app.session.Willing) :
    ∃ app' files'', app.Fed files lines app' files'' := by
  induction lines generalizing app files with
  | nil =>
    cases h with
    | done hconcludes =>
      obtain ⟨app', hsettles⟩ := exists_settles hwilling hconcludes
      exact ⟨app', files', .done hsettles⟩
  | cons line lines ih =>
    cases h with
    | line hconcludes hwaits hrest =>
      obtain ⟨settled, hsettles⟩ := exists_settles hwilling hconcludes
      obtain rfl := hsettles.session_eq hcurrent hwilling hconcludes
      obtain ⟨hhears, hcurrent', hwilling'⟩ :=
        hears_submit hwaits (hsettles.current hcurrent) (hsettles.willing hwilling) hrest
      obtain ⟨app', files'', hfed⟩ := ih hhears hcurrent' hwilling'
      exact ⟨app', files'', .line hsettles rfl hfed⟩

/-- However it is given them, it settles where its session does, with the same files. -/
theorem session_eq_of_fed {files'' : φ} (h : app.session.Hears files lines s files')
    (hcurrent : app.session.Current) (hwilling : app.session.Willing)
    (hfed : app.Fed files lines app' files'') : app'.session = s ∧ files'' = files' := by
  induction lines generalizing app files with
  | nil =>
    cases h with
    | done hconcludes =>
      cases hfed with
      | done hsettles => exact ⟨hsettles.session_eq hcurrent hwilling hconcludes, rfl⟩
  | cons line lines ih =>
    cases h with
    | line hconcludes hwaits hrest =>
      cases hfed with
      | line hsettles hsubmit hfed =>
        obtain rfl := hsettles.session_eq hcurrent hwilling hconcludes
        have hnext :=
          hears_submit hwaits (hsettles.current hcurrent) (hsettles.willing hwilling) hrest
        rw [hsubmit] at hnext
        obtain ⟨hhears, hcurrent', hwilling'⟩ := hnext
        exact ih hhears hcurrent' hwilling' hfed

end FullScreen

/-! ## Agreement -/

/-- The consoles agree. Lines are typed at the plain console, and when it rests it has read all
    of them: then they can be given to the full-screen console as well, and however long its
    slices are, it settles in the same session with the same files. -/
theorem consoles_agree (machine : Machine) (limit : Nat) {lines : List String}
    (hlines : ∀ line ∈ lines, PlainConsole.IsLine line) {w w' : World}
    (hinput : w.input.rest = lines.flatMap InputQueue.lineBytes) {patience rounds : Nat}
    {s : Session}
    (hrests : PlainConsole.restsAt? patience rounds { session := .start machine limit } w =
      some (s, w')) (hread : w'.input.rest = []) :
    (∃ app files, (FullScreen.start (.start machine limit)).Fed w.disk lines app files) ∧
      ∀ app files, (FullScreen.start (.start machine limit)).Fed w.disk lines app files →
        app.session = s ∧ files = w'.disk := by
  have hwilling : (Session.start machine limit).Willing := rfl
  have hcurrent : (Session.start machine limit).Current := Session.current_of_none rfl
  have hhears : (Session.start machine limit).Hears w.disk lines s w'.disk :=
    PlainConsole.hears_of_restsAt? (c := { session := .start machine limit }) hlines hwilling
      hinput hrests hread
  have hfed : ∃ app files,
      (FullScreen.start (.start machine limit)).Fed w.disk lines app files :=
    FullScreen.exists_fed hhears hcurrent hwilling
  exact ⟨hfed, fun _ _ hfed => FullScreen.session_eq_of_fed hhears hcurrent hwilling hfed⟩

/-- Lines for the machine, an undo, a line that is not understood, a save and a load, and the
    user quits. -/
theorem consoles_agree_echoing :
    let lines := ["a", ":undo", ":redo", "b", ":save f", "c", ":load f", ":quit"]
    let w : World := { input := { rest := lines.flatMap InputQueue.lineBytes } }
    ∃ s w', PlainConsole.restsAt? 9 20 { session := .start Launch.echoer 1000 } w = some (s, w') ∧
      s.transcript.lines = ["b", "c"] ∧ s.marks.length = 3 ∧ w'.input.rest = [] ∧
      (∃ app files,
        (FullScreen.start (.start Launch.echoer 1000)).Fed w.disk lines app files) ∧
      ∀ app files, (FullScreen.start (.start Launch.echoer 1000)).Fed w.disk lines app files →
        app.session = s ∧ files = w'.disk := by
  intro lines w
  have hresult :
      (PlainConsole.restsAt? 9 20 { session := .start Launch.echoer 1000 } w).map
        (fun (s, w') => (s.transcript.lines, s.marks.length, w'.input.rest)) =
      some (["b", "c"], 3, []) := by decide +kernel
  obtain ⟨⟨s, w'⟩, hrests, hfacts⟩ := Option.map_eq_some_iff.1 hresult
  obtain ⟨hprinted, hmarks⟩ := Prod.mk.inj hfacts
  obtain ⟨hmarks, hread⟩ := Prod.mk.inj hmarks
  exact ⟨s, w', hrests, hprinted, hmarks, hread,
    consoles_agree Launch.echoer 1000 (by decide) rfl hrests hread⟩

end UniversalMachine
