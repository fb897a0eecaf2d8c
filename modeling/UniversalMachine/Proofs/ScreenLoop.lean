/-
  UniversalMachine.Proofs.ScreenLoop

  The loop of the full-screen console.

  Each round of the loop draws the console and takes a turn, in which the machine works
  and a key may be found. What drawing and turns preserve, the loop preserves
  (`FullScreen.loop_preserves`). Hence every picture that is shown has the size of the
  screen it is shown on (`loop_fills_screen`), and the loop does nothing to a console
  but what the events of UniversalMachine.Proofs.ScreenEvents do (`loop_plays`).

  A machine that never comes to rest does not keep the loop from its keyboard: there is
  a look after every slice of time, and the first one that finds a key to quit with ends
  the loop (`loop_left`).
-/

import Mathlib.Logic.Function.Iterate
import UniversalMachine.Proofs.ConsoleAgreement

namespace UniversalMachine

/-! ## The size of pictures -/

namespace Picture

/-- How many cells each row has. -/
def lengths (picture : Picture) : List Nat :=
  picture.map List.length

/-- Painting changes cells, not their number. -/
@[simp]
theorem lengths_paint (x y : Nat) (strokes : List (List Stroke)) (picture : Picture) :
    (picture.paint x y strokes).lengths = picture.lengths := by
  fun_induction Picture.paint x y strokes picture with
  | case1 => rfl
  | case2 => rfl
  | case3 strokes rest row picture ih =>
    show List.length _ :: lengths _ = _
    rw [ih, Row.length_paint]
    rfl
  | case4 y strokes rest row picture ih => exact congrArg (row.length :: ·) ih

@[simp]
theorem lengths_restyle (picture : Picture) (area : Area) (style : Style) :
    (picture.restyle area style).lengths = picture.lengths :=
  lengths_paint _ _ _ _

@[simp]
theorem lengths_frame (frame : Frame) (area : Area) (picture : Picture) :
    (frame.draw area picture).lengths = picture.lengths :=
  lengths_paint _ _ _ _

@[simp]
theorem lengths_drawText (area : Area) (lines : List StyledLine) (base : Style)
    (alignment : StyledLine.Alignment) (picture : Picture) :
    (picture.drawText area lines base alignment).lengths = picture.lengths := by
  simp [drawText]

@[simp]
theorem lengths_drawTextPanel (frame : Frame) (area : Area) (lines : List StyledLine)
    (base : Style) (picture : Picture) :
    (picture.drawTextPanel frame area lines base).lengths = picture.lengths := by
  simp [drawTextPanel]

@[simp]
theorem lengths_drawListPanel (frame : Frame) (area : Area) (indent : Nat)
    (lines : List StyledLine) (style : Style) (picture : Picture) :
    (picture.drawListPanel frame area indent lines style).lengths = picture.lengths := by
  simp [drawListPanel]

theorem lengths_blank (width height : Nat) :
    (blank width height).lengths = List.replicate height width := by
  simp [lengths, blank]

end Picture

namespace FullScreen

/-- A picture of the console has as many rows and columns as it is drawn in. -/
theorem lengths_picture (width height : Nat) (app : FullScreen) :
    (app.picture width height).lengths = List.replicate height width := by
  rw [← Picture.lengths_blank width height]
  simp only [picture, List.foldl_cons, List.foldl_nil, StatusBar.draw, Inspector.drawHeap,
    Inspector.drawRegisters, Prompt.draw, Picture.lengths_drawText, Picture.lengths_drawListPanel,
    Picture.lengths_drawTextPanel]
  rw [OutputPane.draw]
  split
  · exact Picture.lengths_drawTextPanel _ _ _ _ _
  · exact Picture.lengths_drawListPanel _ _ _ _ _ _

end FullScreen

/-! ## Rounds -/

namespace World

variable {w : World} {looks : List Bool}

theorem takeKey_of_key {key : Key} (h : w.input.readKey.1 = some key) :
    w.takeKey = (.ok (some key), { w with input := w.input.readKey.2 }) := by
  rw [takeKey]
  rcases hread : w.input.readKey with ⟨_ | other, input⟩
  · rw [hread] at h
    cases h
  · rw [hread] at h
    cases h
    rfl

theorem look_of_nil (h : w.interruptions = []) : w.look false = (.ok none, w) := by
  simp [look, h]

theorem look_of_missed (h : w.interruptions = false :: looks) :
    w.look false = (.ok none, { w with interruptions := looks }) := by
  simp [look, h]

theorem look_of_found (h : w.interruptions = true :: looks) :
    w.look false = { w with interruptions := looks }.takeKey := by
  simp [look, h]

theorem exists_takeKey (w : World) : ∃ input, w.takeKey.2 = { w with input } := by
  rw [takeKey]
  rcases w.input.readKey with ⟨_ | key, input⟩
  · exact ⟨input, rfl⟩
  · exact ⟨input, rfl⟩

/-- A look at the keyboard changes only what is left to be found there. -/
theorem exists_look (wait : Bool) (w : World) :
    ∃ input interruptions, (w.look wait).2 = { w with input, interruptions } := by
  cases wait with
  | true =>
    obtain ⟨input, h⟩ := w.exists_takeKey
    exact ⟨input, w.interruptions, h⟩
  | false =>
    cases hlooks : w.interruptions with
    | nil => exact ⟨w.input, w.interruptions, by rw [look_of_nil hlooks]⟩
    | cons found looks =>
      cases found with
      | false => exact ⟨w.input, looks, by rw [look_of_missed hlooks]⟩
      | true =>
        obtain ⟨input, h⟩ := { w with interruptions := looks }.exists_takeKey
        exact ⟨input, looks, by rw [look_of_found hlooks, h]⟩

/-! Key presses see nothing of the world but its disk. -/

theorem run_performCommand (w : World) (app : FullScreen) (command : Command) :
    StateT.run (app.perform command : StateM World _) w =
      let (app, disk) := StateT.run (app.perform command : StateM Disk _) w.disk
      (app, { w with disk }) := by
  rw [FullScreen.run_perform, FullScreen.run_perform, run_perform]
  rcases StateT.run (app.session.perform command : StateM Disk _) w.disk with
    ⟨⟨response, session⟩, disk⟩
  rfl

theorem run_submit (w : World) (app : FullScreen) (line : String) :
    StateT.run (app.submit line : StateM World _) w =
      let (app, disk) := StateT.run (app.submit line : StateM Disk _) w.disk
      (app, { w with disk }) := by
  rw [FullScreen.submit, FullScreen.submit]
  split
  · rfl
  · split
    · rfl
    · exact w.run_performCommand app _
  · exact w.run_performCommand app _

theorem run_press (w : World) (app : FullScreen) (key : Key) :
    StateT.run (app.press key : StateM World _) w =
      let (app, disk) := StateT.run (app.press key : StateM Disk _) w.disk
      (app, { w with disk }) := by
  unfold FullScreen.press
  split
  case h_9 => exact w.run_submit _ _
  all_goals rfl

end World

namespace FullScreen

variable {patience rounds : Nat} {app : FullScreen} {w : World}

/-- The loop on the terminal of a world. -/
def run (patience rounds : Nat) (app : FullScreen) (w : World) :
    (Option IoError × FullScreen) × World :=
  StateT.run
    (app.loop Terminal.screenSize Terminal.pollKey patience rounds : StateM World _) w

/-- The console as it is when it is drawn. -/
def drawn (app : FullScreen) (w : World) : FullScreen :=
  app.refresh w.screenSize.1 w.screenSize.2

/-- The world to which it has been shown. -/
def shownTo (app : FullScreen) (w : World) : World :=
  { w with display :=
      w.display.send ((app.drawn w).screen w.screenSize.1 w.screenSize.2) }

/-- The console and the world after a turn. -/
def afterTurn (patience : Nat) (app : FullScreen) (w : World) :
    (Option IoError × FullScreen) × World :=
  match w.look !app.isRunning with
  | (.ok (some key), w) =>
    let (app, w) := StateT.run ((app.work patience).press key : StateM World _) w
    ((none, app), w)
  | (.ok none, w) => ((none, app.work patience), w)
  | (.error e, w) => ((some e, app.work patience), w)

theorem run_turn (patience : Nat) (app : FullScreen) (w : World) :
    StateT.run (app.turn Terminal.pollKey patience : StateM World _) w =
      app.afterTurn patience w := by
  have hlook : StateT.run (Terminal.pollKey !app.isRunning : StateM World _) w =
      w.look !app.isRunning := rfl
  rw [turn, StateT.run_bind, hlook, afterTurn]
  rcases w.look !app.isRunning with ⟨e | _ | key, w'⟩
  · rfl
  · rfl
  · rfl

theorem run_succ (patience rounds : Nat) (app : FullScreen) (w : World) :
    app.run patience (rounds + 1) w =
      if (app.drawn w).quitting then ((none, app.drawn w), app.shownTo w)
      else
        match (app.drawn w).afterTurn patience (app.shownTo w) with
        | ((none, app), w) => app.run patience rounds w
        | ((some e, app), w) => ((some e, app), w) := by
  have hdraw : StateT.run (app.draw Terminal.screenSize : StateM World _) w =
      (app.drawn w, app.shownTo w) := rfl
  rw [run, loop, StateT.run_bind, hdraw]
  show StateT.run (if (app.drawn w).quitting = true then _ else _ : StateM World _) _ = _
  split
  · rfl
  · rw [StateT.run_bind, run_turn]
    rcases (app.drawn w).afterTurn patience (app.shownTo w) with ⟨⟨_ | e, app'⟩, w'⟩
    · rfl
    · rfl

/-- In a turn the machine works, and then a key may be pressed. -/
theorem afterTurn_eq_play (patience : Nat) (app : FullScreen) (w : World) :
    ∃ (key : Option Key) (lost : Option IoError) (input : StandardInput)
      (interruptions : List Bool),
      app.afterTurn patience w =
        let (app, disk) := (app.work patience).play w.disk (key.toList.map .press)
        ((lost, app), { w with disk, input, interruptions }) := by
  obtain ⟨input, interruptions, hworld⟩ := w.exists_look !app.isRunning
  rw [afterTurn]
  rcases hlook : w.look !app.isRunning with ⟨e | _ | key, w'⟩
  all_goals
    rw [hlook] at hworld
    obtain rfl := hworld
  · exact ⟨none, some e, input, interruptions, rfl⟩
  · exact ⟨none, none, input, interruptions, rfl⟩
  · refine ⟨some key, none, input, interruptions, ?_⟩
    dsimp only
    rw [World.run_press]
    rfl

/-! ## The loop -/

/-- What drawing and turns preserve, the loop preserves. -/
theorem loop_preserves {P : FullScreen → World → Prop}
    (hdraw : ∀ {app : FullScreen} {w : World}, P app w → P (app.drawn w) (app.shownTo w))
    (hturn : ∀ {app : FullScreen} {w : World}, P app w →
      P (app.afterTurn patience w).1.2 (app.afterTurn patience w).2)
    (h : P app w) (rounds : Nat) :
    P (app.run patience rounds w).1.2 (app.run patience rounds w).2 := by
  induction rounds generalizing app w with
  | zero => exact h
  | succ rounds ih =>
    rw [run_succ]
    split
    · exact hdraw h
    · have hnext := hturn (hdraw h)
      rcases hafter : (app.drawn w).afterTurn patience (app.shownTo w) with ⟨⟨_ | e, app'⟩, w'⟩
      · rw [hafter] at hnext
        exact ih hnext
      · rw [hafter] at hnext
        exact hnext

/-- The loop is a play of events: whatever it does to a console and to the files, pictures, slices
    of time and key presses do, one after the other. -/
theorem loop_plays (patience rounds : Nat) (app : FullScreen) (w : World) :
    ∃ events, app.play w.disk events =
      ((app.run patience rounds w).1.2, (app.run patience rounds w).2.disk) := by
  refine loop_preserves (P := fun app' w' => ∃ events, app.play w.disk events = (app', w'.disk))
    ?_ ?_ ⟨[], rfl⟩ rounds
  · rintro app' w' ⟨events, hplay⟩
    refine ⟨events ++ [.draw w'.screenSize.1 w'.screenSize.2], ?_⟩
    rw [play_append, hplay]
    rfl
  · rintro app' w' ⟨events, hplay⟩
    obtain ⟨key, lost, input, interruptions, hturn⟩ := app'.afterTurn_eq_play patience w'
    rw [hturn]
    cases hrunning : app'.isRunning with
    | true =>
      refine ⟨events ++ .slice patience :: key.toList.map .press, ?_⟩
      rw [play_append, hplay, work, if_pos hrunning]
      rfl
    | false =>
      refine ⟨events ++ key.toList.map .press, ?_⟩
      rw [play_append, hplay, work, if_neg (by simp [hrunning])]

/-- The screen has its size, and what it was last sent fills it. -/
def Filled (size : Nat × Nat) (w : World) : Prop :=
  w.screenSize = size ∧ w.display.latest.lengths = List.replicate size.2 size.1

theorem filled_shownTo (app : FullScreen) (w : World) :
    Filled w.screenSize (app.shownTo w) :=
  ⟨rfl, lengths_picture _ _ _⟩

theorem filled_afterTurn {size : Nat × Nat} (h : Filled size w) (patience : Nat)
    (app : FullScreen) : Filled size (app.afterTurn patience w).2 := by
  obtain ⟨key, lost, input, interruptions, hturn⟩ := app.afterTurn_eq_play patience w
  rw [hturn]
  exact h

/-- Every picture that is shown has the size of the screen. -/
theorem loop_fills_screen (patience rounds : Nat) (app : FullScreen) (w : World) :
    (app.run patience (rounds + 1) w).2.display.latest.lengths =
      List.replicate w.screenSize.2 w.screenSize.1 := by
  have hfirst := app.filled_shownTo w
  rw [run_succ]
  split
  · exact hfirst.2
  · have hnext := filled_afterTurn hfirst patience (app.drawn w)
    rcases hafter : (app.drawn w).afterTurn patience (app.shownTo w) with ⟨⟨_ | e, app'⟩, w'⟩
    · rw [hafter] at hnext
      refine (loop_preserves (P := fun _ => Filled w.screenSize) ?_ ?_ hnext rounds).2
      · rintro app' w' ⟨hsize, -⟩
        rw [← hsize]
        exact app'.filled_shownTo w'
      · exact fun h => filled_afterTurn h patience _
    · rw [hafter] at hnext
      exact hnext.2

/-! ## Leaving -/

/-- The keys that leave the console. -/
def Quits (key : Key) : Prop :=
  key = .escape ∨ key = .control 'c'

/-- The loop has ended because the console was left. Until then the machine had at most so many
    slices of time, and nothing else happened to the session or to the files. -/
structure Left (patience slices : Nat) (app : FullScreen) (w : World)
    (ended : (Option IoError × FullScreen) × World) : Prop where
  not_lost : ended.1.1 = none
  quitting : ended.1.2.quitting = true
  disk_eq : ended.2.disk = w.disk
  session_eq : ∃ count ≤ slices,
    ended.1.2.session = (fun s => (s.run patience).2)^[count] app.session

theorem press_of_quits {key : Key} (h : Quits key) (app : FullScreen) (w : World) :
    StateT.run (app.press key : StateM World _) w = ({ app with quitting := true }, w) := by
  obtain rfl | rfl := h
  · rfl
  · rfl

/-- A console that is to be left is left with the next picture. -/
theorem left_of_quitting (h : app.quitting = true) (patience slices rounds : Nat) (w : World) :
    Left patience slices app w (app.run patience (rounds + 1) w) := by
  have hended : app.run patience (rounds + 1) w = ((none, app.drawn w), app.shownTo w) := by
    rw [run_succ]
    exact if_pos h
  rw [hended]
  exact ⟨rfl, h, rfl, 0, Nat.zero_le _, rfl⟩

/-- A round in which the loop goes on comes before the rest of it. -/
theorem left_of_round {slices : Nat} {app' : FullScreen} {w' : World}
    (hquit : app.quitting = false)
    (hturn : (app.drawn w).afterTurn patience (app.shownTo w) = ((none, app'), w'))
    (hsession : app'.session = ((app.drawn w).work patience).session) (hdisk : w'.disk = w.disk)
    (h : Left patience slices app' w' (app'.run patience rounds w')) :
    Left patience (slices + 1) app w (app.run patience (rounds + 1) w) := by
  have hgoes : ¬(app.drawn w).quitting = true := by
    show ¬app.quitting = true
    rw [hquit]
    exact Bool.false_ne_true
  rw [run_succ, if_neg hgoes, hturn]
  obtain ⟨hlost, hquitting, hdisk', count, hcount, hended⟩ := h
  refine ⟨hlost, hquitting, hdisk'.trans hdisk, ?_⟩
  rw [hended, hsession, work]
  split
  · exact ⟨count + 1, by omega, rfl⟩
  · exact ⟨count, by omega, rfl⟩

/-- If a look at the keyboard finds a key to quit with, there is one more picture. -/
theorem left_of_found {key : Key} (hquits : Quits key) (hquit : app.quitting = false)
    (looked : World)
    (hlook : (app.shownTo w).look (!(app.drawn w).isRunning) = looked.takeKey)
    (hkey : looked.input.readKey.1 = some key) (hdisk : looked.disk = w.disk)
    (patience slices rounds : Nat) :
    Left patience (slices + 1) app w (app.run patience (rounds + 2) w) := by
  have hturn : (app.drawn w).afterTurn patience (app.shownTo w) =
      ((none, { (app.drawn w).work patience with quitting := true }),
        { looked with input := looked.input.readKey.2 }) := by
    rw [afterTurn, hlook, World.takeKey_of_key hkey]
    dsimp only
    rw [press_of_quits hquits]
  refine left_of_round hquit hturn ?_ ?_ (left_of_quitting ?_ patience slices rounds _)
  · rfl
  · exact hdisk
  · rfl

/-- However busy the machine is, the console can be left. Of the looks at the keyboard while the
    machine works one is going to find a key, and the next key is one to quit with: then the loop
    ends no later than with that look, and until then nothing but the machine's own work has
    happened. -/
theorem loop_left {key : Key} (hquits : Quits key) {look : Nat}
    (hkey : w.input.readKey.1 = some key) (hfound : w.interruptions[look]? = some true)
    (hrounds : look + 2 ≤ rounds) (patience : Nat) (app : FullScreen) :
    Left patience (look + 1) app w (app.run patience rounds w) := by
  obtain ⟨rest, rfl⟩ : ∃ rest, rounds = rest + 2 := ⟨rounds - 2, by omega⟩
  generalize hlooks : w.interruptions = looks at hfound
  induction looks generalizing app w look rest with
  | nil => cases hfound
  | cons found looks ih =>
    cases hquit : app.quitting with
    | true => exact left_of_quitting hquit patience _ _ w
    | false =>
      cases hrunning : (app.drawn w).isRunning with
      | false =>
        -- a machine at rest leaves time to wait for the key
        refine left_of_found (w := w) hquits hquit (app.shownTo w) ?_ hkey rfl patience look rest
        rw [hrunning]
        rfl
      | true =>
        cases found with
        | true =>
          refine left_of_found (w := w) hquits hquit
            { app.shownTo w with interruptions := looks } ?_ hkey rfl patience look rest
          rw [hrunning]
          exact World.look_of_found hlooks
        | false =>
          cases look with
          | zero => cases hfound
          | succ look =>
            have hturn : (app.drawn w).afterTurn patience (app.shownTo w) =
                ((none, (app.drawn w).work patience),
                  { app.shownTo w with interruptions := looks }) := by
              have hlook := World.look_of_missed (w := app.shownTo w) hlooks
              rw [afterTurn, hrunning, Bool.not_true, hlook]
            obtain ⟨rest, rfl⟩ : ∃ fewer, rest = fewer + 1 := ⟨rest - 1, by omega⟩
            refine left_of_round hquit hturn rfl rfl ?_
            exact ih (w := { app.shownTo w with interruptions := looks }) hkey _ rest (by omega)
              rfl hfound

/-- A program that jumps to its own start for ever. -/
def endless : FullScreen :=
  start (.start (.ofProgram #[Instruction.assembleStandard 12 0 0 0]) 1000)

/-- The third look at the keyboard finds the escape key. -/
example :
    let ended := endless.run 9 5
      { input := { rest := [27], isTerminal := true }, screenSize := (0, 0),
        interruptions := [false, false, true] }
    ended.1.1 = none ∧ ended.1.2.quitting = true ∧ ended.1.2.session.machine.cycles = 30 := by
  decide +kernel

end FullScreen

end UniversalMachine
