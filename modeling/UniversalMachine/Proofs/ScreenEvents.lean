/-
  UniversalMachine.Proofs.ScreenEvents

  What can happen to a full-screen console.

  Keys are pressed, lines are submitted, the machine gets slices of time, and the
  screen is drawn; `FullScreen.play` lets these events happen in any order, on any
  files. Whatever happens, the session and the view of the transcript change in one
  of the ways that `FullScreen.Alters` lists (`alters_handle`), and what all of them
  preserve holds at every time (`play_preserves`).
-/

import UniversalMachine.Console.FullScreen
import UniversalMachine.Proofs.SessionOperations

namespace UniversalMachine

/-- What can happen to a full-screen console. -/
inductive ScreenEvent where
  | press (key : Key)
  | submit (line : String)
  /-- The machine runs for a while; the patience says how long. -/
  | slice (patience : Nat)
  /-- The screen is drawn in this size. -/
  | draw (width height : Nat)
  deriving DecidableEq, Repr

variable {φ : Type} [FileSystem (StateM φ)]

namespace Session

/-- What can come of a command: the response and the session after it. -/
inductive Responds (s : Session) : Response → Session → Prop
  | queued (line : String) : Responds s (.queued (s.submitLine line).1) (s.submitLine line).2
  | saved (path : String) (result : Except SnapshotError Unit) : Responds s (.saved path result) s
  | loaded (path : String) (snapshot : Snapshot) :
      Responds s (.loaded path (.ok (s.replaceMachine snapshot).1)) (s.replaceMachine snapshot).2
  | notLoaded (path : String) (e : SnapshotError) : Responds s (.loaded path (.error e)) s
  | undone {u : Session} (h : s.undo? = some u) : Responds s (.undone true) u
  | notUndone : Responds s (.undone false) s
  | quit : Responds s .quit s

theorem responds_perform (s : Session) (command : Command) (files : φ) :
    s.Responds (StateT.run (s.perform command : StateM φ _) files).1.1
      (StateT.run (s.perform command : StateM φ _) files).1.2 := by
  cases command with
  | input line => exact .queued line
  | save path => exact .saved path _
  | load path =>
    rw [perform, StateT.run_bind, run_loadState]
    rcases StateT.run (Snapshot.load path : StateM φ _) files with ⟨e | snapshot, files'⟩
    · exact .notLoaded path e
    · exact .loaded path snapshot
  | undo =>
    rw [perform]
    cases hundo : s.undo? with
    | none => exact .notUndone
    | some u => exact .undone hundo
  | quit => exact .quit

end Session

namespace FullScreen

/-! ## Events -/

/-- Lets something happen to a console. -/
def handle (app : FullScreen) (files : φ) : ScreenEvent → FullScreen × φ
  | .press key => StateT.run (app.press key : StateM φ _) files
  | .submit line => StateT.run (app.submit line : StateM φ _) files
  | .slice patience => (app.runSlice patience, files)
  | .draw width height => (app.refresh width height, files)

/-- Lets one thing after the other happen. -/
def play (app : FullScreen) (files : φ) : List ScreenEvent → FullScreen × φ
  | [] => (app, files)
  | event :: events =>
    let (app, files) := app.handle files event
    app.play files events

theorem play_append (app : FullScreen) (files : φ) (events later : List ScreenEvent) :
    app.play files (events ++ later) =
      let (app, files) := app.play files events
      app.play files later := by
  induction events generalizing app files with
  | nil => rfl
  | cons event events ih => exact ih _ _

/-- What an event can do to the session and to the view of the transcript. -/
inductive Alters (app : FullScreen) : FullScreen → Prop
  | neither {app' : FullScreen} (hsession : app'.session = app.session)
      (hview : app'.transcriptView = app.transcriptView) : Alters app app'
  | ran (patience : Nat) : Alters app (app.runSlice patience)
  | drawn (width height : Nat) : Alters app (app.refresh width height)
  | submitted {app' : FullScreen} (line : String)
      (hsession : app'.session = (app.session.submitLine line).2)
      (hview : app'.transcriptView = app.transcriptView) : Alters app app'
  | loaded {app' : FullScreen} (snapshot : Snapshot)
      (hsession : app'.session = (app.session.replaceMachine snapshot).2)
      (hview : app'.transcriptView = app.transcriptView) : Alters app app'
  /-- Undoing clears the view. -/
  | undone {app' : FullScreen} (hundo : app.session.undo? = some app'.session)
      (hview : app'.transcriptView = .empty) : Alters app app'

/-! ## Commands -/

theorem session_acknowledge (app : FullScreen) (response : Response) :
    (app.acknowledge response).session = app.session := by
  cases response with
  | loaded path result => cases result <;> rfl
  | undone found => cases found <;> rfl
  | queued checkpoint | saved path result | quit => rfl

theorem run_perform (app : FullScreen) (command : Command) (files : φ) :
    StateT.run (app.perform command : StateM φ _) files =
      let ((response, session), files) :=
        StateT.run (app.session.perform command : StateM φ _) files
      ({ app with session }.acknowledge response, files) := by
  rw [perform, StateT.run_bind]
  rfl

/-- A command may also come from a console that differs in other respects. -/
theorem alters_perform {app same : FullScreen} (hsession : same.session = app.session)
    (hview : same.transcriptView = app.transcriptView) (command : Command) (files : φ) :
    app.Alters (StateT.run (same.perform command : StateM φ _) files).1 := by
  rw [run_perform, hsession]
  have h := app.session.responds_perform command files
  generalize StateT.run (app.session.perform command : StateM φ _) files = result at h ⊢
  obtain ⟨⟨response, session⟩, files'⟩ := result
  cases h with
  | queued line => exact .submitted line rfl hview
  | saved path result => exact .neither rfl hview
  | loaded path snapshot => exact .loaded snapshot rfl hview
  | notLoaded path e => exact .neither rfl hview
  | undone hundo => exact .undone hundo rfl
  | notUndone => exact .neither rfl hview
  | quit => exact .neither rfl hview

theorem alters_submit {app same : FullScreen} (hsession : same.session = app.session)
    (hview : same.transcriptView = app.transcriptView) (line : String) (files : φ) :
    app.Alters (StateT.run (same.submit line : StateM φ _) files).1 := by
  rw [submit]
  split
  · exact .neither hsession hview
  · split
    · exact .neither hsession hview
    · exact alters_perform hsession hview _ files
  · exact alters_perform hsession hview _ files

/-! ## Whatever happens -/

theorem alters_scroll (app : FullScreen) (move : Scroll → Scroll) :
    app.Alters (app.scroll move) := by
  rw [scroll]
  cases app.focus with
  | terminal => exact .neither rfl rfl
  | registers => exact .neither rfl rfl
  | heap => exact .neither rfl rfl

theorem alters_press (app : FullScreen) (key : Key) (files : φ) :
    app.Alters (StateT.run (app.press key : StateM φ _) files).1 := by
  unfold press
  split
  · exact .neither rfl rfl
  · exact .neither rfl rfl
  · exact .neither rfl rfl
  · exact .neither rfl rfl
  · exact app.alters_scroll (·.up 1)
  · exact app.alters_scroll (·.down 1)
  · exact app.alters_scroll (·.up pageRows)
  · exact app.alters_scroll (·.down pageRows)
  · -- the line is taken away before it is acted on, which is nothing to the session
    refine alters_submit ?_ ?_ _ files
    · rfl
    · rfl
  · exact .neither rfl rfl
  · exact .neither rfl rfl
  · exact .neither rfl rfl
  · exact .neither rfl rfl

theorem alters_handle (app : FullScreen) (files : φ) (event : ScreenEvent) :
    app.Alters (app.handle files event).1 := by
  cases event with
  | press key => exact app.alters_press key files
  | submit line => exact alters_submit rfl rfl line files
  | slice patience => exact .ran patience
  | draw width height => exact .drawn width height

/-- What every change preserves, holds whatever happens. -/
theorem play_preserves {P : FullScreen → Prop}
    (halters : ∀ {app app' : FullScreen}, P app → app.Alters app' → P app') {app : FullScreen}
    (h : P app) (files : φ) (events : List ScreenEvent) : P (app.play files events).1 := by
  induction events generalizing app files with
  | nil => exact h
  | cons event events ih => exact ih (halters h (app.alters_handle files event)) _

end FullScreen

end UniversalMachine
