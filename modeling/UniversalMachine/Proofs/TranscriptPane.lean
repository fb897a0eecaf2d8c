/-
  UniversalMachine.Proofs.TranscriptPane

  The output pane shows the transcript.

  The view of the transcript reads only what is new since the last picture. After a
  picture it is what reading the whole transcript from the start would give
  (`TranscriptView.reading`), because at any time it is what reading some beginning of
  the transcript gives (`FullScreen.InStep`): output is added at the end, and undoing,
  which cuts the transcript, clears the view. What the view holds are the lines of the
  transcript, damaged text or not, since decoding commutes with splitting into lines
  (`lines_reading`).
-/

import UniversalMachine.Proofs.Decoding
import UniversalMachine.Proofs.ScreenStatus

namespace UniversalMachine

/-! ## Reading a transcript -/

namespace Text

theorem dropEmptyLast_concat {α : Type} [DecidableEq α] (front : List (List α)) (last : List α) :
    dropEmptyLast (front ++ [last]) = if last = [] then front else front ++ [last] := by
  rw [dropEmptyLast, List.getLast?_concat, List.dropLast_concat]
  simp only [Option.some_inj]

end Text

namespace TranscriptView

/-- The view that has read these bytes from the start. -/
def reading (bytes : Bytes) : TranscriptView :=
  bytes.foldl feed empty

theorem consumed_feed (view : TranscriptView) (byte : UInt8) :
    (view.feed byte).consumed = view.consumed + 1 := by
  rw [feed]
  split
  · rfl
  · rfl

theorem consumed_foldl_feed (bytes : Bytes) (view : TranscriptView) :
    (bytes.foldl feed view).consumed = view.consumed + bytes.length := by
  induction bytes generalizing view with
  | nil => rfl
  | cons byte bytes ih =>
    rw [List.foldl_cons, ih, consumed_feed, List.length_cons]
    omega

theorem consumed_reading (bytes : Bytes) : (reading bytes).consumed = bytes.length := by
  rw [reading, consumed_foldl_feed]
  exact Nat.zero_add _

/-- A view that has read a beginning of the transcript catches up with it. -/
theorem update_reading {read : Bytes} {transcript : Array UInt8} (h : read <+: transcript.toList) :
    (reading read).update transcript = reading transcript.toList := by
  have hsize : ¬transcript.size < (reading read).consumed := by
    rw [consumed_reading, Nat.not_lt, ← Array.length_toList]
    exact h.length_le
  obtain ⟨new, hnew⟩ := h
  have hextract : (transcript.extract read.length).toList = new := by
    rw [Array.toList_extract, List.extract_eq_take_drop, ← hnew, List.drop_left]
    refine List.take_of_length_le ?_
    rw [← Array.length_toList, ← hnew, List.length_append]
    omega
  rw [update, if_neg hsize, consumed_reading, ← Array.foldl_toList, hextract, ← hnew, reading,
    reading, List.foldl_append]

/-- A view has no more lines than it has read bytes. -/
theorem size_feed_le {view : TranscriptView} (h : view.size ≤ view.consumed) (byte : UInt8) :
    (view.feed byte).size ≤ (view.feed byte).consumed := by
  rw [consumed_feed]
  unfold size lastLine at h ⊢
  rw [feed]
  split
  · simp only [Array.size_push, Array.isEmpty_empty, if_true, List.length_nil]
    omega
  · simp only [Array.isEmpty_push, Bool.false_eq_true, if_false, List.length_singleton]
    omega

theorem size_reading_le (bytes : Bytes) : (reading bytes).size ≤ bytes.length := by
  have h : ∀ view : TranscriptView, view.size ≤ view.consumed →
      (bytes.foldl feed view).size ≤ (bytes.foldl feed view).consumed := by
    induction bytes with
    | nil => exact fun _ h => h
    | cons byte bytes ih => exact fun _ h => ih _ (size_feed_le h byte)
  rw [← consumed_reading]
  exact h empty (Nat.le_refl _)

/-! ## Lines -/

theorem size_eq_length_lines (view : TranscriptView) : view.size = view.lines.length := by
  show _ = (view.finished.toList ++ view.lastLine).length
  rw [List.length_append, Array.length_toList]
  rfl

theorem isEmpty_iff {view : TranscriptView} : view.isEmpty = true ↔ view.lines = [] := by
  rw [isEmpty, size_eq_length_lines, decide_eq_true_iff, List.length_eq_zero_iff]

/-- The lines that end while bytes are read, and the bytes of the line that has not ended. -/
theorem foldl_feed_pieces {bytes first : Bytes} {rest : List Bytes}
    (h : Text.pieces newline bytes = first :: rest) (view : TranscriptView) :
    ∃ front last, (view.unfinished.toList ++ first) :: rest = front ++ [last] ∧
      (bytes.foldl feed view).finished.toList =
        view.finished.toList ++ front.map Text.ofBytes ∧
      (bytes.foldl feed view).unfinished.toList = last := by
  induction bytes generalizing view first rest with
  | nil =>
    obtain ⟨rfl, rfl⟩ := List.cons.inj h
    exact ⟨[], view.unfinished.toList, by simp, by simp, rfl⟩
  | cons byte bytes ih =>
    obtain ⟨next, later, hnext⟩ := Text.exists_pieces newline bytes
    rw [List.foldl_cons]
    by_cases hbyte : byte = newline
    · -- the line under way is finished, and the next one has nothing yet
      have hsplit : Text.pieces newline (byte :: bytes) = [] :: next :: later := by
        rw [Text.pieces, if_pos hbyte, hnext]
      obtain ⟨rfl, rfl⟩ := List.cons.inj (hsplit.symm.trans h)
      obtain ⟨front, last, hfront, hfinished, hunfinished⟩ := ih hnext (view.feed byte)
      refine ⟨view.unfinished.toList :: front, last, ?_, ?_, hunfinished⟩
      · rw [feed, if_pos hbyte] at hfront
        simpa using hfront
      · rw [hfinished, feed, if_pos hbyte]
        simp
    · have hsplit : Text.pieces newline (byte :: bytes) = (byte :: next) :: later := by
        rw [Text.pieces, if_neg hbyte, hnext]
        rfl
      obtain ⟨rfl, rfl⟩ := List.cons.inj (hsplit.symm.trans h)
      obtain ⟨front, last, hfront, hfinished, hunfinished⟩ := ih hnext (view.feed byte)
      refine ⟨front, last, ?_, ?_, hunfinished⟩
      · rw [feed, if_neg hbyte] at hfront
        simpa using hfront
      · rw [hfinished, feed, if_neg hbyte]

/-- What was read line by line are the lines of the whole. -/
theorem lines_reading (bytes : Bytes) : (reading bytes).lines = Text.lines bytes := by
  obtain ⟨first, rest, hpieces⟩ := Text.exists_pieces newline bytes
  obtain ⟨front, last, hfront, hfinished, hunfinished⟩ := foldl_feed_pieces hpieces empty
  have hsplit : Text.pieces newline bytes = front ++ [last] := hpieces.trans hfront
  have hfinished' : (reading bytes).finished.toList = front.map Text.ofBytes := hfinished
  have hunfinished' : (reading bytes).unfinished.toList = last := hunfinished
  rw [Text.lines, Text.Utf8.pieces_decodeLossy, hsplit, List.map_append, List.map_singleton,
    Text.dropEmptyLast_concat, lines, hfinished', lastLine, hunfinished']
  have hempty : (reading bytes).unfinished.isEmpty = true ↔ last = [] := by
    rw [← hunfinished', Array.isEmpty_iff, Array.toList_eq_nil_iff]
  by_cases hlast : last = []
  · rw [if_pos (hempty.2 hlast), if_pos (Text.Utf8.decodeLossy_eq_nil_iff.2 hlast)]
    simp [Text.ofBytes]
  · rw [if_neg (mt hempty.1 hlast), if_neg (mt Text.Utf8.decodeLossy_eq_nil_iff.1 hlast)]
    simp [Text.ofBytes]

end TranscriptView

/-! ## Scrolling -/

namespace Scroll

theorem clamp_le (offset : Scroll) (total visible : Nat) :
    offset.clamp total visible ≤ total - visible := by
  rw [clamp]
  split
  · exact Nat.min_le_right _ _
  · exact Nat.zero_le _

theorem clamp_of_le {offset : Scroll} {total visible : Nat} (h : offset ≤ total - visible) :
    offset.clamp total visible = offset := by
  rw [clamp]
  split
  · exact Nat.min_eq_left h
  · exact (Nat.le_zero.1 (Nat.le_trans h (by omega))).symm

/-- The end stays in sight. -/
theorem clamp_toEnd {total visible : Nat} (h : total ≤ toEnd) :
    toEnd.clamp total visible = total - visible := by
  rw [clamp]
  split
  · exact Nat.min_eq_right (Nat.le_trans (Nat.sub_le _ _) h)
  · exact (Nat.sub_eq_zero_of_le (by omega)).symm

/-- A page that starts no later than the last one is full, if there are rows to fill it. -/
theorem length_page {rows : List String} {offset visible : Nat}
    (h : offset ≤ rows.length - visible) :
    ((rows.drop offset).take visible).length = min visible rows.length := by
  rw [List.length_take, List.length_drop]
  omega

theorem last_page (rows : List String) (visible : Nat) :
    (rows.drop (rows.length - visible)).take visible = rows.drop (rows.length - visible) := by
  refine List.take_of_length_le ?_
  rw [List.length_drop]
  omega

end Scroll

/-! ## The pane -/

namespace OutputPane

variable {view : TranscriptView}

theorem scrolled_of_lines (h : view.lines ≠ []) (height : Nat) (offset : Scroll) :
    scrolled view height offset = offset.clamp view.lines.length (Scroll.visibleRows height) := by
  rw [scrolled, if_neg (mt TranscriptView.isEmpty_iff.1 h), TranscriptView.size_eq_length_lines]

/-- From an offset that leaves the last page full, the pane shows a page of lines. -/
theorem visibleLines_of_lines (h : view.lines ≠ []) {height : Nat} {offset : Scroll}
    (hoffset : offset ≤ view.lines.length - Scroll.visibleRows height) :
    visibleLines view height offset =
      (view.lines.drop offset).take (Scroll.visibleRows height) := by
  rw [visibleLines, scrolled_of_lines h, Scroll.clamp_of_le hoffset, TranscriptView.window]

theorem draw_of_lines (h : view.lines ≠ []) (focused : Bool) (offset : Scroll) (area : Area) :
    draw view focused offset area =
      Picture.drawListPanel (Theme.pane " Output " focused) area 1
        ((visibleLines view area.height offset).map fun line => [{ text := line }])
        (Theme.inColor Theme.text) :=
  if_neg (mt TranscriptView.isEmpty_iff.1 h)

end OutputPane

namespace FullScreen

/-- The view of the transcript has read a beginning of the transcript. -/
def InStep (app : FullScreen) : Prop :=
  ∃ read, read <+: app.session.transcript.toList ∧ app.transcriptView = .reading read

/-- The lines that the output pane of a screen of some size shows. -/
def shown (width height : Nat) (app : FullScreen) : List String :=
  OutputPane.visibleLines app.transcriptView (layout width height).output.height app.terminalScroll

variable {app : FullScreen}

/-- After drawing, the view has read all of the transcript. -/
theorem InStep.transcriptView_refresh (h : app.InStep) (width height : Nat) :
    (app.refresh width height).transcriptView = .reading app.session.transcript.toList := by
  obtain ⟨read, hread, hview⟩ := h
  show app.transcriptView.update app.session.transcript.bytes = _
  rw [hview]
  exact TranscriptView.update_reading hread

theorem terminalScroll_refresh (app : FullScreen) (width height : Nat) :
    (app.refresh width height).terminalScroll =
      OutputPane.scrolled (app.refresh width height).transcriptView
        (layout width height).output.height app.terminalScroll := by
  simp only [refresh]

theorem InStep.of_alters {app' : FullScreen} (h : app.InStep) (halters : app.Alters app') :
    app'.InStep := by
  obtain ⟨read, hread, hview⟩ := h
  cases halters with
  | neither hsession hview' =>
    refine ⟨read, ?_, hview'.trans hview⟩
    rwa [hsession]
  | ran patience =>
    exact ⟨read, hread.trans (Configuration.printed_prefix_run patience app.session.configuration),
      hview⟩
  | drawn width height =>
    exact ⟨_, List.prefix_refl _,
      InStep.transcriptView_refresh ⟨read, hread, hview⟩ width height⟩
  | submitted line hsession hview' =>
    refine ⟨read, ?_, hview'.trans hview⟩
    rw [hsession]
    show read <+: app.session.tryCheckpoint.2.transcript.toList
    rwa [Session.transcript_tryCheckpoint]
  | loaded snapshot hsession hview' =>
    refine ⟨read, ?_, hview'.trans hview⟩
    rw [hsession]
    show read <+: app.session.tryCheckpoint.2.transcript.toList
    rwa [Session.transcript_tryCheckpoint]
  | undone _ hview' =>
    -- whatever is left of the transcript, nothing of it has been read
    exact ⟨[], List.nil_prefix, hview'⟩

variable {φ : Type} [FileSystem (StateM φ)]

/-- Whatever keys were pressed, lines submitted, slices run and pictures drawn: after a
    picture, the view holds the lines of the transcript, as many as there are. The list in the
    output pane is given a full page of them if there is one, from the offset of the terminal
    on, which starts no later than the last page; and a terminal scrolled to the end shows the
    last page. -/
theorem output_pane_shows_transcript (machine : Machine) (limit : Nat) (files : φ)
    (events : List ScreenEvent) (width height : Nat) :
    let app := ((start (.start machine limit)).play files events).1
    let drawn := app.refresh width height
    let view := drawn.transcriptView
    let lines := drawn.session.transcript.lines
    let area := (layout width height).output
    let rows := max (area.height - 2) 1
    drawn.session = app.session ∧ view.lines = lines ∧ view.size = lines.length ∧
    (drawn.session.transcript.size ≤ Scroll.toEnd → view.window 0 Scroll.toEnd = lines) ∧
    (lines ≠ [] →
      (∀ focused, OutputPane.draw view focused drawn.terminalScroll area =
        Picture.drawListPanel (Theme.pane " Output " focused) area 1
          ((drawn.shown width height).map fun line => [{ text := line }])
          (Theme.inColor Theme.text)) ∧
      drawn.shown width height = (lines.drop drawn.terminalScroll).take rows ∧
      (drawn.shown width height).length = min rows lines.length ∧
      drawn.terminalScroll ≤ lines.length - rows ∧
      (drawn.session.transcript.size ≤ Scroll.toEnd → app.terminalScroll = Scroll.toEnd →
        drawn.shown width height = lines.drop (lines.length - rows))) := by
  intro app
  have hstep : app.InStep :=
    play_preserves (P := InStep) InStep.of_alters ⟨[], List.nil_prefix, rfl⟩ files events
  -- from here on it does not matter how the console came to be in step
  clear_value app
  intro drawn view lines area rows
  have hreading : view = .reading app.session.transcript.toList :=
    hstep.transcriptView_refresh width height
  have hlines : view.lines = lines := by
    rw [hreading]
    exact TranscriptView.lines_reading _
  have hsize : view.size = lines.length := by
    rw [TranscriptView.size_eq_length_lines, hlines]
  have hfew : lines.length ≤ app.session.transcript.size := by
    rw [← hsize, hreading, ← OutputBuffer.length_toList]
    exact TranscriptView.size_reading_le _
  refine ⟨rfl, hlines, hsize, fun hfits => ?_, fun hsome => ?_⟩
  · rw [TranscriptView.window, hlines, List.drop_zero]
    exact List.take_of_length_le (Nat.le_trans hfew hfits)
  have hview : view.lines ≠ [] := hlines ▸ hsome
  have hscroll : drawn.terminalScroll = app.terminalScroll.clamp lines.length rows := by
    rw [← hlines, terminalScroll_refresh]
    exact OutputPane.scrolled_of_lines hview _ _
  have hle : drawn.terminalScroll ≤ lines.length - rows :=
    hscroll ▸ Scroll.clamp_le _ _ _
  have hshown : drawn.shown width height = (lines.drop drawn.terminalScroll).take rows := by
    rw [← hlines]
    exact OutputPane.visibleLines_of_lines hview (hlines ▸ hle)
  refine ⟨fun focused => OutputPane.draw_of_lines hview focused _ _, hshown, ?_, hle,
    fun hfits hend => ?_⟩
  · rw [hshown]
    exact Scroll.length_page hle
  · have hlast : drawn.terminalScroll = lines.length - rows := by
      rw [hscroll, hend]
      exact Scroll.clamp_toEnd (Nat.le_trans hfew hfits)
    rw [hshown, hlast]
    exact Scroll.last_page lines rows

/-- What was shown before the undo has as many bytes as what the machine printed after it. -/
theorem output_pane_shows_transcript_regrown :
    let events : List ScreenEvent := [.slice 9, .submit "ab", .slice 9, .draw 80 24,
      .submit ":undo", .slice 9, .submit "cd", .slice 9]
    let app := echoing events
    (echoing (events.take 4)).transcriptView.lines = ["ab"] ∧
    (echoing (events.take 4)).session.transcript.size = app.session.transcript.size ∧
    app.terminalScroll = .toEnd ∧
    (app.refresh 80 24).transcriptView.lines = ["cd"] ∧
    (app.refresh 80 24).shown 80 24 = ["cd"] := by
  intro events app
  have hlines : (app.refresh 80 24).session.transcript.lines = ["cd"] := by decide +kernel
  have hfits : (app.refresh 80 24).session.transcript.size ≤ Scroll.toEnd := by decide +kernel
  have hend : app.terminalScroll = .toEnd := by decide +kernel
  obtain ⟨-, hview, -, -, hsome⟩ :=
    output_pane_shows_transcript Launch.echoer 1000 ({} : Disk) events 80 24
  obtain ⟨-, -, -, -, hlast⟩ := hsome (hlines ▸ List.cons_ne_nil _ _)
  refine ⟨by decide +kernel, by decide +kernel, hend, hview.trans hlines,
    (hlast hfits hend).trans ?_⟩
  show (app.refresh 80 24).session.transcript.lines.drop
    ((app.refresh 80 24).session.transcript.lines.length - _) = _
  rw [hlines]
  rfl

end FullScreen

end UniversalMachine
