import Nosh.Client.NoEcho
import Nosh.Client.Render

/-!
# What reaches the terminal

Every byte that the client writes for the session, apart from the window title and the relayed
sequences, comes from one of its two renderers. This module runs the pump with them: the datagrams,
the pages of the scrollback and the keystrokes of the user, with all that is written.

`decode_datagram`, `apply` and the page arm take every character a server sends, control characters
among them, and the renderers write the characters of the cells as they are. So a server can send
any control sequence to the terminal as the text of a line.

## Main Definitions

* `Display` — the pump with the physical grid, the banner and what was written
* `display` — the pump as a machine that paints
* `DisplayEvent.Plain` — what the server sends has no control character

## Main Results

* `PlainDisplay` — nothing that is or can be painted is a control character.
* `terminal_output_plain` — **the only control characters on the terminal are those of the
  renderers' own sequences, as long as the server sends none.**
-/

namespace Nosh.Client

open Nosh.Lib Nosh.Proto

variable {width : Char → Option ℕ}

/-! ## The pump that paints -/

/-- The pump with the physical grid, the banner for a lost connection, and what was written to the
terminal. -/
structure Display extends PredictingPump where
  physical : Grid Cell
  loss : ConnectionLossOverlay
  written : List Token

namespace Display

/-- The start of `run_pump`, with `emit_connect_clear`. -/
def start (mode : PredictDisplayMode) (cols rows : ℕ) (scrollbackAvailable : Bool) : Display where
  pump := .new cols rows scrollbackAvailable
  predictor := .new mode cols rows
  physical := makeGrid cols rows
  loss := ⟨false, cols⟩
  written := [.clear]

/-- The bytes on the terminal. -/
def output (s : Display) : List UInt8 := Utf8.encode (s.written.flatMap Token.chars)

/-- Paint a grid: `emit_diff`. -/
def paint (s : Display) (desired : Grid Cell) (cursor : CursorPos) : Display :=
  { s with
    written := s.written ++ emitDiff desired s.physical cursor
    physical := commit desired s.physical }

/-- `render_to_stdout`. -/
def renderToStdout (s : Display) : Display :=
  s.paint s.pump.screen.confirmed s.pump.screen.confirmedCursor

/-- The grid that `render_with_predictor` asks for: the banner and the predictions over the
confirmed grid. -/
def desired (s : Display) (elapsed : ℕ → ℕ) : Grid Cell :=
  overlayCells
    (overlayCells s.pump.screen.confirmed fun row col => s.loss.cellAt (elapsed col) row col)
    s.predictor.cellAt

/-- `render_with_predictor`. The banner reads the clock for each of its cells: `elapsed` has the
seconds since the last contact, by column. -/
def renderWithPredictor (s : Display) (elapsed : ℕ → ℕ) : Display :=
  s.paint (s.desired elapsed)
    (s.predictor.displayedCursor.getD s.pump.screen.confirmedCursor)

/-- `render_scrollback_to_buf` and `reset_physical`, which follows it everywhere. -/
def renderScrollback (s : Display) : Display :=
  match s.pump.view with
  | .active lines offset _ _ _ =>
      { s with
        written := s.written
          ++ renderScrollbackToBuf lines offset s.pump.screen.cols s.pump.screen.rows
        physical := makeGrid s.pump.screen.cols s.pump.screen.rows }
  | .live => s

/-- What `apply` does to the physical grid: it is blank after a resize. -/
def physicalAfter (s : Display) (diff : StateDiff) : Grid Cell :=
  if s.pump.screen.Accepts diff ∧ (diff.cols ≠ s.pump.screen.cols ∨ diff.rows ≠ s.pump.screen.rows)
  then makeGrid diff.cols diff.rows
  else s.physical

section Arms

variable (width : Char → Option ℕ)

/-- The datagram arm. A diff that does not pass the gate or the view paints nothing. -/
def datagram (s : Display) (diff : StateDiff) (rttMs : ℕ) (elapsed : ℕ → ℕ) : Display :=
  let next := s.toPredictingPump.recvDatagram width diff rttMs
  if s.pump.screen.lastAppliedEpoch < diff.epoch ∧ ¬ s.pump.view.Hides diff.epoch then
    { s with
      toPredictingPump := next
      physical := s.physicalAfter diff
      loss := { s.loss with active := false } }.renderWithPredictor elapsed
  else { s with toPredictingPump := next }

/-- The server `Resize` arm, which paints nothing. -/
def serverResize (s : Display) (cols rows : ℕ) (limited : Bool) : Display :=
  if limited then s
  else
    { s with
      pump := s.pump.serverResize cols rows limited
      predictor := (s.predictor.setSize cols rows).reset
      physical := makeGrid cols rows }

/-- The scrollback page arm. -/
def page (s : Display) (lines : List ScrollbackLine) (total epoch : ℕ) : Display :=
  { s with pump := s.pump.recvPage lines total epoch }.renderScrollback

/-- Shift-PageUp. -/
def shiftPageup (s : Display) : Display :=
  { s with pump := s.pump.shiftPageup.1 }.renderScrollback

/-- Shift-PageDown: at the live boundary the live grid is painted. -/
def shiftPagedown (s : Display) : Display :=
  match s.pump.view with
  | .live => s
  | .active _ offset _ _ _ =>
      if offset ≤ s.pump.screen.rows then
        { s with pump := s.pump.shiftPagedown }.renderToStdout
      else { s with pump := s.pump.shiftPagedown }.renderScrollback

/-- The view goes back to `Live` and the live grid is painted, unless it is there. -/
def snapBack (s : Display) : Display :=
  match s.pump.view with
  | .live => s
  | .active _ _ _ _ _ => { s with pump := { s.pump with view := .live } }.renderToStdout

/-- The stdin arm: page up, page down, then the other bytes, of which the escape machine forwards
`forward`. -/
def stdin (s : Display) (csi : CsiResult) (forward : List UInt8) (elapsed : ℕ → ℕ) : Display :=
  let s := if csi.shiftPageup then s.shiftPageup else s
  let s := if csi.shiftPagedown then s.shiftPagedown else s
  if csi.nonPagingRemainder.isEmpty then s
  else
    let s := s.snapBack
    if forward.isEmpty then s
    else
      { s with
        toPredictingPump := s.toPredictingPump.recvKeys width forward }.renderWithPredictor elapsed

end Arms

end Display

/-- What the pump reacts to. -/
inductive DisplayEvent
  | datagram (diff : StateDiff) (rttMs : ℕ) (elapsed : ℕ → ℕ)
  | serverResize (cols rows : ℕ) (limited : Bool)
  | page (lines : List ScrollbackLine) (total epoch : ℕ)
  | stdin (csi : CsiResult) (forward : List UInt8) (elapsed : ℕ → ℕ)
  /-- The silence timer on a closed connection. -/
  | silence (elapsed : ℕ → ℕ)
  /-- The tick of the banner. -/
  | lossTick (elapsed : ℕ → ℕ)

/-- The pump as a machine. The timer runs while the banner is not shown, the tick while it is. -/
def display (width : Char → Option ℕ) : Machine Display DisplayEvent where
  step s
    | .datagram diff rttMs elapsed => some (s.datagram width diff rttMs elapsed)
    | .serverResize cols rows limited => some (s.serverResize cols rows limited)
    | .page lines total epoch => some (s.page lines total epoch)
    | .stdin csi forward elapsed => some (s.stdin width csi forward elapsed)
    | .silence elapsed =>
        if s.loss.active then none
        else some ({ s with loss := { s.loss with active := true } }.renderWithPredictor elapsed)
    | .lossTick elapsed => if s.loss.active then some (s.renderWithPredictor elapsed) else none

/-- What the server sends has no control character. -/
def DisplayEvent.Plain : DisplayEvent → Prop
  | .datagram diff _ _ => ∀ run ∈ diff.runs, PlainChars run.chars
  | .page lines _ _ => PlainLines lines
  | _ => True

instance (event : DisplayEvent) : Decidable event.Plain :=
  match event with
  | .datagram _ _ _ => inferInstanceAs (Decidable (∀ run ∈ StateDiff.runs _, PlainChars run.chars))
  | .page lines _ _ => inferInstanceAs (Decidable (PlainLines lines))
  | .serverResize _ _ _ | .stdin _ _ _ | .silence _ | .lossTick _ =>
      inferInstanceAs (Decidable True)

/-! ## Cells without control characters -/

theorem plainGrid_makeGrid (cols rows : ℕ) : PlainGrid (makeGrid cols rows) := by
  intro row hrow cell hcell
  rw [(List.mem_replicate.mp hrow).2] at hcell
  rw [(List.mem_replicate.mp hcell).2]
  rfl

theorem PlainGrid.resize {screen : ClientScreen} (h : PlainGrid screen.confirmed)
    (cols rows : ℕ) : PlainGrid (screen.resize cols rows).confirmed := by
  refine List.forall_mem_append.mpr ⟨fun row hrow => ?_, plainGrid_makeGrid cols _⟩
  obtain ⟨old, hold, rfl⟩ := List.mem_map.mp (List.mem_of_mem_take hrow)
  refine List.forall_mem_append.mpr ⟨fun cell hcell => ?_, fun cell hcell => ?_⟩
  · exact h old hold cell (List.mem_of_mem_take hcell)
  · rw [(List.mem_replicate.mp hcell).2]
    rfl

theorem writeChars_plain {run : DiffRun} {chars : List Char} (hchars : PlainChars chars)
    {cells : List Cell} (hcells : ∀ cell ∈ cells, isControl cell.ch = false) (col : ℕ) :
    ∀ cell ∈ writeChars width run col chars cells, isControl cell.ch = false := by
  -- a write puts a character of the run, or the blank that follows a wide one
  have hset : ∀ {cells : List Cell} (col : ℕ) {new : Cell}, isControl new.ch = false →
      (∀ cell ∈ cells, isControl cell.ch = false) →
        ∀ cell ∈ cells.set col new, isControl cell.ch = false := by
    intro cells col new hnew hcells cell hcell
    rcases List.mem_or_eq_of_mem_set hcell with hold | rfl
    · exact hcells cell hold
    · exact hnew
  induction chars generalizing cells col with
  | nil => exact hcells
  | cons ch rest ih =>
      obtain ⟨hch, hrest⟩ := List.forall_mem_cons.mp hchars
      rw [writeChars]
      split
      · exact hcells
      · refine ih hrest ?_ (col + 1)
        split
        · exact hset _ rfl (hset _ hch hcells)
        · exact hset _ hch hcells

theorem PlainGrid.applyRun {grid : Grid Cell} (h : PlainGrid grid) {run : DiffRun}
    (hrun : PlainChars run.chars) : PlainGrid (applyRun width grid run) := by
  unfold Nosh.Client.applyRun
  split
  · exact h
  · intro row hrow
    obtain ⟨i, hi⟩ := List.mem_iff_getElem?.mp hrow
    rw [List.getElem?_modify] at hi
    obtain ⟨old, hold, rfl⟩ := Option.map_eq_some_iff.mp hi
    have hplain := h old (List.mem_of_getElem? hold)
    split
    · exact writeChars_plain hrun hplain _
    · exact hplain

theorem PlainGrid.applyRuns {runs : List DiffRun} {grid : Grid Cell} (h : PlainGrid grid)
    (hruns : ∀ run ∈ runs, PlainChars run.chars) : PlainGrid (applyRuns width grid runs) := by
  induction runs generalizing grid with
  | nil => exact h
  | cons run runs ih =>
      obtain ⟨hrun, hrest⟩ := List.forall_mem_cons.mp hruns
      exact ih (h.applyRun hrun) hrest

theorem PlainGrid.apply {screen : ClientScreen} (h : PlainGrid screen.confirmed) {diff : StateDiff}
    (hdiff : ∀ run ∈ diff.runs, PlainChars run.chars) :
    PlainGrid (screen.apply width diff).confirmed := by
  rcases screen.apply_cases width diff with ⟨-, hsame⟩ | ⟨-, hconfirmed, -⟩
  · rw [hsame]
    exact h
  · rw [hconfirmed]
    refine PlainGrid.applyRuns ?_ hdiff
    unfold ClientScreen.fitTo
    split
    · exact h.resize _ _
    · exact h

/-! ## The invariant -/

/-- The lines that a view holds. -/
def ScrollbackView.lines : ScrollbackView → List ScrollbackLine
  | .live => []
  | .active lines _ _ _ _ => lines

/-- Nothing that is or can be painted is a control character, and nothing that was is. -/
structure PlainDisplay (width : Char → Option ℕ) (s : Display) : Prop where
  grid : PlainGrid s.pump.screen.confirmed
  view : PlainLines s.pump.view.lines
  predictor : s.predictor.Sound width
  written : ∀ token ∈ s.written, token.Plain

namespace PlainDisplay

variable {s : Display}

theorem start (mode : PredictDisplayMode) (cols rows : ℕ) (available : Bool) :
    PlainDisplay width (.start mode cols rows available) where
  grid := plainGrid_makeGrid cols rows
  view := List.forall_mem_nil _
  predictor := .new mode cols rows
  written := List.forall_mem_singleton.mpr trivial

variable (h : PlainDisplay width s)

include h

/-- Painting a grid without control characters. -/
theorem paint {desired : Grid Cell} (hdesired : PlainGrid desired) (cursor : CursorPos) :
    PlainDisplay width (s.paint desired cursor) :=
  { h with
    written := List.forall_mem_append.mpr ⟨h.written, emitDiff_plain hdesired s.physical cursor⟩ }

theorem renderToStdout : PlainDisplay width s.renderToStdout :=
  h.paint h.grid _

theorem desired (hwidth : ∀ ch, isControl ch = true → width ch = none) (elapsed : ℕ → ℕ) :
    PlainGrid (s.desired elapsed) := by
  refine all_overlayCells (all_overlayCells h.grid ?_) ?_
  · exact fun row col cell hcell => ConnectionLossOverlay.cellAt_plain hcell
  · exact fun row col cell hcell =>
      PredictionOverlay.cellAt_plain hwidth (fun p hp => (h.predictor.pending p hp).2) hcell

theorem renderWithPredictor (hwidth : ∀ ch, isControl ch = true → width ch = none)
    (elapsed : ℕ → ℕ) : PlainDisplay width (s.renderWithPredictor elapsed) :=
  h.paint (h.desired hwidth elapsed) _

theorem renderScrollback : PlainDisplay width s.renderScrollback := by
  unfold Display.renderScrollback
  split
  · rename_i lines offset _ _ _ hview
    have hlines : PlainLines lines := by
      have hheld := h.view
      rwa [hview] at hheld
    exact { h with
      written := List.forall_mem_append.mpr
        ⟨h.written, renderScrollbackToBuf_plain hlines offset _ _⟩ }
  · exact h

/-- The datagram arm before it paints. -/
theorem recvDatagram {diff : StateDiff} (hdiff : ∀ run ∈ diff.runs, PlainChars run.chars)
    (rttMs : ℕ) :
    PlainDisplay width
      { s with toPredictingPump := s.toPredictingPump.recvDatagram width diff rttMs } where
  grid := by
    change PlainGrid (s.pump.recvDatagram width diff).1.screen.confirmed
    by_cases hgate : s.pump.screen.lastAppliedEpoch < diff.epoch
    · rw [(ClientPump.recvDatagram_fresh width hgate).2]
      split
      · exact h.grid
      · exact h.grid.apply hdiff
    · rw [ClientPump.recvDatagram_stale width hgate]
      exact h.grid
  view line hline := by
    change line ∈ (s.pump.recvDatagram width diff).1.view.lines at hline
    unfold ClientPump.recvDatagram at hline
    split at hline
    · split at hline
      · split at hline
        · exact h.view line hline
        · exact (List.not_mem_nil hline).elim
      · exact h.view line hline
    · exact h.view line hline
  predictor := by
    change PredictionOverlay.Sound width (if _ then _ else _)
    split
    · exact h.predictor.afterApply _ _ _ _ _
    · exact h.predictor
  written := h.written

theorem datagram (hwidth : ∀ ch, isControl ch = true → width ch = none) {diff : StateDiff}
    (hdiff : ∀ run ∈ diff.runs, PlainChars run.chars) (rttMs : ℕ) (elapsed : ℕ → ℕ) :
    PlainDisplay width (s.datagram width diff rttMs elapsed) := by
  have hnext := h.recvDatagram hdiff rttMs
  unfold Display.datagram
  dsimp only
  split
  · refine renderWithPredictor ?_ hwidth elapsed
    exact ⟨hnext.grid, hnext.view, hnext.predictor, hnext.written⟩
  · exact hnext

theorem serverResize (cols rows : ℕ) (limited : Bool) :
    PlainDisplay width (s.serverResize cols rows limited) := by
  unfold Display.serverResize
  cases limited with
  | true => exact h
  | false =>
      exact ⟨h.grid.resize cols rows, h.view, (h.predictor.act (.setSize cols rows)).act .reset,
        h.written⟩

/-- Another view of the same screen. -/
theorem withPump {pump : ClientPump} (hscreen : pump.screen = s.pump.screen)
    (hview : PlainLines pump.view.lines) : PlainDisplay width { s with pump := pump } where
  grid := by
    change PlainGrid pump.screen.confirmed
    rw [hscreen]
    exact h.grid
  view := hview
  predictor := h.predictor
  written := h.written

/-- The page arm before it paints. -/
theorem recvPage {lines : List ScrollbackLine} (hlines : PlainLines lines) (total epoch : ℕ) :
    PlainDisplay width { s with pump := s.pump.recvPage lines total epoch } := by
  refine h.withPump (s.pump.recvPage_screen lines total epoch) ?_
  have hheld := h.view
  unfold ClientPump.recvPage
  split
  · rename_i hview
    rw [hview] at hheld
    exact List.forall_mem_append.mpr ⟨hlines, hheld⟩
  · exact hheld

theorem page {lines : List ScrollbackLine} (hlines : PlainLines lines) (total epoch : ℕ) :
    PlainDisplay width (s.page lines total epoch) :=
  (h.recvPage hlines total epoch).renderScrollback

/-- Shift-PageUp before it paints. -/
theorem pageUp : PlainDisplay width { s with pump := s.pump.shiftPageup.1 } := by
  refine h.withPump s.pump.shiftPageup_screen ?_
  have hheld := h.view
  unfold ClientPump.shiftPageup
  split
  · split
    · exact List.forall_mem_nil _
    · exact hheld
  · rename_i hview
    rw [hview] at hheld
    dsimp only
    split
    · exact hheld
    · exact hheld

theorem shiftPageup : PlainDisplay width s.shiftPageup :=
  h.pageUp.renderScrollback

/-- Shift-PageDown before it paints. -/
theorem pageDown : PlainDisplay width { s with pump := s.pump.shiftPagedown } := by
  refine h.withPump s.pump.shiftPagedown_screen ?_
  have hheld := h.view
  unfold ClientPump.shiftPagedown
  split
  · rename_i hview
    rw [hview] at hheld
    split
    · exact List.forall_mem_nil _
    · exact hheld
  · exact hheld

theorem shiftPagedown : PlainDisplay width s.shiftPagedown := by
  unfold Display.shiftPagedown
  split
  · exact h
  · split
    · exact h.pageDown.renderToStdout
    · exact h.pageDown.renderScrollback

theorem snapBack : PlainDisplay width s.snapBack := by
  unfold Display.snapBack
  split
  · exact h
  · refine renderToStdout (h.withPump rfl ?_)
    exact List.forall_mem_nil _

theorem stdin (hwidth : ∀ ch, isControl ch = true → width ch = none) (csi : CsiResult)
    (forward : List UInt8) (elapsed : ℕ → ℕ) :
    PlainDisplay width (s.stdin width csi forward elapsed) := by
  have hup : PlainDisplay width (if csi.shiftPageup then s.shiftPageup else s) := by
    split
    · exact h.shiftPageup
    · exact h
  have hdown : PlainDisplay width
      (if csi.shiftPagedown then (if csi.shiftPageup then s.shiftPageup else s).shiftPagedown
      else if csi.shiftPageup then s.shiftPageup else s) := by
    split
    · exact hup.shiftPagedown
    · exact hup
  unfold Display.stdin
  dsimp only
  split
  · exact hdown
  · have hsnap := hdown.snapBack
    split
    · exact hsnap
    · refine renderWithPredictor ?_ hwidth elapsed
      exact ⟨hsnap.grid, List.forall_mem_nil _, hsnap.predictor.act (.input forward _),
        hsnap.written⟩

/-- One event without control characters. -/
theorem step (hwidth : ∀ ch, isControl ch = true → width ch = none) {s' : Display}
    {event : DisplayEvent} (hplain : event.Plain) (hstep : (display width).step s event = some s') :
    PlainDisplay width s' := by
  cases event with
  | datagram diff rttMs elapsed =>
      cases hstep
      exact h.datagram hwidth hplain rttMs elapsed
  | serverResize cols rows limited =>
      cases hstep
      exact h.serverResize cols rows limited
  | page lines total epoch =>
      cases hstep
      exact h.page hplain total epoch
  | stdin csi forward elapsed =>
      cases hstep
      exact h.stdin hwidth csi forward elapsed
  | silence elapsed =>
      simp only [display] at hstep
      split at hstep
      · cases hstep
      · cases hstep
        refine renderWithPredictor ?_ hwidth elapsed
        exact ⟨h.grid, h.view, h.predictor, h.written⟩
  | lossTick elapsed =>
      simp only [display] at hstep
      split at hstep
      · cases hstep
        exact h.renderWithPredictor hwidth elapsed
      · cases hstep

end PlainDisplay

/-- **No control character from the server.** In every run of the pump in which no cell that the
server sends is a control character, every token on the terminal is a sequence of the renderers or a
character that is not a control character. The control characters among the bytes are exactly those
that introduce the sequences. -/
theorem terminal_output_plain {width : Char → Option ℕ}
    (hwidth : ∀ ch, isControl ch = true → width ch = none) {mode : PredictDisplayMode}
    {cols rows : ℕ} {available : Bool} {schedule : List DisplayEvent} {s : Display}
    (hplain : (display width).Along (fun _ => DisplayEvent.Plain)
      (.start mode cols rows available) schedule)
    (hrun : (display width).run (.start mode cols rows available) schedule = some s) :
    (∀ token ∈ s.written, token.Plain) ∧
      ∃ chars, s.output = Utf8.encode chars ∧
        chars.filter isControl = s.written.flatMap Token.introducers := by
  have h : PlainDisplay width s :=
    (display width).invariant_along (PlainDisplay width)
      (fun _ _ _ h hok hstep => h.step hwidth hok hstep) (.start mode cols rows available) hplain
      hrun
  exact ⟨h.written, _, rfl, filter_isControl_chars h.written⟩

/-- Control characters have no width, all others are one column wide. -/
def oneColumn (ch : Char) : Option ℕ := if isControl ch then none else some 1

/-- A datagram that writes `text` to the first row. -/
def lineDatagram (epoch : ℕ) (text : String) : DisplayEvent :=
  .datagram ⟨epoch, 9, 1, ⟨0, 0⟩, false, [⟨0, 0, .none, none, none, text.toList⟩]⟩ 100 fun _ => 0

/-- A page of one line with `text`. -/
def linePage (epoch : ℕ) (text : String) : DisplayEvent :=
  .page [⟨9, text.toList.map fun ch => ⟨ch, .none, none, none⟩⟩] 1 epoch

/-- A line, Shift-PageUp, and a page of the scrollback. -/
def plainSession : List DisplayEvent :=
  [lineDatagram 1 "ls", .stdin ⟨true, false, []⟩ [] fun _ => 0, linePage 2 "old"]

theorem terminal_output_plain_plainSession :
    ∃ s, (display oneColumn).run (.start .always 9 1 true) plainSession = some s ∧
      Token.text 'o' ∈ s.written ∧ ∀ token ∈ s.written, token.Plain :=
  ⟨_, rfl, by decide, (@terminal_output_plain oneColumn (fun _ hch => if_pos hch) .always 9 1 true
    plainSession _ (by decide) rfl).1⟩

/-- The text of a line is an OSC 52 query, and both renderers write it to the terminal. -/
theorem server_text_injects_sequence :
    ((display oneColumn).run (.start .always 9 1 true)
        [lineDatagram 1 "\x1b]52;c;?\x07"]).map Display.output =
      some (Utf8.encode
        ("\x1b[2J\x1b[H\x1b[1;1H\x1b[0m" ++ "\x1b]52;c;?\x07" ++ "\x1b[1;1H").toList) ∧
    ((display oneColumn).run (.start .always 9 1 true)
        [.stdin ⟨true, false, []⟩ [] fun _ => 0, linePage 1 "\x1b]52;c;?\x07"]).map Display.output =
      some (Utf8.encode ("\x1b[2J\x1b[H\x1b[2J\x1b[H\x1b[1;1H\x1b[0m\x1b[0m         \x1b[1;1H"
        ++ "\x1b[2J\x1b[H\x1b[1;1H\x1b[0m\x1b[0m" ++ "\x1b]52;c;?\x07" ++ "\x1b[1;1H").toList) := by
  decide +kernel

end Nosh.Client
