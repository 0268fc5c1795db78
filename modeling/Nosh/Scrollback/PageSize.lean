import Nosh.Scrollback.Credit
import Nosh.Server.Panic

/-!
# The size of a page

`SessionSlot::resize` allows 1000 columns, and `run_scrollback_sender_task` asks for 1024 lines at
most. A line keeps the width it had when it scrolled off, so the bound on the columns has to be
carried along every run; the size of a page then follows from the bounds on its fields.

## Main Definitions

* `TerminalState.Within` — no line of the screen or of the scrollback has more than so many cells

## Main Results

* `checkedStep_within` — output and resizes keep the lines within the limit of
  `SessionSlot::resize`.
* `length_body_page_le` — the bound on the body of a page.
* `page_encodes` — **every page can be encoded.**
-/

namespace Nosh.Server

open Nosh.Lib Nosh.Proto

namespace TerminalState

variable {t t' : TerminalState} {bound : ℕ}
variable {line : List Cell} {cols : ℕ}

/-! ## The lines that scroll off -/

theorem mem_of_mem_pushAll {scrollback lines : Grid Cell} (h : line ∈ pushAll scrollback lines) :
    line ∈ scrollback ∨ line ∈ lines :=
  List.mem_append.mp ((pushAll_suffix (List.suffix_refl scrollback) lines).mem h)

theorem Shaped.length_of_lfPushes (h : t.Shaped) (hline : line ∈ t.lfPushes) :
    line.length = t.cols := by
  unfold lfPushes at hline
  split at hline
  · exact h.grid.2 line (List.mem_of_mem_take hline)
  · cases hline

/-- A dispatch pushes lines of the current width. -/
theorem Shaped.length_of_pushes (h : t.Shaped) {width : Char → Option ℕ} {d : Dispatch}
    (hline : line ∈ t.pushes width d) : line.length = t.cols := by
  cases d with
  | print c =>
      dsimp only [pushes] at hline
      generalize (if width c = some 2 then 2 else 1) = colWidth at hline
      split at hline
      · cases hline
      · split at hline
        · have hput := h.grid.modify (min t.cursor.row (t.rows - 1))
            (length_putCell t.sgr c colWidth (min t.cursor.col (t.cols - 1)))
          have hshaped : Shaped { t with
              grid := t.grid.modify (min t.cursor.row (t.rows - 1))
                (putCell t.sgr c colWidth (min t.cursor.col (t.cols - 1)))
              cursor := ⟨t.cursor.row, 0⟩ } := h.of_grid hput rfl rfl rfl rfl
          exact hshaped.length_of_lfPushes hline
        · cases hline
  | execute byte =>
      dsimp only [pushes] at hline
      split at hline
      · exact h.length_of_lfPushes hline
      · cases hline
  | csi params intermediates action => cases hline
  | esc byte => cases hline

/-- A resize cuts and pads the lines to the new width before it pushes them. -/
theorem length_of_resizePushes {rows : ℕ} (hline : line ∈ t.resizePushes cols rows) :
    line.length = cols := by
  unfold resizePushes at hline
  split at hline
  · cases hline
  · obtain ⟨row, -, rfl⟩ := List.mem_map.mp (List.mem_of_mem_take hline)
    exact length_resizeRow cols row

/-! ## Runs of a session -/

/-- The screen is well formed and no line has more than `bound` cells, wherever it is. -/
structure Within (bound : ℕ) (t : TerminalState) : Prop where
  shaped : t.Shaped
  cols_le : t.cols ≤ bound
  scrollback_le : ∀ line ∈ t.scrollback, line.length ≤ bound

theorem within_new (h : cols ≤ bound) (rows : ℕ) : (new cols rows).Within bound where
  shaped := shaped_new cols rows
  cols_le := h
  scrollback_le := by
    rintro line ⟨⟩

theorem Within.dispatch (h : t.Within bound) {width : Char → Option ℕ} {d : Dispatch}
    (hs : t.dispatch width d = some t') : t'.Within bound where
  shaped := dispatch_shaped h.shaped hs
  cols_le := (congrArg Prod.fst (dispatch_size hs)).trans_le h.cols_le
  scrollback_le := by
    intro line hline
    rcases dispatch_scrollback hs with hpushed | ⟨-, hnil⟩
    · rw [hpushed] at hline
      rcases mem_of_mem_pushAll hline with hold | hnew
      · exact h.scrollback_le line hold
      · exact (h.shaped.length_of_pushes hnew).trans_le h.cols_le
    · rw [hnil] at hline
      cases hline

theorem Within.resize (h : t.Within bound) (hcols : cols ≤ bound) (rows : ℕ) :
    (t.resize cols rows).Within bound where
  shaped := h.shaped.resize cols rows
  cols_le := hcols
  scrollback_le := by
    intro line hline
    rw [resize_scrollback] at hline
    rcases mem_of_mem_pushAll hline with hold | hnew
    · exact h.scrollback_le line hold
    · exact (length_of_resizePushes hnew).trans_le hcols

end TerminalState

namespace WholeTerminal

variable {width : Char → Option ℕ} {toLowercase : List Char → List Char} {t t' : WholeTerminal}

/-- A call that `SessionSlot` forwards keeps the lines within its limit. -/
theorem checkedStep_within {call : TerminalCall} (h : t.screen.Within maxCols)
    (hs : t.checkedStep width toLowercase call = some t') : t'.screen.Within maxCols := by
  unfold checkedStep at hs
  split at hs
  · cases hs
  · cases call with
    | dispatch d =>
        obtain ⟨screen, hscreen, rfl⟩ := Option.map_eq_some_iff.mp hs
        exact h.dispatch hscreen
    | osc params =>
        cases hs
        exact h
    | resize cols rows =>
        cases hs
        exact h.resize (Nat.min_le_right cols maxCols) _

theorem sessionLife_within {cols rows : ℕ} {calls : List TerminalCall}
    (hrun : (sessionLife width toLowercase).run (new cols rows) calls = some t)
    (hcols : cols ≤ maxCols) : t.screen.Within maxCols :=
  (sessionLife width toLowercase).invariant_run (fun t => t.screen.Within maxCols)
    (fun _ _ _ h hs => checkedStep_within h hs) (TerminalState.within_new hcols rows) hrun

end WholeTerminal

end Nosh.Server

namespace Nosh.Scrollback

open Nosh.Lib Nosh.Lib.Postcard Nosh.Proto Nosh.Server

/-! ## Bytes -/

theorem length_ser_colour_le (colour : Option UInt8) : (ser colour).length ≤ 2 := by
  cases colour with
  | none => exact Nat.le_succ 1
  | some palette => exact Nat.le_refl 2

/-- Five bytes for the character, one for the style and two for each colour. -/
theorem length_ser_cell_le (cell : ScrollbackCell) : (ser cell).length ≤ 10 := by
  have hch := length_ser_char_le cell.ch
  have hstyle : (ser cell.style).length = 1 := rfl
  have hfg := length_ser_colour_le cell.fg
  have hbg := length_ser_colour_le cell.bg
  change (ser cell.ch ++ (ser cell.style ++ (ser cell.fg ++ ser cell.bg))).length ≤ 10
  simp only [List.length_append]
  omega

theorem length_ser_scrollbackLine_le {bound : ℕ} {row : List Cell} (h : row.length ≤ bound) :
    (ser (scrollbackLine row)).length ≤ 13 + bound * 10 := by
  have hwidth : (ser (UInt16.ofNat row.length)).length ≤ 3 := length_writeVarint_le 3 _
  have hcells : (ser (scrollbackLine row).cells).length ≤ _ :=
    length_ser_list_le fun cell _ => length_ser_cell_le cell
  have hcount : (scrollbackLine row).cells.length = row.length := List.length_map _
  rw [hcount] at hcells
  change (ser (UInt16.ofNat row.length) ++ ser (scrollbackLine row).cells).length ≤ _
  rw [List.length_append]
  omega

theorem length_pageLines_le (t : TerminalState) (fromLine count : ℕ) :
    (pageLines t fromLine count).length ≤ maxPageSize := by
  rw [pageLines, List.length_map, TerminalState.scrollbackLines_eq, List.length_drop,
    List.length_take]
  omega

/-- The bound on the body of a page: forty-six bytes, and the lines. -/
theorem length_body_page_le {bound : ℕ} {s : Flow} (h : s.history.terminal.Within bound)
    (channelId : UInt32) (epoch : UInt64) (request : UInt64 × UInt32) :
    (s.page channelId epoch request).body.length ≤ 46 + maxPageSize * (13 + bound * 10) := by
  have hvariant : (variant 16).length = 1 := rfl
  have hid : (ser channelId).length ≤ 5 := length_writeVarint_le 5 _
  have hlong : ∀ n : UInt64, (ser n).length ≤ 10 := fun n => length_writeVarint_le 10 _
  have hfrom := hlong request.1
  have htotal := hlong (UInt64.ofNat (s.history.terminal.scrollbackLines request.1.toNat
    (min request.2.toNat maxPageSize)).2)
  have hepoch := hlong epoch
  have hline : ∀ line ∈ pageLines s.history.terminal request.1.toNat request.2.toNat,
      (ser line).length ≤ 13 + bound * 10 := by
    intro line hline
    obtain ⟨row, hrow, rfl⟩ := List.mem_map.mp hline
    have hsuffix := s.history.terminal.scrollbackLines_suffix request.1.toNat
      (min request.2.toNat maxPageSize)
    exact length_ser_scrollbackLine_le
      (h.scrollback_le row (List.mem_of_mem_take (hsuffix.mem hrow)))
  have hlines := length_ser_list_le hline
  have hcount := Nat.mul_le_mul_right (13 + bound * 10)
    (length_pageLines_le s.history.terminal request.1.toNat request.2.toNat)
  change (variant 16 ++ (ser channelId ++ (ser request.1 ++ (ser (UInt64.ofNat _) ++
    (ser epoch ++ ser (pageLines s.history.terminal _ _)))))).length ≤ _
  simp only [List.length_append]
  omega

/-- **Every page can be encoded.**  Whatever a session of at most 1000 columns has shown, and
however often the client has resized it, the answer to any request fits a frame. -/
theorem page_encodes {width : Char → Option ℕ} {toLowercase : List Char → List Char}
    {cols rows : ℕ} {calls : List TerminalCall} {t : WholeTerminal}
    (hrun : (WholeTerminal.sessionLife width toLowercase).run (.new cols rows) calls = some t)
    (hcols : cols ≤ maxCols) {s : Flow} (hterminal : s.history.terminal = t.screen)
    (channelId : UInt32) (epoch : UInt64) (request : UInt64 × UInt32) :
    (s.page channelId epoch request).body.length ≤ maxFrameLen ∧
      encode (s.page channelId epoch request) = .ok (s.page channelId epoch request).frame := by
  have hwithin : s.history.terminal.Within maxCols := by
    rw [hterminal]
    exact WholeTerminal.sessionLife_within hrun hcols
  have hbody : (s.page channelId epoch request).body.length ≤ maxFrameLen :=
    (length_body_page_le hwithin channelId epoch request).trans (by decide)
  exact ⟨hbody, if_neg (Nat.not_lt.mpr hbody)⟩

/-- A line feed, a narrower terminal, and a character that wraps there. -/
def narrowing : List TerminalCall :=
  [.dispatch (.print 'a'), .dispatch (.execute 0x0A), .resize 2 1, .dispatch (.print 'b')]

/-- A terminal of four columns after `narrowing`. -/
def narrowed : WholeTerminal :=
  ((WholeTerminal.sessionLife (fun _ => some 1) id).run (.new 4 1) narrowing).getD (.new 4 1)

/-- A channel on that terminal. -/
def narrowedFlow : Flow := { Flow.new 4 1 with history := ⟨narrowed.screen, []⟩ }

theorem page_encodes_narrowed :
    narrowed.screen.scrollback.map List.length = [4, 2] ∧
      encode (narrowedFlow.page 2 7 (0, 1024)) = .ok (narrowedFlow.page 2 7 (0, 1024)).frame := by
  have hrun : (WholeTerminal.sessionLife (fun _ => some 1) id).run (.new 4 1) narrowing =
      some narrowed := by
    decide
  exact ⟨by decide, (page_encodes hrun (by decide) rfl 2 7 (0, 1024)).2⟩

end Nosh.Scrollback
