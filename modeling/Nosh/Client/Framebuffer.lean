import Nosh.Client.Screen
import Nosh.Lib.Machine

/-!
# The framebuffer under any sequence of diffs

`ClientScreen` with both of its grids, and `apply` with the index expressions of
the source: `self.confirmed[row]`, `row_cells[col]` and `row_cells[cont_col]`
panic outside the bounds, which is `none` here.  A server, or whoever speaks in
its place, chooses every number and every string of a diff.

## Main definitions

* `Framebuffer` — the screen with the physical grid and cursor.
* `Framebuffer.apply` — `ClientScreen::apply`, `none` where it would panic.
* `framebuffer` — the machine whose actions are diffs.

## Main results

* `Framebuffer.apply_of_accepts` — **no index is out of bounds**: `apply` returns, with
  `ClientScreen.apply` on the confirmed side and a blank physical grid after a resize.
* `framebuffer_robust` — **any sequence of diffs is survived**: both grids keep the
  recorded shape, the epoch never goes back, refused diffs change nothing and a
  repeated diff has no further effect.
-/

namespace Nosh.Client

open Nosh.Lib Nosh.Proto

/-- `ClientScreen` with the grid that was last painted and the cursor left there. -/
structure Framebuffer extends ClientScreen where
  physical : Grid Cell
  physicalCursor : CursorPos
  deriving DecidableEq, Repr

namespace Framebuffer

/-- `ClientScreen::new`. -/
def new (cols rows : ℕ) : Framebuffer where
  toClientScreen := .new cols rows
  physical := makeGrid cols rows
  physicalCursor := ⟨0, 0⟩

/-- `ClientScreen::resize`: the physical grid is not kept. -/
def resize (fb : Framebuffer) (cols rows : ℕ) : Framebuffer where
  toClientScreen := fb.toClientScreen.resize cols rows
  physical := makeGrid cols rows
  physicalCursor := ⟨0, 0⟩

/-- Both grids are as large as the recorded dimensions say. -/
structure Shaped (fb : Framebuffer) : Prop where
  confirmed : fb.confirmed.HasShape fb.rows fb.cols
  physical : fb.physical.HasShape fb.rows fb.cols

end Framebuffer

/-! ## Indexing -/

/-- `row_cells[col] = cell`. -/
def setCell? (cells : List Cell) (col : ℕ) (cell : Cell) : Option (List Cell) :=
  if col < cells.length then some (cells.set col cell) else none

section Apply

variable (width : Char → Option ℕ)

/-- One character of the loop of `apply`: its cell, and the continuation cell of a width-2
one if the row has a column for it. -/
def writeChar? (run : DiffRun) (col : ℕ) (ch : Char) (cells : List Cell) : Option (List Cell) := do
  let cells ← setCell? cells col ⟨ch, run.style, run.fg, run.bg, false⟩
  if width ch = some 2 then
    let contCol := col + 1
    if contCol < cells.length then
      setCell? cells contCol ⟨' ', run.style, run.fg, run.bg, true⟩
    else some cells
  else some cells

/-- The character loop of `apply` on one row. -/
def writeChars? (run : DiffRun) : ℕ → List Char → List Cell → Option (List Cell)
  | _, [], cells => some cells
  | col, ch :: rest, cells =>
      if cells.length ≤ col then some cells
      else do
        let cells ← writeChar? width run col ch cells
        writeChars? run (col + 1) rest cells

/-- One run of the loop in `apply`, on the borrowed row `self.confirmed[row]`. -/
def applyRun? (grid : Grid Cell) (run : DiffRun) : Option (Grid Cell) :=
  if grid.length ≤ run.row then some grid
  else do
    let rowCells ← grid[run.row]?
    let rowCells ← writeChars? width run run.startCol run.chars rowCells
    some (grid.set run.row rowCells)

/-- `ClientScreen::apply`. -/
def Framebuffer.apply (fb : Framebuffer) (diff : StateDiff) : Option Framebuffer :=
  if diff.epoch = 0 ∨ diff.epoch < fb.lastAppliedEpoch then some fb
  else if diff.cols = 0 ∨ diff.rows = 0 ∨ maxTerminalCols < diff.cols ∨
      maxTerminalRows < diff.rows then some fb
  else do
    let fb :=
      if diff.cols ≠ fb.cols ∨ diff.rows ≠ fb.rows then fb.resize diff.cols diff.rows else fb
    let confirmed ← diff.runs.foldlM (applyRun? width) fb.confirmed
    some { fb with
      confirmed := confirmed
      confirmedCursor := diff.cursor
      lastAppliedEpoch := diff.epoch }

/-- The screen as a machine: its actions are the diffs handed to `apply`. -/
def framebuffer : Machine Framebuffer StateDiff where
  step fb diff := fb.apply width diff

/-! ## No index is out of bounds -/

variable {width}

theorem setCell?_of_lt {cells : List Cell} {col : ℕ} (h : col < cells.length) (cell : Cell) :
    setCell? cells col cell = some (cells.set col cell) :=
  if_pos h

theorem writeChar?_of_lt (run : DiffRun) {col : ℕ} (ch : Char) {cells : List Cell}
    (h : col < cells.length) :
    writeChar? width run col ch cells =
      some (if width ch = some 2 ∧ col + 1 < (cells.set col (run.cell ch)).length then
        (cells.set col (run.cell ch)).set (col + 1) ⟨' ', run.style, run.fg, run.bg, true⟩
      else cells.set col (run.cell ch)) := by
  unfold writeChar?
  rw [setCell?_of_lt h]
  change (if width ch = some 2 then
      if col + 1 < (cells.set col (run.cell ch)).length then _ else some _ else some _) = _
  by_cases hwide : width ch = some 2
  · by_cases hcont : col + 1 < (cells.set col (run.cell ch)).length
    · rw [if_pos hwide, if_pos hcont, if_pos ⟨hwide, hcont⟩]
      exact setCell?_of_lt hcont _
    · rw [if_pos hwide, if_neg hcont, if_neg fun h => hcont h.2]
      rfl
  · rw [if_neg hwide, if_neg fun h => hwide h.1]
    rfl

theorem writeChars?_eq (run : DiffRun) (chars : List Char) (col : ℕ) (cells : List Cell) :
    writeChars? width run col chars cells = some (writeChars width run col chars cells) := by
  induction chars generalizing col cells with
  | nil => rfl
  | cons ch rest ih =>
      rw [writeChars?, writeChars]
      split
      · rfl
      · next hcol =>
          rw [writeChar?_of_lt run ch (Nat.lt_of_not_le hcol)]
          exact ih (col + 1) _

theorem applyRun?_eq (grid : Grid Cell) (run : DiffRun) :
    applyRun? width grid run = some (applyRun width grid run) := by
  unfold applyRun? applyRun
  split
  · rfl
  · next hrow =>
      have hlt : run.row < grid.length := Nat.lt_of_not_le hrow
      rw [List.getElem?_eq_getElem hlt, Option.bind_eq_bind, Option.bind_some, writeChars?_eq,
        Option.bind_some, List.modify_eq_set_getElem?, List.getElem?_eq_getElem hlt]
      rfl

theorem foldlM_applyRun? (runs : List DiffRun) (grid : Grid Cell) :
    runs.foldlM (applyRun? width) grid = some (applyRuns width grid runs) := by
  induction runs generalizing grid with
  | nil => rfl
  | cons run runs ih =>
      rw [List.foldlM_cons, applyRun?_eq]
      exact ih _

namespace Framebuffer

variable {fb : Framebuffer} {diff : StateDiff}

/-- The screen `apply` writes the runs of an accepted diff to. -/
def fitTo (fb : Framebuffer) (cols rows : ℕ) : Framebuffer :=
  if cols ≠ fb.cols ∨ rows ≠ fb.rows then fb.resize cols rows else fb

@[simp] theorem fitTo_toClientScreen (fb : Framebuffer) (cols rows : ℕ) :
    (fb.fitTo cols rows).toClientScreen = fb.toClientScreen.fitTo cols rows := by
  unfold fitTo ClientScreen.fitTo
  split <;> rfl

theorem Shaped.fitTo (h : fb.Shaped) (cols rows : ℕ) :
    (fb.fitTo cols rows).physical.HasShape rows cols := by
  unfold Framebuffer.fitTo
  split
  · exact hasShape_makeGrid cols rows
  · next hdims =>
      push Not at hdims
      obtain ⟨rfl, rfl⟩ := hdims
      exact h.physical

/-- A screen of this size keeps both grids. -/
theorem fitTo_eq_self {cols rows : ℕ} (hcols : fb.cols = cols) (hrows : fb.rows = rows) :
    fb.fitTo cols rows = fb := by
  subst hcols hrows
  exact if_neg (by simp)

theorem apply_of_not_accepts (h : ¬ fb.toClientScreen.Accepts diff) :
    fb.apply width diff = some fb := by
  unfold apply
  split
  · rfl
  · next hepoch =>
      split
      · rfl
      · next hdims => exact absurd ⟨by omega, by omega, hdims⟩ h

/-- **No index is out of bounds.**  An accepted diff is applied to the resized screen. -/
theorem apply_of_accepts (h : fb.toClientScreen.Accepts diff) :
    fb.apply width diff =
      some { fb.fitTo diff.cols diff.rows with
        toClientScreen := fb.toClientScreen.apply width diff } := by
  obtain ⟨hpos, hle, hdims⟩ := id h
  unfold apply
  rw [if_neg (by omega), if_neg hdims]
  change (diff.runs.foldlM (applyRun? width) (fb.fitTo diff.cols diff.rows).confirmed).bind _ = _
  rw [foldlM_applyRun?, Option.bind_some, ClientScreen.apply_of_accepts width h,
    ← fitTo_toClientScreen]
  rfl

/-! ## One diff -/

variable (width) in
/-- Every diff is survived, keeps the shape of both grids and does not lower the epoch. -/
theorem Shaped.apply (h : fb.Shaped) (diff : StateDiff) :
    ∃ fb', fb.apply width diff = some fb' ∧ fb'.Shaped ∧
      fb.lastAppliedEpoch ≤ fb'.lastAppliedEpoch := by
  by_cases haccepts : fb.toClientScreen.Accepts diff
  · refine ⟨_, apply_of_accepts haccepts, ?_, ?_⟩
    · refine ⟨?_, ?_⟩
      · rw [ClientScreen.apply_of_accepts width haccepts]
        dsimp only
        rw [applyRuns_eq_writeAll_runWrites, ClientScreen.fitTo_rows, ClientScreen.fitTo_cols]
        exact (ClientScreen.WellShaped.fitTo h.confirmed diff.cols diff.rows).writeAll _
      · rw [ClientScreen.apply_of_accepts width haccepts]
        dsimp only
        rw [ClientScreen.fitTo_rows, ClientScreen.fitTo_cols]
        exact h.fitTo diff.cols diff.rows
    · rw [ClientScreen.apply_of_accepts width haccepts]
      exact haccepts.2.1
  · exact ⟨fb, apply_of_not_accepts haccepts, h, Nat.le_refl _⟩

/-- **A repeated diff has no further effect.**  The second time there is nothing to resize,
and the runs write what the last of them left. -/
theorem Shaped.apply_apply {fb' : Framebuffer} (h : fb.Shaped)
    (happly : fb.apply width diff = some fb') : fb'.apply width diff = some fb' := by
  by_cases haccepts : fb.toClientScreen.Accepts diff
  · rw [apply_of_accepts haccepts, Option.some.injEq] at happly
    have hscreen : fb'.toClientScreen = fb.toClientScreen.apply width diff := by rw [← happly]
    rw [ClientScreen.apply_of_accepts width haccepts] at hscreen
    have hcols : fb'.cols = diff.cols := by rw [hscreen, ClientScreen.fitTo_cols]
    have hrows : fb'.rows = diff.rows := by rw [hscreen, ClientScreen.fitTo_rows]
    have haccepts' : fb'.toClientScreen.Accepts diff :=
      ⟨haccepts.1, by rw [hscreen], haccepts.2.2⟩
    rw [apply_of_accepts haccepts', fitTo_eq_self hcols hrows,
      ClientScreen.apply_of_accepts width haccepts', ClientScreen.fitTo_eq_self hcols hrows]
    have hshape := ClientScreen.WellShaped.fitTo h.confirmed diff.cols diff.rows
    have hconfirmed : applyRuns width fb'.confirmed diff.runs = fb'.confirmed := by
      rw [hscreen]
      dsimp only
      rw [applyRuns_eq_writeAll_runWrites, applyRuns_eq_writeAll_runWrites,
        hshape.writeAll_writeAll]
    have hcursor : diff.cursor = fb'.confirmedCursor := by rw [hscreen]
    have hepoch : diff.epoch = fb'.lastAppliedEpoch := by rw [hscreen]
    rw [hconfirmed, hcursor, hepoch]
  · rw [apply_of_not_accepts haccepts, Option.some.injEq] at happly
    subst happly
    exact apply_of_not_accepts haccepts

end Framebuffer

/-! ## Any sequence of diffs -/

variable (width)

theorem framebuffer_run {fb : Framebuffer} (h : fb.Shaped) (diffs : List StateDiff) :
    ∃ fb', (framebuffer width).run fb diffs = some fb' ∧ fb'.Shaped ∧
      fb.lastAppliedEpoch ≤ fb'.lastAppliedEpoch := by
  induction diffs generalizing fb with
  | nil => exact ⟨fb, rfl, h, Nat.le_refl _⟩
  | cons diff diffs ih =>
      obtain ⟨fb', hstep, h', hepoch⟩ := h.apply width diff
      obtain ⟨last, hrun, hlast, hepochs⟩ := ih h'
      refine ⟨last, ?_, hlast, Nat.le_trans hepoch hepochs⟩
      have hstep' : (framebuffer width).step fb diff = some fb' := hstep
      rw [Machine.run_cons, hstep', Option.bind_some, hrun]

/-- **The client survives any sequence of diffs.**  Whatever diffs are applied to a screen, in
whatever order: none of them panics, both grids keep the recorded shape and the epoch never goes
back.  In the state that is reached, a diff with epoch zero, an epoch below the last one or
dimensions out of range changes nothing, and applying any diff twice is applying it once. -/
theorem framebuffer_robust {fb : Framebuffer} (h : fb.Shaped) (diffs : List StateDiff) :
    ∃ fb', (framebuffer width).run fb diffs = some fb' ∧
      fb'.confirmed.HasShape fb'.rows fb'.cols ∧ fb'.physical.HasShape fb'.rows fb'.cols ∧
      fb.lastAppliedEpoch ≤ fb'.lastAppliedEpoch ∧
      (∀ diff : StateDiff, diff.epoch = 0 ∨ diff.epoch < fb'.lastAppliedEpoch ∨
          ¬ DimsInRange diff.cols diff.rows → fb'.apply width diff = some fb') ∧
      ∀ diff, ∃ once, fb'.apply width diff = some once ∧
        fb'.lastAppliedEpoch ≤ once.lastAppliedEpoch ∧ once.apply width diff = some once := by
  obtain ⟨fb', hrun, h', hepoch⟩ := framebuffer_run width h diffs
  refine ⟨fb', hrun, h'.confirmed, h'.physical, hepoch, fun diff hrefused => ?_, fun diff => ?_⟩
  · refine Framebuffer.apply_of_not_accepts fun haccepts => ?_
    obtain ⟨hpos, hle, hdims⟩ := haccepts
    rcases hrefused with hzero | hold | hrange
    · omega
    · omega
    · exact hrange hdims
  · obtain ⟨once, happly, -, hepoch'⟩ := h'.apply width diff
    exact ⟨once, happly, hepoch', h'.apply_apply happly⟩

end Apply

/-- A diff that resizes, with a row and columns outside the screen and a wide character whose
continuation the next character overwrites; then dimensions out of range, and epoch zero. -/
def hostileDiffs : List StateDiff :=
  [⟨2, 3, 1, ⟨9, 9⟩, false,
      [⟨7, 0, ⟨0⟩, none, none, ['x']⟩, ⟨0, 0, ⟨0⟩, none, none, ['世', 'a', '世', 'b']⟩]⟩,
    ⟨3, 600, 1, ⟨0, 0⟩, false, [⟨0, 0, ⟨0⟩, none, none, ['y']⟩]⟩,
    ⟨0, 3, 1, ⟨0, 0⟩, false, [⟨0, 0, ⟨0⟩, none, none, ['z']⟩]⟩]

theorem framebuffer_robust_hostile :
    (Framebuffer.new 2 1).Shaped ∧
      ∃ fb', (framebuffer fun c => if c = '世' then some 2 else some 1).run
          (Framebuffer.new 2 1) hostileDiffs = some fb' ∧
        fb'.confirmed.HasShape fb'.rows fb'.cols ∧ fb'.physical.HasShape fb'.rows fb'.cols := by
  have hshaped : (Framebuffer.new 2 1).Shaped :=
    ⟨hasShape_makeGrid 2 1, hasShape_makeGrid 2 1⟩
  obtain ⟨fb', hrun, hconfirmed, hphysical, -⟩ :=
    framebuffer_robust (fun c => if c = '世' then some 2 else some 1) hshaped hostileDiffs
  exact ⟨hshaped, fb', hrun, hconfirmed, hphysical⟩

end Nosh.Client
