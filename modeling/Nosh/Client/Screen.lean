import Nosh.Proto.Datagram

/-!
# The confirmed framebuffer of the client

`ClientScreen` of `nosh-client/src/screen.rs`: the confirmed grid and cursor and
the epoch of the last applied diff, with `apply` and `resize`.  The physical
grid is read by the renderers only and is modelled with them; the overlay stack
is empty in `ClientScreen::new` and never filled, and is left out.

The display width of a character comes from the `unicode_width` crate; it is a
parameter, `width`, of everything below.

## Main results

* `apply_cases` — **`apply` takes a diff whole or not at all**: either the
  acceptance test fails and nothing changes, or the confirmed grid is patched
  with the runs and the epoch and cursor of the diff are installed.
* `applyRuns_eq_writeAll_runWrites` — **applying runs is a patch**: every character
  writes its cell, a width-2 one its continuation cell as well, and whatever falls
  outside the grid is ignored.
* `applyRuns_eq_writeAll` — for runs without width-2 characters these are the cells
  the runs carry.
-/

namespace Nosh.Client

open Nosh.Lib Nosh.Proto

/-- `MAX_TERMINAL_COLS`. -/
def maxTerminalCols : ℕ := 512

/-- `MAX_TERMINAL_ROWS`. -/
def maxTerminalRows : ℕ := 256

/-- `ClientScreen`. -/
structure ClientScreen where
  cols : ℕ
  rows : ℕ
  /-- Cells last applied from `StateDiff`s. -/
  confirmed : Grid Cell
  confirmedCursor : CursorPos
  lastAppliedEpoch : ℕ
  deriving DecidableEq, Repr

namespace ClientScreen

/-- `ClientScreen::new`. -/
def new (cols rows : ℕ) : ClientScreen where
  cols := cols
  rows := rows
  confirmed := makeGrid cols rows
  confirmedCursor := ⟨0, 0⟩
  lastAppliedEpoch := 0

/-- `ClientScreen::resize`: rows and columns are cut off or filled with blank cells,
and the cursor is clamped. -/
def resize (screen : ClientScreen) (cols rows : ℕ) : ClientScreen :=
  { screen with
    cols := cols
    rows := rows
    confirmed := (screen.confirmed.map (resizeRow cols)).take rows
      ++ List.replicate (rows - screen.confirmed.length) (List.replicate cols Cell.blank)
    confirmedCursor :=
      ⟨min screen.confirmedCursor.row (rows - 1), min screen.confirmedCursor.col (cols - 1)⟩ }

end ClientScreen

section Apply

variable (width : Char → Option ℕ)

/-- The character loop of `apply` on one row: stop at the row boundary, write
the character, and mark the next column as continuation after a width-2 one. -/
def writeChars (run : DiffRun) : ℕ → List Char → List Cell → List Cell
  | _, [], cells => cells
  | col, ch :: rest, cells =>
      if cells.length ≤ col then cells
      else
        let cells := cells.set col (run.cell ch)
        let cells :=
          if width ch = some 2 ∧ col + 1 < cells.length then
            cells.set (col + 1) ⟨' ', run.style, run.fg, run.bg, true⟩
          else cells
        writeChars run (col + 1) rest cells

/-- One run of the loop in `apply`; a run on a row outside the grid is skipped. -/
def applyRun (grid : Grid Cell) (run : DiffRun) : Grid Cell :=
  if grid.length ≤ run.row then grid
  else grid.modify run.row (writeChars width run run.startCol run.chars)

/-- The run loop of `apply`. -/
def applyRuns (grid : Grid Cell) (runs : List DiffRun) : Grid Cell :=
  runs.foldl (applyRun width) grid

/-- The dimensions `apply` accepts. -/
def DimsInRange (cols rows : ℕ) : Prop :=
  ¬ (cols = 0 ∨ rows = 0 ∨ maxTerminalCols < cols ∨ maxTerminalRows < rows)

instance (cols rows : ℕ) : Decidable (DimsInRange cols rows) :=
  inferInstanceAs (Decidable (¬ _))

namespace ClientScreen

variable {screen : ClientScreen} {diff : StateDiff}

/-- The screen `apply` writes the runs of an accepted diff to: resized when the
dimensions of the diff are not the current ones. -/
def fitTo (screen : ClientScreen) (cols rows : ℕ) : ClientScreen :=
  if cols ≠ screen.cols ∨ rows ≠ screen.rows then screen.resize cols rows else screen

/-- `ClientScreen::apply`. -/
def apply (screen : ClientScreen) (diff : StateDiff) : ClientScreen :=
  if diff.epoch = 0 ∨ diff.epoch < screen.lastAppliedEpoch then screen
  else if ¬ DimsInRange diff.cols diff.rows then screen
  else
    let fitted := screen.fitTo diff.cols diff.rows
    { fitted with
      confirmed := applyRuns width fitted.confirmed diff.runs
      confirmedCursor := diff.cursor
      lastAppliedEpoch := diff.epoch }

/-- The test both guards of `apply` amount to. -/
def Accepts (screen : ClientScreen) (diff : StateDiff) : Prop :=
  0 < diff.epoch ∧ screen.lastAppliedEpoch ≤ diff.epoch ∧ DimsInRange diff.cols diff.rows

instance (screen : ClientScreen) (diff : StateDiff) : Decidable (screen.Accepts diff) :=
  inferInstanceAs (Decidable (_ ∧ _ ∧ _))

/-- The confirmed grid is as large as the recorded dimensions say. -/
def WellShaped (screen : ClientScreen) : Prop :=
  screen.confirmed.HasShape screen.rows screen.cols

/-! ## What `apply` does -/

theorem apply_of_accepts (h : screen.Accepts diff) :
    screen.apply width diff =
      { screen.fitTo diff.cols diff.rows with
        confirmed := applyRuns width (screen.fitTo diff.cols diff.rows).confirmed diff.runs
        confirmedCursor := diff.cursor
        lastAppliedEpoch := diff.epoch } := by
  obtain ⟨hpos, hle, hdims⟩ := h
  unfold apply
  rw [if_neg (by omega), if_neg (not_not.mpr hdims)]

theorem apply_of_not_accepts (h : ¬ screen.Accepts diff) : screen.apply width diff = screen := by
  unfold apply
  split
  · rfl
  · next hepoch =>
      split
      · rfl
      · next hdims =>
          exact absurd ⟨by omega, by omega, not_not.mp hdims⟩ h

/-- **All or nothing.**  A diff is applied whole, or the screen is unchanged. -/
theorem apply_cases (screen : ClientScreen) (diff : StateDiff) :
    (¬ screen.Accepts diff ∧ screen.apply width diff = screen) ∨
      (screen.Accepts diff ∧
        (screen.apply width diff).confirmed =
          applyRuns width (screen.fitTo diff.cols diff.rows).confirmed diff.runs ∧
        (screen.apply width diff).confirmedCursor = diff.cursor ∧
        (screen.apply width diff).lastAppliedEpoch = diff.epoch) := by
  by_cases h : screen.Accepts diff
  · exact Or.inr ⟨h, by rw [apply_of_accepts width h], by rw [apply_of_accepts width h],
      by rw [apply_of_accepts width h]⟩
  · exact Or.inl ⟨h, apply_of_not_accepts width h⟩

theorem wellShaped_new (cols rows : ℕ) : (new cols rows).WellShaped :=
  hasShape_makeGrid cols rows

theorem wellShaped_resize (screen : ClientScreen) (cols rows : ℕ) :
    (screen.resize cols rows).WellShaped := by
  refine ⟨?_, fun row hrow => ?_⟩
  · simp only [resize, List.length_append, List.length_take, List.length_map,
      List.length_replicate]
    omega
  · simp only [resize, List.mem_append] at hrow ⊢
    rcases hrow with hrow | hrow
    · obtain ⟨row', -, rfl⟩ := List.mem_map.mp (List.mem_of_mem_take hrow)
      exact length_resizeRow cols row'
    · obtain ⟨-, rfl⟩ := List.mem_replicate.mp hrow
      exact List.length_replicate

theorem WellShaped.fitTo (h : screen.WellShaped) (cols rows : ℕ) :
    (screen.fitTo cols rows).confirmed.HasShape rows cols := by
  unfold ClientScreen.fitTo
  split
  · exact wellShaped_resize screen cols rows
  · next hdims =>
      push Not at hdims
      obtain ⟨rfl, rfl⟩ := hdims
      exact h

/-- A fitted screen keeps the cells it has and is blank elsewhere. -/
theorem WellShaped.cellAt_fitTo (h : screen.WellShaped) {cols rows r c : ℕ} (hr : r < rows)
    (hc : c < cols) :
    (screen.fitTo cols rows).confirmed.cellAt r c =
      some ((screen.confirmed.cellAt r c).getD Cell.blank) := by
  unfold ClientScreen.fitTo
  split
  · unfold Grid.cellAt resize
    dsimp only
    by_cases hrow : r < screen.confirmed.length
    · have hfront : r < ((screen.confirmed.map (resizeRow cols)).take rows).length := by
        rw [List.length_take, List.length_map]
        omega
      rw [List.getElem?_append_left hfront, List.getElem?_take_of_lt hr, List.getElem?_map,
        List.getElem?_eq_getElem hrow, Option.map_some, Option.bind_some, Option.bind_some]
      exact getElem?_resizeRow hc _
    · have hback : ((screen.confirmed.map (resizeRow cols)).take rows).length ≤ r := by
        rw [List.length_take, List.length_map]
        omega
      rw [List.getElem?_append_right hback, List.getElem?_replicate_of_lt (by
          rw [List.length_take, List.length_map]
          omega),
        List.getElem?_eq_none (Nat.le_of_not_lt hrow), Option.bind_some,
        List.getElem?_replicate_of_lt hc]
      rfl
  · next hdims =>
      push Not at hdims
      obtain ⟨rfl, rfl⟩ := hdims
      obtain ⟨x, hx⟩ := Option.isSome_iff_exists.mp ((h.isSome_cellAt r c).mpr ⟨hr, hc⟩)
      rw [hx, Option.getD_some]

@[simp] theorem fitTo_cols (screen : ClientScreen) (cols rows : ℕ) :
    (screen.fitTo cols rows).cols = cols := by
  unfold fitTo
  split
  · rfl
  · next h => push Not at h; exact h.1.symm

@[simp] theorem fitTo_rows (screen : ClientScreen) (cols rows : ℕ) :
    (screen.fitTo cols rows).rows = rows := by
  unfold fitTo
  split
  · rfl
  · next h => push Not at h; exact h.2.symm

/-- A screen of this size is not touched. -/
theorem fitTo_eq_self {cols rows : ℕ} (hcols : screen.cols = cols) (hrows : screen.rows = rows) :
    screen.fitTo cols rows = screen := by
  subst hcols hrows
  exact if_neg (by simp)

end ClientScreen

/-! ## Patching -/

/-- The continuation cell `apply` marks to the right of a width-2 character. -/
def continuationCell (c : Cell) : Cell := ⟨' ', c.style, c.fg, c.bg, true⟩

/-- The writes of one character: its own cell and, for a width-2 one, the
continuation cell. -/
def glyphWrites (w : (ℕ × ℕ) × Cell) : List ((ℕ × ℕ) × Cell) :=
  if width w.2.ch = some 2 then [w, ((w.1.1, w.1.2 + 1), continuationCell w.2)] else [w]

/-- All writes of a list of runs, in the order of the loops of `apply`. -/
def runWrites (runs : List DiffRun) : List ((ℕ × ℕ) × Cell) :=
  (runCells runs).flatMap (glyphWrites width)

variable {width}

theorem mem_glyphWrites {w x : (ℕ × ℕ) × Cell} :
    x ∈ glyphWrites width w ↔
      x = w ∨ width w.2.ch = some 2 ∧ x = ((w.1.1, w.1.2 + 1), continuationCell w.2) := by
  unfold glyphWrites
  split
  · next hwide => simp [hwide]
  · next hwide => simp [hwide]

/-- On one row the character loop is a patch: the break at the row boundary only
drops writes that fall outside the row. -/
theorem modify_writeChars (run : DiffRun) (chars : List Char) (grid : Grid Cell) (row col : ℕ) :
    grid.modify row (writeChars width run col chars) =
      grid.writeAll ((layCells row run.cell col chars).flatMap (glyphWrites width)) := by
  induction chars generalizing grid col with
  | nil =>
      have hid : writeChars width run col [] = id := by
        funext cells
        rfl
      rw [hid, List.modify_id]
      rfl
  | cons ch rest ih =>
      -- one iteration, without the bound checks that `set` makes itself
      let put : List Cell → List Cell := fun cells =>
        if width ch = some 2 then
          (cells.set col (run.cell ch)).set (col + 1) (continuationCell (run.cell ch))
        else cells.set col (run.cell ch)
      have hfun : writeChars width run col (ch :: rest) =
          writeChars width run (col + 1) rest ∘ put := by
        funext cells
        rw [writeChars, Function.comp_apply]
        split
        · next hlen =>
            -- past the boundary the loop stops; every later write is outside the row as well
            have hput : put cells = cells := by
              have hset : cells.set col (run.cell ch) = cells := List.set_eq_of_length_le hlen
              simp only [put, hset, List.set_eq_of_length_le (Nat.le_succ_of_le hlen), ite_self]
            rw [hput]
            cases rest with
            | nil => rfl
            | cons => rw [writeChars, if_pos (by omega)]
        · dsimp only [put]
          by_cases hwide : width ch = some 2
          · by_cases hbound : col + 1 < (cells.set col (run.cell ch)).length
            · rw [if_pos ⟨hwide, hbound⟩, if_pos hwide]
              rfl
            · rw [if_neg fun h => hbound h.2, if_pos hwide,
                List.set_eq_of_length_le (Nat.le_of_not_lt hbound)]
          · rw [if_neg fun h => hwide h.1, if_neg hwide]
      have hput : grid.modify row put =
          grid.writeAll (glyphWrites width ((row, col), run.cell ch)) := by
        change grid.modify row put = grid.writeAll (if width ch = some 2 then _ else _)
        dsimp only [put]
        split
        · exact (List.modify_modify_eq (fun cells => cells.set col (run.cell ch))
            (fun cells => cells.set (col + 1) (continuationCell (run.cell ch))) row grid).symm
        · rfl
      rw [hfun, ← List.modify_modify_eq, hput, ih]
      exact (Grid.writeAll_append ..).symm

theorem applyRun_eq_writeAll (run : DiffRun) (grid : Grid Cell) :
    applyRun width grid run = grid.writeAll (run.cells.flatMap (glyphWrites width)) := by
  rw [DiffRun.cells, ← modify_writeChars]
  unfold applyRun
  split
  · next hrow => rw [List.modify_eq_self hrow]
  · rfl

/-- **Applying runs is patching** with the writes of their characters. -/
theorem applyRuns_eq_writeAll_runWrites (runs : List DiffRun) (grid : Grid Cell) :
    applyRuns width grid runs = grid.writeAll (runWrites width runs) := by
  induction runs generalizing grid with
  | nil => rfl
  | cons run runs ih =>
      rw [runWrites, runCells_cons, List.flatMap_append, Grid.writeAll_append,
        ← applyRun_eq_writeAll]
      exact ih _

/-- The run has no width-2 character, so `apply` marks no continuation cell. -/
def NarrowRun (width : Char → Option ℕ) (run : DiffRun) : Prop :=
  ∀ ch ∈ run.chars, width ch ≠ some 2

/-- Applying narrow runs is patching with the cells they carry. -/
theorem applyRuns_eq_writeAll {runs : List DiffRun} (hnarrow : ∀ run ∈ runs, NarrowRun width run)
    (grid : Grid Cell) : applyRuns width grid runs = grid.writeAll (runCells runs) := by
  have hsingle : (runCells runs).flatMap (glyphWrites width) = (runCells runs).flatMap pure := by
    refine List.flatMap_congr fun w hw => ?_
    obtain ⟨run, hrun, hw⟩ := mem_runCells.mp hw
    rw [DiffRun.cells, mem_layCells] at hw
    obtain ⟨i, ch, hch, rfl⟩ := hw
    exact if_neg (hnarrow run hrun ch (List.mem_of_getElem? hch))
  rw [applyRuns_eq_writeAll_runWrites, runWrites, hsingle]
  exact congrArg grid.writeAll (List.flatMap_pure_eq_map id _ |>.trans (List.map_id _))

end Apply

end Nosh.Client
