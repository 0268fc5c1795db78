import Nosh.Server.History

/-!
# Attributes do not steer the terminal

`TerminalState` looks at no cell of its grid and at no attribute of its pen when it decides what
to do. A terminal and the same terminal without attributes go through the same dispatches, push
the same lines up to attributes, and end the same up to attributes.

## Main Definitions

* `plainGrid`, `TerminalState.plain`, `TerminalHistory.plain` — without attributes

## Main Results

* `dispatch_plain` / `TerminalHistory.step_plain` — forgetting the attributes before or after a
  step makes no difference.
-/

namespace Nosh.Server

open Lib Proto

/-! ## A terminal without attributes -/

/-- A cell without its attributes. -/
def unstyled (cell : Cell) : Cell := ⟨cell.ch, CellStyle.none, none, none, cell.wide⟩

/-- A grid without attributes. -/
def plainGrid (grid : Grid Cell) : Grid Cell := grid.map (List.map unstyled)

theorem plainGrid_append (g h : Grid Cell) : plainGrid (g ++ h) = plainGrid g ++ plainGrid h :=
  List.map_append

theorem length_plainGrid (g : Grid Cell) : (plainGrid g).length = g.length := List.length_map _

theorem plainGrid_replicate_blank (cols rows : ℕ) :
    plainGrid (List.replicate rows (List.replicate cols Cell.blank)) =
      List.replicate rows (List.replicate cols Cell.blank) := by
  rw [plainGrid, List.map_replicate, List.map_replicate]
  rfl

/-- An edit of each row that does not look at attributes. -/
theorem plainGrid_map {f : List Cell → List Cell}
    (hf : ∀ row, (f row).map unstyled = f (row.map unstyled)) (g : Grid Cell) :
    plainGrid (g.map f) = (plainGrid g).map f := by
  unfold plainGrid
  rw [List.map_map, List.map_map]
  exact List.map_congr_left fun row _ => hf row

theorem plainGrid_modify {f f' : List Cell → List Cell}
    (hf : ∀ row, (f row).map unstyled = f' (row.map unstyled)) (g : Grid Cell) (r : ℕ) :
    plainGrid (g.modify r f) = (plainGrid g).modify r f' := by
  refine List.ext_getElem? fun i => ?_
  unfold plainGrid
  rw [List.getElem?_map, List.getElem?_modify, List.getElem?_modify, List.getElem?_map]
  cases g[i]? with
  | none => rfl
  | some row =>
      by_cases hi : r = i
      · simp [hi, hf]
      · simp [hi]

theorem plain_resizeRow (cols : ℕ) (row : List Cell) :
    (resizeRow cols row).map unstyled = resizeRow cols (row.map unstyled) := by
  simp only [resizeRow, List.map_append, List.map_take, List.map_replicate, List.length_map]
  rfl

namespace TerminalState

theorem plain_putCell (sgr : SgrState) (c : Char) (colWidth col : ℕ) (row : List Cell) :
    (putCell sgr c colWidth col row).map unstyled =
      putCell .default c colWidth col (row.map unstyled) := by
  simp only [putCell, List.length_map, List.length_set]
  split
  · split
    · rw [List.map_set, List.map_set]
      rfl
    · rw [List.map_set]
      rfl
  · rfl

/-- Blanking cells does not look at attributes. -/
theorem plainGrid_edit_blankWhere (region : ℕ → ℕ → Prop) [∀ r c, Decidable (region r c)]
    (grid : Grid Cell) :
    plainGrid (grid.edit (blankWhere region)) = (plainGrid grid).edit (blankWhere region) := by
  refine Grid.eq_edit fun r => ?_
  unfold plainGrid
  rw [List.getElem?_map, List.getElem?_map, Grid.getElem?_edit]
  cases grid[r]? with
  | none => rfl
  | some row =>
      refine congrArg some (List.ext_getElem? fun c => ?_)
      rw [List.getElem?_map, List.getElem?_mapIdx, List.getElem?_mapIdx, List.getElem?_map,
        Option.map_map, Option.map_map]
      congr 1
      funext cell
      dsimp only [blankWhere, Function.comp_apply]
      split <;> rfl

theorem plainGrid_resizeGrid (cols rows : ℕ) (grid : Grid Cell) :
    plainGrid (resizeGrid cols rows grid) = resizeGrid cols rows (plainGrid grid) := by
  unfold resizeGrid
  rw [plainGrid_append, plainGrid_replicate_blank, length_plainGrid,
    ← plainGrid_map (plain_resizeRow cols)]
  unfold plainGrid
  rw [List.map_drop]

theorem plainGrid_pushScrollback (scrollback : Grid Cell) (line : List Cell) :
    plainGrid (pushScrollback scrollback line) =
      pushScrollback (plainGrid scrollback) (line.map unstyled) := by
  dsimp only [pushScrollback]
  have happend : plainGrid (scrollback ++ [line]) = plainGrid scrollback ++ [line.map unstyled] :=
    plainGrid_append _ _
  rw [← happend, length_plainGrid]
  split
  · exact List.map_tail
  · rfl

theorem plainGrid_pushAll (scrollback lines : Grid Cell) :
    plainGrid (pushAll scrollback lines) = pushAll (plainGrid scrollback) (plainGrid lines) := by
  induction lines generalizing scrollback with
  | nil => rfl
  | cons line lines ih =>
      change plainGrid (pushAll (pushScrollback scrollback line) lines) = _
      rw [ih, plainGrid_pushScrollback]
      rfl

/-- A terminal without attributes. -/
def plain (t : TerminalState) : TerminalState :=
  { t with
    grid := plainGrid t.grid
    scrollback := plainGrid t.scrollback
    sgr := .default
    savedPrimary := t.savedPrimary.map fun saved => (plainGrid saved.1, saved.2.1, .default) }

theorem plainGrid_plainGrid (grid : Grid Cell) : plainGrid (plainGrid grid) = plainGrid grid := by
  simp [plainGrid, unstyled, Function.comp_def]

theorem plain_plain (t : TerminalState) : t.plain.plain = t.plain := by
  have hsaved : ∀ saved : Option (Grid Cell × CursorPos × SgrState),
      (saved.map fun saved => (plainGrid saved.1, saved.2.1, SgrState.default)).map
        (fun saved => (plainGrid saved.1, saved.2.1, SgrState.default)) =
      saved.map fun saved => (plainGrid saved.1, saved.2.1, SgrState.default) := by
    rintro (_ | saved)
    · rfl
    · simp only [Option.map_some, plainGrid_plainGrid]
  simp only [plain, plainGrid_plainGrid, hsaved]

/-! Each control function commutes with forgetting the attributes. -/

theorem map_eq_of_isSome_iff {α β : Type} {f : α → β} {o : Option α} {o' : Option β}
    (h : o.isSome ↔ o'.isSome) (hsome : ∀ a b, o = some a → o' = some b → f a = b) :
    o.map f = o' := by
  cases o with
  | none =>
      cases o' with
      | none => rfl
      | some b => exact absurd (h.mpr rfl) Bool.false_ne_true
  | some a =>
      obtain ⟨b, rfl⟩ := Option.isSome_iff_exists.mp (h.mp rfl)
      exact congrArg some (hsome a b rfl rfl)

variable (t : TerminalState)

theorem scrollUp_plain : t.scrollUp.map plain = t.plain.scrollUp := by
  unfold scrollUp
  by_cases hrows : t.rows = 0
  · have hplain : t.plain.rows = 0 := hrows
    rw [if_pos hrows, if_pos hplain]
    rfl
  · have hplain : t.plain.rows ≠ 0 := hrows
    rw [if_neg hrows, if_neg hplain]
    cases hgrid : t.grid with
    | nil =>
        have : t.plain.grid = [] := by simp [plain, hgrid, plainGrid]
        rw [this]
        rfl
    | cons top rest =>
        have : t.plain.grid = top.map unstyled :: plainGrid rest := by
          simp [plain, hgrid, plainGrid]
        rw [this]
        have hblank := plainGrid_replicate_blank t.cols 1
        rw [List.replicate_one] at hblank
        cases halt : t.echoState.altScreen with
        | true => simp [plain, plainGrid_append, hblank, halt]
        | false => simp [plain, plainGrid_append, hblank, halt, plainGrid_pushScrollback]

theorem lf_plain : t.lf.map plain = t.plain.lf := by
  unfold lf
  by_cases hbottom : t.rows ≤ t.cursor.row + 1
  · have hplain : t.plain.rows ≤ t.plain.cursor.row + 1 := hbottom
    rw [if_pos hbottom, if_pos hplain]
    exact scrollUp_plain t
  · have hplain : ¬ t.plain.rows ≤ t.plain.cursor.row + 1 := hbottom
    rw [if_neg hbottom, if_neg hplain]
    rfl

/-- A character is written, and the cursor is moved. -/
theorem plain_write (c : Char) (colWidth row col : ℕ) (cursor : CursorPos) :
    plain { t with grid := t.grid.modify row (putCell t.sgr c colWidth col), cursor := cursor } =
      { t.plain with
        grid := t.plain.grid.modify row (putCell t.plain.sgr c colWidth col)
        cursor := cursor } := by
  simp only [plain, plainGrid_modify (plain_putCell t.sgr c colWidth col)]

theorem printChar_plain (width : Char → Option ℕ) (c : Char) :
    (t.printChar width c).map plain = t.plain.printChar width c := by
  unfold printChar
  split
  · rfl
  · dsimp only
    generalize (if width c = some 2 then 2 else 1) = colWidth
    by_cases hwrap : t.cols ≤ min (t.cursor.col + colWidth) u16Max
    · have hplain : t.plain.cols ≤ min (t.plain.cursor.col + colWidth) u16Max := hwrap
      rw [if_pos hwrap, if_pos hplain, lf_plain, plain_write]
      rfl
    · have hplain : ¬ t.plain.cols ≤ min (t.plain.cursor.col + colWidth) u16Max := hwrap
      rw [if_neg hwrap, if_neg hplain, Option.map_some, plain_write]
      rfl

theorem execute_plain (byte : UInt8) : (t.execute byte).map plain = t.plain.execute byte := by
  unfold execute
  split
  · rfl
  · split
    · exact lf_plain t
    · split <;> rfl

/-- The row of the cursor is empty with or without attributes. -/
theorem plain_emptyRow_iff :
    t.plain.grid[t.plain.cursor.row]? = some [] ↔ t.grid[t.cursor.row]? = some [] := by
  change (plainGrid t.grid)[t.cursor.row]? = some [] ↔ _
  rw [plainGrid, List.getElem?_map]
  cases t.grid[t.cursor.row]? with
  | none => exact Iff.rfl
  | some row => rw [Option.map_some, Option.some_inj, Option.some_inj, List.map_eq_nil_iff]

theorem eraseDisplay_plain (n : ℕ) : (t.eraseDisplay n).map plain = t.plain.eraseDisplay n := by
  -- whether an index is out of range depends on lengths only, on both sides
  have hreturns : (t.eraseDisplay n).isSome ↔ (t.plain.eraseDisplay n).isSome := by
    rw [eraseDisplay_isSome_iff, eraseDisplay_isSome_iff, plain_emptyRow_iff]
    change _ ↔ ¬ (n = 1 ∧ ((plainGrid t.grid).length < t.cursor.row ∨ _))
    rw [length_plainGrid]
  refine map_eq_of_isSome_iff hreturns fun t₁ t₂ h₁ h₂ => ?_
  rw [eraseDisplay_eq h₁, eraseDisplay_eq h₂]
  have hscrollback : plainGrid (if n = 3 then [] else t.scrollback) =
      if n = 3 then [] else plainGrid t.scrollback := by
    split <;> rfl
  simp only [plain, plainGrid_edit_blankWhere, hscrollback]
  rfl

theorem eraseLine_plain (n : ℕ) : (t.eraseLine n).map plain = t.plain.eraseLine n := by
  have hreturns : (t.eraseLine n).isSome ↔ (t.plain.eraseLine n).isSome := by
    rw [eraseLine_isSome_iff, eraseLine_isSome_iff, plain_emptyRow_iff]
  refine map_eq_of_isSome_iff hreturns fun t₁ t₂ h₁ h₂ => ?_
  rw [eraseLine_eq h₁, eraseLine_eq h₂]
  simp only [plain, plainGrid_edit_blankWhere]
  rfl

theorem privateMode_plain (enable : Bool) (mode : Param) :
    (t.privateMode enable mode).plain = t.plain.privateMode enable mode := by
  unfold privateMode
  split
  · rfl
  · cases enable with
    | true =>
        have hblank := plainGrid_replicate_blank t.cols t.rows
        simp only [if_true, enterAltScreen, plain, makeGrid, hblank]
        rfl
    | false =>
        simp only [Bool.false_eq_true, if_false, exitAltScreen]
        cases hsaved : t.savedPrimary with
        | none =>
            have hplain : t.plain.savedPrimary = none := by simp [plain, hsaved]
            rw [hplain]
            simp [plain, hsaved]
        | some saved =>
            have hplain : t.plain.savedPrimary = some (plainGrid saved.1, saved.2.1, .default) := by
              simp [plain, hsaved]
            rw [hplain]
            rfl
  · rfl
  · rfl
  · rfl

/-- Forgetting the attributes before or after a CSI sequence makes no difference; `CSI m` sets
the pen, which is forgotten again. -/
theorem csiDispatch_plain (params : List Param) (intermediates : List UInt8) (action : Char) :
    (t.csiDispatch params intermediates action).map plain =
      (t.plain.csiDispatch params intermediates action).map plain := by
  unfold csiDispatch
  split
  · split
    · have hfold : ∀ (ps : List Param) (t : TerminalState),
          (ps.foldl (privateMode (action = 'h')) t).plain =
            ps.foldl (privateMode (action = 'h')) t.plain := by
        intro ps
        induction ps with
        | nil => exact fun _ => rfl
        | cons mode ps ih =>
            intro t
            rw [List.foldl_cons, List.foldl_cons, ih, privateMode_plain]
      rw [Option.map_some, Option.map_some, hfold, ← hfold params t, plain_plain]
    · rw [Option.map_some, Option.map_some, plain_plain]
  · dsimp only
    split
    case h_7 =>
        rw [← eraseDisplay_plain, Option.map_map]
        simp only [Function.comp_def, plain_plain]
    case h_8 =>
        rw [← eraseLine_plain, Option.map_map]
        simp only [Function.comp_def, plain_plain]
    case h_9 => exact congrArg some (plain_plain t).symm
    case h_10 => exact congrArg some (plain_plain t).symm
    all_goals exact congrArg some (plain_plain { t with cursor := _ }).symm

/-- **Attributes do not steer the terminal.** A dispatch does the same to a terminal and to the
terminal without attributes. -/
theorem dispatch_plain (width : Char → Option ℕ) (d : Dispatch) :
    (t.dispatch width d).map plain = (t.plain.dispatch width d).map plain := by
  cases d with
  | print c =>
      dsimp only [dispatch]
      rw [← printChar_plain, Option.map_map]
      simp only [Function.comp_def, plain_plain]
  | execute byte =>
      dsimp only [dispatch]
      rw [← execute_plain, Option.map_map]
      simp only [Function.comp_def, plain_plain]
  | csi params intermediates action => exact csiDispatch_plain t params intermediates action
  | esc byte =>
      dsimp only [dispatch, escDispatch]
      split
      · rfl
      · exact congrArg some (plain_plain t).symm

theorem lfPushes_plain : plainGrid t.lfPushes = t.plain.lfPushes := by
  unfold lfPushes
  split
  · rename_i h
    exact List.map_take.trans (if_pos h).symm
  · rename_i h
    exact (if_neg h).symm

theorem pushes_plain (width : Char → Option ℕ) (d : Dispatch) :
    plainGrid (t.pushes width d) = t.plain.pushes width d := by
  cases d with
  | print c =>
      dsimp only [pushes]
      split
      · rfl
      · generalize (if width c = some 2 then 2 else 1) = colWidth
        by_cases hwrap : t.cols ≤ min (t.cursor.col + colWidth) u16Max
        · have hplain : t.plain.cols ≤ min (t.plain.cursor.col + colWidth) u16Max := hwrap
          rw [if_pos hwrap, if_pos hplain, lfPushes_plain, plain_write]
          rfl
        · have hplain : ¬ t.plain.cols ≤ min (t.plain.cursor.col + colWidth) u16Max := hwrap
          rw [if_neg hwrap, if_neg hplain]
          rfl
  | execute byte =>
      dsimp only [pushes]
      split
      · exact lfPushes_plain t
      · rfl
  | csi params intermediates action => rfl
  | esc byte => rfl

theorem resizePushes_plain (cols rows : ℕ) :
    plainGrid (t.resizePushes cols rows) = t.plain.resizePushes cols rows := by
  unfold resizePushes
  cases halt : t.echoState.altScreen with
  | true =>
      have hplain : t.plain.echoState.altScreen = true := halt
      rw [hplain]
      rfl
  | false =>
      have hplain : t.plain.echoState.altScreen = false := halt
      rw [hplain]
      simp only [Bool.false_eq_true, if_false]
      change _ = ((plainGrid t.grid).map (resizeRow cols)).take ((plainGrid t.grid).length - rows)
      rw [length_plainGrid, ← plainGrid_map (plain_resizeRow cols)]
      exact List.map_take

theorem resize_plain (cols rows : ℕ) : (t.resize cols rows).plain = t.plain.resize cols rows := by
  have hscrollback : plainGrid (t.resize cols rows).scrollback =
      (t.plain.resize cols rows).scrollback := by
    rw [resize_scrollback, resize_scrollback, plainGrid_pushAll, resizePushes_plain]
    rfl
  have hsaved : (t.resize cols rows).plain.savedPrimary =
      (t.plain.resize cols rows).savedPrimary := by
    simp only [plain, resize, Option.map_map]
    congr 1
    funext saved
    simp only [Function.comp_apply, plainGrid_resizeGrid]
  have hgrid : plainGrid (t.resize cols rows).grid = (t.plain.resize cols rows).grid :=
    plainGrid_resizeGrid cols rows t.grid
  have heta : (t.resize cols rows).plain =
      { t.plain.resize cols rows with
        grid := plainGrid (t.resize cols rows).grid
        scrollback := plainGrid (t.resize cols rows).scrollback
        savedPrimary := (t.resize cols rows).plain.savedPrimary } := rfl
  rw [heta, hgrid, hscrollback, hsaved]

end TerminalState

namespace TerminalHistory

/-- A history without attributes. -/
def plain (h : TerminalHistory) : TerminalHistory := ⟨h.terminal.plain, plainGrid h.pushed⟩

theorem step_plain (width : Char → Option ℕ) (h : TerminalHistory) (ev : TerminalEvent) :
    (h.step width ev).map plain = (h.plain.step width ev).map plain := by
  cases ev with
  | dispatch d =>
      have hpushed : plainGrid (h.pushed ++ h.terminal.pushes width d) =
          plainGrid (plainGrid h.pushed ++ h.terminal.plain.pushes width d) := by
        rw [← TerminalState.pushes_plain, ← plainGrid_append, TerminalState.plainGrid_plainGrid]
      have hmap : ∀ (t : Option TerminalState) (lines : Grid Cell),
          (t.map fun t => (⟨t, lines⟩ : TerminalHistory)).map plain =
            (t.map TerminalState.plain).map fun t => ⟨t, plainGrid lines⟩ := by
        rintro (_ | t) lines <;> rfl
      dsimp only [step]
      rw [hmap, hmap, TerminalState.dispatch_plain, hpushed]
      rfl
  | resize cols rows =>
      have hpushed : plainGrid (h.pushed ++ h.terminal.resizePushes cols rows) =
          plainGrid (plainGrid h.pushed ++ h.terminal.plain.resizePushes cols rows) := by
        rw [← TerminalState.resizePushes_plain, ← plainGrid_append,
          TerminalState.plainGrid_plainGrid]
      have hterminal : (h.terminal.resize cols rows).plain =
          (h.terminal.plain.resize cols rows).plain := by
        rw [← TerminalState.resize_plain, TerminalState.plain_plain]
      change some (TerminalHistory.mk _ _) = some (TerminalHistory.mk _ _)
      rw [hpushed, hterminal]
      rfl

end TerminalHistory

end Nosh.Server
