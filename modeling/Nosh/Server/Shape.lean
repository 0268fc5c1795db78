import Nosh.Server.CellEdits

/-!
# The shape of the terminal

Prints, line feeds, erases and changes of the screen keep the grid and the saved primary grid at the
recorded dimensions, and only `resize` changes these.

## Main results

* `dispatch_shaped` — **every dispatch that returns keeps the grid and the saved primary
  grid at exactly `rows` by `cols`.**
* `feed_size` — only `resize` changes the dimensions.
-/

namespace Nosh.Server

open Nosh.Lib Nosh.Proto

namespace TerminalState

variable {t t' : TerminalState} {width : Char → Option ℕ}

/-! ## The grid keeps its shape -/

/-- The grid and the saved primary grid are exactly `rows` by `cols`. -/
structure Shaped (t : TerminalState) : Prop where
  grid : t.grid.HasShape t.rows t.cols
  saved : ∀ saved, t.savedPrimary = some saved → saved.1.HasShape t.rows t.cols

theorem shaped_new (cols rows : ℕ) : (new cols rows).Shaped where
  grid := hasShape_makeGrid cols rows
  saved := by
    intro saved h
    cases h

theorem hasShape_resizeGrid {grid : Grid Cell} {rows cols : ℕ} (h : grid.HasShape rows cols)
    (newCols newRows : ℕ) : (resizeGrid newCols newRows grid).HasShape newRows newCols := by
  have hrows := h.map (f := resizeRow newCols) fun row _ => length_resizeRow newCols row
  have hblank := hasShape_makeGrid newCols (newRows - grid.length)
  have hboth := (hrows.drop (grid.length - newRows)).append hblank
  have hlen : rows - (grid.length - newRows) + (newRows - grid.length) = newRows := by
    rw [h.1]
    omega
  rw [hlen] at hboth
  exact hboth

/-- `resize` brings both grids to the new dimensions. -/
theorem Shaped.resize (h : t.Shaped) (cols rows : ℕ) : (t.resize cols rows).Shaped where
  grid := hasShape_resizeGrid h.grid cols rows
  saved := by
    intro saved hsaved
    obtain ⟨old, hold, rfl⟩ := Option.map_eq_some_iff.mp hsaved
    exact hasShape_resizeGrid (h.saved old hold) cols rows

/-- A change that keeps the dimensions, the saved screen and the shape of the grid. -/
theorem Shaped.of_grid (h : t.Shaped) {grid : Grid Cell} (hgrid : grid.HasShape t.rows t.cols)
    (hg : t'.grid = grid) (hrows : t'.rows = t.rows) (hcols : t'.cols = t.cols)
    (hsaved : t'.savedPrimary = t.savedPrimary) : t'.Shaped where
  grid := by
    rw [hg, hrows, hcols]
    exact hgrid
  saved := by
    rw [hsaved, hrows, hcols]
    exact h.saved

theorem length_putCell (sgr : SgrState) (c : Char) (colWidth col : ℕ) (row : List Cell) :
    (putCell sgr c colWidth col row).length = row.length := by
  rw [putCell_eq_mapIdx, List.length_mapIdx]

section

variable (h : t.Shaped)

include h

theorem Shaped.scrollUp (hs : t.scrollUp = some t') : t'.Shaped := by
  unfold TerminalState.scrollUp at hs
  split at hs
  · cases hs
    exact h
  · split at hs
    · cases hs
    · next top rest hgrid =>
        cases hs
        have hshape := h.grid
        rw [hgrid] at hshape
        have hrest : Grid.HasShape rest (t.rows - 1) t.cols := hshape.drop 1
        have hboth := hrest.append (hasShape_makeGrid t.cols 1)
        have hpos : t.rows - 1 + 1 = t.rows := by
          have := hshape.1
          rw [List.length_cons] at this
          omega
        rw [hpos] at hboth
        exact h.of_grid hboth rfl rfl rfl rfl

theorem Shaped.lf (hs : t.lf = some t') : t'.Shaped := by
  unfold TerminalState.lf at hs
  split at hs
  · exact h.scrollUp hs
  · cases hs
    exact { h with }

theorem Shaped.printChar {c : Char} (hs : t.printChar width c = some t') : t'.Shaped := by
  unfold TerminalState.printChar at hs
  split at hs
  · cases hs
    exact h
  · dsimp only at hs
    generalize (if width c = some 2 then 2 else 1) = colWidth at hs
    have hput := h.grid.modify (min t.cursor.row (t.rows - 1))
      (length_putCell t.sgr c colWidth (min t.cursor.col (t.cols - 1)))
    split at hs
    · refine Shaped.lf ?_ hs
      exact h.of_grid hput rfl rfl rfl rfl
    · cases hs
      exact h.of_grid hput rfl rfl rfl rfl

theorem Shaped.execute {byte : UInt8} (hs : t.execute byte = some t') : t'.Shaped := by
  unfold TerminalState.execute at hs
  split at hs
  · cases hs
    exact { h with }
  · split at hs
    · exact h.lf hs
    · split at hs
      · cases hs
        exact { h with }
      · cases hs
        exact h

theorem Shaped.eraseDisplay {n : ℕ} (hs : t.eraseDisplay n = some t') : t'.Shaped := by
  rw [eraseDisplay_eq hs]
  exact h.of_grid (h.grid.edit _) rfl rfl rfl rfl

theorem Shaped.eraseLine {n : ℕ} (hs : t.eraseLine n = some t') : t'.Shaped := by
  rw [eraseLine_eq hs]
  exact h.of_grid (h.grid.edit _) rfl rfl rfl rfl

theorem Shaped.privateMode (enable : Bool) (mode : Param) : (t.privateMode enable mode).Shaped := by
  unfold TerminalState.privateMode
  split
  · exact { h with }
  · split
    · refine ⟨hasShape_makeGrid t.cols t.rows, ?_⟩
      intro saved hsaved
      cases hsaved
      exact h.grid
    · unfold exitAltScreen
      split
      · next grid cursor sgr hsaved =>
          refine ⟨h.saved _ hsaved, ?_⟩
          intro saved hnone
          cases hnone
      · exact { h with }
  · exact { h with }
  · exact { h with }
  · exact h

theorem Shaped.csiDispatch {params : List Param} {intermediates : List UInt8} {action : Char}
    (hs : t.csiDispatch params intermediates action = some t') : t'.Shaped := by
  unfold TerminalState.csiDispatch at hs
  split at hs
  · split at hs
    · cases hs
      clear * - h
      induction params generalizing t with
      | nil => exact h
      | cons mode params ih => exact ih (h.privateMode _ mode)
    · cases hs
      exact h
  · dsimp only at hs
    split at hs
    case h_7 => exact h.eraseDisplay hs
    case h_8 => exact h.eraseLine hs
    all_goals
      cases hs
      exact { h with }

/-- **Shape.**  Every dispatch that returns keeps the grid and the saved primary grid
at exactly `rows` by `cols`. -/
theorem dispatch_shaped {d : Dispatch} (hs : t.dispatch width d = some t') : t'.Shaped := by
  cases d with
  | print c => exact h.printChar hs
  | execute byte => exact h.execute hs
  | csi params intermediates action => exact h.csiDispatch hs
  | esc byte =>
      cases hs
      unfold escDispatch
      split
      · exact shaped_new _ _
      · exact h

end

/-! ## Output keeps the dimensions -/

theorem scrollUp_size (hs : t.scrollUp = some t') : t'.size = t.size := by
  unfold scrollUp at hs
  split at hs
  · cases hs
    rfl
  · split at hs <;> cases hs
    rfl

theorem lf_size (hs : t.lf = some t') : t'.size = t.size := by
  unfold lf at hs
  split at hs
  · exact scrollUp_size hs
  · cases hs
    rfl

theorem printChar_size {c : Char} (hs : t.printChar width c = some t') : t'.size = t.size := by
  unfold printChar at hs
  split at hs
  · cases hs
    rfl
  · dsimp only at hs
    generalize (if width c = some 2 then 2 else 1) = colWidth at hs
    split at hs
    · exact (lf_size hs).trans rfl
    · cases hs
      rfl

theorem execute_size {byte : UInt8} (hs : t.execute byte = some t') : t'.size = t.size := by
  unfold execute at hs
  split at hs
  · cases hs
    rfl
  · split at hs
    · exact lf_size hs
    · split at hs <;> cases hs <;> rfl

theorem privateMode_keeps (enable : Bool) (t : TerminalState) (mode : Param) :
    (t.privateMode enable mode).size = t.size ∧
      (t.privateMode enable mode).scrollback = t.scrollback := by
  unfold privateMode
  split
  · exact ⟨rfl, rfl⟩
  · split
    · exact ⟨rfl, rfl⟩
    · unfold exitAltScreen
      split <;> exact ⟨rfl, rfl⟩
  · exact ⟨rfl, rfl⟩
  · exact ⟨rfl, rfl⟩
  · exact ⟨rfl, rfl⟩

theorem csiDispatch_size {params : List Param} {intermediates : List UInt8} {action : Char}
    (hs : t.csiDispatch params intermediates action = some t') : t'.size = t.size := by
  unfold csiDispatch at hs
  split at hs
  · split at hs
    · cases hs
      induction params generalizing t with
      | nil => rfl
      | cons mode params ih => exact ih.trans (privateMode_keeps _ t mode).1
    · cases hs
      rfl
  · dsimp only at hs
    split at hs
    case h_7 => rw [eraseDisplay_eq hs, size, size]
    case h_8 => rw [eraseLine_eq hs, size, size]
    all_goals
      cases hs
      rfl

/-- No dispatch changes the dimensions. -/
theorem dispatch_size {d : Dispatch} (hs : t.dispatch width d = some t') : t'.size = t.size := by
  cases d with
  | print c => exact printChar_size hs
  | execute byte => exact execute_size hs
  | csi params intermediates action => exact csiDispatch_size hs
  | esc byte =>
      cases hs
      unfold escDispatch
      split <;> rfl

/-- Output of any length keeps the dimensions. -/
theorem feed_size {ds : List Dispatch} (hs : t.feed width ds = some t') : t'.size = t.size := by
  induction ds generalizing t with
  | nil =>
      cases hs
      rfl
  | cons d ds ih =>
      obtain ⟨t₁, h₁, hs⟩ := Option.bind_eq_some_iff.mp hs
      rw [ih hs, dispatch_size h₁]

end TerminalState

end Nosh.Server
