import Nosh.Lib.Page
import Nosh.Server.Terminal

/-!
# What printing and erasing do to each cell

The row loops of `terminal.rs` as edits in place: which cells a print or an erase
touches, as a function of the position, the cursor and the parameter.

## Main definitions

* `printed` — what a print leaves in each cell.
* `DisplayErased`, `LineErased` — the cells that `CSI n J` and `CSI n K` blank.

## Main results

* `printChar_eq` — a print writes the cell of the cursor and, for a width-2
  character, the next one.
* `eraseDisplay_eq`, `eraseLine_eq` — an erase that returns blanks its cells.
* `eraseDisplay_isSome_iff`, `eraseLine_isSome_iff` — which erases return.
-/

namespace Nosh.Server.TerminalState

open Lib Proto

variable {t : TerminalState} {grid : Grid Cell}

/-! ## Rows -/

theorem putCell_eq_mapIdx (sgr : SgrState) (c : Char) (colWidth col : ℕ) (row : List Cell) :
    putCell sgr c colWidth col row = row.mapIdx fun i old =>
      if i = col then sgr.cell c false
      else if colWidth = 2 ∧ i = col + 1 then sgr.cell ' ' true
      else old := by
  refine List.ext_getElem? fun i => ?_
  rw [List.getElem?_mapIdx]
  unfold putCell
  split
  · next hcol =>
      dsimp only
      by_cases hi : i = col
      · subst hi
        have hself : (row.set i (sgr.cell c false))[i]? = some (sgr.cell c false) := by
          rw [List.getElem?_set_self hcol]
        rw [List.getElem?_eq_getElem hcol, Option.map_some, if_pos rfl]
        split
        · rw [List.getElem?_set_ne (by omega), hself]
        · exact hself
      · simp only [if_neg hi]
        by_cases hcont : colWidth = 2 ∧ i = col + 1
        · obtain ⟨hwide, rfl⟩ := hcont
          simp only [hwide, true_and, and_self, if_true, List.length_set]
          split
          · next hnext =>
              rw [List.getElem?_set_self (by rw [List.length_set]; exact hnext),
                List.getElem?_eq_getElem hnext]
              rfl
          · next hnext =>
              rw [List.getElem?_set_ne (by omega), List.getElem?_eq_none (by omega)]
              rfl
        · simp only [if_neg hcont]
          have hkeep : (row.set col (sgr.cell c false))[i]? = row[i]? :=
            List.getElem?_set_ne (Ne.symm hi)
          have hid : row[i]?.map (fun old => old) = row[i]? := Option.map_id_apply
          rw [hid]
          split
          · next hwide =>
              rw [List.getElem?_set_ne fun heq => hcont ⟨hwide.1, heq.symm⟩, hkeep]
          · exact hkeep
  · next hcol =>
      by_cases hlt : i < row.length
      · rw [List.getElem?_eq_getElem hlt, Option.map_some, if_neg (by omega), if_neg (by omega)]
      · rw [List.getElem?_eq_none (by omega)]
        rfl

theorem eraseRow_eq_mapIdx (row : List Cell) : eraseRow row = row.mapIdx fun _ _ => Cell.blank := by
  refine List.ext_getElem? fun i => ?_
  rw [List.getElem?_mapIdx, eraseRow, List.getElem?_replicate]
  split
  · next hi => rw [List.getElem?_eq_getElem hi, Option.map_some]
  · next hi => rw [List.getElem?_eq_none (by omega), Option.map_none]

theorem eraseRight_eq_mapIdx (col : ℕ) (row : List Cell) :
    eraseRight col row = row.mapIdx fun i old => if col ≤ i then Cell.blank else old := by
  refine List.ext_getElem? fun i => ?_
  rw [List.getElem?_mapIdx, eraseRight, List.getElem?_append, List.length_take]
  by_cases hlt : i < row.length
  · rw [List.getElem?_eq_getElem hlt, Option.map_some]
    by_cases hcol : col ≤ i
    · rw [if_neg (by omega), if_pos hcol, List.getElem?_replicate_of_lt (by omega)]
    · rw [if_pos (by omega), if_neg hcol, List.getElem?_take_of_lt (by omega),
        List.getElem?_eq_getElem hlt]
  · rw [if_neg (by omega), List.getElem?_eq_none (by rw [List.length_replicate]; omega),
      List.getElem?_eq_none (by omega), Option.map_none]

theorem eraseLeft_eq_mapIdx {col : ℕ} {row row' : List Cell} (h : eraseLeft col row = some row') :
    row' = row.mapIdx fun i old => if i ≤ col then Cell.blank else old := by
  unfold eraseLeft at h
  split at h
  · cases h
  · next hne =>
      rw [List.isEmpty_iff] at hne
      have hpos := List.length_pos_iff.mpr hne
      cases h
      refine List.ext_getElem? fun i => ?_
      rw [List.getElem?_mapIdx, List.getElem?_append, List.length_replicate]
      by_cases hlt : i < row.length
      · rw [List.getElem?_eq_getElem hlt, Option.map_some]
        by_cases hcol : i ≤ col
        · rw [if_pos (by omega), if_pos hcol, List.getElem?_replicate_of_lt (by omega)]
        · rw [if_neg (by omega), if_neg hcol, List.getElem?_drop,
            ← List.getElem?_eq_getElem hlt]
          congr 1
          omega
      · rw [if_neg (by omega), List.getElem?_eq_none (by rw [List.length_drop]; omega),
          List.getElem?_eq_none (by omega), Option.map_none]

/-! ## Grids -/

/-- An edit of one row. -/
theorem modify_eq_edit {edit : List Cell → List Cell} {f : ℕ → Cell → Cell}
    (hedit : ∀ row, edit row = row.mapIdx f) (grid : Grid Cell) (r : ℕ) :
    grid.modify r edit = grid.edit fun r' c old => if r' = r then f c old else old := by
  refine Grid.eq_edit fun i => ?_
  rw [List.getElem?_modify]
  cases grid[i]? with
  | none => rfl
  | some row =>
      by_cases hi : r = i
      · subst hi
        simp only [if_true, hedit row, Option.map_eq_map, Option.map_some]
      · simp only [if_neg hi, if_neg (Ne.symm hi), Option.map_eq_map, Option.map_some,
          Grid.mapIdx_keep]

/-- What a print leaves in a cell: the character under the cursor, the continuation of a width-2
one beside it. -/
def printed (t : TerminalState) (ch : Char) (colWidth r c : ℕ) (old : Cell) : Cell :=
  if r = t.cursor.row then
    if c = t.cursor.col then t.sgr.cell ch false
    else if colWidth = 2 ∧ c = t.cursor.col + 1 then t.sgr.cell ' ' true
    else old
  else old

/-- `print_char` with the cursor in the grid, cell by cell. -/
theorem printChar_eq {width : Char → Option ℕ}
    (h : t.cursor.row ≤ t.rows - 1 ∧ t.cursor.col ≤ t.cols - 1) {ch : Char}
    (hch : width ch ≠ some 0) :
    t.printChar width ch =
      let colWidth := if width ch = some 2 then 2 else 1
      let newCol := min (t.cursor.col + colWidth) u16Max
      let grid := t.grid.edit (t.printed ch colWidth)
      if t.cols ≤ newCol then lf { t with grid := grid, cursor := ⟨t.cursor.row, 0⟩ }
      else some { t with grid := grid, cursor := ⟨t.cursor.row, newCol⟩ } := by
  unfold printChar
  dsimp only
  rw [if_neg hch, Nat.min_eq_left h.1, Nat.min_eq_left h.2,
    modify_eq_edit (putCell_eq_mapIdx t.sgr ch _ t.cursor.col)]
  rfl

/-- A row edit that returns, cell by cell. -/
theorem modifyRow?_eq_edit {edit : List Cell → Option (List Cell)} {f : ℕ → Cell → Cell}
    (hedit : ∀ row row', edit row = some row' → row' = row.mapIdx f) {grid' : Grid Cell} {r : ℕ}
    (h : modifyRow? edit grid r = some grid') :
    grid' = grid.edit fun r' c old => if r' = r then f c old else old := by
  refine Grid.eq_edit fun i => ?_
  unfold modifyRow? at h
  split at h
  · next hnone =>
      cases h
      by_cases hi : i = r
      · rw [hi, hnone]
        rfl
      · simp only [if_neg hi]
        exact (Grid.map_mapIdx_keep _).symm
  · next row hrow =>
      obtain ⟨row', hrow', rfl⟩ := Option.map_eq_some_iff.mp h
      by_cases hi : i = r
      · subst hi
        have hlt := (List.getElem?_eq_some_iff.mp hrow).1
        rw [List.getElem?_set_self hlt, hrow, Option.map_some, hedit row row' hrow']
        simp only [if_true]
      · rw [List.getElem?_set_ne (Ne.symm hi)]
        simp only [if_neg hi]
        exact (Grid.map_mapIdx_keep _).symm

/-! ## Erased cells -/

/-- The cells that `CSI n K` blanks. -/
def LineErased (cursor : CursorPos) (n r c : ℕ) : Prop :=
  r = cursor.row ∧ (n = 0 ∧ cursor.col ≤ c ∨ n = 1 ∧ c ≤ cursor.col ∨ n = 2)

instance (cursor : CursorPos) (n r c : ℕ) : Decidable (LineErased cursor n r c) :=
  inferInstanceAs (Decidable (_ ∧ _))

/-- The cells that `CSI n J` blanks. -/
def DisplayErased (cursor : CursorPos) (n r c : ℕ) : Prop :=
  n = 0 ∧ (cursor.row < r ∨ r = cursor.row ∧ cursor.col ≤ c) ∨
    n = 1 ∧ (r < cursor.row ∨ r = cursor.row ∧ c ≤ cursor.col) ∨ n = 2 ∨ n = 3

instance (cursor : CursorPos) (n r c : ℕ) : Decidable (DisplayErased cursor n r c) :=
  inferInstanceAs (Decidable (_ ∨ _))

/-- Blank the cells of a region. -/
def blankWhere (region : ℕ → ℕ → Prop) [∀ r c, Decidable (region r c)] (r c : ℕ) (old : Cell) :
    Cell :=
  if region r c then Cell.blank else old

/-- `CSI K`, cell by cell. -/
theorem eraseLine_eq {t' : TerminalState} {n : ℕ} (hs : t.eraseLine n = some t') :
    t' = { t with grid := t.grid.edit (blankWhere (LineErased t.cursor n)) } := by
  -- the cells of the cursor's row that each mode blanks
  have hrow : ∀ {edit : List Cell → Option (List Cell)} {p : ℕ → Prop} [DecidablePred p]
      {grid : Grid Cell},
      (∀ row row', edit row = some row' →
        row' = row.mapIdx fun i old => if p i then Cell.blank else old) →
      (∀ r c, LineErased t.cursor n r c ↔ r = t.cursor.row ∧ p c) →
      modifyRow? edit t.grid t.cursor.row = some grid →
      grid = t.grid.edit (blankWhere (LineErased t.cursor n)) := by
    intro edit p _ grid hedit hregion hgrid
    rw [modifyRow?_eq_edit hedit hgrid]
    refine Grid.edit_congr fun r _ c old => ?_
    unfold blankWhere
    by_cases hr : r = t.cursor.row <;> by_cases hp : p c <;> simp [hregion, hr, hp]
  unfold eraseLine at hs
  obtain ⟨grid, hgrid, rfl⟩ := Option.map_eq_some_iff.mp hs
  congr 1
  split at hgrid
  · refine hrow (p := fun c => t.cursor.col ≤ c) (fun row row' h => ?_) (fun r c => ?_) hgrid
    · cases h
      exact eraseRight_eq_mapIdx _ _
    · simp [LineErased]
  · exact hrow (p := fun c => c ≤ t.cursor.col) (fun row row' h => eraseLeft_eq_mapIdx h)
      (fun r c => by simp [LineErased]) hgrid
  · refine hrow (p := fun _ => True) (fun row row' h => ?_) (fun r c => ?_) hgrid
    · cases h
      exact eraseRow_eq_mapIdx _
    · simp [LineErased]
  · next h0 h1 h2 =>
      refine hrow (p := fun _ => False) (fun row row' h => ?_) (fun r c => ?_) hgrid
      · cases h
        exact (Grid.mapIdx_keep _).symm
      · refine ⟨fun h => ?_, fun h => h.2.elim⟩
        rcases h.2 with ⟨hn, -⟩ | ⟨hn, -⟩ | hn
        · exact (h0 hn).elim
        · exact (h1 hn).elim
        · exact (h2 hn).elim

theorem map_eraseRow (grid : Grid Cell) :
    grid.map eraseRow = grid.edit fun _ _ _ => Cell.blank := by
  refine Grid.eq_edit fun r => ?_
  rw [List.getElem?_map]
  cases grid[r]? with
  | none => rfl
  | some row => rw [Option.map_some, Option.map_some, eraseRow_eq_mapIdx]

/-- `CSI 0 J`: the row of the cursor from its column on, and the rows below. -/
theorem eraseBelow_eq {row : ℕ} (col : ℕ) (hrow : row < grid.length) :
    (grid.take (row + 1)).modify row (eraseRight col) ++ (grid.drop (row + 1)).map eraseRow =
      grid.edit fun r c old =>
        if row < r ∨ r = row ∧ col ≤ c then Cell.blank else old := by
  rw [modify_eq_edit (eraseRight_eq_mapIdx col), map_eraseRow,
    ← Grid.take_edit_append_drop_edit _ grid hrow]
  congr 1
  · refine Grid.edit_congr fun r hr c old => ?_
    rw [List.length_take] at hr
    by_cases heq : r = row
    · simp [heq]
    · rw [if_neg heq, if_neg (by omega)]
  · refine Grid.edit_congr fun r _ c old => ?_
    rw [if_pos (by omega)]

/-- `CSI 1 J`: the row of the cursor up to its column, and the rows above. -/
theorem eraseAbove_eq {row col : ℕ} {grid' : Grid Cell} (hrow : row ≤ grid.length)
    (h : modifyRow? (eraseLeft col) ((grid.take row).map eraseRow ++ grid.drop row) row =
      some grid') :
    grid' = grid.edit fun r c old =>
      if r < row ∨ r = row ∧ c ≤ col then Cell.blank else old := by
  have habove : (grid.take row).map eraseRow ++ grid.drop row =
      grid.edit fun r _ old => if r < row then Cell.blank else old := by
    rw [map_eraseRow, ← Grid.take_edit_append_drop_edit _ grid hrow]
    congr 1
    · refine Grid.edit_congr fun r hr c old => ?_
      rw [List.length_take] at hr
      rw [if_pos (by omega)]
    · simp only [Nat.not_lt_of_ge (Nat.le_add_left row _), if_false]
      exact (Grid.edit_keep _).symm
  rw [modifyRow?_eq_edit (fun _ _ => eraseLeft_eq_mapIdx) h, habove, Grid.edit_edit]
  refine Grid.edit_congr fun r _ c old => ?_
  by_cases heq : r = row
  · simp [heq]
  · simp [heq]

/-- `CSI J`, cell by cell. -/
theorem eraseDisplay_eq {t' : TerminalState} {n : ℕ} (hs : t.eraseDisplay n = some t') :
    t' = { t with
      grid := t.grid.edit (blankWhere (DisplayErased t.cursor n))
      scrollback := if n = 3 then [] else t.scrollback } := by
  -- what a mode blanks, given as a region of its own
  have hregion : ∀ {p : ℕ → ℕ → Prop} [∀ r c, Decidable (p r c)],
      (∀ r < t.grid.length, ∀ c, DisplayErased t.cursor n r c ↔ p r c) →
      (t.grid.edit fun r c old => if p r c then Cell.blank else old) =
        t.grid.edit (blankWhere (DisplayErased t.cursor n)) := by
    intro p _ hp
    refine Grid.edit_congr fun r hr c old => ?_
    unfold blankWhere
    simp only [hp r hr c]
  unfold eraseDisplay at hs
  dsimp only at hs
  split at hs
  · split at hs
    · next hrow =>
        cases hs
        rw [eraseBelow_eq _ hrow, hregion fun r _ c => by simp [DisplayErased]]
        rfl
    · next hrow =>
        cases hs
        have hkeep := hregion (p := fun _ _ => False) fun r hr c => by
          simp only [DisplayErased, iff_false]
          omega
        rw [← hkeep]
        simp only [if_false, Grid.edit_keep]
        rfl
  · split at hs
    · cases hs
    · next hrow =>
        obtain ⟨grid, hgrid, rfl⟩ := Option.map_eq_some_iff.mp hs
        rw [eraseAbove_eq (Nat.le_of_not_lt hrow) hgrid,
          hregion fun r _ c => by simp [DisplayErased]]
        rfl
  · cases hs
    rw [map_eraseRow, ← hregion (p := fun _ _ => True) fun r _ c => by simp [DisplayErased]]
    rfl
  · cases hs
    rw [map_eraseRow, ← hregion (p := fun _ _ => True) fun r _ c => by simp [DisplayErased]]
    rfl
  · next h0 h1 h2 h3 =>
      cases hs
      have hkeep := hregion (p := fun _ _ => False) fun r _ c => by
        simp only [DisplayErased, iff_false]
        rintro (⟨hn, -⟩ | ⟨hn, -⟩ | hn | hn)
        · exact h0 hn
        · exact h1 hn
        · exact h2 hn
        · exact h3 hn
      rw [← hkeep, if_neg h3]
      simp only [if_false, Grid.edit_keep]

/-! ## Erases that return -/

theorem eraseLeft_isSome_iff (col : ℕ) (row : List Cell) :
    (eraseLeft col row).isSome ↔ row ≠ [] := by
  unfold eraseLeft
  split
  · rename_i hempty
    rw [List.isEmpty_iff] at hempty
    exact ⟨fun h => absurd h Bool.false_ne_true, fun h => absurd hempty h⟩
  · rename_i hempty
    rw [List.isEmpty_iff] at hempty
    exact ⟨fun _ => hempty, fun _ => rfl⟩

theorem modifyRow?_isSome_iff (edit : List Cell → Option (List Cell)) (grid : Grid Cell) (r : ℕ) :
    (modifyRow? edit grid r).isSome ↔ ∀ row, grid[r]? = some row → (edit row).isSome := by
  unfold modifyRow?
  split
  · rename_i hnone
    refine ⟨fun _ row hrow => ?_, fun _ => rfl⟩
    rw [hnone] at hrow
    cases hrow
  · rename_i row hrow
    rw [Option.isSome_map]
    refine ⟨fun h row' hrow' => ?_, fun h => h row hrow⟩
    rw [hrow] at hrow'
    cases hrow'
    exact h

/-- `CSI K` returns, unless it erases up to the cursor in a row that is empty. -/
theorem eraseLine_isSome_iff (t : TerminalState) (n : ℕ) :
    (t.eraseLine n).isSome ↔ ¬ (n = 1 ∧ t.grid[t.cursor.row]? = some []) := by
  unfold eraseLine
  dsimp only
  rw [Option.isSome_map, modifyRow?_isSome_iff]
  split
  · exact ⟨fun _ hone => absurd hone.1 (by decide), fun _ _ _ => rfl⟩
  · simp only [eraseLeft_isSome_iff]
    exact ⟨fun h hone => h [] hone.2 rfl, fun h row hrow hnil => h ⟨trivial, hnil ▸ hrow⟩⟩
  · exact ⟨fun _ hone => absurd hone.1 (by decide), fun _ _ _ => rfl⟩
  · next hone _ => exact ⟨fun _ hcases => hone hcases.1, fun _ _ _ => rfl⟩

/-- `CSI J` returns, unless it erases up to the cursor in a row that is empty, or above a row that
is not there. -/
theorem eraseDisplay_isSome_iff (t : TerminalState) (n : ℕ) :
    (t.eraseDisplay n).isSome ↔
      ¬ (n = 1 ∧ (t.grid.length < t.cursor.row ∨ t.grid[t.cursor.row]? = some [])) := by
  unfold eraseDisplay
  dsimp only
  split
  · refine ⟨fun _ hone => absurd hone.1 (by decide), fun _ => ?_⟩
    split <;> rfl
  · split
    · next habove =>
        exact ⟨fun h => absurd h Bool.false_ne_true, fun h => absurd ⟨rfl, Or.inl habove⟩ h⟩
    · next habove =>
        have hrow : ((t.grid.take t.cursor.row).map eraseRow ++
            t.grid.drop t.cursor.row)[t.cursor.row]? = t.grid[t.cursor.row]? := by
          have htop : ((t.grid.take t.cursor.row).map eraseRow).length = t.cursor.row := by
            rw [List.length_map, List.length_take]
            omega
          rw [List.getElem?_append_right htop.le, htop, Nat.sub_self, List.getElem?_drop,
            Nat.add_zero]
        rw [Option.isSome_map, modifyRow?_isSome_iff, hrow]
        simp only [eraseLeft_isSome_iff]
        refine ⟨fun h hone => ?_, fun h row hrow hnil => h ⟨trivial, Or.inr (hnil ▸ hrow)⟩⟩
        exact h [] (hone.2.resolve_left habove) rfl
  · exact ⟨fun _ hone => absurd hone.1 (by decide), fun _ => rfl⟩
  · exact ⟨fun _ hone => absurd hone.1 (by decide), fun _ => rfl⟩
  · next hone _ _ => exact ⟨fun _ hcases => hone hcases.1, fun _ => rfl⟩

end Nosh.Server.TerminalState
