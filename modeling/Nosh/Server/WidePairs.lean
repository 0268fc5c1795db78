import Nosh.Proto.WideRow
import Nosh.Server.CellEdits
import Nosh.Server.Panic

/-!
# Wide glyphs and their continuation cells

`Cell::wide` is documented as the mark of the phantom spacer that belongs to the width-2 glyph to
its left. Printing, erasing and growing treat cells one by one: whatever replaces one half of a
glyph leaves the other half behind.

## Main Definitions

* `WidePaired` — a cell is marked exactly if a width-2 glyph is to its left
* `Drawing`, `drawing` — prints, control bytes, control sequences and resizes on one screen
* `Drawing.Splits` — the call replaces one half of a glyph, or gives a glyph that was cut off at
  the edge a neighbour

## Main Results

* `widePaired_step_iff` — **a call keeps the pairs exactly if it splits no glyph.**
* `drawing_widePaired_iff` — the same for whole runs.
-/

namespace Nosh.Server

open Lib Proto

namespace TerminalState

variable {width : Char → Option ℕ} {t t' : TerminalState} {row : List Cell}
variable {grid : Grid Cell} {n : ℕ}

/-! ## Grids -/

/-- A cell is marked as continuation exactly if the cell to its left holds a width-2 character and
is not marked itself. -/
def WidePaired (width : Char → Option ℕ) (t : TerminalState) : Prop :=
  ∀ r c cell, t.grid.cellAt r c = some cell →
    (cell.wide = true ↔ 1 ≤ c ∧ ∃ left, t.grid.cellAt r (c - 1) = some left ∧
      width left.ch = some 2 ∧ left.wide = false)

theorem widePaired_iff : t.WidePaired width ↔ ∀ row ∈ t.grid, RowPaired width row := by
  have hcell : ∀ {r : ℕ} {row : List Cell}, t.grid[r]? = some row →
      ∀ c, t.grid.cellAt r c = row[c]? := by
    intro r row hrow c
    rw [Grid.cellAt, hrow, Option.bind_some]
  constructor
  · intro h row hmem
    obtain ⟨r, hrow⟩ := List.mem_iff_getElem?.mp hmem
    refine ⟨?_, fun c hc => ?_⟩
    · rintro ⟨x, hx, hwide⟩
      have hleft := (h r 0 x (by rw [hcell hrow, hx])).mp hwide
      exact absurd hleft.1 (by decide)
    · have hnext := h r (c + 1) row[c + 1] (by rw [hcell hrow, List.getElem?_eq_getElem hc])
      rw [List.getElem?_eq_getElem hc, isContinuation_some, hnext, Nat.add_sub_cancel,
        hcell hrow]
      exact ⟨fun hleft => hleft.2, fun hleft => ⟨Nat.le_add_left 1 c, hleft⟩⟩
  · intro h r c cell hat
    obtain ⟨row, hrow, hc⟩ := Option.bind_eq_some_iff.mp hat
    have hpaired := h row (List.mem_of_getElem? hrow)
    have hlt := (List.getElem?_eq_some_iff.mp hc).1
    rw [← isContinuation_some, ← hc]
    cases c with
    | zero => exact iff_of_false hpaired.first fun hleft => absurd hleft.1 (by decide)
    | succ c =>
        rw [hpaired.next c hlt, Nat.add_sub_cancel, hcell hrow]
        exact ⟨fun hleft => ⟨Nat.le_add_left 1 c, hleft⟩, fun hleft => hleft.2⟩

/-- A continuation cell of the grid, seen from its row. -/
theorem not_isContinuation_cellAt_iff (grid : Grid Cell) (r c : ℕ) :
    ¬ IsContinuation (grid.cellAt r c) ↔
      ∀ row, grid[r]? = some row → ¬ IsContinuation row[c]? := by
  unfold Grid.cellAt
  cases grid[r]? with
  | none => exact iff_of_true not_isContinuation_none fun row hrow => by cases hrow
  | some row =>
      rw [Option.bind_some]
      exact ⟨fun h row' hrow' => by cases hrow'; exact h, fun h => h row rfl⟩

/-- An edit that leaves every row but one paired. -/
theorem forall_mem_edit_iff {f : ℕ → ℕ → Cell → Cell} {k : ℕ}
    (hothers : ∀ r ≠ k, ∀ row ∈ grid, RowPaired width (row.mapIdx (f r))) :
    (∀ row ∈ grid.edit f, RowPaired width row) ↔
      ∀ row, grid[k]? = some row → RowPaired width (row.mapIdx (f k)) := by
  constructor
  · intro h row hrow
    refine h _ (List.mem_of_getElem? (i := k) ?_)
    rw [Grid.getElem?_edit, hrow, Option.map_some]
  · intro h row hmem
    obtain ⟨r, hrow⟩ := List.mem_iff_getElem?.mp hmem
    rw [Grid.getElem?_edit] at hrow
    obtain ⟨old, hold, rfl⟩ := Option.map_eq_some_iff.mp hrow
    by_cases hr : r = k
    · subst hr
      exact h old hold
    · exact hothers r hr old (List.mem_of_getElem? hold)

/-! ## Erasing -/

/-- A row that is blanked whole or not at all. -/
theorem rowPaired_blankWhere (h : RowPaired width row) (hspace : width ' ' ≠ some 2)
    {region : ℕ → ℕ → Prop} [∀ r c, Decidable (region r c)] {r : ℕ} (all : Prop)
    (hregion : ∀ c, region r c ↔ all) : RowPaired width (row.mapIdx (blankWhere region r)) := by
  by_cases hall : all
  · have hblank : blankWhere region r = fun _ _ => Cell.blank := by
      funext c old
      exact if_pos ((hregion c).mpr hall)
    rw [hblank, ← eraseRow_eq_mapIdx]
    exact rowPaired_replicate hspace rfl _
  · have hkeep : blankWhere region r = fun _ old => old := by
      funext c old
      exact if_neg fun hc => hall ((hregion c).mp hc)
    rw [hkeep, Grid.mapIdx_keep]
    exact h

/-- The row of the cursor: from the cursor on, up to the cursor, or whole. -/
theorem rowPaired_erase_iff (h : RowPaired width row) (hspace : width ' ' ≠ some 2)
    {region : ℕ → ℕ → Prop} [∀ r c, Decidable (region r c)] {r col : ℕ} (all : Prop)
    (hall : all → n ≠ 0 ∧ n ≠ 1)
    (hregion : ∀ c, region r c ↔ n = 0 ∧ col ≤ c ∨ n = 1 ∧ c ≤ col ∨ all) :
    RowPaired width (row.mapIdx (blankWhere region r)) ↔
      ¬ (n = 0 ∧ IsContinuation row[col]? ∨ n = 1 ∧ IsContinuation row[col + 1]?) := by
  by_cases hzero : n = 0
  · have hend : ¬ IsContinuation row[max row.length (col + 1)]? := fun hcont =>
      absurd hcont.lt_length (by omega)
    have hiff := h.fill_iff (x := Cell.blank) (p := region r) (a := col)
      (b := max row.length (col + 1)) hspace rfl (by omega) fun c hc => by
        rw [hregion]
        have hnot : ¬ all := fun ha => (hall ha).1 hzero
        simp only [hzero, hnot, true_and, or_false]
        omega
    refine hiff.trans ⟨fun hboth hcut => ?_,
      fun hcut => ⟨fun hcont => hcut (Or.inl ⟨hzero, hcont⟩), hend⟩⟩
    rcases hcut with ⟨-, hcont⟩ | ⟨hone, -⟩
    · exact hboth.1 hcont
    · omega
  · by_cases hone : n = 1
    · have hiff := h.fill_iff (x := Cell.blank) (p := region r) (a := 0) (b := col + 1) hspace rfl
        (by omega) fun c _ => by
          rw [hregion]
          have hnot : ¬ all := fun ha => (hall ha).2 hone
          simp only [hone, hnot, true_and, or_false]
          omega
      refine hiff.trans ⟨fun hboth hcut => ?_,
        fun hcut => ⟨h.first, fun hcont => hcut (Or.inr ⟨hone, hcont⟩)⟩⟩
      rcases hcut with ⟨hzero', -⟩ | ⟨-, hcont⟩
      · exact hzero hzero'
      · exact hboth.2 hcont
    · refine iff_of_true (rowPaired_blankWhere h hspace all fun c => ?_) ?_
      · rw [hregion]
        simp [hzero, hone]
      · simp [hzero, hone]

/-- `CSI n J` and `CSI n K` cut a glyph in the row of the cursor. -/
def CutsGlyph (t : TerminalState) (n : ℕ) : Prop :=
  n = 0 ∧ IsContinuation (t.grid.cellAt t.cursor.row t.cursor.col) ∨
    n = 1 ∧ IsContinuation (t.grid.cellAt t.cursor.row (t.cursor.col + 1))

instance (t : TerminalState) (n : ℕ) : Decidable (t.CutsGlyph n) :=
  inferInstanceAs (Decidable (_ ∨ _))

theorem not_cutsGlyph_iff (t : TerminalState) (n : ℕ) :
    ¬ t.CutsGlyph n ↔ ∀ row, t.grid[t.cursor.row]? = some row →
      ¬ (n = 0 ∧ IsContinuation row[t.cursor.col]? ∨
        n = 1 ∧ IsContinuation row[t.cursor.col + 1]?) := by
  unfold CutsGlyph Grid.cellAt
  cases t.grid[t.cursor.row]? with
  | none => simp [not_isContinuation_none]
  | some row => simp

theorem eraseLine_widePaired_iff (hspace : width ' ' ≠ some 2) (h : t.WidePaired width)
    (hs : t.eraseLine n = some t') : t'.WidePaired width ↔ ¬ t.CutsGlyph n := by
  rw [widePaired_iff] at h ⊢
  rw [eraseLine_eq hs, not_cutsGlyph_iff,
    forall_mem_edit_iff (k := t.cursor.row) fun r hr row hrow => ?others]
  case others =>
    refine rowPaired_blankWhere (h row hrow) hspace False fun c => ?_
    exact iff_of_false (fun herased => hr herased.1) id
  refine forall₂_congr fun row hrow => ?_
  refine rowPaired_erase_iff (h row (List.mem_of_getElem? hrow)) hspace (n = 2)
    (by omega) fun c => ?_
  exact and_iff_right rfl

theorem eraseDisplay_widePaired_iff (hspace : width ' ' ≠ some 2) (h : t.WidePaired width)
    (hs : t.eraseDisplay n = some t') : t'.WidePaired width ↔ ¬ t.CutsGlyph n := by
  rw [widePaired_iff] at h ⊢
  rw [eraseDisplay_eq hs, not_cutsGlyph_iff,
    forall_mem_edit_iff (k := t.cursor.row) fun r hr row hrow => ?others]
  case others =>
    refine rowPaired_blankWhere (h row hrow) hspace
      (n = 0 ∧ t.cursor.row < r ∨ n = 1 ∧ r < t.cursor.row ∨ n = 2 ∨ n = 3) fun c => ?_
    simp only [DisplayErased, hr, false_and, or_false]
  refine forall₂_congr fun row hrow => ?_
  refine rowPaired_erase_iff (h row (List.mem_of_getElem? hrow)) hspace (n = 2 ∨ n = 3)
    (by omega) fun c => ?_
  simp [DisplayErased]

/-! ## Printing and scrolling -/

/-- A width-2 character and its continuation. -/
theorem rowPaired_putWide_iff (h : RowPaired width row) {sgr : SgrState} {ch : Char}
    (hch : width ch = some 2) (col : ℕ) :
    RowPaired width (putCell sgr ch 2 col row) ↔
      ¬ IsContinuation row[col]? ∧ ¬ IsContinuation row[col + 2]? := by
  have hcol : (putCell sgr ch 2 col row)[col]? =
      row[col]?.map fun _ => sgr.cell ch false := by
    rw [putCell_eq_mapIdx, List.getElem?_mapIdx]
    simp only [if_true]
  have hnext : (putCell sgr ch 2 col row)[col + 1]? =
      row[col + 1]?.map fun _ => sgr.cell ' ' true := by
    rw [putCell_eq_mapIdx, List.getElem?_mapIdx]
    simp only [Nat.succ_ne_self, if_false, and_self, if_true]
  refine h.replace_iff (by omega) (length_putCell ..) (fun c hc => ?_) ?_
    (fun c ha hb hlt => ?_) fun hlt => ?_
  · rw [putCell_eq_mapIdx, List.getElem?_mapIdx]
    have hne : c ≠ col := by omega
    have hne' : c ≠ col + 1 := by omega
    simp only [if_neg hne, hne', and_false, if_false]
    exact Option.map_id_apply
  · rw [hcol]
    exact not_isContinuation_map rfl _
  · obtain rfl : c = col := by omega
    rw [hcol, hnext, List.getElem?_eq_getElem hlt, List.getElem?_eq_getElem (by omega),
      Option.map_some, Option.map_some, isContinuation_some, isWideGlyph_some]
    exact iff_of_true rfl ⟨hch, rfl⟩
  · rw [Nat.add_sub_cancel (col + 1) 1, hnext, List.getElem?_eq_getElem (by omega),
      Option.map_some, isWideGlyph_some]
    exact fun hglyph => Bool.false_ne_true hglyph.2.symm

/-- A width-1 character. -/
theorem rowPaired_putNarrow_iff (h : RowPaired width row) {sgr : SgrState} {ch : Char}
    (hch : width ch ≠ some 2) (col : ℕ) :
    RowPaired width (putCell sgr ch 1 col row) ↔
      ¬ IsContinuation row[col]? ∧ ¬ IsContinuation row[col + 1]? := by
  have hput : putCell sgr ch 1 col row =
      row.mapIdx fun i old => if i = col then sgr.cell ch false else old := by
    rw [putCell_eq_mapIdx]
    rfl
  rw [hput]
  exact h.fill_iff hch rfl (Nat.lt_succ_self col) fun c _ => by omega

theorem forall_mem_modify_iff (h : ∀ row ∈ grid, RowPaired width row) (k : ℕ)
    (edit : List Cell → List Cell) :
    (∀ row ∈ grid.modify k edit, RowPaired width row) ↔
      ∀ row, grid[k]? = some row → RowPaired width (edit row) := by
  constructor
  · intro hall row hrow
    refine hall _ (List.mem_of_getElem? (i := k) ?_)
    rw [List.getElem?_modify, hrow]
    simp
  · intro hedit row hmem
    obtain ⟨r, hrow⟩ := List.mem_iff_getElem?.mp hmem
    rw [List.getElem?_modify] at hrow
    obtain ⟨old, hold, rfl⟩ := Option.map_eq_some_iff.mp hrow
    by_cases hr : k = r
    · subst hr
      rw [if_pos rfl]
      exact hedit old hold
    · rw [if_neg hr]
      exact h old (List.mem_of_getElem? hold)

theorem forall_mem_tail_modify_iff (h : ∀ row ∈ grid, RowPaired width row) {k : ℕ} (hk : k ≠ 0)
    (edit : List Cell → List Cell) :
    (∀ row ∈ (grid.modify k edit).tail, RowPaired width row) ↔
      ∀ row, grid[k]? = some row → RowPaired width (edit row) := by
  obtain ⟨k, rfl⟩ := Nat.exists_eq_succ_of_ne_zero hk
  cases grid with
  | nil => simp
  | cons top rest =>
      rw [List.modify_succ_cons, List.tail_cons, List.getElem?_cons_succ]
      exact forall_mem_modify_iff (fun row hrow => h row (List.mem_cons_of_mem top hrow)) k edit

/-- `lf` keeps the rows, or drops the top one and adds a blank one. -/
theorem lf_widePaired_iff (hspace : width ' ' ≠ some 2) (hs : t.lf = some t') :
    t'.WidePaired width ↔ ∀ row ∈ if t.rows ≠ 0 ∧ t.rows ≤ t.cursor.row + 1 then t.grid.tail
      else t.grid, RowPaired width row := by
  rw [widePaired_iff]
  unfold lf at hs
  split at hs
  · next hbottom =>
      unfold scrollUp at hs
      split at hs
      · next hzero =>
          cases hs
          rw [if_neg fun hrows => hrows.1 hzero]
      · next hrows =>
          rw [if_pos ⟨hrows, hbottom⟩]
          split at hs
          · cases hs
          · next top rest hgrid =>
              cases hs
              rw [hgrid, List.tail_cons, List.forall_mem_append, List.forall_mem_singleton,
                and_iff_left_iff_imp]
              exact fun _ => rowPaired_replicate hspace rfl _
  · next hroom =>
      cases hs
      rw [if_neg fun hrows => hroom hrows.2]

/-- The print replaces one half of a glyph, in a row that stays on the screen. -/
def SplitsGlyph (width : Char → Option ℕ) (t : TerminalState) (c : Char) : Prop :=
  let colWidth := if width c = some 2 then 2 else 1
  width c ≠ some 0 ∧ (t.rows ≠ 1 ∨ min (t.cursor.col + colWidth) u16Max < t.cols) ∧
    (IsContinuation (t.grid.cellAt t.cursor.row t.cursor.col) ∨
      IsContinuation (t.grid.cellAt t.cursor.row (t.cursor.col + colWidth)))

instance (width : Char → Option ℕ) (t : TerminalState) (c : Char) :
    Decidable (SplitsGlyph width t c) :=
  inferInstanceAs (Decidable (_ ∧ _ ∧ _))

theorem not_splitsGlyph_iff {c : Char} (hc : width c ≠ some 0)
    (hstays : t.rows ≠ 1 ∨ min (t.cursor.col + if width c = some 2 then 2 else 1) u16Max < t.cols) :
    ¬ SplitsGlyph width t c ↔ ∀ row, t.grid[t.cursor.row]? = some row →
      ¬ IsContinuation row[t.cursor.col]? ∧
        ¬ IsContinuation row[t.cursor.col + if width c = some 2 then 2 else 1]? := by
  unfold SplitsGlyph
  dsimp only
  rw [and_iff_right hc, and_iff_right hstays, not_or, not_isContinuation_cellAt_iff,
    not_isContinuation_cellAt_iff]
  exact ⟨fun h row hrow => ⟨h.1 row hrow, h.2 row hrow⟩,
    fun h => ⟨fun row hrow => (h row hrow).1, fun row hrow => (h row hrow).2⟩⟩

/-- The rows after the character is written. -/
theorem forall_mem_modify_putCell_iff (h : ∀ row ∈ t.grid, RowPaired width row) (c : Char) :
    (∀ row, t.grid[t.cursor.row]? = some row → RowPaired width
        (putCell t.sgr c (if width c = some 2 then 2 else 1) t.cursor.col row)) ↔
      ∀ row, t.grid[t.cursor.row]? = some row → ¬ IsContinuation row[t.cursor.col]? ∧
        ¬ IsContinuation row[t.cursor.col + if width c = some 2 then 2 else 1]? := by
  refine forall₂_congr fun row hrow => ?_
  have hpaired := h row (List.mem_of_getElem? hrow)
  by_cases hwide : width c = some 2
  · rw [if_pos hwide]
    exact rowPaired_putWide_iff hpaired hwide _
  · rw [if_neg hwide]
    exact rowPaired_putNarrow_iff hpaired hwide _

theorem printChar_widePaired_iff (hspace : width ' ' ≠ some 2) (hrep : t.Represented)
    (h : t.WidePaired width) {c : Char} (hs : t.printChar width c = some t') :
    t'.WidePaired width ↔ ¬ SplitsGlyph width t c := by
  have hrow := hrep.cursor.1
  have hheight := hrep.shaped.grid.1
  unfold printChar at hs
  by_cases hc : width c = some 0
  · rw [if_pos hc] at hs
    cases hs
    exact iff_of_true h fun hsplits => hsplits.1 hc
  · rw [widePaired_iff] at h
    have hput := forall_mem_modify_putCell_iff h c
    have hstays := not_splitsGlyph_iff (t := t) hc
    have hleaves : ¬ (t.rows ≠ 1 ∨
        min (t.cursor.col + if width c = some 2 then 2 else 1) u16Max < t.cols) →
        ¬ SplitsGlyph width t c := fun hgone hsplits => hgone hsplits.2.1
    rw [if_neg hc] at hs
    dsimp only at hs
    rw [Nat.min_eq_left hrep.cursor.1, Nat.min_eq_left hrep.cursor.2] at hs
    generalize (if width c = some 2 then 2 else 1) = colWidth at hs hput hstays hleaves
    split at hs
    · next hwrap =>
        rw [lf_widePaired_iff hspace hs]
        dsimp only
        by_cases hone : t.rows = 1
        · -- the only row leaves the screen as soon as it is full
          obtain ⟨row, hgrid⟩ := List.length_eq_one_iff.mp (hheight.trans hone)
          have hbottom : t.rows ≠ 0 ∧ t.rows ≤ t.cursor.row + 1 := by omega
          have htop : t.cursor.row = 0 := by omega
          rw [if_pos hbottom, hgrid, htop]
          exact iff_of_true (fun row hrow => absurd hrow List.not_mem_nil) (hleaves (by omega))
        · rw [hstays (Or.inl hone), ← hput]
          split
          · exact forall_mem_tail_modify_iff h (by omega) _
          · exact forall_mem_modify_iff h _ _
    · next hroom =>
        cases hs
        rw [widePaired_iff, hstays (Or.inr (Nat.lt_of_not_le hroom)), ← hput]
        exact forall_mem_modify_iff h _ _

/-! ## Resizing -/

/-- A row that stays on the screen gets longer, and ends with a glyph that was cut off. -/
def RevealsGlyph (width : Char → Option ℕ) (t : TerminalState) (cols rows : ℕ) : Prop :=
  t.cols < cols ∧ ∃ row ∈ t.grid.drop (t.grid.length - rows), IsWideGlyph width row.getLast?

instance (t : TerminalState) (cols rows : ℕ) : Decidable (RevealsGlyph width t cols rows) :=
  inferInstanceAs (Decidable (_ ∧ _))

theorem resize_widePaired_iff (hspace : width ' ' ≠ some 2) (hshaped : t.Shaped)
    (h : t.WidePaired width) (cols rows : ℕ) :
    (t.resize cols rows).WidePaired width ↔ ¬ RevealsGlyph width t cols rows := by
  rw [widePaired_iff] at h ⊢
  change (∀ row ∈ resizeGrid cols rows t.grid, RowPaired width row) ↔ _
  unfold resizeGrid RevealsGlyph
  rw [List.forall_mem_append, ← List.map_drop, List.forall_mem_map]
  have hnew : ∀ row ∈ List.replicate (rows - t.grid.length) (List.replicate cols Cell.blank),
      RowPaired width row := by
    intro row hrow
    rw [(List.mem_replicate.mp hrow).2]
    exact rowPaired_replicate hspace rfl cols
  rw [and_iff_left hnew]
  push Not
  have hrow : ∀ row ∈ t.grid.drop (t.grid.length - rows), (RowPaired width (resizeRow cols row) ↔
      (t.cols < cols → ¬ IsWideGlyph width row.getLast?)) := by
    intro row hmem
    have hmem' := List.mem_of_mem_drop hmem
    rw [(h row hmem').resizeRow_iff hspace, hshaped.grid.2 row hmem', not_and]
  exact ⟨fun hall hgrow row hmem => (hrow row hmem).mp (hall row hmem) hgrow,
    fun hall row hmem => (hrow row hmem).mpr fun hgrow => hall hgrow row hmem⟩

end TerminalState

/-! ## Whole runs -/

/-- What draws on one screen: prints, control bytes, control sequences that are not private, and
resizes. -/
inductive Drawing
  | print (c : Char)
  | execute (byte : UInt8)
  | csi (params : List Param) (action : Char)
  | resize (cols rows : ℕ)
  deriving DecidableEq, Repr

namespace Drawing

open TerminalState

/-- One call; `none` is a panic. -/
def step (width : Char → Option ℕ) (t : TerminalState) : Drawing → Option TerminalState
  | .print c => t.printChar width c
  | .execute byte => t.execute byte
  | .csi params action => t.csiDispatch params [] action
  | .resize cols rows => some (t.resize cols rows)

/-- The call parts a glyph from its continuation. -/
def Splits (width : Char → Option ℕ) (t : TerminalState) : Drawing → Prop
  | .print c => SplitsGlyph width t c
  | .execute _ => False
  | .csi params action => (action = 'J' ∨ action = 'K') ∧ t.CutsGlyph (firstParam params)
  | .resize cols rows => RevealsGlyph width t cols rows

instance (width : Char → Option ℕ) (t : TerminalState) : DecidablePred (Splits width t)
  | .print c => inferInstanceAs (Decidable (SplitsGlyph width t c))
  | .execute _ => inferInstanceAs (Decidable False)
  | .csi _ _ => inferInstanceAs (Decidable (_ ∧ _))
  | .resize cols rows => inferInstanceAs (Decidable (RevealsGlyph width t cols rows))

variable {width : Char → Option ℕ} {t t' : TerminalState} {call : Drawing}

/-- The life of a terminal that stays on one screen. -/
def drawing (width : Char → Option ℕ) : Machine TerminalState Drawing := ⟨step width⟩

theorem step_represented (h : t.Represented) (hs : step width t call = some t') :
    t'.Represented := by
  cases call with
  | print c =>
      have hdispatch : t.dispatch width (.print c) = some t' := hs
      exact h.dispatch hdispatch
  | execute byte =>
      have hdispatch : t.dispatch width (.execute byte) = some t' := hs
      exact h.dispatch hdispatch
  | csi params action =>
      have hdispatch : t.dispatch width (.csi params [] action) = some t' := hs
      exact h.dispatch hdispatch
  | resize cols rows =>
      cases hs
      exact h.resize cols rows

theorem csiDispatch_widePaired_iff (hspace : width ' ' ≠ some 2) (h : t.WidePaired width)
    {params : List Param} {action : Char} (hs : t.csiDispatch params [] action = some t') :
    t'.WidePaired width ↔ ¬ ((action = 'J' ∨ action = 'K') ∧ t.CutsGlyph (firstParam params)) := by
  unfold csiDispatch at hs
  rw [if_neg (by decide)] at hs
  dsimp only at hs
  split at hs
  case h_7 =>
      rw [eraseDisplay_widePaired_iff hspace h hs, and_iff_right (Or.inl rfl)]
  case h_8 =>
      rw [eraseLine_widePaired_iff hspace h hs, and_iff_right (Or.inr rfl)]
  case h_10 =>
      rename_i hdisplay hline _
      cases hs
      refine iff_of_true h fun hcut => ?_
      rcases hcut.1 with rfl | rfl
      · exact hdisplay rfl
      · exact hline rfl
  all_goals
    cases hs
    exact iff_of_true h fun hcut => absurd hcut.1 (by decide)

/-- **A call keeps the pairs exactly if it splits no glyph.** -/
theorem widePaired_step_iff (hspace : width ' ' ≠ some 2) (hrep : t.Represented)
    (h : t.WidePaired width) (hs : step width t call = some t') :
    t'.WidePaired width ↔ ¬ call.Splits width t := by
  cases call with
  | print c => exact printChar_widePaired_iff hspace hrep h hs
  | execute byte =>
      refine iff_of_true ?_ id
      change t.execute byte = some t' at hs
      unfold TerminalState.execute at hs
      split at hs
      · cases hs
        exact h
      · split at hs
        · rw [lf_widePaired_iff hspace hs]
          rw [widePaired_iff] at h
          split
          · exact fun row hrow => h row (List.mem_of_mem_tail hrow)
          · exact h
        · split at hs
          · cases hs
            exact h
          · cases hs
            exact h
  | csi params action => exact csiDispatch_widePaired_iff hspace h hs
  | resize cols rows =>
      cases hs
      exact resize_widePaired_iff hspace hrep.shaped h cols rows

/-! ### Screens of at most one column -/

/-- The width of the screen after the call. -/
def colsAfter (t : TerminalState) : Drawing → ℕ
  | .resize cols _ => cols
  | _ => t.cols

theorem step_cols (hs : step width t call = some t') : t'.cols = call.colsAfter t := by
  cases call with
  | print c => exact congrArg Prod.fst (printChar_size hs)
  | execute byte => exact congrArg Prod.fst (execute_size hs)
  | csi params action => exact congrArg Prod.fst (csiDispatch_size hs)
  | resize cols rows =>
      cases hs
      rfl

/-- On a screen of at most one column there is nothing to split. -/
theorem not_splits_of_short (hshaped : t.Shaped) (h : t.WidePaired width)
    (hshort : call.colsAfter t < 2) : ¬ call.Splits width t := by
  rw [widePaired_iff] at h
  have hcell : t.cols < 2 → ∀ r c, ¬ IsContinuation (t.grid.cellAt r c) := by
    intro hcols r c
    rw [not_isContinuation_cellAt_iff]
    intro row hrow
    have hmem := List.mem_of_getElem? hrow
    exact (h row hmem).not_isContinuation_of_short (by rw [hshaped.grid.2 row hmem]; exact hcols) c
  cases call with
  | print c =>
      rintro ⟨-, -, hcont | hcont⟩
      · exact hcell hshort _ _ hcont
      · exact hcell hshort _ _ hcont
  | execute byte => exact id
  | csi params action =>
      rintro ⟨-, ⟨-, hcont⟩ | ⟨-, hcont⟩⟩
      · exact hcell hshort _ _ hcont
      · exact hcell hshort _ _ hcont
  | resize cols rows =>
      rintro ⟨hgrow, row, hmem, hglyph⟩
      have hlen := hshaped.grid.2 row (List.mem_of_mem_drop hmem)
      have hempty : row = [] := List.length_eq_zero_iff.mp (by
        change cols < 2 at hshort
        omega)
      rw [hempty] at hglyph
      exact not_isWideGlyph_none hglyph

/-- Only a screen without columns refuses a call. -/
theorem colsAfter_of_refused (hrep : t.Represented) (hs : step width t call = none) :
    call.colsAfter t = 0 := by
  have hdispatch : ∀ d, t.dispatch width d = none → t.cols = 0 := by
    intro d hd
    by_contra hcols
    have hsome := (dispatch_isSome_iff hrep width d).mpr fun hpanic => hcols hpanic.2.1
    rw [hd] at hsome
    cases hsome
  cases call with
  | print c => exact hdispatch (.print c) hs
  | execute byte => exact hdispatch (.execute byte) hs
  | csi params action => exact hdispatch (.csi params [] action) hs
  | resize cols rows => cases hs

/-- **Wide pairs.**  In a run of prints, control bytes, cursor motions, erases and resizes, from a
new terminal of any size, every state of at least two columns has its wide glyphs and continuation
cells paired, exactly if no call of the run splits a glyph. -/
theorem drawing_widePaired_iff (hspace : width ' ' ≠ some 2) (cols rows : ℕ)
    (calls : List Drawing) :
    (∀ t, (drawing width).Visits (.new cols rows) calls t → 2 ≤ t.cols → t.WidePaired width) ↔
      (drawing width).Along (fun t call => ¬ call.Splits width t) (.new cols rows) calls := by
  have hblank : (TerminalState.new cols rows).WidePaired width := by
    rw [widePaired_iff]
    intro row hrow
    rw [(List.mem_replicate.mp hrow).2]
    exact rowPaired_replicate hspace rfl cols
  have hpaired : ∀ t : TerminalState, (t.cols < 2 → t.WidePaired width) →
      (2 ≤ t.cols → t.WidePaired width) → t.WidePaired width :=
    fun t hshort hwide => (Nat.lt_or_ge t.cols 2).elim hshort hwide
  -- screens of fewer columns are not asked about, but they stay paired as well
  refine (drawing width).forall_visits_iff_along
    (fun t => t.Represented ∧ (t.cols < 2 → t.WidePaired width))
    (fun t => 2 ≤ t.cols → t.WidePaired width) ?_ ?_
    ⟨represented_new cols rows, fun _ => hblank⟩ (fun _ => hblank) calls
  · rintro t call t' ⟨hrep, hshort⟩ hwide hs
    have h := hpaired t hshort hwide
    have hiff := widePaired_step_iff hspace hrep h hs
    have hcols := step_cols hs
    have hshort' : t'.cols < 2 → ¬ call.Splits width t := fun hlt =>
      not_splits_of_short hrep.shaped h (hcols ▸ hlt)
    refine ⟨⟨step_represented hrep hs, fun hlt => hiff.mpr (hshort' hlt)⟩, ?_⟩
    refine ⟨fun hgood => ?_, fun hok _ => hiff.mpr hok⟩
    rcases Nat.lt_or_ge t'.cols 2 with hlt | hge
    · exact hshort' hlt
    · exact hiff.mp (hgood hge)
  · rintro t call ⟨hrep, hshort⟩ hwide hs
    refine not_splits_of_short hrep.shaped (hpaired t hshort hwide) ?_
    rw [colsAfter_of_refused hrep hs]
    decide

/-- A wide character, text beside it, an erase behind it and a wider screen. -/
def besideGlyph : List Drawing :=
  [.print '世', .print 'a', .csi [] 'K', .execute 0x0A, .resize 6 3]

/-- None of these calls splits the glyph. -/
theorem drawing_widePaired_kept :
    let width : Char → Option ℕ := fun c => if c = '世' then some 2 else some 1
    (drawing width).Along (fun t call => ¬ call.Splits width t) (.new 4 2) besideGlyph ∧
      ∀ t, (drawing width).Visits (.new 4 2) besideGlyph t → 2 ≤ t.cols → t.WidePaired width := by
  intro width
  have hkept : (drawing width).Along (fun t call => ¬ call.Splits width t) (.new 4 2)
      besideGlyph := by decide
  exact ⟨hkept, (drawing_widePaired_iff (by decide) 4 2 besideGlyph).mpr hkept⟩

/-- A letter over the first half of a wide character leaves the second half behind. -/
theorem overwritten_glyph_orphaned :
    ∃ t, (drawing fun c => if c = '世' then some 2 else some 1).run (.new 4 2)
        [.print '世', .execute 0x0D, .print 'a'] = some t ∧ 2 ≤ t.cols ∧
      ¬ t.WidePaired fun c => if c = '世' then some 2 else some 1 := by
  refine ⟨_, rfl, by decide, fun h => ?_⟩
  obtain ⟨-, left, hleft, hwide, -⟩ :=
    (h 0 1 ⟨' ', .none, none, none, true⟩ (by decide)).mp rfl
  cases hleft
  exact absurd hwide (by decide)

end Drawing

end Nosh.Server
