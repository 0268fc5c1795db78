import Nosh.Client.Painting
import Nosh.Lib.WideVt
import Nosh.Proto.WideRow

/-!
# Painting wide characters

What `emit_diff` makes of the display of an ideal terminal on which a wide character takes two
columns. The loop skips the cells that are as they should be and the second columns of wide
characters; after a wide character the column that it remembers is one too small, and overwriting
one half of an old wide character blanks the other half.

Nothing of this shows. The display is followed from left to right: up to a column `e` that does not
cut a desired character it is as desired, from there on as it was, but for the right half of an old
character that has lost its left half. Such a half is always painted anew, since the mark of the
cell has changed. The remembered column is only consulted where it is right: the column that it
names after a wide character is the one that is skipped.

## Main Definitions

* `RowWellFormed`, `WellFormed` — a grid that a terminal can display
* `shown`, `shows` — how it is displayed
* `midway` — a row while the loop is at work

## Main Results

* `putNarrow_midway`, `putWide_midway` — what a character does to the row.
* `emitCell_step` — one turn of the loop.
* `emitDiff_shows` — **the terminal shows the desired grid after `emit_diff`**, and a second
  `emit_diff` paints nothing.
-/

namespace Nosh.Client

open Nosh.Lib Nosh.Proto Nosh.Lib.Vt

/-! ## Well-formed grids -/

/-- A row that a terminal can display: exactly the right neighbours of width-2 characters are marked
as their second columns and have their attributes, no width-2 character is in the last column, and
every character takes one column or two. -/
structure RowWellFormed (width : Char → Option ℕ) (row : List Cell) : Prop
    extends RowPaired width row where
  attributes : ∀ c left right, row[c]? = some left → row[c + 1]? = some right →
    right.wide = true → right.style = left.style ∧ right.fg = left.fg ∧ right.bg = left.bg
  room : ∀ c, IsWideGlyph width row[c]? → c + 1 < row.length
  widths : ∀ cell ∈ row, cell.wide = false → width cell.ch = some 1 ∨ width cell.ch = some 2

instance (width : Char → Option ℕ) (row : List Cell) : Decidable (RowWellFormed width row) :=
  decidable_of_iff
    (RowPaired width row ∧
      (∀ pair ∈ row.zip row.tail, pair.2.wide = true →
        pair.2.style = pair.1.style ∧ pair.2.fg = pair.1.fg ∧ pair.2.bg = pair.1.bg) ∧
      (∀ c < row.length, IsWideGlyph width row[c]? → c + 1 < row.length) ∧
      ∀ cell ∈ row, cell.wide = false → width cell.ch = some 1 ∨ width cell.ch = some 2) (by
    constructor
    · rintro ⟨hpaired, hattributes, hroom, hwidths⟩
      refine ⟨hpaired, fun c left right hleft hright => ?_, fun c hc => ?_, hwidths⟩
      · refine hattributes (left, right) (List.mem_iff_getElem?.mpr ⟨c, ?_⟩)
        exact List.getElem?_zip_eq_some.mpr ⟨hleft, List.getElem?_tail.trans hright⟩
      · exact hroom c hc.lt_length hc
    · intro h
      refine ⟨h.toRowPaired, fun pair hpair => ?_, fun c _ => h.room c, h.widths⟩
      obtain ⟨c, hc⟩ := List.mem_iff_getElem?.mp hpair
      obtain ⟨hleft, hright⟩ := List.getElem?_zip_eq_some.mp hc
      exact h.attributes c pair.1 pair.2 hleft (List.getElem?_tail.symm.trans hright))

/-- A grid that a terminal can display. -/
def WellFormed (width : Char → Option ℕ) (grid : Grid Cell) : Prop :=
  ∀ row ∈ grid, RowWellFormed width row

instance (width : Char → Option ℕ) (grid : Grid Cell) : Decidable (WellFormed width grid) :=
  inferInstanceAs (Decidable (∀ row ∈ grid, _))

/-- How a cell is displayed. -/
def shown (width : Char → Option ℕ) (cell : Cell) : Shown :=
  if cell.wide then .trail (Sgr.look (cell.style, cell.fg, cell.bg))
  else if width cell.ch = some 2 then .lead (glyph cell)
  else .narrow (glyph cell)

/-- How a grid is displayed. -/
def shows (width : Char → Option ℕ) (grid : Grid Cell) : Grid Shown :=
  grid.map fun row => row.map (shown width)

/-! ## A row while the loop is at work -/

section Midway

variable {width : Char → Option ℕ} {des phys : List Cell}
variable {d p : Cell} {e c : ℕ}

/-- The row when the loop has come to column `e`: as desired up to there, as it was from there on;
if `e` was the right half of a wide character, it is blank. -/
def midway (width : Char → Option ℕ) (des phys : List Cell) (e : ℕ) : List Shown :=
  (des.zip phys).mapIdx fun i pair =>
    if i < e then shown width pair.1
    else if i = e ∧ pair.2.wide = true then .blank
    else shown width pair.2

theorem length_midway (hlen : des.length = phys.length) (e : ℕ) :
    (midway width des phys e).length = des.length := by
  rw [midway, List.length_mapIdx, List.length_zip, ← hlen, Nat.min_self]

theorem getElem?_midway {i : ℕ} (hd : des[i]? = some d) (hp : phys[i]? = some p) (e : ℕ) :
    (midway width des phys e)[i]? =
      some (if i < e then shown width d
        else if i = e ∧ p.wide = true then .blank
        else shown width p) := by
  have hpair : (des.zip phys)[i]? = some (d, p) := List.getElem?_zip_eq_some.mpr ⟨hd, hp⟩
  rw [midway, List.getElem?_mapIdx, hpair]
  rfl

section

variable (hlen : des.length = phys.length)

include hlen

/-- A row is compared column by column. -/
theorem eq_midway {cells : List Shown} (hcells : cells.length = des.length)
    (h : ∀ (i : ℕ) d p, des[i]? = some d → phys[i]? = some p →
      cells[i]? = (midway width des phys e)[i]?) : cells = midway width des phys e := by
  refine List.ext_getElem? fun i => ?_
  by_cases hi : i < des.length
  · exact h i _ _ (List.getElem?_eq_getElem hi) (List.getElem?_eq_getElem (hlen ▸ hi))
  · rw [List.getElem?_eq_none (by omega), List.getElem?_eq_none (by rw [length_midway hlen]; omega)]

theorem midway_zero (hphys : RowPaired width phys) :
    phys.map (shown width) = midway width des phys 0 := by
  refine eq_midway hlen (by rw [List.length_map, hlen]) fun i d p hd hp => ?_
  rw [getElem?_midway hd hp, List.getElem?_map, hp, Option.map_some, if_neg (Nat.not_lt_zero i),
    if_neg]
  rintro ⟨rfl, hwide⟩
  refine hphys.first ?_
  rw [hp, isContinuation_some]
  exact hwide

theorem midway_end (he : des.length ≤ e) : des.map (shown width) = midway width des phys e := by
  refine eq_midway hlen (List.length_map _) fun i d p hd hp => ?_
  have hi := (List.getElem?_eq_some_iff.mp hd).1
  rw [getElem?_midway hd hp, List.getElem?_map, hd, Option.map_some, if_pos (by omega)]

/-- Rubbing out the character in column `e` blanks its right half and nothing else. -/
theorem rub_midway (hphys : RowPaired width phys) (hd : des[e]? = some d) (hp : phys[e]? = some p) :
    ∀ i ≠ e, (rub e (midway width des phys e))[i]? = (midway width des phys (e + 1))[i]? := by
  intro i hi
  -- what is in column `e` is no right half: that has been blanked already
  have hcovers : Covers e (midway width des phys e)[e]? i ↔
      i = e + 1 ∧ width p.ch = some 2 ∧ p.wide = false := by
    rw [getElem?_midway hd hp, if_neg (Nat.lt_irrefl e)]
    unfold shown Shown.blank
    cases hwide : p.wide with
    | true => simp [Covers]
    | false =>
        by_cases htwo : width p.ch = some 2
        · simp [Covers, htwo, hi]
        · simp [Covers, htwo]
  rw [getElem?_rub]
  by_cases hlt : i < des.length
  · obtain ⟨d', hd'⟩ : ∃ d', des[i]? = some d' := ⟨_, List.getElem?_eq_getElem hlt⟩
    obtain ⟨p', hp'⟩ : ∃ p', phys[i]? = some p' := ⟨_, List.getElem?_eq_getElem (hlen ▸ hlt)⟩
    rw [getElem?_midway hd' hp', getElem?_midway hd' hp', Option.map_some]
    simp only [hcovers]
    by_cases hnext : i = e + 1
    · subst hnext
      have hiff := hphys.wide_iff hp hp'
      by_cases hwide : p'.wide = true
      · have hglyph := hiff.mp hwide
        simp [hwide, hglyph]
      · have hglyph : ¬ (width p.ch = some 2 ∧ p.wide = false) := fun h => hwide (hiff.mpr h)
        simp [hwide, hglyph]
    · have hiff : i < e + 1 ↔ i < e := by omega
      simp [hi, hnext, hiff]
  · have hnone : ∀ e, (midway width des phys e)[i]? = none := fun e =>
      List.getElem?_eq_none (by rw [length_midway hlen]; omega)
    rw [hnone, hnone]
    rfl

/-- **A character of one column**, over whatever is there. -/
theorem putNarrow_midway (hphys : RowPaired width phys) (hd : des[e]? = some d)
    (hp : phys[e]? = some p) (hunmarked : d.wide = false) (hone : width d.ch = some 1) :
    putNarrow e (glyph d) (midway width des phys e) = midway width des phys (e + 1) := by
  have he := (List.getElem?_eq_some_iff.mp hd).1
  have hshown : shown width d = .narrow (glyph d) := by simp [shown, hunmarked, hone]
  refine eq_midway hlen ?_ fun i d' p' hd' hp' => ?_
  · rw [length_putNarrow, length_midway hlen]
  · unfold putNarrow
    by_cases hi : i = e
    · subst hi
      rw [List.getElem?_set_self (by rw [length_rub, length_midway hlen]; exact he),
        getElem?_midway hd hp, if_pos (Nat.lt_succ_self i), hshown]
    · rw [List.getElem?_set_ne (Ne.symm hi), rub_midway hlen hphys hd hp i hi]

/-- **A character of two columns**, over whatever is there. -/
theorem putWide_midway (hdes : RowWellFormed width des) (hphys : RowPaired width phys)
    (hd : des[e]? = some d) (hp : phys[e]? = some p) (hunmarked : d.wide = false)
    (htwo : width d.ch = some 2) :
    putWide e (glyph d) (midway width des phys e) = midway width des phys (e + 2) := by
  have hroom : e + 1 < des.length :=
    hdes.room e (by rw [hd, isWideGlyph_some]; exact ⟨htwo, hunmarked⟩)
  obtain ⟨d', hd'⟩ : ∃ d', des[e + 1]? = some d' := ⟨_, List.getElem?_eq_getElem hroom⟩
  obtain ⟨p', hp'⟩ : ∃ p', phys[e + 1]? = some p' :=
    ⟨_, List.getElem?_eq_getElem (hlen ▸ hroom)⟩
  have hmarked : d'.wide = true := (hdes.wide_iff hd hd').mpr ⟨htwo, hunmarked⟩
  obtain ⟨hstyle, hfg, hbg⟩ := hdes.attributes e d d' hd hd' hmarked
  have hlead : shown width d = .lead (glyph d) := by simp [shown, hunmarked, htwo]
  have htrail : shown width d' = .trail (glyph d).look := by
    simp [shown, hmarked, hstyle, hfg, hbg, glyph]
  refine eq_midway hlen ?_ fun i x y hx hy => ?_
  · rw [length_putWide, length_midway hlen]
  · unfold putWide
    by_cases hnext : i = e + 1
    · subst hnext
      rw [List.getElem?_set_self
          (by rw [List.length_set, length_rub, length_rub, length_midway hlen]; exact hroom),
        getElem?_midway hd' hp', if_pos (Nat.lt_succ_self _), htrail]
    · rw [List.getElem?_set_ne (Ne.symm hnext)]
      by_cases hi : i = e
      · subst hi
        rw [List.getElem?_set_self (by rw [length_rub, length_rub, length_midway hlen]; omega),
          getElem?_midway hd hp, if_pos (by omega), hlead]
      · -- off the two columns, the second rub starts from what the first one left
        rw [List.getElem?_set_ne (Ne.symm hi),
          getElem?_rub_congr (Nat.succ_ne_self e) (rub_midway hlen hphys hd hp) i hi,
          rub_midway hlen hphys hd' hp' i hnext]

/-- A cell that is as it should be needs nothing, and neither does its second column. -/
theorem midway_unchanged (hdes : RowWellFormed width des) (hphys : RowWellFormed width phys)
    (hd : des[e]? = some d) (hp : phys[e]? = some d) (hunmarked : d.wide = false) :
    midway width des phys e =
      midway width des phys (e + if width d.ch = some 2 then 2 else 1) := by
  refine eq_midway hlen (length_midway hlen e) fun i d' p' hd' hp' => ?_
  rw [getElem?_midway hd' hp', getElem?_midway hd' hp']
  congr 1
  rcases Nat.lt_trichotomy i e with hlt | rfl | hgt
  · rw [if_pos hlt, if_pos (by omega)]
  · cases hd.symm.trans hd'
    cases hp.symm.trans hp'
    rw [if_neg (Nat.lt_irrefl i), if_neg (by simp [hunmarked]), if_pos (by split <;> omega)]
  · rw [if_neg (by omega), if_neg (by omega)]
    by_cases htwo : width d.ch = some 2
    · rw [if_pos htwo]
      rcases Nat.lt_trichotomy i (e + 2) with hlt | rfl | hgt'
      · -- the second column has the mark and the attributes in both rows
        obtain rfl : i = e + 1 := by omega
        have hd'wide := (hdes.wide_iff hd hd').mpr ⟨htwo, hunmarked⟩
        have hp'wide := (hphys.wide_iff hp hp').mpr ⟨htwo, hunmarked⟩
        obtain ⟨hstyle, hfg, hbg⟩ := hdes.attributes e d d' hd hd' hd'wide
        obtain ⟨hstyle', hfg', hbg'⟩ := hphys.attributes e d p' hp hp' hp'wide
        rw [if_pos hlt]
        simp [shown, hd'wide, hp'wide, hstyle, hfg, hbg, hstyle', hfg', hbg']
      · have hlt := (List.getElem?_eq_some_iff.mp hp').1
        obtain ⟨right, hright⟩ : ∃ right, phys[e + 1]? = some right :=
          ⟨_, List.getElem?_eq_getElem (by omega)⟩
        have hmarked := (hphys.wide_iff hp hright).mpr ⟨htwo, hunmarked⟩
        have hp'wide : ¬ p'.wide = true := fun hwide =>
          absurd ((hphys.wide_iff hright hp').mp hwide).2 (by rw [hmarked]; decide)
        simp [hp'wide]
      · rw [if_neg (by omega), if_neg (by omega)]
    · rw [if_neg htwo]
      by_cases hnext : i = e + 1
      · subst hnext
        have hp'wide : ¬ p'.wide = true := fun hwide =>
          htwo ((hphys.wide_iff hp hp').mp hwide).1
        simp [hp'wide]
      · rw [if_neg (by omega), if_neg (by omega)]

end

/-- Where the loop is when it comes to column `c`: past a second column, which has been painted with
the first. -/
def edge (des : List Cell) (c : ℕ) : ℕ := if IsContinuation des[c]? then c + 1 else c

theorem edge_of_marked (hdes : RowPaired width des) (hd : des[c]? = some d)
    (hmarked : d.wide = true) : edge des (c + 1) = edge des c := by
  have hnext : ¬ IsContinuation des[c + 1]? := by
    rintro ⟨d', hd', hwide⟩
    exact absurd ((hdes.wide_iff hd hd').mp hwide).2 (by rw [hmarked]; decide)
  rw [edge, if_neg hnext, edge, hd, if_pos (isContinuation_some.mpr hmarked)]

theorem edge_of_unmarked (hd : des[c]? = some d) (hunmarked : d.wide = false) : edge des c = c := by
  rw [edge, hd, if_neg (by rw [isContinuation_some, hunmarked]; decide)]

theorem edge_succ (hdes : RowWellFormed width des) (hd : des[c]? = some d)
    (hunmarked : d.wide = false) : edge des (c + 1) = c + if width d.ch = some 2 then 2 else 1 := by
  have hglyph : IsWideGlyph width des[c]? ↔ width d.ch = some 2 := by
    rw [hd, isWideGlyph_some, and_iff_left hunmarked]
  by_cases htwo : width d.ch = some 2
  · have hnext := (hdes.next c (hdes.room c (hglyph.mpr htwo))).mpr (hglyph.mpr htwo)
    rw [edge, if_pos hnext, if_pos htwo]
  · have hnext : ¬ IsContinuation des[c + 1]? := fun hcont =>
      htwo (hglyph.mp ((hdes.next c hcont.lt_length).mp hcont))
    rw [edge, if_neg hnext, if_neg htwo]

end Midway

/-! ## Tokens -/

section Paint

variable {cols rows : ℕ} {width : Char → Option ℕ}

/-- What tokens do to the screen. -/
def paintAll (width : Char → Option ℕ) (s : WideScreen cols rows) (tokens : List Token) :
    WideScreen cols rows :=
  (tokens.flatMap Token.commands).foldl (WideScreen.command width) s

theorem paintAll_append (s : WideScreen cols rows) (tokens tokens' : List Token) :
    paintAll width s (tokens ++ tokens') = paintAll width (paintAll width s tokens) tokens' := by
  rw [paintAll, List.flatMap_append, List.foldl_append]
  rfl

/-- A move to a cell of the screen. -/
theorem paintAll_moveTo (s : WideScreen cols rows) {row col : ℕ} (hrows : rows < 65536)
    (hcols : cols < 65536) (hrow : row < rows) (hcol : col < cols) :
    paintAll width s [.moveTo col row] = { s with row := row, col := col, wrapNext := false } := by
  have hr : min ((row + 1) % 65536 - 1) (rows - 1) = row := by omega
  have hc : min ((col + 1) % 65536 - 1) (cols - 1) = col := by omega
  change s.moveTo ((row + 1) % 65536) ((col + 1) % 65536) = _
  rw [WideScreen.moveTo, hr, hc]

theorem paintAll_sgr (s : WideScreen cols rows) (attributes : Sgr) :
    paintAll width s [.sgr attributes] = { s with look := attributes.look } := by
  change { s with look := s.look.sgr (0 :: attributes.codes) } = _
  rw [attributes.sgr_codes]

/-- A character with its attributes, at the cursor. -/
theorem paintAll_emitGlyph {s : WideScreen cols rows} {lastSgr : Option Sgr}
    (hlook : ∀ attributes, lastSgr = some attributes → s.look = attributes.look)
    (attributes : Sgr) (ch : Char) :
    paintAll width s (emitGlyph lastSgr attributes ch) =
      WideScreen.print width { s with look := attributes.look } ch := by
  rw [emitGlyph, paintAll_append]
  split
  · rw [paintAll_sgr]
    rfl
  · rename_i hsame
    rw [← hlook attributes (not_not.mp hsame)]
    rfl

/-! ## One turn of the loop -/

/-- The loop of `emit_diff` has come to column `c` of row `r`.  What it remembers is where the
cursor is, unless it names a column that is skipped. -/
structure Follows (width : Char → Option ℕ) (r c : ℕ) (des phys : List Cell) (pen : Pen)
    (s : WideScreen cols rows) : Prop where
  line : s.grid[r]? = some (midway width des phys (edge des c))
  position : pen.lastRow = some r → pen.lastCol = some c → ¬ IsContinuation des[c]? → c < cols →
    s.row = r ∧ s.col = c ∧ s.wrapNext = false
  behind : ∀ col, pen.lastRow = some r → pen.lastCol = some col → col ≤ c
  above : ∀ row, pen.lastRow = some row → row ≤ r
  look : ∀ attributes, pen.lastSgr = some attributes → s.look = attributes.look

variable {r c : ℕ} {des phys : List Cell} {pen : Pen} {s : WideScreen cols rows}

/-- A turn that writes nothing. -/
theorem Follows.skip (h : Follows width r c des phys pen s)
    (hline : midway width des phys (edge des c) = midway width des phys (edge des (c + 1))) :
    Follows width r (c + 1) des phys pen s where
  line := by rw [h.line, hline]
  position := by
    intro hrow hcol
    exact absurd (h.behind _ hrow hcol) (by omega)
  behind := fun col hrow hcol => Nat.le_succ_of_le (h.behind col hrow hcol)
  above := h.above
  look := h.look

/-- The cursor is moved to the column of the loop, unless it is there already. -/
theorem Follows.move (h : Follows width r c des phys pen s) (hrows : rows < 65536)
    (hcols : cols < 65536) (hr : r < rows) (hc : c < cols) (hunmarked : ¬ IsContinuation des[c]?) :
    ∃ moved : WideScreen cols rows,
      paintAll width s (if pen.lastRow ≠ some r ∨ pen.lastCol ≠ some c then
        [.moveTo c r] else []) = moved ∧ moved.row = r ∧ moved.col = c ∧
        moved.wrapNext = false ∧ moved.grid = s.grid ∧ moved.look = s.look := by
  split
  · exact ⟨_, paintAll_moveTo s hrows hcols hr hc, rfl, rfl, rfl, rfl, rfl⟩
  · next hthere =>
      rw [not_or, not_not, not_not] at hthere
      obtain ⟨hrow, hcol, hwrap⟩ := h.position hthere.1 hthere.2 hunmarked hc
      exact ⟨s, rfl, hrow, hcol, hwrap, rfl, rfl⟩

/-- A character at the cursor in column `c`, by its width. -/
theorem print_line (hlen : des.length = cols) (hlen' : phys.length = cols)
    (hdes : RowWellFormed width des) (hphys : RowPaired width phys) {d p : Cell}
    (hd : des[c]? = some d) (hp : phys[c]? = some p) (hunmarked : d.wide = false)
    (hrow : s.row = r) (hcol : s.col = c) (hwrap : s.wrapNext = false)
    (hlook : s.look = Sgr.look (d.style, d.fg, d.bg))
    (hline : s.grid[r]? = some (midway width des phys c)) :
    (s.print width d.ch).grid[r]? = some (midway width des phys (edge des (c + 1))) ∧
      (∀ r' ≠ r, (s.print width d.ch).grid[r']? = s.grid[r']?) ∧
      (s.print width d.ch).look = s.look ∧
      (¬ IsContinuation des[c + 1]? → c + 1 < cols →
        (s.print width d.ch).row = r ∧ (s.print width d.ch).col = c + 1 ∧
          (s.print width d.ch).wrapNext = false) := by
  have hlens : des.length = phys.length := hlen.trans hlen'.symm
  have hglyph : (⟨d.ch, s.look⟩ : Glyph) = glyph d := by rw [hlook, glyph]
  have hedge := edge_succ hdes hd hunmarked
  rcases hdes.widths d (List.mem_of_getElem? hd) hunmarked with hone | htwo
  · rw [WideScreen.print_narrow hone hwrap]
    have hgrid : (s.writeNarrow d.ch).grid = s.grid.modify r (putNarrow c (glyph d)) := by
      rw [← hrow, ← hcol, ← hglyph]
      rfl
    rw [hone, if_neg (by decide)] at hedge
    refine ⟨?_, fun r' hr' => ?_, rfl, fun _ hroom => ⟨hrow, ?_, ?_⟩⟩
    · rw [hgrid, List.getElem?_modify_eq, hline, hedge]
      exact congrArg some (putNarrow_midway hlens hphys hd hp hunmarked hone)
    · rw [hgrid, List.getElem?_modify_ne _ _ (Ne.symm hr')]
    · change (if s.col + 1 < cols then s.col + 1 else cols - 1) = c + 1
      rw [hcol, if_pos hroom]
    · change decide (¬ s.col + 1 < cols) = false
      rw [hcol, decide_eq_false (not_not.mpr hroom)]
  · have hwide : IsWideGlyph width des[c]? := by
      rw [hd, isWideGlyph_some]
      exact ⟨htwo, hunmarked⟩
    have hroom := hdes.room c hwide
    rw [WideScreen.print_wide htwo hwrap (by omega)]
    have hgrid : (s.writeWide d.ch).grid = s.grid.modify r (putWide c (glyph d)) := by
      rw [← hrow, ← hcol, ← hglyph]
      rfl
    rw [htwo, if_pos rfl] at hedge
    refine ⟨?_, fun r' hr' => ?_, rfl, fun hnext => ?_⟩
    · rw [hgrid, List.getElem?_modify_eq, hline, hedge]
      exact congrArg some (putWide_midway hlens hdes hphys hd hp hunmarked htwo)
    · rw [hgrid, List.getElem?_modify_ne _ _ (Ne.symm hr')]
    · exact absurd ((hdes.next c hroom).mpr hwide) hnext

/-- **One turn of the loop.** -/
theorem emitCell_step (hrows : rows < 65536) (hcols : cols < 65536) (hr : r < rows)
    (hlen : des.length = cols) (hlen' : phys.length = cols) (hdes : RowWellFormed width des)
    (hphys : RowWellFormed width phys) (h : Follows width r c des phys pen s) {d p : Cell}
    (hd : des[c]? = some d) (hp : phys[c]? = some p) :
    Follows width r (c + 1) des phys (emitCell pen (r, c, d, p)).1
        (paintAll width s (emitCell pen (r, c, d, p)).2) ∧
      ∀ r' ≠ r, (paintAll width s (emitCell pen (r, c, d, p)).2).grid[r']? = s.grid[r']? := by
  have hc : c < cols := hlen ▸ (List.getElem?_eq_some_iff.mp hd).1
  have hlens : des.length = phys.length := hlen.trans hlen'.symm
  unfold emitCell
  dsimp only
  cases hmarked : d.wide with
  | true =>
      have hskip := h.skip (by rw [edge_of_marked hdes.toRowPaired hd hmarked])
      split
      · exact ⟨hskip, fun _ _ => rfl⟩
      · exact ⟨hskip, fun _ _ => rfl⟩
  | false =>
      have hedge := edge_of_unmarked hd hmarked
      by_cases hsame : d = p
      · subst hsame
        rw [if_pos rfl]
        refine ⟨h.skip ?_, fun _ _ => rfl⟩
        rw [hedge, edge_succ hdes hd hmarked]
        exact midway_unchanged hlens hdes hphys hd hp hmarked
      · rw [if_neg hsame, if_neg Bool.false_ne_true]
        dsimp only
        obtain ⟨moved, hmoved, hrow, hcol, hwrap, hgrid, hlook⟩ := h.move hrows hcols hr hc
          (by rw [hd, isContinuation_some, hmarked]; decide)
        have hline := h.line
        rw [hedge, ← hgrid] at hline
        rw [paintAll_append, hmoved, paintAll_emitGlyph fun attributes hlast =>
          hlook.trans (h.look attributes hlast)]
        obtain ⟨hline', hothers, hlook', hposition⟩ := print_line
          (s := { moved with look := Sgr.look (d.style, d.fg, d.bg) }) hlen hlen' hdes
          hphys.toRowPaired hd hp hmarked hrow hcol hwrap rfl hline
        refine ⟨⟨hline', fun _ _ => hposition, ?_, ?_, ?_⟩, fun r' hr' => ?_⟩
        · rintro col - ⟨⟩
          exact Nat.le_refl _
        · rintro row ⟨⟩
          exact Nat.le_refl _
        · rintro attributes ⟨⟩
          exact hlook'
        · rw [hothers r' hr']
          change moved.grid[r']? = _
          rw [hgrid]

/-! ## Whole rows, whole grids -/

/-- The turns of the loop in one row, from a column on. -/
def lineCells (row col : ℕ) (pairs : List (Cell × Cell)) : List (ℕ × ℕ × Cell × Cell) :=
  (pairs.zipIdx col).map fun cell => (row, cell.2, cell.1.1, cell.1.2)

/-- One row, before the rest of the loop. -/
theorem emitAll_lineCells (hrows : rows < 65536) (hcols : cols < 65536) (hr : r < rows)
    (hlen : des.length = cols) (hlen' : phys.length = cols) (hdes : RowWellFormed width des)
    (hphys : RowWellFormed width phys) {pairs : List (Cell × Cell)}
    (hpairs : pairs = (des.zip phys).drop c) (h : Follows width r c des phys pen s)
    (rest : List (ℕ × ℕ × Cell × Cell)) :
    ∃ pen' tokens,
      emitAll emitCell pen (lineCells r c pairs ++ rest) = tokens ++ emitAll emitCell pen' rest ∧
      Follows width r (c + pairs.length) des phys pen' (paintAll width s tokens) ∧
      ∀ r' ≠ r, (paintAll width s tokens).grid[r']? = s.grid[r']? := by
  induction pairs generalizing c pen s with
  | nil => exact ⟨pen, [], rfl, h, fun _ _ => rfl⟩
  | cons pair pairs ih =>
      obtain ⟨d, p⟩ := pair
      have hat : (des.zip phys)[c]? = some (d, p) := by
        rw [← List.head?_drop, ← hpairs]
        rfl
      obtain ⟨hd, hp⟩ := List.getElem?_zip_eq_some.mp hat
      have hrest : pairs = (des.zip phys).drop (c + 1) := by
        rw [← List.tail_drop, ← hpairs]
        rfl
      obtain ⟨hstep, hothers⟩ :=
        emitCell_step hrows hcols hr hlen hlen' hdes hphys h hd hp
      obtain ⟨pen', tokens, htokens, hfollows, hothers'⟩ := ih hrest hstep
      refine ⟨pen', (emitCell pen (r, c, d, p)).2 ++ tokens, ?_, ?_, fun r' hr' => ?_⟩
      · change (emitCell pen (r, c, d, p)).2 ++ emitAll emitCell (emitCell pen (r, c, d, p)).1
          (lineCells r (c + 1) pairs ++ rest) = _
        rw [htokens, List.append_assoc]
      · rw [paintAll_append, List.length_cons, Nat.add_comm pairs.length 1, ← Nat.add_assoc]
        exact hfollows
      · rw [paintAll_append, hothers' r' hr', hothers r' hr']

/-- The loop comes to a new row. -/
theorem follows_start (hlens : des.length = phys.length) (hdes : RowPaired width des)
    (hphys : RowPaired width phys) (hline : s.grid[r]? = some (phys.map (shown width)))
    (habove : ∀ row, pen.lastRow = some row → row < r)
    (hlook : ∀ attributes, pen.lastSgr = some attributes → s.look = attributes.look) :
    Follows width r 0 des phys pen s where
  line := by rw [hline, midway_zero hlens hphys, edge, if_neg hdes.first]
  position := fun hrow => absurd (habove r hrow) (Nat.lt_irrefl r)
  behind := fun _ hrow => absurd (habove r hrow) (Nat.lt_irrefl r)
  above := fun row hrow => (habove row hrow).le
  look := hlook

/-- The turns of the loop, from a row on. -/
def gridCells (row : ℕ) (lines : List (List Cell × List Cell)) : List (ℕ × ℕ × Cell × Cell) :=
  (lines.zipIdx row).flatMap fun line => lineCells line.2 0 (line.1.1.zip line.1.2)

/-- The rows from `r` on. -/
theorem paintAll_gridCells (hrows : rows < 65536) (hcols : cols < 65536)
    {lines : List (List Cell × List Cell)} (hcount : r + lines.length = rows)
    (hlines : ∀ line ∈ lines, line.1.length = cols ∧ line.2.length = cols ∧
      RowWellFormed width line.1 ∧ RowWellFormed width line.2)
    (hphys : ∀ i line, lines[i]? = some line →
      s.grid[r + i]? = some (line.2.map (shown width)))
    (habove : ∀ row, pen.lastRow = some row → row < r)
    (hlook : ∀ attributes, pen.lastSgr = some attributes → s.look = attributes.look) :
    (∀ i < r, (paintAll width s (emitAll emitCell pen (gridCells r lines))).grid[i]? =
        s.grid[i]?) ∧
      ∀ i line, lines[i]? = some line →
        (paintAll width s (emitAll emitCell pen (gridCells r lines))).grid[r + i]? =
          some (line.1.map (shown width)) := by
  induction lines generalizing r pen s with
  | nil =>
      refine ⟨fun _ _ => rfl, fun i line hline => ?_⟩
      rw [List.getElem?_nil] at hline
      cases hline
  | cons line lines ih =>
      obtain ⟨des, phys⟩ := line
      obtain ⟨⟨hlen, hlen', hdes, hphysical⟩, hrest⟩ := List.forall_mem_cons.mp hlines
      dsimp only at hlen hlen' hdes hphysical
      have hlens : des.length = phys.length := hlen.trans hlen'.symm
      rw [List.length_cons] at hcount
      have hfirst : s.grid[r]? = some (phys.map (shown width)) := hphys 0 _ rfl
      have hstart := follows_start hlens hdes.toRowPaired hphysical.toRowPaired hfirst habove hlook
      obtain ⟨pen', tokens, htokens, hfollows, hothers⟩ :=
        emitAll_lineCells hrows hcols (by omega) hlen hlen' hdes hphysical List.drop_zero.symm
          hstart (gridCells (r + 1) lines)
      have hline : (paintAll width s tokens).grid[r]? = some (des.map (shown width)) := by
        have hend : des.length ≤ edge des (0 + (des.zip phys).length) := by
          rw [edge, List.length_zip]
          split <;> omega
        rw [hfollows.line, midway_end hlens hend]
      have hphys' : ∀ i line, lines[i]? = some line →
          (paintAll width s tokens).grid[r + 1 + i]? = some (line.2.map (shown width)) := by
        intro i line hi
        rw [hothers _ (by omega), Nat.add_assoc, Nat.add_comm 1 i]
        exact hphys (i + 1) line hi
      have habove' : ∀ row, pen'.lastRow = some row → row < r + 1 :=
        fun row hrow => Nat.lt_succ_of_le (hfollows.above row hrow)
      obtain ⟨hdone, hpainted⟩ := ih (by omega) hrest hphys' habove' hfollows.look
      have hcells : gridCells r ((des, phys) :: lines) =
          lineCells r 0 (des.zip phys) ++ gridCells (r + 1) lines := rfl
      rw [hcells, htokens, paintAll_append]
      refine ⟨fun i hi => ?_, fun i line hi => ?_⟩
      · rw [hdone i (by omega), hothers i (by omega)]
      · cases i with
        | zero =>
            cases hi
            exact (hdone r (Nat.lt_succ_self r)).trans hline
        | succ i =>
            rw [Nat.add_comm i 1, ← Nat.add_assoc]
            exact hpainted i line hi

/-- The display after `emit_diff`. -/
theorem paintAll_emitDiff_grid (hrows : rows < 65536) (hcols : cols < 65536)
    {desired physical : Grid Cell} (hdesired : desired.HasShape rows cols)
    (hphysical : physical.HasShape rows cols) (hdes : WellFormed width desired)
    (hphys : WellFormed width physical) (hshows : s.grid = shows width physical)
    (cursor : CursorPos) :
    (paintAll width s (emitDiff desired physical cursor)).grid = shows width desired := by
  have hlines : ∀ (i : ℕ) (line : List Cell × List Cell),
      (desired.zip physical)[i]? = some line →
        desired[i]? = some line.1 ∧ physical[i]? = some line.2 :=
    fun i line hline => List.getElem?_zip_eq_some.mp hline
  have hcells : diffCells desired physical = gridCells 0 (desired.zip physical) :=
    diffCells_eq hdesired hphysical
  have hcount : 0 + (desired.zip physical).length = rows := by
    rw [List.length_zip, hdesired.1, hphysical.1, Nat.min_self, Nat.zero_add]
  have hrowsOk : ∀ line ∈ desired.zip physical, line.1.length = cols ∧ line.2.length = cols ∧
      RowWellFormed width line.1 ∧ RowWellFormed width line.2 := by
    intro line hmem
    obtain ⟨hmem, hmem'⟩ := List.of_mem_zip hmem
    exact ⟨hdesired.2 _ hmem, hphysical.2 _ hmem', hdes _ hmem, hphys _ hmem'⟩
  have hstart : ∀ (i : ℕ) (line : List Cell × List Cell), (desired.zip physical)[i]? = some line →
      s.grid[0 + i]? = some (line.2.map (shown width)) := by
    intro i line hline
    rw [hshows, shows, List.getElem?_map, Nat.zero_add, (hlines i line hline).2]
    rfl
  have hnoRow : ∀ row, (⟨none, none, none⟩ : Pen).lastRow = some row → row < 0 := by
    rintro row ⟨⟩
  have hnoLook : ∀ attributes, (⟨none, none, none⟩ : Pen).lastSgr = some attributes →
      s.look = attributes.look := by
    rintro attributes ⟨⟩
  obtain ⟨-, hpainted⟩ := paintAll_gridCells hrows hcols hcount hrowsOk hstart hnoRow hnoLook
  have hgrid : (paintAll width s (emitDiff desired physical cursor)).grid =
      (paintAll width s (emitAll emitCell ⟨none, none, none⟩
        (gridCells 0 (desired.zip physical)))).grid := by
    rw [emitDiff, paintAll_append, hcells]
    rfl
  rw [hgrid]
  refine List.ext_getElem? fun i => ?_
  rw [shows, List.getElem?_map]
  by_cases hi : i < (desired.zip physical).length
  · have hline := List.getElem?_eq_getElem hi
    have hpaint := hpainted i _ hline
    rw [Nat.zero_add] at hpaint
    rw [hpaint, (hlines i _ hline).1]
    rfl
  · rw [List.getElem?_eq_none (by rw [WideScreen.shape _ |>.1]; omega),
      List.getElem?_eq_none (by rw [hdesired.1]; omega)]
    rfl

/-! ## `emit_diff` -/

/-- An `emit_diff` that has nothing to change only moves the cursor. -/
theorem emitDiff_self {grid : Grid Cell} (hshape : grid.HasShape rows cols) (cursor : CursorPos) :
    emitDiff grid grid cursor = [.moveTo cursor.col cursor.row] := by
  have hnone : emitAll emitCell ⟨none, none, none⟩ (diffCells grid grid) = [] := by
    refine List.eq_nil_iff_forall_not_mem.mpr (forall_mem_emitAll ?_ _)
    rintro pen ⟨row, col, want, present⟩ hcell
    obtain ⟨hwant, hpresent⟩ := (mem_diffCells_iff hshape hshape).mp hcell
    cases hwant.symm.trans hpresent
    rw [emitCell, if_pos rfl]
    exact fun _ => List.not_mem_nil
  rw [emitDiff, hnone]
  rfl

/-- A character of one column or two is no control character. -/
theorem WellFormed.plain (hwidth : ∀ ch, isControl ch = true → width ch = none) {grid : Grid Cell}
    (h : WellFormed width grid) :
    grid.All fun cell => cell.wide = false → isControl cell.ch = false := by
  intro row hrow cell hcell hunmarked
  exact Printable.plain hwidth ((h row hrow).widths cell hcell hunmarked)

/-- The terminal executes the bytes of plain tokens. -/
theorem exec_tokens {tokens : List Token} (h : ∀ token ∈ tokens, token.Plain)
    {t : WideTerminal cols rows} (hground : t.parse = .ground) :
    t.exec width (Utf8.encode (tokens.flatMap Token.chars)) =
      ⟨paintAll width t.screen tokens, .ground⟩ := by
  rw [WideTerminal.exec, Utf8.decodeLossy_encode, hground, Token.run_flatMap_chars h]
  rfl

/-- **The terminal shows the desired grid after `emit_diff`**, with its cursor where it was asked
for. A second `emit_diff` with the same arguments paints no character. -/
theorem emitDiff_shows (hwidth : ∀ ch, isControl ch = true → width ch = none)
    (hrows : rows < 65536) (hcols : cols < 65536) {desired physical : Grid Cell}
    (hdesired : desired.HasShape rows cols) (hphysical : physical.HasShape rows cols)
    (hdes : WellFormed width desired) (hphys : WellFormed width physical)
    {t : WideTerminal cols rows} (hground : t.parse = .ground)
    (hshows : t.screen.grid = shows width physical) (cursor : CursorPos) :
    let t' := t.exec width (Utf8.encode ((emitDiff desired physical cursor).flatMap Token.chars))
    t'.parse = .ground ∧ t'.screen.grid = shows width desired ∧
      (cursor.row < rows → cursor.col < cols →
        t'.screen.row = cursor.row ∧ t'.screen.col = cursor.col) ∧
      emitDiff desired (commit desired physical) cursor = [.moveTo cursor.col cursor.row] := by
  intro t'
  have hplain := emitDiff_plain_of_unmarked (hdes.plain hwidth) physical cursor
  have ht' : t' = ⟨paintAll width t.screen (emitDiff desired physical cursor), .ground⟩ :=
    exec_tokens hplain hground
  rw [ht']
  refine ⟨rfl, ?_, fun hrow hcol => ?_, ?_⟩
  · exact paintAll_emitDiff_grid hrows hcols hdesired hphysical hdes hphys hshows cursor
  · dsimp only
    rw [emitDiff, paintAll_append, paintAll_moveTo _ hrows hcols hrow hcol]
    exact ⟨rfl, rfl⟩
  · rw [commit_eq hdesired hphysical]
    exact emitDiff_self hdesired cursor

end Paint

/-! ## A wide character moves by a column -/

/-- Only one character is wide. -/
def oneWide (ch : Char) : Option ℕ :=
  if isControl ch then none else if ch = '世' then some 2 else some 1

/-- A character of plain text. -/
def letter (ch : Char) : Cell := { Cell.blank with ch }

/-- The second column of a wide character. -/
def spacer : Cell := { Cell.blank with wide := true }

/-- The wide character comes first. -/
def wideFirst : Grid Cell := [[letter '世', spacer, letter 'a', letter 'b']]

/-- The wide character comes second. -/
def wideSecond : Grid Cell := [[letter 'a', letter '世', spacer, letter 'b']]

/-- Moving the wide character by one column overwrites its right half with its left one. -/
theorem emitDiff_shows_wideSecond :
    let t : WideTerminal 4 1 :=
      ⟨⟨shows oneWide wideFirst, by decide, 0, 0, true, .plain⟩, .ground⟩
    let t' := t.exec oneWide
      (Utf8.encode ((emitDiff wideSecond wideFirst ⟨0, 3⟩).flatMap Token.chars))
    t'.screen.grid = shows oneWide wideSecond ∧ t'.screen.row = 0 ∧ t'.screen.col = 3 := by
  intro t t'
  have hsecond : wideSecond.HasShape 1 4 ∧ WellFormed oneWide wideSecond := by decide
  have hfirst : wideFirst.HasShape 1 4 ∧ WellFormed oneWide wideFirst := by decide
  obtain ⟨-, hgrid, hcursor, -⟩ := emitDiff_shows (t := t) (fun ch hch => if_pos hch)
    (by decide) (by decide) hsecond.1 hfirst.1 hsecond.2 hfirst.2 rfl rfl ⟨0, 3⟩
  exact ⟨hgrid, hcursor (by decide) (by decide)⟩

end Nosh.Client
