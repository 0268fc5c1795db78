import Nosh.Client.ScrollbackRows

/-!
# The window of the scrollback

What `render_scrollback_to_buf` makes of the display of an ideal terminal, for lines that are no
wider than the screen. The comment above the function wants the lines `len - offset - rows` to
`len - offset` on the last rows of the screen and blank rows above them.

The loop puts the lines on the screen from the first row on. Where fewer lines than rows remain
before the offset it goes on past the end of the window, with the lines that are scrolled off at the
bottom, and then with blank rows. A row with a wide character is written beyond its last column, by
one blank for each such character; on the last row this scrolls the screen.

## Main Definitions

* `rowShown` — how a line is displayed, with the blanks behind it
* `windowShown` — the documented display
* `WindowInPlace` — when it is the display

## Main Results

* `paint_row` — what a turn of the loop does to the display.
* `render_grid` — the display after `render_scrollback_to_buf`.
* `scrollback_window_iff` — **the documented window is displayed exactly then.**
-/

namespace Nosh.Client

open Nosh.Lib Nosh.Proto Nosh.Lib.Vt

/-! ## Rows that are shifted -/

section Shift

variable {α : Type} {row : ℕ → α} {blank : α} {gap rows : ℕ}

/-- Rows that are their own shift by `gap` blank rows are all blank. -/
theorem shifted_iff :
    (∀ r < rows, row r = if r < gap then blank else row (r - gap)) ↔
      gap = 0 ∨ ∀ r < rows, row r = blank := by
  constructor
  · intro h
    refine or_iff_not_imp_left.mpr fun hgap r => ?_
    induction r using Nat.strong_induction_on with
    | _ r ih =>
        intro hr
        rw [h r hr]
        split
        · rfl
        · exact ih (r - gap) (by omega) (by omega)
  · rintro (rfl | h) r hr
    · exact (if_neg (Nat.not_lt_zero r)).symm
    · rw [h r hr]
      split
      · rfl
      · exact (h _ (by omega)).symm

/-- A row that repeats every `gap + 1` rows. -/
theorem repeat_succ (first : α) (r : ℕ) :
    (if gap + 1 ∣ r + 1 then first else blank) =
      if r < gap then blank else if gap + 1 ∣ r - gap then first else blank := by
  split_ifs with hdvd hlt hdvd' hlt hdvd'
  · exact absurd hdvd (Nat.not_dvd_of_pos_of_lt (by omega) (by omega))
  · rfl
  · have hsum : r + 1 = r - gap + (gap + 1) := by omega
    rw [hsum, Nat.dvd_add_self_right] at hdvd
    exact absurd hdvd hdvd'
  · rfl
  · have hsum : r + 1 = r - gap + (gap + 1) := by omega
    rw [hsum, Nat.dvd_add_self_right] at hdvd
    exact absurd hdvd' hdvd
  · rfl

/-- Rows that have moved up by one and are their own shift by `gap` blank rows repeat every
`gap + 1` rows, with blank rows in between. -/
theorem repeat_of_scrolled (h : ∀ r < rows, (if r + 1 < rows then row (r + 1) else blank) =
    if r < gap then blank else row (r - gap)) :
    ∀ r < rows, row r = if gap + 1 ∣ r then row 0 else blank := by
  intro r
  induction r using Nat.strong_induction_on with
  | _ r ih =>
      intro hr
      cases r with
      | zero => exact (if_pos (Nat.dvd_zero _)).symm
      | succ r =>
          have hstep := h r (by omega)
          rw [if_pos hr] at hstep
          rw [hstep, repeat_succ]
          split
          · rfl
          · exact ih (r - gap) (by omega) (by omega)

/-- When rows that have moved up by one are their own shift by `gap` blank rows. -/
theorem scrolled_shifted_iff (hrows : 0 < rows) (hlast : row (rows - 1) ≠ blank) :
    (∀ r < rows, (if r + 1 < rows then row (r + 1) else blank) =
        if r < gap then blank else row (r - gap)) ↔
      0 < gap ∧ gap + 1 ∣ rows - 1 ∧
        ∀ r < rows, row r = if gap + 1 ∣ r then row 0 else blank := by
  constructor
  · intro h
    have hpos : 0 < gap := by
      by_contra hzero
      have hend := h (rows - 1) (by omega)
      rw [if_neg (by omega), if_neg (by omega), Nat.eq_zero_of_not_pos hzero] at hend
      exact hlast hend.symm
    have hrepeat := repeat_of_scrolled h
    refine ⟨hpos, ?_, hrepeat⟩
    by_contra hdvd
    have hend := hrepeat (rows - 1) (by omega)
    rw [if_neg hdvd] at hend
    exact hlast hend
  · rintro ⟨hpos, hdvd, hrepeat⟩ r hr
    by_cases hmore : r + 1 < rows
    · rw [if_pos hmore, hrepeat (r + 1) hmore, repeat_succ]
      split
      · rfl
      · exact (hrepeat (r - gap) (by omega)).symm
    · rw [if_neg hmore]
      split
      · rfl
      · rename_i hge
        obtain rfl : r = rows - 1 := by omega
        -- otherwise the period would divide `gap`
        have hnot : ¬ gap + 1 ∣ rows - 1 - gap := by
          intro hdvd'
          have hgap := Nat.dvd_sub hdvd hdvd'
          have hdiff : rows - 1 - (rows - 1 - gap) = gap := by omega
          rw [hdiff] at hgap
          exact absurd (Nat.le_of_dvd hpos hgap) (by omega)
        rw [hrepeat _ (by omega), if_neg hnot]

end Shift

/-! ## The display of a line -/

/-- The characters of a line, with their attributes. -/
def lineGlyphs (line : Option ScrollbackLine) : List Glyph :=
  (cellsOf line).map fun cell => ⟨cell.ch, Sgr.look (cell.style, cell.fg, cell.bg)⟩

/-- The characters of a row: those of its line, and one blank for each cell that is missing. -/
def rowGlyphs (line : Option ScrollbackLine) (cols : ℕ) : List Glyph :=
  lineGlyphs line ++ List.replicate (cols - (cellsOf line).length) .blank

/-- A line and the blanks behind it, as they should be displayed. -/
def rowShown (width : Char → Option ℕ) (cols : ℕ) (line : Option ScrollbackLine) : List Shown :=
  shownText width (lineGlyphs line) ++
    List.replicate (cols - (shownText width (lineGlyphs line)).length) .blank

/-- The line is no wider than `cols`: its characters take one column or two each, and no more than
`cols` altogether. -/
structure NoWider (width : Char → Option ℕ) (cols : ℕ) (line : Option ScrollbackLine) : Prop where
  displayed : ∀ glyph ∈ lineGlyphs line, glyph.Displayed width
  within : (shownText width (lineGlyphs line)).length ≤ cols

instance (width : Char → Option ℕ) (cols : ℕ) (line : Option ScrollbackLine) :
    Decidable (NoWider width cols line) :=
  decidable_of_iff ((∀ glyph ∈ lineGlyphs line, glyph.Displayed width) ∧
      (shownText width (lineGlyphs line)).length ≤ cols)
    ⟨fun h => ⟨h.1, h.2⟩, fun h => ⟨h.displayed, h.within⟩⟩

/-- The line has a wide character. -/
def Wide (width : Char → Option ℕ) (line : Option ScrollbackLine) : Prop :=
  ∃ glyph ∈ lineGlyphs line, width glyph.ch = some 2

instance (width : Char → Option ℕ) (line : Option ScrollbackLine) : Decidable (Wide width line) :=
  inferInstanceAs (Decidable (∃ glyph ∈ lineGlyphs line, _))

section Row

variable {width : Char → Option ℕ} {cols rows : ℕ} {line : Option ScrollbackLine}
variable {s : WideScreen cols rows} {r : ℕ}

theorem length_rowShown (h : NoWider width cols line) :
    (rowShown width cols line).length = cols := by
  rw [rowShown, List.length_append, List.length_replicate]
  exact Nat.add_sub_cancel' h.within

/-- A wide character takes one column more than it has cells. -/
theorem length_shownText (width : Char → Option ℕ) (glyphs : List Glyph) :
    (shownText width glyphs).length =
      glyphs.length + glyphs.countP fun glyph => width glyph.ch = some 2 := by
  induction glyphs with
  | nil => rfl
  | cons glyph glyphs ih =>
      rw [shownText, List.flatMap_cons, List.length_append, ← shownText, ih, List.length_cons,
        List.countP_cons, Glyph.shown]
      simp only [decide_eq_true_eq]
      split
      · rw [List.length_cons, List.length_singleton]
        omega
      · rw [List.length_singleton]
        omega

theorem wide_iff_length_lt (width : Char → Option ℕ) (line : Option ScrollbackLine) :
    Wide width line ↔ (cellsOf line).length < (shownText width (lineGlyphs line)).length := by
  have hcells : (lineGlyphs line).length = (cellsOf line).length := List.length_map _
  rw [length_shownText, hcells, Nat.lt_add_right_iff_pos, List.countP_pos_iff]
  simp only [decide_eq_true_eq]
  rfl

/-- A row is its line with the blanks that it needs, and those that are too many. -/
theorem rowGlyphs_eq (h : NoWider width cols line) :
    rowGlyphs line cols =
      lineGlyphs line ++
          List.replicate (cols - (shownText width (lineGlyphs line)).length) .blank ++
        List.replicate ((shownText width (lineGlyphs line)).length - (cellsOf line).length)
          .blank := by
  have hcells : (lineGlyphs line).length = (cellsOf line).length := List.length_map _
  have hlength := length_shownText width (lineGlyphs line)
  have hwithin := h.within
  have hsum : cols - (cellsOf line).length =
      cols - (shownText width (lineGlyphs line)).length +
        ((shownText width (lineGlyphs line)).length - (cellsOf line).length) := by
    omega
  rw [rowGlyphs, hsum, ← List.replicate_append_replicate, List.append_assoc]

/-! ## One turn of the loop -/

theorem paintAll_cons (s : WideScreen cols rows) (token : Token) (tokens : List Token) :
    paintAll width s (token :: tokens) = paintAll width (paintAll width s [token]) tokens :=
  paintAll_append s [token] tokens

/-- The cells of a line are typed with their attributes. -/
theorem paintAll_emitLine (s : WideScreen cols rows) (line : ScrollbackLine) :
    paintAll width s (emitLine line) = s.typeAll width (lineGlyphs (some line)) := by
  have hloop : ∀ (cells : List ScrollbackCell) (lastSgr : Option Sgr) (s : WideScreen cols rows),
      (∀ attributes, lastSgr = some attributes → s.look = attributes.look) →
      paintAll width s (emitAll (fun lastSgr cell =>
          (some (cell.style, cell.fg, cell.bg),
            emitGlyph lastSgr (cell.style, cell.fg, cell.bg) cell.ch)) lastSgr cells) =
        s.typeAll width (cells.map fun cell =>
          ⟨cell.ch, Sgr.look (cell.style, cell.fg, cell.bg)⟩) := by
    intro cells
    induction cells with
    | nil => exact fun _ _ _ => rfl
    | cons cell cells ih =>
        intro lastSgr s hlook
        rw [emitAll, paintAll_append, paintAll_emitGlyph hlook, ih]
        · rfl
        · rintro attributes ⟨⟩
          exact WideScreen.print_look _ _
  refine hloop line.cells none s ?_
  rintro attributes ⟨⟩

/-- Blanks are typed without attributes. -/
theorem paintAll_blanks (hlook : s.look = .plain) (n : ℕ) :
    paintAll width s (List.replicate n (.text ' ')) =
      s.typeAll width (List.replicate n .blank) := by
  induction n generalizing s with
  | zero => rfl
  | succ n ih =>
      have hfirst : s.type width .blank = s.print width ' ' := by
        rw [WideScreen.type, Glyph.blank, ← hlook]
      rw [List.replicate_succ, paintAll_cons, List.replicate_succ, WideScreen.typeAll,
        List.foldl_cons, hfirst]
      exact ih ((WideScreen.print_look s ' ').trans hlook)

/-- What is written on a row after the positioning. -/
theorem paintAll_rowBody (s : WideScreen cols rows) (line : Option ScrollbackLine) :
    paintAll width s (rowBody line cols) =
      WideScreen.typeAll width { s with look := .plain } (rowGlyphs line cols) := by
  have hline : ∀ s : WideScreen cols rows,
      paintAll width s (line.elim [] emitLine) = s.typeAll width (lineGlyphs line) := by
    intro s
    cases line with
    | none => rfl
    | some line => exact paintAll_emitLine s line
  have hblanks : ∀ (s : WideScreen cols rows) (n : ℕ),
      paintAll width s (if 0 < n then .sgr Sgr.plain :: List.replicate n (.text ' ') else []) =
        s.typeAll width (List.replicate n .blank) := by
    intro s n
    cases n with
    | zero => rfl
    | succ n =>
        -- the first blank sets the attributes anyway
        rw [if_pos n.succ_pos, paintAll_cons, paintAll_sgr, paintAll_blanks rfl]
        rfl
  rw [rowBody, paintAll_cons, paintAll_sgr, paintAll_append, hline, hblanks, rowGlyphs,
    WideScreen.typeAll_append]
  rfl

theorem paintAll_moveTo_zero (hrows : rows < 65536) (hr : r < rows) (s : WideScreen cols rows) :
    paintAll width s [.moveTo 0 r] = { s with row := r, col := 0, wrapNext := false } := by
  have hrow : min ((r + 1) % 65536 - 1) (rows - 1) = r := by omega
  change s.moveTo ((r + 1) % 65536) 1 = _
  rw [WideScreen.moveTo, hrow, Nat.sub_self, Nat.zero_min]

/-- The line and the blanks that it needs replace a blank line. -/
theorem typeAll_line (hspace : width ' ' = some 1) (hline : NoWider width cols line)
    (h : s.Writing r [] (WideScreen.blankLine cols)) : let s' := s.typeAll width (lineGlyphs line ++
      List.replicate (cols - (shownText width (lineGlyphs line)).length) .blank)
    s'.row = r ∧ s'.wrapNext = true ∧ s'.grid = s.grid.set r (rowShown width cols line) := by
  intro s'
  have hshown : shownText width (lineGlyphs line ++
      List.replicate (cols - (shownText width (lineGlyphs line)).length) .blank) =
        rowShown width cols line := by
    rw [shownText_append, shownText_replicate_blank hspace, rowShown]
  have hfull : (WideScreen.blankLine cols).length = (rowShown width cols line).length := by
    rw [length_rowShown hline]
    exact List.length_replicate
  have hroom := Nat.le_of_eq hfull.symm
  rw [← hshown] at hroom
  obtain ⟨hwriting, hgrid⟩ := h.typeAll
    (List.forall_mem_append.mpr ⟨hline.displayed, displayed_blanks hspace _⟩) hroom
  rw [hshown, List.drop_of_length_le hfull.le, List.nil_append] at hwriting hgrid
  rw [List.append_nil] at hgrid
  exact ⟨hwriting.row, hwriting.cursor, hgrid⟩

/-- **A turn of the loop.**  The line and its blanks replace a blank line; on the last row the
blanks that are too many scroll the screen. -/
theorem paint_row (hspace : width ' ' = some 1) (hcols : 0 < cols) (hrows : rows < 65536)
    (hline : NoWider width cols line) (hr : r < rows)
    (hblank : s.grid[r]? = some (WideScreen.blankLine cols))
    (hnext : r + 1 < rows → s.grid[r + 1]? = some (WideScreen.blankLine cols)) :
    (paintAll width s (.moveTo 0 r :: rowBody line cols)).grid =
      if Wide width line ∧ ¬ r + 1 < rows then
        (s.grid.set r (rowShown width cols line) ++ [WideScreen.blankLine cols]).drop 1
      else s.grid.set r (rowShown width cols line) := by
  have hstart : WideScreen.Writing
      { s with row := r, col := 0, wrapNext := false, look := .plain } r []
        (WideScreen.blankLine cols) := by
    refine ⟨rfl, hblank, narrow_blankLine cols, ?_⟩
    rw [if_neg (List.ne_nil_of_length_pos (List.length_replicate.symm ▸ hcols))]
    exact ⟨rfl, rfl⟩
  obtain ⟨hrow, hwrap, hgrid⟩ := typeAll_line hspace hline hstart
  rw [paintAll_cons, paintAll_moveTo_zero hrows hr, paintAll_rowBody, rowGlyphs_eq hline,
    WideScreen.typeAll_append]
  generalize WideScreen.typeAll width _ (lineGlyphs line ++ _) = s' at hrow hwrap hgrid ⊢
  have hwithin := hline.within
  by_cases hwide : Wide width line
  · have hlength := (wide_iff_length_lt width line).mp hwide
    have hnext' : s'.row + 1 < rows → s'.grid[s'.row + 1]? = some (WideScreen.blankLine cols) := by
      rw [hrow, hgrid, List.getElem?_set_ne (Nat.ne_of_lt (Nat.lt_succ_self r))]
      exact hnext
    rw [WideScreen.typeAll_blanks hspace (by omega) (by omega) hwrap (hrow ▸ hr) hnext', hrow,
      hgrid]
    by_cases hmore : r + 1 < rows
    · rw [if_pos hmore, if_neg fun h => h.2 hmore]
    · rw [if_neg hmore, if_pos ⟨hwide, hmore⟩]
  · have hlength := fun h => hwide ((wide_iff_length_lt width line).mpr h)
    rw [Nat.sub_eq_zero_of_le (Nat.not_lt.mp hlength), if_neg fun h => hwide h.1]
    exact hgrid

end Row

/-! ## The loop -/

section Loop

variable {width : Char → Option ℕ} {cols rows : ℕ} {line : ℕ → Option ScrollbackLine}
variable {n : ℕ}

/-- Rows that are painted, and the blank ones below. -/
def paintedRows (width : Char → Option ℕ) (cols rows : ℕ) (line : ℕ → Option ScrollbackLine)
    (n : ℕ) : Grid Shown :=
  ((List.range n).map fun r => rowShown width cols (line r)) ++
    List.replicate (rows - n) (WideScreen.blankLine cols)

theorem length_rangeRows (width : Char → Option ℕ) (cols : ℕ) (line : ℕ → Option ScrollbackLine)
    (n : ℕ) : ((List.range n).map fun r => rowShown width cols (line r)).length = n := by
  rw [List.length_map, List.length_range]

theorem getElem?_paintedRows {r : ℕ} (hn : n ≤ r) (hr : r < rows) :
    (paintedRows width cols rows line n)[r]? = some (WideScreen.blankLine cols) := by
  have hlength := length_rangeRows width cols line n
  rw [paintedRows, List.getElem?_append_right (hlength.trans_le hn), hlength,
    List.getElem?_replicate, if_pos (by omega)]

theorem set_paintedRows (hn : n < rows) :
    (paintedRows width cols rows line n).set n (rowShown width cols (line n)) =
      paintedRows width cols rows line (n + 1) := by
  have hlength := length_rangeRows width cols line n
  have hleft : rows - n = rows - (n + 1) + 1 := by omega
  rw [paintedRows, paintedRows, List.set_append_right _ _ hlength.le, hlength, Nat.sub_self, hleft,
    List.replicate_succ, List.set_cons_zero, List.range_succ, List.map_append, List.append_assoc]
  rfl

/-- The display before the last row is painted. -/
theorem paint_rows (hspace : width ' ' = some 1) (hcols : 0 < cols) (hrows : rows < 65536)
    (hline : ∀ r, NoWider width cols (line r)) {s : WideScreen cols rows}
    (hgrid : s.grid = List.replicate rows (WideScreen.blankLine cols)) (hn : n < rows) :
    (paintAll width s ((List.range n).flatMap fun r =>
      .moveTo 0 r :: rowBody (line r) cols)).grid = paintedRows width cols rows line n := by
  induction n with
  | zero => exact hgrid
  | succ n ih =>
      have hdone := ih (by omega)
      rw [List.range_succ, List.flatMap_append, paintAll_append, List.flatMap_singleton]
      rw [paint_row hspace hcols hrows (hline n) (by omega), hdone, if_neg fun h => h.2 hn,
        set_paintedRows (by omega)]
      · rw [hdone]
        exact getElem?_paintedRows le_rfl (by omega)
      · intro hmore
        rw [hdone]
        exact getElem?_paintedRows (Nat.le_succ n) hmore

/-- Rows that have moved up by one. -/
theorem drop_rangeRows {α : Type} (row : ℕ → α) (blank : α) (n : ℕ) :
    ((List.range (n + 1)).map row ++ [blank]).drop 1 =
      (List.range (n + 1)).map fun r => if r + 1 < n + 1 then row (r + 1) else blank := by
  have hbelow : (List.range n).map (fun r => if r + 1 < n + 1 then row (r + 1) else blank) =
      (List.range n).map fun r => row (r + 1) :=
    List.map_congr_left fun r hr => if_pos (Nat.succ_lt_succ (List.mem_range.mp hr))
  have hlast : (if n + 1 < n + 1 then row (n + 1) else blank) = blank := if_neg (lt_irrefl _)
  calc ((List.range (n + 1)).map row ++ [blank]).drop 1
    _ = (List.range n).map (fun r => row (r + 1)) ++ [blank] := by
      rw [List.range_succ_eq_map, List.map_cons, List.map_map]
      rfl
    _ = _ := by
      rw [List.range_succ, List.map_append, hbelow, List.map_singleton, hlast]

/-- The display after the last row is painted. -/
theorem paint_screen (hspace : width ' ' = some 1) (hcols : 0 < cols) (hpos : 0 < rows)
    (hrows : rows < 65536) (hline : ∀ r, NoWider width cols (line r)) {s : WideScreen cols rows}
    (hgrid : s.grid = List.replicate rows (WideScreen.blankLine cols)) :
    (paintAll width s ((List.range rows).flatMap fun r =>
      .moveTo 0 r :: rowBody (line r) cols)).grid =
        (List.range rows).map fun r =>
          if Wide width (line (rows - 1)) then
            if r + 1 < rows then rowShown width cols (line (r + 1)) else WideScreen.blankLine cols
          else rowShown width cols (line r) := by
  obtain ⟨n, rfl⟩ := Nat.exists_eq_add_one.mpr hpos
  have hdone := paint_rows hspace hcols hrows hline hgrid (Nat.lt_succ_self n)
  have hfull : paintedRows width cols (n + 1) line (n + 1) =
      (List.range (n + 1)).map fun r => rowShown width cols (line r) := by
    rw [paintedRows, Nat.sub_self]
    exact List.append_nil _
  have hsplit : ((List.range (n + 1)).flatMap fun r => .moveTo 0 r :: rowBody (line r) cols) =
      ((List.range n).flatMap fun r => .moveTo 0 r :: rowBody (line r) cols) ++
        .moveTo 0 n :: rowBody (line n) cols := by
    rw [List.range_succ, List.flatMap_append, List.flatMap_singleton]
  rw [hsplit, paintAll_append, Nat.add_sub_cancel,
    paint_row hspace hcols hrows (hline n) (by omega), hdone, set_paintedRows (by omega), hfull]
  · by_cases hwide : Wide width (line n)
    · rw [if_pos ⟨hwide, lt_irrefl _⟩, drop_rangeRows]
      exact List.map_congr_left fun r _ => (if_pos hwide).symm
    · rw [if_neg fun h => hwide h.1]
      exact List.map_congr_left fun r _ => (if_neg hwide).symm
  · rw [hdone]
    exact getElem?_paintedRows le_rfl (by omega)
  · exact fun hmore => absurd hmore (lt_irrefl _)

end Loop

/-! ## The whole screen -/

section Window

variable {width : Char → Option ℕ} {cols rows : ℕ}
variable {lines : List ScrollbackLine}

/-- What tokens do to the screen. -/
def performAll (width : Char → Option ℕ) (s : WideScreen cols rows) (tokens : List Token) :
    WideScreen cols rows :=
  (tokens.flatMap Token.commands).foldl (WideScreen.perform width) s

theorem performAll_cons (s : WideScreen cols rows) (token : Token) (tokens : List Token) :
    performAll width s (token :: tokens) =
      performAll width (performAll width s [token]) tokens := by
  rw [performAll, List.flatMap_cons, List.foldl_append, performAll, performAll,
    List.flatMap_singleton]

/-- The commands of all tokens but `clear` are those of `emit_diff`. -/
theorem performAll_eq_paintAll {tokens : List Token} (h : .clear ∉ tokens)
    (s : WideScreen cols rows) : performAll width s tokens = paintAll width s tokens := by
  induction tokens generalizing s with
  | nil => rfl
  | cons token tokens ih =>
      rw [List.mem_cons, not_or] at h
      have hfirst : performAll width s [token] = paintAll width s [token] := by
        cases token with
        | clear => exact absurd rfl h.1
        | moveTo col row => rfl
        | sgr attributes => rfl
        | text ch => rfl
      rw [performAll_cons, paintAll_cons, hfirst, ih h.2]

/-- The terminal executes the bytes of plain tokens. -/
theorem perform_tokens {tokens : List Token} (h : ∀ token ∈ tokens, token.Plain)
    {t : WideTerminal cols rows} (hground : t.parse = .ground) :
    t.perform width (Utf8.encode (tokens.flatMap Token.chars)) =
      ⟨performAll width t.screen tokens, .ground⟩ := by
  rw [WideTerminal.perform, Utf8.decodeLossy_encode, hground, Token.run_flatMap_chars h]
  rfl

theorem clear_not_mem_rowBody (line : Option ScrollbackLine) (cols : ℕ) :
    .clear ∉ rowBody line cols := by
  intro hclear
  have hbody : ∀ token ∈ rowBody line cols, token ≠ .clear :=
    forall_mem_rowBody (fun _ => Token.noConfusion) (fun _ => Token.noConfusion) line cols
  exact hbody _ hclear rfl

theorem noWider_paintedLine (hlines : ∀ line ∈ lines, NoWider width cols (some line))
    (offset rows r : ℕ) : NoWider width cols (paintedLine lines offset rows r) := by
  cases hline : paintedLine lines offset rows r with
  | none => exact ⟨List.forall_mem_nil _, Nat.zero_le _⟩
  | some line => exact hlines line (List.mem_of_getElem? hline)

/-- **The display after `render_scrollback_to_buf`.** -/
theorem render_grid (hspace : width ' ' = some 1) (hcols : 0 < cols) (hpos : 0 < rows)
    (hrows : rows < 65536) (hlines : ∀ line ∈ lines, NoWider width cols (some line)) (offset : ℕ)
    (s : WideScreen cols rows) :
    (performAll width s (renderScrollbackToBuf lines offset cols rows)).grid =
      (List.range rows).map fun r =>
        if Wide width (paintedLine lines offset rows (rows - 1)) then
          if r + 1 < rows then rowShown width cols (paintedLine lines offset rows (r + 1))
          else WideScreen.blankLine cols
        else rowShown width cols (paintedLine lines offset rows r) := by
  have hclear : .clear ∉ ((List.range rows).flatMap fun r =>
      .moveTo 0 r :: rowBody (paintedLine lines offset rows r) cols) ++ [.moveTo 0 (rows - 1)] := by
    rw [List.mem_append, List.mem_flatMap, List.mem_singleton]
    rintro (⟨r, -, hmem⟩ | hlast)
    · rcases List.mem_cons.mp hmem with hmove | hbody
      · cases hmove
      · exact clear_not_mem_rowBody _ _ hbody
    · cases hlast
  rw [renderScrollbackToBuf_eq, performAll_cons, performAll_eq_paintAll hclear, paintAll_append]
  exact paint_screen hspace hcols hpos hrows (noWider_paintedLine hlines offset rows) rfl

/-- The documented display: the lines `len - offset - rows` to `len - offset` on the last rows, and
blank rows above them. -/
def windowShown (width : Char → Option ℕ) (lines : List ScrollbackLine) (offset cols rows : ℕ) :
    Grid Shown :=
  let window := (lines.take (lines.length - offset)).drop (lines.length - offset - rows)
  List.replicate (rows - window.length) (WideScreen.blankLine cols) ++
    window.map fun line => rowShown width cols (some line)

/-- The number of blank rows above the lines. -/
def gap (lines : List ScrollbackLine) (offset rows : ℕ) : ℕ := rows - (lines.length - offset)

/-- The documented display, row by row: the painted rows, shifted by the blank ones. -/
theorem windowShown_eq (width : Char → Option ℕ) (lines : List ScrollbackLine)
    (offset cols rows : ℕ) :
    windowShown width lines offset cols rows =
      (List.range rows).map fun r =>
        if r < gap lines offset rows then WideScreen.blankLine cols
        else rowShown width cols (paintedLine lines offset rows (r - gap lines offset rows)) := by
  have hgap : rows - ((lines.take (lines.length - offset)).drop
      (lines.length - offset - rows)).length = gap lines offset rows := by
    rw [List.length_drop, List.length_take, gap]
    omega
  refine List.ext_getElem? fun r => ?_
  dsimp only [windowShown]
  rw [hgap, List.getElem?_map]
  by_cases hr : r < rows
  · rw [List.getElem?_range hr, Option.map_some]
    by_cases hblank : r < gap lines offset rows
    · rw [if_pos hblank, List.getElem?_append_left (List.length_replicate.symm ▸ hblank),
        List.getElem?_replicate, if_pos hblank]
    · have hinside : lines.length - offset - rows + (r - gap lines offset rows) <
          lines.length - offset := by
        unfold gap at hblank ⊢
        omega
      have hsome := List.getElem?_eq_getElem (hinside.trans_le (Nat.sub_le _ _))
      rw [if_neg hblank, List.getElem?_append_right (List.length_replicate.symm ▸ not_lt.mp hblank),
        List.length_replicate, List.getElem?_map, List.getElem?_drop,
        List.getElem?_take_of_lt hinside, paintedLine, hsome]
      rfl
  · have hlength : (List.replicate (gap lines offset rows) (WideScreen.blankLine cols) ++
        ((lines.take (lines.length - offset)).drop (lines.length - offset - rows)).map
          fun line => rowShown width cols (some line)).length ≤ r := by
      rw [List.length_append, List.length_replicate, List.length_map, List.length_drop,
        List.length_take, gap]
      omega
    rw [List.getElem?_eq_none hlength, List.getElem?_eq_none (by rw [List.length_range]; omega)]
    rfl

/-- When the documented window is displayed.  If the line on the last row has no wide character, the
window is full or the painted rows are all blank.  Otherwise the screen has scrolled, and the window
is displayed only where the painted rows repeat in step with it. -/
def WindowInPlace (width : Char → Option ℕ) (lines : List ScrollbackLine) (offset cols rows : ℕ) :
    Prop :=
  let row := fun r => rowShown width cols (paintedLine lines offset rows r)
  let gap := gap lines offset rows
  if Wide width (paintedLine lines offset rows (rows - 1)) then
    0 < gap ∧ gap + 1 ∣ rows - 1 ∧
      ∀ r < rows, row r = if gap + 1 ∣ r then row 0 else WideScreen.blankLine cols
  else gap = 0 ∨ ∀ r < rows, row r = WideScreen.blankLine cols

/-- A wide character is not blank. -/
theorem rowShown_ne_blankLine {line : Option ScrollbackLine} (h : Wide width line) :
    rowShown width cols line ≠ WideScreen.blankLine cols := by
  obtain ⟨glyph, hglyph, htwo⟩ := h
  intro hblank
  have hlead : Shown.lead glyph ∈ rowShown width cols line := by
    refine List.mem_append_left _ (List.mem_flatMap.mpr ⟨glyph, hglyph, ?_⟩)
    rw [Glyph.shown, if_pos htwo]
    exact List.mem_cons_self
  rw [hblank] at hlead
  cases List.eq_of_mem_replicate hlead

theorem render_grid_eq_iff (hspace : width ' ' = some 1) (hcols : 0 < cols) (hpos : 0 < rows)
    (hrows : rows < 65536) (hlines : ∀ line ∈ lines, NoWider width cols (some line)) (offset : ℕ)
    (s : WideScreen cols rows) :
    (performAll width s (renderScrollbackToBuf lines offset cols rows)).grid =
        windowShown width lines offset cols rows ↔ WindowInPlace width lines offset cols rows := by
  rw [render_grid hspace hcols hpos hrows hlines, windowShown_eq, List.map_inj_left]
  simp only [List.mem_range]
  unfold WindowInPlace
  dsimp only
  split
  · rename_i hwide
    exact @scrolled_shifted_iff _ (fun r => rowShown width cols (paintedLine lines offset rows r))
      _ _ _ hpos (rowShown_ne_blankLine hwide)
  · exact shifted_iff

/-- A screen without columns displays nothing, wherever the window is. -/
theorem windowInPlace_of_no_columns (hlines : ∀ line ∈ lines, NoWider width 0 (some line))
    (offset rows : ℕ) : WindowInPlace width lines offset 0 rows := by
  have hempty : ∀ r, rowShown width 0 (paintedLine lines offset rows r) = [] := fun r =>
    List.eq_nil_of_length_eq_zero (length_rowShown (noWider_paintedLine hlines offset rows r))
  have hnarrow : ¬ Wide width (paintedLine lines offset rows (rows - 1)) := fun hwide =>
    rowShown_ne_blankLine hwide (hempty _)
  dsimp only [WindowInPlace]
  rw [if_neg hnarrow]
  exact .inr fun r _ => hempty r

theorem hasShape_windowShown (hlines : ∀ line ∈ lines, NoWider width cols (some line))
    (offset : ℕ) : (windowShown width lines offset cols rows).HasShape rows cols := by
  rw [windowShown_eq]
  refine ⟨(List.length_map _).trans List.length_range, fun row hrow => ?_⟩
  obtain ⟨r, -, rfl⟩ := List.mem_map.mp hrow
  split
  · exact List.length_replicate
  · exact length_rowShown (noWider_paintedLine hlines offset rows _)

/-- Displayed characters are no control characters. -/
theorem plainLines_of_noWider (hwidth : ∀ ch, isControl ch = true → width ch = none)
    (hlines : ∀ line ∈ lines, NoWider width cols (some line)) : PlainLines lines := by
  intro line hline cell hcell
  exact Printable.plain hwidth ((hlines line hline).displayed _ (List.mem_map_of_mem hcell))

/-- **The window of the scrollback.**  For lines that are no wider than the screen, the documented
window is displayed after `render_scrollback_to_buf` if and only if `WindowInPlace` holds. -/
theorem scrollback_window_iff (hwidth : ∀ ch, isControl ch = true → width ch = none)
    (hspace : width ' ' = some 1) (hpos : 0 < rows) (hrows : rows < 65536)
    {lines : List ScrollbackLine} (hlines : ∀ line ∈ lines, NoWider width cols (some line))
    (offset : ℕ) {t : WideTerminal cols rows} (hground : t.parse = .ground) :
    (t.perform width (Utf8.encode ((renderScrollbackToBuf lines offset cols rows).flatMap
        Token.chars))).screen.grid = windowShown width lines offset cols rows ↔
      WindowInPlace width lines offset cols rows := by
  have hplain := renderScrollbackToBuf_plain (plainLines_of_noWider hwidth hlines) offset cols rows
  rw [perform_tokens hplain hground]
  rcases Nat.eq_zero_or_pos cols with rfl | hcols
  · refine iff_of_true ?_ (windowInPlace_of_no_columns hlines offset rows)
    have hnone : ∀ {grid : Grid Shown}, grid.HasShape rows 0 → ∀ r c, grid.cellAt r c = none := by
      intro grid hshape r c
      rw [← Option.not_isSome_iff_eq_none, hshape.isSome_cellAt]
      exact fun h => absurd h.2 (Nat.not_lt_zero c)
    have hshape := (performAll width t.screen (renderScrollbackToBuf lines offset 0 rows)).shape
    have hwindow : (windowShown width lines offset 0 rows).HasShape rows 0 :=
      hasShape_windowShown hlines offset
    exact hshape.ext hwindow fun r c => (hnone hshape r c).trans (hnone hwindow r c).symm
  · exact render_grid_eq_iff hspace hcols hpos hrows hlines offset t.screen

end Window

/-- Three lines of one letter each. -/
def threeLines : List ScrollbackLine :=
  ['a', 'b', 'c'].map fun ch => ⟨1, [⟨ch, .none, none, none⟩]⟩

/-- A terminal of two rows and one column, before anything is displayed. -/
def blankTerminal : WideTerminal 1 2 :=
  ⟨⟨[[.blank], [.blank]], by decide, 0, 0, false, .plain⟩, .ground⟩

theorem scrollback_window_full :
    windowShown oneWide threeLines 1 1 2 = [[.narrow ⟨'a', .plain⟩], [.narrow ⟨'b', .plain⟩]] ∧
      (blankTerminal.perform oneWide (Utf8.encode
        ((renderScrollbackToBuf threeLines 1 1 2).flatMap Token.chars))).screen.grid =
          windowShown oneWide threeLines 1 1 2 := by
  have hlines : ∀ line ∈ threeLines, NoWider oneWide 1 (some line) := by decide
  have hplace : WindowInPlace oneWide threeLines 1 1 2 := by
    unfold WindowInPlace
    decide
  exact ⟨by decide, (scrollback_window_iff (fun ch hch => if_pos hch) (by decide) (by decide)
    (by decide) hlines 1 rfl).mpr hplace⟩

/-- **Scrolled back by two lines of three**: the window has only the first line left, and it should
be on the second row. -/
theorem scrollback_window_missed :
    windowShown oneWide threeLines 2 1 2 = [[.blank], [.narrow ⟨'a', .plain⟩]] ∧
      (blankTerminal.perform oneWide (Utf8.encode
        ((renderScrollbackToBuf threeLines 2 1 2).flatMap Token.chars))).screen.grid =
          [[.narrow ⟨'a', .plain⟩], [.narrow ⟨'b', .plain⟩]] := by
  decide

end Nosh.Client
