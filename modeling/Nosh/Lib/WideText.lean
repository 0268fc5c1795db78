import Nosh.Lib.WideVt

/-!
# Text on the ideal terminal with wide characters

What a text does to the line of the cursor, and when it leaves that line. To the right of the cursor
the line holds characters of one column only, so that nothing is rubbed out.

## Main Definitions

* `WideScreen.perform` — the commands of `WideScreen.command`, and ED
* `charColumns` — the columns of a character
* `shownText` — how a text is displayed
* `WideScreen.Writing` — the line of the cursor, up to it and from it on

## Main Results

* `Writing.typeAll` — a text with enough room is displayed from the cursor on.
* `typeAll_blanks` — blanks beyond the end of the line go to the next one.
* `Screen.widen_command` — without wide characters it is the terminal of `Vt`.
-/

namespace Nosh.Lib.Vt

/-! ## Erasing -/

namespace WideScreen

variable {cols rows : ℕ}

/-- An erased line. -/
def blankLine (cols : ℕ) : List Shown := List.replicate cols .blank

/-- ED 2. -/
def erase (s : WideScreen cols rows) : WideScreen cols rows :=
  { s with
    grid := List.replicate rows (blankLine cols)
    shape := by
      refine ⟨List.length_replicate, fun row hrow => ?_⟩
      rw [List.eq_of_mem_replicate hrow]
      exact List.length_replicate }

/-- What the parser hands on: ED, and what `command` knows. -/
def perform (width : Char → Option ℕ) (s : WideScreen cols rows) : Command → WideScreen cols rows
  | .print ch => s.print width ch
  | .csi params final =>
      if final = 'J' then if params = [2] then s.erase else s
      else s.command width (.csi params final)

end WideScreen

/-- The terminal executes bytes, in UTF-8. -/
def WideTerminal.perform {cols rows : ℕ} (width : Char → Option ℕ) (t : WideTerminal cols rows)
    (bytes : List UInt8) : WideTerminal cols rows :=
  let (parse, commands) := t.parse.run (Utf8.decodeLossy bytes)
  ⟨commands.foldl (WideScreen.perform width) t.screen, parse⟩

/-! ## Texts -/

/-- The columns of a character. One that is not displayed by itself takes none. -/
def charColumns (width : Char → Option ℕ) (ch : Char) : ℕ := (width ch).getD 0

/-- The columns of a text. -/
def textColumns (width : Char → Option ℕ) (text : List Char) : ℕ :=
  (text.map (charColumns width)).sum

/-- How a character of one column or two is displayed. -/
def Glyph.shown (width : Char → Option ℕ) (glyph : Glyph) : List Shown :=
  if width glyph.ch = some 2 then [.lead glyph, .trail glyph.look] else [.narrow glyph]

/-- How a text is displayed. -/
def shownText (width : Char → Option ℕ) (glyphs : List Glyph) : List Shown :=
  glyphs.flatMap (Glyph.shown width)

/-- The character takes one column or two. -/
def Glyph.Displayed (width : Char → Option ℕ) (glyph : Glyph) : Prop :=
  width glyph.ch = some 1 ∨ width glyph.ch = some 2

instance (width : Char → Option ℕ) (glyph : Glyph) : Decidable (glyph.Displayed width) :=
  inferInstanceAs (Decidable (_ ∨ _))

section

variable {width : Char → Option ℕ}

theorem shownText_append (glyphs glyphs' : List Glyph) :
    shownText width (glyphs ++ glyphs') = shownText width glyphs ++ shownText width glyphs' :=
  List.flatMap_append

theorem displayed_blanks (hspace : width ' ' = some 1) (n : ℕ) :
    ∀ glyph ∈ List.replicate n Glyph.blank, glyph.Displayed width := by
  intro glyph hglyph
  rw [List.eq_of_mem_replicate hglyph]
  exact .inl hspace

theorem shownText_replicate_blank (hspace : width ' ' = some 1) (n : ℕ) :
    shownText width (List.replicate n .blank) = List.replicate n .blank := by
  have hblank : Glyph.blank.shown width = [Shown.blank] := by
    rw [Glyph.shown, Glyph.blank, hspace]
    rfl
  induction n with
  | zero => rfl
  | succ n ih =>
      rw [List.replicate_succ, shownText, List.flatMap_cons, ← shownText, ih, hblank]
      rfl

end

/-! ## Cells of one column -/

/-- Only characters of one column. -/
def Narrow (cells : List Shown) : Prop := ∀ shown ∈ cells, ∃ glyph, shown = .narrow glyph

theorem narrow_blankLine (cols : ℕ) : Narrow (WideScreen.blankLine cols) :=
  fun _ hshown => ⟨_, List.eq_of_mem_replicate hshown⟩

/-- Nothing is rubbed out with a character of one column. -/
theorem rub_narrow {col : ℕ} {cells : List Shown} {glyph : Glyph}
    (h : cells[col]? = some (.narrow glyph)) : rub col cells = cells := by
  refine List.ext_getElem? fun i => ?_
  rw [getElem?_rub, h]
  cases cells[i]? with
  | none => rfl
  | some shown => exact congrArg some (if_neg id)

theorem putNarrow_append (done rest : List Shown) (old glyph : Glyph) :
    putNarrow done.length glyph (done ++ .narrow old :: rest) = done ++ .narrow glyph :: rest := by
  have hold : (done ++ .narrow old :: rest)[done.length]? = some (.narrow old) := by
    rw [List.getElem?_append_right le_rfl, Nat.sub_self]
    rfl
  rw [putNarrow, rub_narrow hold, List.set_append_right _ _ le_rfl, Nat.sub_self]
  rfl

theorem putWide_append (done rest : List Shown) (old old' glyph : Glyph) :
    putWide done.length glyph (done ++ .narrow old :: .narrow old' :: rest) =
      done ++ .lead glyph :: .trail glyph.look :: rest := by
  have hold : (done ++ .narrow old :: .narrow old' :: rest)[done.length]? =
      some (.narrow old) := by
    rw [List.getElem?_append_right le_rfl, Nat.sub_self]
    rfl
  have hold' : (done ++ .narrow old :: .narrow old' :: rest)[done.length + 1]? =
      some (.narrow old') := by
    rw [List.getElem?_append_right (Nat.le_add_right _ 1), Nat.add_sub_cancel_left]
    rfl
  rw [putWide, rub_narrow hold, rub_narrow hold', List.set_append_right _ _ le_rfl,
    List.set_append_right _ _ (Nat.le_add_right _ 1), Nat.sub_self, Nat.add_sub_cancel_left]
  rfl

namespace WideScreen

variable {cols rows : ℕ} {width : Char → Option ℕ} {s : WideScreen cols rows}

/-! ## Writing into a line -/

/-- The cursor is in row `r`, whose line is `done` up to the cursor and `rest` from there on. At the
end of the line the next character wraps. -/
structure Writing (s : WideScreen cols rows) (r : ℕ) (done rest : List Shown) : Prop where
  row : s.row = r
  line : s.grid[r]? = some (done ++ rest)
  narrow : Narrow rest
  cursor : if rest = [] then s.wrapNext = true
    else s.col = done.length ∧ s.wrapNext = false

/-- A character with its attributes. -/
def type (width : Char → Option ℕ) (s : WideScreen cols rows) (glyph : Glyph) :
    WideScreen cols rows :=
  { s with look := glyph.look }.print width glyph.ch

/-- A text with its attributes. -/
def typeAll (width : Char → Option ℕ) (s : WideScreen cols rows) (glyphs : List Glyph) :
    WideScreen cols rows :=
  glyphs.foldl (type width) s

theorem print_look (s : WideScreen cols rows) (ch : Char) : (s.print width ch).look = s.look := by
  have hnext : s.nextLine.look = s.look := by
    unfold nextLine
    dsimp only
    split <;> rfl
  unfold print
  split
  · split
    · exact hnext
    · rfl
  · split
    · exact hnext
    · rfl
  · rfl

theorem typeAll_append (s : WideScreen cols rows) (glyphs glyphs' : List Glyph) :
    s.typeAll width (glyphs ++ glyphs') = (s.typeAll width glyphs).typeAll width glyphs' :=
  List.foldl_append

variable {r : ℕ} {done rest : List Shown}

theorem Writing.length (h : s.Writing r done rest) : done.length + rest.length = cols := by
  rw [← List.length_append]
  exact s.shape.2 _ (List.mem_of_getElem? h.line)

theorem Writing.cursor_of_ne_nil (h : s.Writing r done rest) (hrest : rest ≠ []) :
    s.col = done.length ∧ s.wrapNext = false := by
  have hcursor := h.cursor
  rw [if_neg hrest] at hcursor
  exact hcursor

/-- An edit of the line that displays `shown` at the cursor, which then moves on. -/
theorem Writing.write (h : s.Writing r done rest) {edit : List Shown → List Shown}
    {hedit : ∀ cells, (edit cells).length = cells.length} {shown : List Shown}
    (hshown : shown ≠ []) (hroom : shown.length ≤ rest.length)
    (hline : edit (done ++ rest) = done ++ shown ++ rest.drop shown.length) :
    let s' := (s.modifyLine edit hedit).advance shown.length
    s'.Writing r (done ++ shown) (rest.drop shown.length) ∧
      s'.grid = s.grid.set r (done ++ shown ++ rest.drop shown.length) := by
  intro s'
  have hlength := h.length
  have hpos := List.length_pos_iff.mpr hshown
  obtain ⟨hcol, -⟩ := h.cursor_of_ne_nil (List.length_pos_iff.mp (by omega))
  have hgrid : s'.grid = s.grid.set r (done ++ shown ++ rest.drop shown.length) := by
    change s.grid.modify s.row edit = _
    rw [h.row, List.modify_eq_set_getElem?, h.line, ← hline]
    rfl
  refine ⟨⟨h.row, ?_, fun x hx => h.narrow x (List.mem_of_mem_drop hx), ?_⟩, hgrid⟩
  · rw [hgrid, List.getElem?_set_self (List.getElem?_eq_some_iff.mp h.line).1]
  · change if _ then decide (¬ s.col + shown.length < cols) = true
      else (if s.col + shown.length < cols then _ else _) = _ ∧
        decide (¬ s.col + shown.length < cols) = false
    split
    · rename_i hend
      rw [List.drop_eq_nil_iff] at hend
      exact decide_eq_true (by omega)
    · rename_i hmore
      rw [List.drop_eq_nil_iff, not_le] at hmore
      have hlt : s.col + shown.length < cols := by omega
      rw [if_pos hlt, List.length_append]
      exact ⟨congrArg (· + shown.length) hcol, decide_eq_false (by omega)⟩

/-- A character with enough room is displayed at the cursor. -/
theorem Writing.type (h : s.Writing r done rest) {glyph : Glyph} (hglyph : glyph.Displayed width)
    (hroom : (glyph.shown width).length ≤ rest.length) :
    (s.type width glyph).Writing r (done ++ glyph.shown width)
        (rest.drop (glyph.shown width).length) ∧
      (s.type width glyph).grid =
        s.grid.set r (done ++ glyph.shown width ++ rest.drop (glyph.shown width).length) := by
  have hlook : Writing { s with look := glyph.look } r done rest :=
    ⟨h.row, h.line, h.narrow, h.cursor⟩
  have hlength := h.length
  rcases hglyph with hone | htwo
  · have hshown : glyph.shown width = [.narrow glyph] := by
      rw [Glyph.shown, hone]
      rfl
    rw [hshown] at hroom ⊢
    obtain ⟨old, rest, rfl⟩ := List.exists_cons_of_length_pos hroom
    obtain ⟨old, rfl⟩ := h.narrow old List.mem_cons_self
    obtain ⟨hcol, hwrap⟩ := hlook.cursor_of_ne_nil (List.cons_ne_nil _ _)
    rw [type, print_narrow hone hwrap]
    refine hlook.write (List.cons_ne_nil _ _) hroom ?_
    rw [hcol, putNarrow_append, List.append_assoc]
    rfl
  · have hshown : glyph.shown width = [.lead glyph, .trail glyph.look] := by
      rw [Glyph.shown, htwo]
      rfl
    rw [hshown] at hroom ⊢
    obtain ⟨old, rest, rfl⟩ := List.exists_cons_of_length_pos (Nat.zero_lt_two.trans_le hroom)
    obtain ⟨old', rest, rfl⟩ := List.exists_cons_of_length_pos (Nat.le_of_succ_le_succ hroom)
    obtain ⟨old, rfl⟩ := h.narrow old List.mem_cons_self
    obtain ⟨old', rfl⟩ := h.narrow old' (List.mem_cons_of_mem _ List.mem_cons_self)
    obtain ⟨hcol, hwrap⟩ := hlook.cursor_of_ne_nil (List.cons_ne_nil _ _)
    have hfits : done.length + 2 ≤ cols := by
      rw [List.length_cons, List.length_cons] at hlength
      omega
    rw [type, print_wide htwo hwrap (hcol ▸ hfits)]
    refine hlook.write (List.cons_ne_nil _ _) hroom ?_
    rw [hcol, putWide_append, List.append_assoc]
    rfl

/-- **A text with enough room** is displayed from the cursor on. -/
theorem Writing.typeAll (h : s.Writing r done rest) {glyphs : List Glyph}
    (hglyphs : ∀ glyph ∈ glyphs, glyph.Displayed width)
    (hroom : (shownText width glyphs).length ≤ rest.length) :
    (s.typeAll width glyphs).Writing r (done ++ shownText width glyphs)
        (rest.drop (shownText width glyphs).length) ∧
      (s.typeAll width glyphs).grid =
        s.grid.set r (done ++ shownText width glyphs ++
          rest.drop (shownText width glyphs).length) := by
  induction glyphs generalizing s done rest with
  | nil =>
      obtain ⟨hlt, hline⟩ := List.getElem?_eq_some_iff.mp h.line
      rw [shownText, List.flatMap_nil, List.append_nil]
      refine ⟨h, ?_⟩
      rw [List.length_nil, List.drop_zero, ← hline, List.set_getElem_self]
      rfl
  | cons glyph glyphs ih =>
      obtain ⟨hglyph, hrest⟩ := List.forall_mem_cons.mp hglyphs
      rw [shownText, List.flatMap_cons, List.length_append] at hroom
      obtain ⟨hfirst, hgrid⟩ := h.type hglyph (by omega)
      obtain ⟨hall, hgrid'⟩ := ih hfirst hrest (by rw [List.length_drop, shownText]; omega)
      rw [hgrid, List.set_set] at hgrid'
      rw [shownText, List.flatMap_cons, ← shownText, List.length_append, ← List.append_assoc,
        ← List.drop_drop]
      exact ⟨hall, hgrid'⟩

/-! ## The end of the line -/

/-- At the end of the line a character of one column goes to the next line. -/
theorem type_of_wrapNext (hwrap : s.wrapNext = true) {glyph : Glyph}
    (hone : width glyph.ch = some 1) : s.type width glyph = s.nextLine.type width glyph := by
  have hnext : s.nextLine.wrapNext = false := by
    unfold nextLine
    dsimp only
    split <;> rfl
  have hlook : nextLine { s with look := glyph.look } = { s.nextLine with look := glyph.look } := by
    unfold nextLine
    dsimp only
    split <;> rfl
  rw [type, type, print, print, hone]
  dsimp only
  rw [if_pos hwrap, hnext, hlook]
  rfl

/-- The lines after a line is left at its end: in the last row, the display moves up. -/
theorem nextLine_grid (s : WideScreen cols rows) :
    s.nextLine.grid =
      if s.row + 1 < rows then s.grid else (s.grid ++ [blankLine cols]).drop 1 := by
  unfold nextLine
  dsimp only
  split <;> rfl

/-- The next line is written from its start. -/
theorem nextLine_writing (hcols : 0 < cols) (hrow : s.row < rows)
    (hnext : s.row + 1 < rows → s.grid[s.row + 1]? = some (blankLine cols)) :
    ∃ r, s.nextLine.Writing r [] (blankLine cols) := by
  have hblank : blankLine cols ≠ [] := by
    rw [← List.length_pos_iff, blankLine, List.length_replicate]
    exact hcols
  by_cases hmore : s.row + 1 < rows
  · have heq : s.nextLine = { s with row := s.row + 1, col := 0, wrapNext := false } := if_pos hmore
    rw [heq]
    refine ⟨s.row + 1, rfl, hnext hmore, narrow_blankLine cols, ?_⟩
    rw [if_neg hblank]
    exact ⟨rfl, rfl⟩
  · have heq : s.nextLine = scrollUp { s with col := 0, wrapNext := false } := if_neg hmore
    rw [heq]
    refine ⟨s.row, rfl, ?_, narrow_blankLine cols, ?_⟩
    · have hlength := s.shape.1
      change ((s.grid ++ [blankLine cols]).drop 1)[s.row]? = _
      rw [List.getElem?_drop, List.getElem?_append_right (by omega)]
      have hzero : 1 + s.row - s.grid.length = 0 := by omega
      rw [hzero]
      rfl
    · rw [if_neg hblank]
      exact ⟨rfl, rfl⟩

/-- **Blanks beyond the end of a line** leave the next line blank; in the last row, the display
moves up. -/
theorem typeAll_blanks (hspace : width ' ' = some 1) {n : ℕ} (hpos : 0 < n) (hn : n ≤ cols)
    (hwrap : s.wrapNext = true) (hrow : s.row < rows)
    (hnext : s.row + 1 < rows → s.grid[s.row + 1]? = some (blankLine cols)) :
    (s.typeAll width (List.replicate n .blank)).grid =
      if s.row + 1 < rows then s.grid else (s.grid ++ [blankLine cols]).drop 1 := by
  obtain ⟨k, rfl⟩ := Nat.exists_eq_add_one.mpr hpos
  have hstart : s.typeAll width (List.replicate (k + 1) .blank) =
      s.nextLine.typeAll width (List.replicate (k + 1) .blank) := by
    rw [List.replicate_succ, typeAll, typeAll, List.foldl_cons, List.foldl_cons,
      type_of_wrapNext hwrap hspace]
  obtain ⟨r, hwriting⟩ := nextLine_writing (by omega) hrow hnext
  have hshown := shownText_replicate_blank hspace (k + 1)
  have hroom : (shownText width (List.replicate (k + 1) .blank)).length ≤
      (blankLine cols).length := by
    rw [hshown, blankLine, List.length_replicate, List.length_replicate]
    exact hn
  obtain ⟨-, hgrid⟩ := hwriting.typeAll (displayed_blanks hspace _) hroom
  have hsame : [] ++ List.replicate (k + 1) Shown.blank ++
      (blankLine cols).drop (List.replicate (k + 1) Shown.blank).length = blankLine cols := by
    rw [blankLine, List.nil_append, List.length_replicate, List.drop_replicate,
      List.replicate_append_replicate, Nat.add_sub_cancel' hn]
  obtain ⟨hlt, hline⟩ := List.getElem?_eq_some_iff.mp hwriting.line
  rw [hstart, hgrid, hshown, hsame, ← nextLine_grid]
  rw [List.nil_append] at hline
  rw [← hline, List.set_getElem_self]

end WideScreen

/-! ## Characters of one column -/

namespace Screen

variable {cols rows : ℕ} {s : Screen cols rows}

/-- A row of characters of one column has no halves. -/
theorem rub_map_narrow (col : ℕ) (glyphs : List Glyph) :
    rub col (glyphs.map .narrow) = glyphs.map .narrow := by
  refine List.ext_getElem? fun i => ?_
  have hcovers : ¬ Covers col (glyphs.map Shown.narrow)[col]? i := by
    rw [List.getElem?_map]
    cases glyphs[col]? <;> exact id
  rw [getElem?_rub]
  simp only [if_neg hcovers, Option.map_id']

/-- A display of characters of one column, as one that may have wide ones. -/
def widen (s : Screen cols rows) : WideScreen cols rows where
  grid := s.grid.map (List.map .narrow)
  shape := s.shape.map fun _ hrow => by rw [List.length_map, hrow]
  row := s.row
  col := s.col
  wrapNext := s.wrapNext
  look := s.look

theorem widen_nextLine (s : Screen cols rows) : s.nextLine.widen = s.widen.nextLine := by
  unfold nextLine WideScreen.nextLine
  dsimp only [widen]
  split
  · rfl
  · simp only [scrollUp, WideScreen.scrollUp, List.map_drop, List.map_append]
    congr 3
    simp [blankLines, Shown.blank]

theorem widen_put (hcol : s.col < cols) (ch : Char) :
    (s.put ch).widen = s.widen.writeNarrow ch := by
  have hgrid : (s.grid.write ((s.row, s.col), ⟨ch, s.look⟩)).map (List.map Shown.narrow) =
      (s.grid.map (List.map .narrow)).modify s.row (putNarrow s.col ⟨ch, s.look⟩) := by
    refine List.ext_getElem? fun r => ?_
    rw [List.getElem?_map, Grid.write, List.getElem?_modify, List.getElem?_modify,
      List.getElem?_map]
    cases s.grid[r]? with
    | none => rfl
    | some glyphs =>
        by_cases hr : s.row = r
        · simp [hr, putNarrow, rub_map_narrow]
        · simp [hr]
  have hlast : (if s.col + 1 < cols then s.col + 1 else s.col) =
      if s.col + 1 < cols then s.col + 1 else cols - 1 := by
    split <;> omega
  unfold put WideScreen.writeNarrow WideScreen.modifyLine WideScreen.advance
  simp only [widen, hgrid, hlast]
  rfl

/-- **Characters of one column** are displayed alike. -/
theorem widen_command (hcol : s.col < cols) (command : Command) :
    (s.command command).col < cols ∧
      s.widen.perform (fun _ => some 1) command = (s.command command).widen := by
  cases command with
  | print ch =>
      -- the line that the character goes to
      obtain ⟨t, ht, hline, hwiden⟩ : ∃ t : Screen cols rows, s.print ch = t.put ch ∧ t.col < cols ∧
          s.widen.print (fun _ => some 1) ch = t.widen.writeNarrow ch := by
        cases hwrap : s.wrapNext with
        | true =>
            refine ⟨s.nextLine, by rw [print, hwrap]; rfl, ?_, ?_⟩
            · unfold nextLine
              dsimp only [scrollUp]
              split <;> exact Nat.zero_lt_of_lt hcol
            · rw [widen_nextLine]
              exact congrArg (WideScreen.writeNarrow · ch) (if_pos hwrap)
        | false =>
            exact ⟨s, print_of_not_wrapNext hwrap ch, hcol, WideScreen.print_narrow rfl hwrap⟩
      change (s.print ch).col < cols ∧ s.widen.print (fun _ => some 1) ch = (s.print ch).widen
      rw [ht, hwiden, widen_put hline]
      refine ⟨?_, rfl⟩
      dsimp only [put]
      split <;> omega
  | csi params final =>
      by_cases hH : final = 'H'
      · subst hH
        exact ⟨(Nat.min_le_right _ _).trans_lt (by omega), rfl⟩
      · by_cases hJ : final = 'J'
        · subst hJ
          by_cases hall : params = [2]
          · subst hall
            refine ⟨hcol, ?_⟩
            simp [WideScreen.perform, command, dispatch, widen, erase, WideScreen.erase, blankLines,
              WideScreen.blankLine, Shown.blank]
          · simp [WideScreen.perform, command, dispatch, hall, hcol]
        · by_cases hm : final = 'm'
          · subst hm
            exact ⟨hcol, rfl⟩
          · simp [WideScreen.perform, WideScreen.command, command, dispatch, hH, hJ, hm, hcol]

end Screen

end Nosh.Lib.Vt
