import Nosh.Client.WidePainting
import Nosh.Lib.WideText
import Nosh.Scrollback.PageSize

/-!
# The rows of the scrollback

How many columns `render_scrollback_to_buf` writes on a row of the screen. It writes every cell of
the line and then blanks up to the width of the screen, one for each cell that is missing. A line
keeps the number of cells that it had when it scrolled off, and the cell behind a wide character is
sent as a blank like any other. So a line that is longer than the screen is wide, and a line with a
wide character, go beyond the last column; only characters that take no column make up for it.

## Main Definitions

* `rowTexts` — the characters after each positioning of the cursor
* `Fits` — nothing of a line goes beyond the last column

## Main Results

* `rows_fit_iff` — **the rows fit exactly if the painted lines do.**
-/

namespace Nosh.Client

open Nosh.Lib Nosh.Proto Nosh.Lib.Vt

/-! ## Texts between two positionings -/

/-- What is written before the first positioning of the cursor and after each one. -/
def rowTexts : List Token → List (List Char)
  | [] => [[]]
  | .moveTo _ _ :: tokens => [] :: rowTexts tokens
  | .text ch :: tokens => (rowTexts tokens).modifyHead (ch :: ·)
  | .sgr _ :: tokens | .clear :: tokens => rowTexts tokens

/-- The characters among tokens. -/
def Token.typed : Token → Option Char
  | text ch => some ch
  | moveTo _ _ | sgr _ | clear => none

/-- The token does not move the cursor to a row. -/
def Token.Stays : Token → Prop
  | moveTo _ _ => False
  | text _ | sgr _ | clear => True

theorem rowTexts_append {body : List Token} (h : ∀ token ∈ body, token.Stays)
    (tokens : List Token) :
    rowTexts (body ++ tokens) = (rowTexts tokens).modifyHead (body.filterMap Token.typed ++ ·) := by
  induction body with
  | nil =>
      change _ = (rowTexts tokens).modifyHead id
      rw [List.modifyHead_id]
      rfl
  | cons token body ih =>
      obtain ⟨htoken, hbody⟩ := List.forall_mem_cons.mp h
      cases token with
      | moveTo col row => exact htoken.elim
      | sgr attributes => exact ih hbody
      | clear => exact ih hbody
      | text ch =>
          rw [List.cons_append, rowTexts, ih hbody, List.modifyHead_modifyHead]
          rfl

/-- The texts of rows that each start with a positioning. -/
theorem rowTexts_flatMap {ι : Type} (move : ι → ℕ × ℕ) {body : ι → List Token}
    (h : ∀ i, ∀ token ∈ body i, token.Stays) (rest : List Token) (col row : ℕ) (is : List ι) :
    rowTexts ((is.flatMap fun i => .moveTo (move i).1 (move i).2 :: body i) ++
        .moveTo col row :: rest) =
      [] :: is.map (fun i => (body i).filterMap Token.typed) ++ rowTexts rest := by
  induction is with
  | nil => rfl
  | cons i is ih =>
      rw [List.flatMap_cons, List.append_assoc, List.cons_append, rowTexts, rowTexts_append (h i),
        ih, List.cons_append, List.modifyHead_cons, List.append_nil]
      rfl

/-! ## A row -/

theorem filterMap_typed_emitLine (line : ScrollbackLine) :
    (emitLine line).filterMap Token.typed = line.cells.map ScrollbackCell.ch := by
  unfold emitLine
  generalize (none : Option Sgr) = lastSgr
  induction line.cells generalizing lastSgr with
  | nil => rfl
  | cons cell cells ih =>
      rw [emitAll, List.filterMap_append, ih]
      dsimp only [emitGlyph]
      split <;> rfl

/-- The cells of a line; there may be none. -/
def cellsOf (line : Option ScrollbackLine) : List ScrollbackCell :=
  line.elim [] ScrollbackLine.cells

/-- The tokens of a row after the positioning. -/
def rowBody (line : Option ScrollbackLine) (cols : ℕ) : List Token :=
  .sgr Sgr.plain :: (line.elim [] emitLine ++
    if 0 < cols - (cellsOf line).length then
      .sgr Sgr.plain :: List.replicate (cols - (cellsOf line).length) (.text ' ')
    else [])

theorem emitScreenRow_eq (line : Option ScrollbackLine) (screenRow cols : ℕ) :
    emitScreenRow line screenRow cols = .moveTo 0 screenRow :: rowBody line cols := by
  cases line <;> rfl

/-- A row consists of attributes and characters. -/
theorem forall_mem_rowBody {good : Token → Prop} (hsgr : ∀ attributes, good (.sgr attributes))
    (htext : ∀ ch, good (.text ch)) (line : Option ScrollbackLine) (cols : ℕ) :
    ∀ token ∈ rowBody line cols, good token := by
  refine List.forall_mem_cons.mpr ⟨hsgr _, List.forall_mem_append.mpr ⟨?_, ?_⟩⟩
  · cases line with
    | none => exact List.forall_mem_nil _
    | some line =>
        refine forall_mem_emitAll (fun lastSgr cell _ => ?_) none
        refine List.forall_mem_append.mpr ⟨?_, List.forall_mem_singleton.mpr (htext _)⟩
        split
        · exact List.forall_mem_singleton.mpr (hsgr _)
        · exact List.forall_mem_nil _
  · split
    · refine List.forall_mem_cons.mpr ⟨hsgr _, fun token htoken => ?_⟩
      rw [List.eq_of_mem_replicate htoken]
      exact htext ' '
    · exact List.forall_mem_nil _

theorem rowBody_stays (line : Option ScrollbackLine) (cols : ℕ) :
    ∀ token ∈ rowBody line cols, token.Stays :=
  forall_mem_rowBody (fun _ => trivial) (fun _ => trivial) line cols

theorem filterMap_typed_rowBody (line : Option ScrollbackLine) (cols : ℕ) :
    (rowBody line cols).filterMap Token.typed =
      (cellsOf line).map ScrollbackCell.ch ++
        List.replicate (cols - (cellsOf line).length) ' ' := by
  have hline : (line.elim [] emitLine).filterMap Token.typed =
      (cellsOf line).map ScrollbackCell.ch := by
    cases line with
    | none => rfl
    | some line => exact filterMap_typed_emitLine line
  have hblanks : (if 0 < cols - (cellsOf line).length then
      .sgr Sgr.plain :: List.replicate (cols - (cellsOf line).length) (.text ' ')
      else []).filterMap Token.typed = List.replicate (cols - (cellsOf line).length) ' ' := by
    split
    · exact List.filterMap_replicate_of_some rfl
    · rename_i hnone
      rw [Nat.eq_zero_of_not_pos hnone]
      rfl
  change (line.elim [] emitLine ++ _).filterMap Token.typed = _
  rw [List.filterMap_append, hline, hblanks]

/-! ## The rows of a screen -/

/-- The line that `render_scrollback_to_buf` paints on a row. -/
def paintedLine (lines : List ScrollbackLine) (offset rows screenRow : ℕ) :
    Option ScrollbackLine :=
  lines[lines.length - offset - rows + screenRow]?

theorem renderScrollbackToBuf_eq (lines : List ScrollbackLine) (offset cols rows : ℕ) :
    renderScrollbackToBuf lines offset cols rows =
      .clear :: (((List.range rows).flatMap fun screenRow =>
        .moveTo 0 screenRow :: rowBody (paintedLine lines offset rows screenRow) cols) ++
          [.moveTo 0 (rows - 1)]) := by
  unfold renderScrollbackToBuf
  simp only [emitScreenRow_eq]
  rfl

/-- What is written on the rows: the characters of the lines and the blanks. -/
theorem rowTexts_render (lines : List ScrollbackLine) (offset cols rows : ℕ) :
    rowTexts (renderScrollbackToBuf lines offset cols rows) =
      [] :: (List.range rows).map (fun screenRow =>
        (cellsOf (paintedLine lines offset rows screenRow)).map ScrollbackCell.ch ++
          List.replicate
            (cols - (cellsOf (paintedLine lines offset rows screenRow)).length) ' ') ++ [[]] := by
  rw [renderScrollbackToBuf_eq, rowTexts]
  have hrows := rowTexts_flatMap (fun screenRow : ℕ => (0, screenRow))
    (fun screenRow => rowBody_stays (paintedLine lines offset rows screenRow) cols) [] 0 (rows - 1)
    (List.range rows)
  simp only [filterMap_typed_rowBody] at hrows
  exact hrows

/-! ## Columns -/

section

variable {width : Char → Option ℕ} {cols : ℕ}

/-- The columns that characters take beyond their first ones. -/
def spill (width : Char → Option ℕ) (cells : List ScrollbackCell) : ℕ :=
  (cells.map fun cell => charColumns width cell.ch - 1).sum

/-- The number of characters that take no column. -/
def unseen (width : Char → Option ℕ) (cells : List ScrollbackCell) : ℕ :=
  cells.countP fun cell => charColumns width cell.ch = 0

/-- Nothing of the line goes beyond the last column: the cells that are too many and the second
columns of wide characters are made up for by characters that take no column. -/
def Fits (width : Char → Option ℕ) (cols : ℕ) (cells : List ScrollbackCell) : Prop :=
  (cells.length - cols) + spill width cells ≤ unseen width cells

instance (width : Char → Option ℕ) (cols : ℕ) (cells : List ScrollbackCell) :
    Decidable (Fits width cols cells) :=
  inferInstanceAs (Decidable (_ ≤ _))

theorem textColumns_append (width : Char → Option ℕ) (text text' : List Char) :
    textColumns width (text ++ text') = textColumns width text + textColumns width text' := by
  rw [textColumns, List.map_append, List.sum_append]
  rfl

theorem textColumns_blanks (hspace : width ' ' = some 1) (n : ℕ) :
    textColumns width (List.replicate n ' ') = n := by
  rw [textColumns, List.map_replicate, List.sum_replicate_nat, charColumns, hspace]
  exact Nat.mul_one n

/-- Each cell takes one column, but for those beyond its first and those that take none. -/
theorem textColumns_cells (width : Char → Option ℕ) (cells : List ScrollbackCell) :
    textColumns width (cells.map ScrollbackCell.ch) + unseen width cells =
      cells.length + spill width cells := by
  induction cells with
  | nil => rfl
  | cons cell cells ih =>
      simp only [textColumns, unseen, spill, List.map_cons, List.sum_cons, List.length_cons,
        List.countP_cons, decide_eq_true_eq] at ih ⊢
      split <;> omega

/-- A row fits if its line does. -/
theorem textColumns_row_le_iff (hspace : width ' ' = some 1) (cells : List ScrollbackCell) :
    textColumns width (cells.map ScrollbackCell.ch ++ List.replicate (cols - cells.length) ' ') ≤
        cols ↔ Fits width cols cells := by
  have hcells := textColumns_cells width cells
  rw [textColumns_append, textColumns_blanks hspace, Fits]
  omega

end

/-- The lines on the rows are consecutive ones. -/
theorem forall_paintedLine_iff {good : List ScrollbackCell → Prop} (hnone : good [])
    (lines : List ScrollbackLine) (offset rows : ℕ) :
    (∀ screenRow < rows, good (cellsOf (paintedLine lines offset rows screenRow))) ↔
      ∀ line ∈ (lines.drop (lines.length - offset - rows)).take rows, good line.cells := by
  constructor
  · intro h line hline
    obtain ⟨i, hi⟩ := List.mem_iff_getElem?.mp hline
    have hlt : i < rows := by
      by_contra hge
      rw [List.getElem?_take_eq_none (Nat.not_lt.mp hge)] at hi
      cases hi
    rw [List.getElem?_take_of_lt hlt, List.getElem?_drop] at hi
    have hrow := h i hlt
    rw [paintedLine, hi] at hrow
    exact hrow
  · intro h screenRow hlt
    cases hline : paintedLine lines offset rows screenRow with
    | none => exact hnone
    | some line =>
        refine h line (List.mem_iff_getElem?.mpr ⟨screenRow, ?_⟩)
        rw [List.getElem?_take_of_lt hlt, List.getElem?_drop]
        exact hline

/-- **The rows fit exactly if the lines do.**  What is written after a positioning of the cursor
takes at most `cols` columns on every row if and only if nothing of a painted line goes beyond the
last column. -/
theorem rows_fit_iff {width : Char → Option ℕ} (hspace : width ' ' = some 1)
    (lines : List ScrollbackLine) (offset cols rows : ℕ) :
    (∀ text ∈ rowTexts (renderScrollbackToBuf lines offset cols rows),
        textColumns width text ≤ cols) ↔
      ∀ line ∈ (lines.drop (lines.length - offset - rows)).take rows,
        Fits width cols line.cells := by
  have hnone : Fits width cols [] := Nat.le_of_eq (Nat.zero_sub cols)
  rw [rowTexts_render, ← forall_paintedLine_iff hnone]
  simp only [List.forall_mem_append, List.forall_mem_cons, List.forall_mem_map, List.mem_range,
    textColumns_row_le_iff hspace]
  exact ⟨fun h => h.1.2, fun h => ⟨⟨Nat.zero_le _, h⟩, Nat.zero_le _, List.forall_mem_nil _⟩⟩

/-- The newest line is below the rows; the others are shorter than them and as long. -/
theorem rows_fit_three :
    let line (text : String) : ScrollbackLine := ⟨2, text.toList.map (⟨·, .none, none, none⟩)⟩
    let lines := [line "a", line "bc", line "def"]
    rowTexts (renderScrollbackToBuf lines 1 2 2) = [[], ['a', ' '], ['b', 'c'], []] ∧
      ∀ text ∈ rowTexts (renderScrollbackToBuf lines 1 2 2), textColumns oneWide text ≤ 2 :=
  ⟨by decide, (rows_fit_iff (by decide) _ _ _ _).mpr (by decide)⟩

/-- The terminal of two columns after a wide character, which has scrolled off. -/
def wideScrolled : Server.WholeTerminal :=
  ((Server.WholeTerminal.sessionLife oneWide id).run (.new 2 1)
    [.dispatch (.print '世')]).getD (.new 2 1)

/-- **Rows that overflow.**  A line that has scrolled off a terminal of four columns is painted on
two columns; a line that has scrolled off a terminal of two columns is painted there and takes
three, since it has a wide character. -/
theorem rows_overflow :
    ((Server.WholeTerminal.sessionLife (fun _ => some 1) id).run (.new 4 1) Scrollback.narrowing =
        some Scrollback.narrowed ∧ Scrollback.narrowed.screen.cols = 2 ∧
      ∃ text ∈ rowTexts
          (renderScrollbackToBuf (Server.pageLines Scrollback.narrowed.screen 0 1024) 0 2 2),
        2 < textColumns (fun _ => some 1) text) ∧
    ((Server.WholeTerminal.sessionLife oneWide id).run (.new 2 1) [.dispatch (.print '世')] =
        some wideScrolled ∧
      ∃ text ∈ rowTexts (renderScrollbackToBuf (Server.pageLines wideScrolled.screen 0 1024) 0 2 1),
        2 < textColumns oneWide text) := by
  decide

end Nosh.Client
