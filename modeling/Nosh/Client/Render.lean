import Nosh.Client.Predictor
import Nosh.Client.Pump
import Nosh.Lib.Utf8

/-!
# Painting the terminal

The renderers of the client: `emit_diff` of `nosh-client/src/screen.rs`, which paints what differs
between the desired and the physical grid, and `render_scrollback_to_buf` of
`nosh-client/src/main.rs`, which paints lines of the scrollback.

What they write is modelled as a list of tokens: the cursor moves, attribute changes and clears that
the renderers make themselves, and the characters of the cells. `Token.chars` spells a token out.
The characters of the cells are written as they are.

## Main Definitions

* `Token` — what a renderer writes at a time
* `isControl` — the control characters: C0, DEL and C1
* `emitDiff`, `renderScrollbackToBuf` — the renderers

## Main Results

* `filter_isControl_chars` — **the control characters of plain tokens are those that introduce the
  sequences of the renderers.**
* `emitDiff_plain`, `renderScrollbackToBuf_plain` — cells without control characters are painted by
  plain tokens.
-/

namespace Nosh.Client

open Nosh.Lib Nosh.Proto

variable {ch : Char} {row col : ℕ} {desired : Grid Cell}

/-! ## Tokens -/

/-- `char::is_control`: C0, DEL and C1. -/
def isControl (ch : Char) : Bool := ch.toNat < 0x20 || (0x7f ≤ ch.toNat && ch.toNat < 0xa0)

/-- No control character is among them. -/
def PlainChars (chars : List Char) : Prop := ∀ ch ∈ chars, isControl ch = false

instance (chars : List Char) : Decidable (PlainChars chars) :=
  decidable_of_iff (chars.all fun ch => !isControl ch) (by
    simp only [PlainChars, List.all_eq_true, Bool.not_eq_true'])

/-- The attributes of a cell: its style and colours. -/
abbrev Sgr := CellStyle × Option UInt8 × Option UInt8

/-- `b"\x1b[0m"`: no attribute. -/
def Sgr.plain : Sgr := (.none, none, none)

/-- What a renderer writes at a time. -/
inductive Token
  /-- crossterm's `MoveTo`. -/
  | moveTo (col row : ℕ)
  /-- The attributes, after a reset. -/
  | sgr (attributes : Sgr)
  /-- `b"\x1b[2J\x1b[H"`. -/
  | clear
  /-- The character of a cell. -/
  | text (ch : Char)
  deriving DecidableEq

/-- A number in a sequence. -/
def decimal (n : ℕ) : List Char := Nat.toDigits 10 n

/-- The parameters that `emit_sgr` and `render_scrollback_to_buf` collect. -/
def Sgr.params : Sgr → List Char
  | (style, fg, bg) =>
      ['0'] ++ (if style.bits &&& CellStyle.bold ≠ 0 then [';', '1'] else [])
        ++ (if style.bits &&& CellStyle.italic ≠ 0 then [';', '3'] else [])
        ++ (if style.bits &&& CellStyle.underline ≠ 0 then [';', '4'] else [])
        ++ (if style.bits &&& CellStyle.reverse ≠ 0 then [';', '7'] else [])
        ++ (match fg with
          | some n => [';', '3', '8', ';', '5', ';'] ++ decimal n.toNat
          | none => [])
        ++ (match bg with
          | some n => [';', '4', '8', ';', '5', ';'] ++ decimal n.toNat
          | none => [])

namespace Token

/-- The characters of a token. `MoveTo` counts rows and columns from 1, as `u16`. -/
def chars : Token → List Char
  | moveTo col row =>
      ['\x1b', '['] ++ decimal ((row + 1) % 65536) ++ [';'] ++ decimal ((col + 1) % 65536) ++ ['H']
  | sgr attributes => ['\x1b', '['] ++ attributes.params ++ ['m']
  | clear => ['\x1b', '[', '2', 'J', '\x1b', '[', 'H']
  | text ch => [ch]

/-- The token is a sequence of the renderer, or a character that is not a control character. -/
def Plain : Token → Prop
  | text ch => isControl ch = false
  | _ => True

/-- The control characters that introduce the sequences of the renderer. -/
def introducers : Token → List Char
  | moveTo _ _ | sgr _ => ['\x1b']
  | clear => ['\x1b', '\x1b']
  | text _ => []

end Token

theorem isControl_eq_false : isControl ch = false ↔
    0x20 ≤ ch.toNat ∧ (ch.toNat < 0x7f ∨ 0xa0 ≤ ch.toNat) := by
  unfold isControl
  rw [Bool.or_eq_false_iff, Bool.and_eq_false_iff, decide_eq_false_iff_not,
    decide_eq_false_iff_not, decide_eq_false_iff_not]
  omega

/-- What is displayed in columns of its own is no control character. -/
theorem Printable.plain {width : Char → Option ℕ}
    (hwidth : ∀ ch, isControl ch = true → width ch = none) (h : Printable width ch) :
    isControl ch = false := by
  rw [Bool.eq_false_iff]
  intro hcontrol
  have hnone := hwidth ch hcontrol
  rcases h with hone | htwo
  · cases hnone.symm.trans hone
  · cases hnone.symm.trans htwo

theorem isControl_of_mem_decimal {n : ℕ} (h : ch ∈ decimal n) : isControl ch = false := by
  have hdigit := Nat.isDigit_of_mem_toDigits (by decide) le_rfl h
  rw [Char.isDigit_iff_toNat] at hdigit
  rw [isControl_eq_false]
  have hzero : '0'.toNat = 0x30 := rfl
  have hnine : '9'.toNat = 0x39 := rfl
  omega

@[simp] theorem filter_isControl_decimal (n : ℕ) : (decimal n).filter isControl = [] :=
  List.filter_eq_nil_iff.mpr fun _ hch => by
    rw [isControl_of_mem_decimal hch]
    exact Bool.false_ne_true

theorem Sgr.filter_isControl_params (attributes : Sgr) :
    attributes.params.filter isControl = [] := by
  obtain ⟨style, fg, bg⟩ := attributes
  have hflag : ∀ (flag : Prop) [Decidable flag] (digit : Char), isControl digit = false →
      (if flag then [';', digit] else []).filter isControl = [] := by
    intro flag _ digit hdigit
    split
    · simp [hdigit, show isControl ';' = false from rfl]
    · rfl
  simp only [params, List.filter_append, List.append_eq_nil_iff]
  refine ⟨⟨⟨⟨⟨⟨rfl, hflag _ _ rfl⟩, hflag _ _ rfl⟩, hflag _ _ rfl⟩, hflag _ _ rfl⟩, ?_⟩, ?_⟩
  · cases fg with
    | none => rfl
    | some n => rw [List.filter_append, filter_isControl_decimal]; rfl
  · cases bg with
    | none => rfl
    | some n => rw [List.filter_append, filter_isControl_decimal]; rfl

theorem Token.Plain.filter_isControl {token : Token} (h : token.Plain) :
    token.chars.filter isControl = token.introducers := by
  cases token with
  | moveTo col row =>
      simp only [chars, List.filter_append, filter_isControl_decimal]
      rfl
  | sgr attributes =>
      simp only [chars, List.filter_append, attributes.filter_isControl_params]
      rfl
  | clear => rfl
  | text ch => rw [chars, List.filter_cons_of_neg (by rw [h]; exact Bool.false_ne_true)]; rfl

/-- **The control characters of plain tokens** are those that introduce the sequences of the
renderers. -/
theorem filter_isControl_chars {tokens : List Token} (h : ∀ token ∈ tokens, token.Plain) :
    (tokens.flatMap Token.chars).filter isControl = tokens.flatMap Token.introducers := by
  rw [List.filter_flatMap]
  exact List.flatMap_congr fun token htoken => (h token htoken).filter_isControl

/-! ## Painting a grid -/

/-- What a renderer remembers of what it wrote last. -/
structure Pen where
  lastRow : Option ℕ
  lastCol : Option ℕ
  lastSgr : Option Sgr

/-- A character with its attributes, which are written only where they change. -/
def emitGlyph (lastSgr : Option Sgr) (attributes : Sgr) (ch : Char) : List Token :=
  (if lastSgr ≠ some attributes then [.sgr attributes] else []) ++ [.text ch]

/-- One turn of the loop of `emit_diff`, at a row and a column, with what is wanted and what is
there. Unchanged cells and the second columns of wide characters are skipped. -/
def emitCell (pen : Pen) : ℕ × ℕ × Cell × Cell → Pen × List Token
  | (row, col, want, present) =>
      if want = present then (pen, [])
      else if want.wide then (pen, [])
      else
        (⟨some row, some (col + 1), some (want.style, want.fg, want.bg)⟩,
          (if pen.lastRow ≠ some row ∨ pen.lastCol ≠ some col then [.moveTo col row] else [])
            ++ emitGlyph pen.lastSgr (want.style, want.fg, want.bg) want.ch)

/-- What the loop of `emit_diff` goes through. -/
def diffCells (desired physical : Grid Cell) : List (ℕ × ℕ × Cell × Cell) :=
  let rows := min desired.length physical.length
  let cols := min (desired.headD []).length (physical.headD []).length
  ((desired.zip physical).zipIdx.take rows).flatMap fun ((desRow, physRow), row) =>
    ((desRow.zip physRow).zipIdx.take cols).map fun ((want, present), col) =>
      (row, col, want, present)

/-- `emit_diff`: what it writes. -/
def emitDiff (desired physical : Grid Cell) (cursor : CursorPos) : List Token :=
  emitAll emitCell ⟨none, none, none⟩ (diffCells desired physical)
    ++ [.moveTo cursor.col cursor.row]

/-- The end of `emit_diff`: the physical grid takes over the desired one, as far as it reaches. -/
def commit (desired physical : Grid Cell) : Grid Cell :=
  List.zipWith (fun desRow physRow => desRow.take physRow.length ++ physRow.drop desRow.length)
    desired physical ++ physical.drop desired.length

/-- No cell of the grid shows a control character. -/
def PlainGrid (grid : Grid Cell) : Prop := grid.All fun cell => isControl cell.ch = false

theorem emitGlyph_plain (lastSgr : Option Sgr) (attributes : Sgr) (h : isControl ch = false) :
    ∀ token ∈ emitGlyph lastSgr attributes ch, token.Plain := by
  refine List.forall_mem_append.mpr ⟨?_, List.forall_mem_singleton.mpr h⟩
  split
  · exact List.forall_mem_singleton.mpr trivial
  · exact List.forall_mem_nil _

theorem emitCell_plain (pen : Pen) {want present : Cell}
    (h : want.wide = false → isControl want.ch = false) :
    ∀ token ∈ (emitCell pen (row, col, want, present)).2, token.Plain := by
  unfold emitCell
  dsimp only
  split
  · exact List.forall_mem_nil _
  split
  · exact List.forall_mem_nil _
  rename_i hunmarked
  refine List.forall_mem_append.mpr
    ⟨?_, emitGlyph_plain _ _ (h (Bool.eq_false_iff.mpr hunmarked))⟩
  split
  · exact List.forall_mem_singleton.mpr trivial
  · exact List.forall_mem_nil _

/-- The cells that `emit_diff` paints are those of the desired grid. -/
theorem mem_of_mem_diffCells {physical : Grid Cell} {want present : Cell}
    (h : (row, col, want, present) ∈ diffCells desired physical) :
    ∃ desRow ∈ desired, want ∈ desRow := by
  obtain ⟨⟨⟨desRow, physRow⟩, r⟩, hrow, hcell⟩ := List.mem_flatMap.mp h
  obtain ⟨⟨⟨want', present'⟩, c⟩, hcell, heq⟩ := List.mem_map.mp hcell
  cases heq
  have hpair := List.fst_mem_of_mem_zipIdx (List.mem_of_mem_take hrow)
  have hwant := List.fst_mem_of_mem_zipIdx (List.mem_of_mem_take hcell)
  exact ⟨desRow, (List.of_mem_zip hpair).1, (List.of_mem_zip hwant).1⟩

/-- Cells without control characters are painted by plain tokens; the second columns of wide
characters are not painted. -/
theorem emitDiff_plain_of_unmarked
    (h : desired.All fun cell => cell.wide = false → isControl cell.ch = false)
    (physical : Grid Cell) (cursor : CursorPos) :
    ∀ token ∈ emitDiff desired physical cursor, token.Plain := by
  refine List.forall_mem_append.mpr ⟨?_, List.forall_mem_singleton.mpr trivial⟩
  refine forall_mem_emitAll (fun pen cell hcell => ?_) _
  obtain ⟨row, col, want, present⟩ := cell
  obtain ⟨desRow, hrow, hwant⟩ := mem_of_mem_diffCells hcell
  exact emitCell_plain pen (h desRow hrow want hwant)

theorem emitDiff_plain (h : PlainGrid desired) (physical : Grid Cell) (cursor : CursorPos) :
    ∀ token ∈ emitDiff desired physical cursor, token.Plain :=
  emitDiff_plain_of_unmarked (fun row hrow cell hcell _ => h row hrow cell hcell) physical cursor

/-! ## Overlays -/

/-- `ConnectionLossOverlay`; the time of the last contact comes in as the seconds since then. -/
structure ConnectionLossOverlay where
  active : Bool
  cols : ℕ
  deriving DecidableEq

/-- The text of the banner. -/
def ConnectionLossOverlay.banner (elapsed : ℕ) : List Char :=
  "nosh: reconnecting \u2014 last contact ".toList ++ decimal elapsed
    ++ "s ago. Press ~. to disconnect.".toList

/-- `ConnectionLossOverlay::cell_at`. -/
def ConnectionLossOverlay.cellAt (loss : ConnectionLossOverlay) (elapsed row col : ℕ) :
    Option Cell :=
  if !loss.active || row != 0 then none
  else
    let padded := (banner elapsed ++ List.replicate loss.cols ' ').take loss.cols
    some ⟨padded[col]?.getD ' ', ⟨CellStyle.reverse⟩, none, none, false⟩

/-- The loop that puts the cells of an overlay over a grid. -/
def overlayCells (grid : Grid Cell) (cellAt : ℕ → ℕ → Option Cell) : Grid Cell :=
  grid.mapIdx fun row cells => cells.mapIdx fun col cell => (cellAt row col).getD cell

theorem ConnectionLossOverlay.banner_plain (elapsed : ℕ) : PlainChars (banner elapsed) := by
  have hfront : PlainChars "nosh: reconnecting \u2014 last contact ".toList := by decide
  have hback : PlainChars "s ago. Press ~. to disconnect.".toList := by decide
  refine List.forall_mem_append.mpr ⟨List.forall_mem_append.mpr ⟨hfront, ?_⟩, hback⟩
  exact fun _ hch => isControl_of_mem_decimal hch

theorem ConnectionLossOverlay.cellAt_plain {loss : ConnectionLossOverlay} {elapsed : ℕ}
    {cell : Cell} (h : loss.cellAt elapsed row col = some cell) : isControl cell.ch = false := by
  unfold cellAt at h
  split at h
  · cases h
  · cases h
    dsimp only
    cases hget : ((banner elapsed ++ List.replicate loss.cols ' ').take loss.cols)[col]? with
    | none => rfl
    | some ch =>
        have hmem := List.mem_of_mem_take (List.mem_of_getElem? hget)
        rcases List.mem_append.mp hmem with hbanner | hpad
        · exact banner_plain elapsed ch hbanner
        · rw [Option.getD_some, (List.mem_replicate.mp hpad).2]
          rfl

/-- A cell of the grid with an overlay is one of either. -/
theorem all_overlayCells {p : Cell → Prop} {grid : Grid Cell} (h : grid.All p)
    {cellAt : ℕ → ℕ → Option Cell}
    (hoverlay : ∀ row col cell, cellAt row col = some cell → p cell) :
    (overlayCells grid cellAt).All p := by
  intro cells hcells cell hcell
  obtain ⟨row, hrow, rfl⟩ := List.mem_mapIdx.mp hcells
  obtain ⟨col, hcol, rfl⟩ := List.mem_mapIdx.mp hcell
  cases hover : cellAt row col with
  | none => exact h _ (List.getElem_mem hrow) _ (List.getElem_mem hcol)
  | some front => exact hoverlay row col front hover

/-- What a sound predictor displays is no control character. -/
theorem PredictionOverlay.cellAt_plain {width : Char → Option ℕ}
    (hwidth : ∀ ch, isControl ch = true → width ch = none) {overlay : PredictionOverlay}
    (hpending : ∀ p ∈ overlay.pending, Printable width p.predictedCh) {cell : Cell}
    (h : overlay.cellAt row col = some cell) : isControl cell.ch = false := by
  unfold PredictionOverlay.cellAt at h
  split at h
  · cases h
  · rw [Option.map_eq_some_iff] at h
    obtain ⟨pred, hpred, rfl⟩ := h
    exact (hpending pred (List.mem_of_find?_eq_some hpred)).plain hwidth

/-! ## Painting the scrollback -/

/-- The cells of one line of the scrollback. -/
def emitLine (line : ScrollbackLine) : List Token :=
  emitAll (fun lastSgr cell =>
      (some (cell.style, cell.fg, cell.bg),
        emitGlyph lastSgr (cell.style, cell.fg, cell.bg) cell.ch))
    none line.cells

/-- One turn of the loop of `render_scrollback_to_buf`: the line, if there is one, and blanks up to
the width of the screen. -/
def emitScreenRow (line : Option ScrollbackLine) (screenRow cols : ℕ) : List Token :=
  let remaining := cols - (line.elim 0 fun line => line.cells.length)
  [.moveTo 0 screenRow, .sgr Sgr.plain] ++ line.elim [] emitLine
    ++ if 0 < remaining then .sgr Sgr.plain :: List.replicate remaining (.text ' ') else []

/-- `render_scrollback_to_buf`. -/
def renderScrollbackToBuf (lines : List ScrollbackLine) (offset cols rows : ℕ) : List Token :=
  let bottom := lines.length - offset
  let top := bottom - rows
  [.clear] ++ ((List.range rows).flatMap fun screenRow =>
      emitScreenRow lines[top + screenRow]? screenRow cols)
    ++ [.moveTo 0 (rows - 1)]

/-- No cell of the lines shows a control character. -/
def PlainLines (lines : List ScrollbackLine) : Prop :=
  ∀ line ∈ lines, ∀ cell ∈ line.cells, isControl cell.ch = false

instance (lines : List ScrollbackLine) : Decidable (PlainLines lines) :=
  inferInstanceAs (Decidable (∀ line ∈ lines, ∀ cell ∈ line.cells, _))

theorem emitScreenRow_plain {line : Option ScrollbackLine}
    (h : ∀ l ∈ line, ∀ cell ∈ l.cells, isControl cell.ch = false) (screenRow cols : ℕ) :
    ∀ token ∈ emitScreenRow line screenRow cols, token.Plain := by
  refine List.forall_mem_append.mpr ⟨List.forall_mem_append.mpr ⟨?_, ?_⟩, ?_⟩
  · exact List.forall_mem_cons.mpr ⟨trivial, List.forall_mem_singleton.mpr trivial⟩
  · cases line with
    | none => exact List.forall_mem_nil _
    | some l =>
        refine forall_mem_emitAll (fun lastSgr cell hcell => ?_) _
        exact emitGlyph_plain _ _ (h l rfl cell hcell)
  · split
    · refine List.forall_mem_cons.mpr ⟨trivial, fun token htoken => ?_⟩
      rw [(List.mem_replicate.mp htoken).2]
      rfl
    · exact List.forall_mem_nil _

/-- Lines without control characters are painted by plain tokens. -/
theorem renderScrollbackToBuf_plain {lines : List ScrollbackLine} (h : PlainLines lines)
    (offset cols rows : ℕ) :
    ∀ token ∈ renderScrollbackToBuf lines offset cols rows, token.Plain := by
  refine List.forall_mem_append.mpr ⟨List.forall_mem_append.mpr ⟨?_, ?_⟩, ?_⟩
  · exact List.forall_mem_singleton.mpr trivial
  · intro token htoken
    obtain ⟨screenRow, -, hrow⟩ := List.mem_flatMap.mp htoken
    refine emitScreenRow_plain (fun line hline => ?_) screenRow cols token hrow
    exact h line (List.mem_of_getElem? hline)
  · exact List.forall_mem_singleton.mpr trivial

end Nosh.Client
