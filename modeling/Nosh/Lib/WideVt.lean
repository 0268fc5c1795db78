import Nosh.Lib.Vt

/-!
# An ideal terminal with wide characters

The terminal of `Vt` for characters of one and of two columns; which ones these are is a parameter,
`width`. A wide character fills two cells, its left and its right half. Whoever overwrites one half
blanks the other. A wide character that does not fit into the last column goes to the next line.

## Main Definitions

* `Shown` — what a cell displays
* `rub`, `putNarrow`, `putWide` — overwriting a row
* `WideScreen`, `WideTerminal` — the display, and the parser in front of it
-/

namespace Nosh.Lib.Vt

/-- What a cell displays: a character of one column, or half of a wide one. -/
inductive Shown
  | narrow (glyph : Glyph)
  /-- The left half. -/
  | lead (glyph : Glyph)
  /-- The right half, which has the attributes of the character. -/
  | trail (look : Look)
  deriving DecidableEq, Repr

/-- An erased cell. -/
def Shown.blank : Shown := .narrow .blank

/-! ## Rows -/

/-- The columns of the wide character that has a half in column `col`. -/
def Covers (col : ℕ) : Option Shown → ℕ → Prop
  | some (.lead _), i => i = col ∨ i = col + 1
  | some (.trail _), i => i = col ∨ i + 1 = col
  | some (.narrow _), _ | none, _ => False

instance (col : ℕ) : ∀ (shown : Option Shown) (i : ℕ), Decidable (Covers col shown i)
  | some (.lead _), _ | some (.trail _), _ => inferInstanceAs (Decidable (_ ∨ _))
  | some (.narrow _), _ | none, _ => inferInstanceAs (Decidable False)

/-- A wide character with a half in the column goes. -/
def rub (col : ℕ) (cells : List Shown) : List Shown :=
  cells.mapIdx fun i shown => if Covers col cells[col]? i then .blank else shown

/-- A character of one column. -/
def putNarrow (col : ℕ) (glyph : Glyph) (cells : List Shown) : List Shown :=
  (rub col cells).set col (.narrow glyph)

/-- A character of two columns. -/
def putWide (col : ℕ) (glyph : Glyph) (cells : List Shown) : List Shown :=
  ((rub (col + 1) (rub col cells)).set col (.lead glyph)).set (col + 1) (.trail glyph.look)

theorem length_rub (col : ℕ) (cells : List Shown) : (rub col cells).length = cells.length :=
  List.length_mapIdx

theorem length_putNarrow (col : ℕ) (glyph : Glyph) (cells : List Shown) :
    (putNarrow col glyph cells).length = cells.length := by
  rw [putNarrow, List.length_set, length_rub]

theorem length_putWide (col : ℕ) (glyph : Glyph) (cells : List Shown) :
    (putWide col glyph cells).length = cells.length := by
  rw [putWide, List.length_set, List.length_set, length_rub, length_rub]

theorem getElem?_rub (col : ℕ) (cells : List Shown) (i : ℕ) :
    (rub col cells)[i]? = cells[i]?.map fun shown =>
      if Covers col cells[col]? i then .blank else shown :=
  List.getElem?_mapIdx

/-- Rows that agree everywhere but in one column still do. -/
theorem getElem?_rub_congr {col k : ℕ} {cells cells' : List Shown} (hcol : col ≠ k)
    (h : ∀ i ≠ k, cells[i]? = cells'[i]?) :
    ∀ i ≠ k, (rub col cells)[i]? = (rub col cells')[i]? := by
  intro i hi
  rw [getElem?_rub, getElem?_rub, h i hi, h col hcol]

/-! ## The screen -/

/-- The display, the cursor and the attributes of the next character. -/
structure WideScreen (cols rows : ℕ) where
  grid : Grid Shown
  shape : grid.HasShape rows cols
  row : ℕ
  col : ℕ
  /-- The last column was written: the next character goes to the line below. -/
  wrapNext : Bool
  look : Look

namespace WideScreen

variable {cols rows : ℕ}

theorem hasShape_blankLine (cols : ℕ) :
    Grid.HasShape [List.replicate cols Shown.blank] 1 cols := by
  refine ⟨rfl, fun row hrow => ?_⟩
  rw [List.mem_singleton.mp hrow, List.length_replicate]

/-- The display moves up by a line. -/
def scrollUp (s : WideScreen cols rows) : WideScreen cols rows :=
  { s with
    grid := (s.grid ++ [List.replicate cols Shown.blank]).drop 1
    shape := (s.shape.append (hasShape_blankLine cols)).drop 1 }

/-- The cursor goes to the start of the next line. -/
def nextLine (s : WideScreen cols rows) : WideScreen cols rows :=
  let s := { s with col := 0, wrapNext := false }
  if s.row + 1 < rows then { s with row := s.row + 1 } else s.scrollUp

/-- The cursor moves on, but not out of the line. -/
def advance (s : WideScreen cols rows) (columns : ℕ) : WideScreen cols rows :=
  { s with
    col := if s.col + columns < cols then s.col + columns else cols - 1
    wrapNext := decide (¬ s.col + columns < cols) }

/-- The line of the cursor is changed. -/
def modifyLine (s : WideScreen cols rows) (edit : List Shown → List Shown)
    (hedit : ∀ cells, (edit cells).length = cells.length) : WideScreen cols rows :=
  { s with
    grid := s.grid.modify s.row edit
    shape := s.shape.modify s.row hedit }

/-- A character of one column at the cursor. -/
def writeNarrow (s : WideScreen cols rows) (ch : Char) : WideScreen cols rows :=
  (s.modifyLine (putNarrow s.col ⟨ch, s.look⟩) (length_putNarrow _ _)).advance 1

/-- A character of two columns at the cursor. -/
def writeWide (s : WideScreen cols rows) (ch : Char) : WideScreen cols rows :=
  (s.modifyLine (putWide s.col ⟨ch, s.look⟩) (length_putWide _ _)).advance 2

/-- A printable character. One that takes no column is not displayed by itself. -/
def print (width : Char → Option ℕ) (s : WideScreen cols rows) (ch : Char) :
    WideScreen cols rows :=
  match width ch with
  | some 1 => (if s.wrapNext then s.nextLine else s).writeNarrow ch
  | some 2 =>
      (if s.wrapNext ∨ cols < s.col + 2 then s.nextLine else s).writeWide ch
  | _ => s

theorem print_narrow {width : Char → Option ℕ} {s : WideScreen cols rows} {ch : Char}
    (hch : width ch = some 1) (hwrap : s.wrapNext = false) :
    s.print width ch = s.writeNarrow ch := by
  rw [print, hch, hwrap]
  rfl

theorem print_wide {width : Char → Option ℕ} {s : WideScreen cols rows} {ch : Char}
    (hch : width ch = some 2) (hwrap : s.wrapNext = false) (hroom : s.col + 2 ≤ cols) :
    s.print width ch = s.writeWide ch := by
  have hfits : ¬ (s.wrapNext = true ∨ cols < s.col + 2) := by
    rw [hwrap]
    simp [hroom]
  rw [print, hch]
  exact congrArg (writeWide · ch) (if_neg hfits)

/-- CUP: rows and columns are counted from 1, and a 0 stands for 1. -/
def moveTo (s : WideScreen cols rows) (row col : ℕ) : WideScreen cols rows :=
  { s with
    row := min (row - 1) (rows - 1)
    col := min (col - 1) (cols - 1)
    wrapNext := false }

/-- What the parser hands on: CUP, SGR and printable characters. -/
def command (width : Char → Option ℕ) (s : WideScreen cols rows) : Command → WideScreen cols rows
  | .print ch => s.print width ch
  | .csi params final =>
      if final = 'H' then s.moveTo (params.getD 0 1) (params.getD 1 1)
      else if final = 'm' then { s with look := s.look.sgr params }
      else s

end WideScreen

/-- A screen with the parser in front of it. -/
structure WideTerminal (cols rows : ℕ) where
  screen : WideScreen cols rows
  parse : Parse

/-- The terminal executes bytes, in UTF-8. -/
def WideTerminal.exec {cols rows : ℕ} (width : Char → Option ℕ) (t : WideTerminal cols rows)
    (bytes : List UInt8) : WideTerminal cols rows :=
  let (parse, commands) := t.parse.run (Utf8.decodeLossy bytes)
  ⟨commands.foldl (WideScreen.command width) t.screen, parse⟩

end Nosh.Lib.Vt
