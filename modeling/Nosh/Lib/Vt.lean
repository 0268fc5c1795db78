import Nosh.Lib.Grid
import Nosh.Lib.Utf8
import Nosh.Lib.VtParser

/-!
# An ideal terminal

A terminal of fixed size that executes what a full-screen program writes: printable characters, one
column each, and the control sequences that move the cursor (CUP), erase the display (ED 2) and set
the attributes of what follows (SGR). Other control characters and sequences are ignored.

A character in the last column leaves the cursor there, and only the next character wraps to the
line below, which scrolls the display at the bottom.

## Main Definitions

* `Screen` — what is displayed, with the cursor and the attributes
* `Terminal` — a screen with the parser of control sequences in front of it
* `exec` — the terminal executes bytes
-/

namespace Nosh.Lib.Vt

/-- The attributes of a character. -/
structure Look where
  bold : Bool
  italic : Bool
  underline : Bool
  reverse : Bool
  fg : Option ℕ
  bg : Option ℕ
  deriving DecidableEq, Repr

/-- No attribute. -/
def Look.plain : Look := ⟨false, false, false, false, none, none⟩

/-- What a cell displays. -/
structure Glyph where
  ch : Char
  look : Look
  deriving DecidableEq, Repr

/-- An erased cell. -/
def Glyph.blank : Glyph := ⟨' ', .plain⟩

/-- Erased lines. -/
def blankLines (cols rows : ℕ) : Grid Glyph := List.replicate rows (List.replicate cols .blank)

theorem hasShape_blankLines (cols rows : ℕ) : (blankLines cols rows).HasShape rows cols := by
  refine ⟨List.length_replicate, ?_⟩
  intro row hrow
  rw [List.eq_of_mem_replicate hrow]
  exact List.length_replicate

/-! ## The screen -/

/-- The display, the cursor and the attributes of the next character. -/
structure Screen (cols rows : ℕ) where
  grid : Grid Glyph
  shape : grid.HasShape rows cols
  row : ℕ
  col : ℕ
  /-- The last column was written: the next character goes to the line below. -/
  wrapNext : Bool
  look : Look

namespace Screen

variable {cols rows : ℕ}

/-- The display moves up by a line. -/
def scrollUp (s : Screen cols rows) : Screen cols rows :=
  { s with
    grid := (s.grid ++ blankLines cols 1).drop 1
    shape := (s.shape.append (hasShape_blankLines cols 1)).drop 1 }

/-- The cursor goes to the start of the next line. -/
def nextLine (s : Screen cols rows) : Screen cols rows :=
  let s := { s with col := 0, wrapNext := false }
  if s.row + 1 < rows then { s with row := s.row + 1 } else s.scrollUp

/-- A character goes to the cursor, which stays in the last column. -/
def put (s : Screen cols rows) (ch : Char) : Screen cols rows :=
  { s with
    grid := s.grid.write ((s.row, s.col), ⟨ch, s.look⟩)
    shape := s.shape.write _
    col := if s.col + 1 < cols then s.col + 1 else s.col
    wrapNext := decide (¬ s.col + 1 < cols) }

/-- A printable character. -/
def print (s : Screen cols rows) (ch : Char) : Screen cols rows :=
  (if s.wrapNext then s.nextLine else s).put ch

theorem print_of_not_wrapNext {s : Screen cols rows} (h : s.wrapNext = false) (ch : Char) :
    s.print ch = s.put ch := by
  rw [print, h]
  rfl

/-- CUP: rows and columns are counted from 1, and a 0 stands for 1. -/
def moveTo (s : Screen cols rows) (row col : ℕ) : Screen cols rows :=
  { s with
    row := min (row - 1) (rows - 1)
    col := min (col - 1) (cols - 1)
    wrapNext := false }

/-- ED 2. -/
def erase (s : Screen cols rows) : Screen cols rows :=
  { s with
    grid := blankLines cols rows
    shape := hasShape_blankLines cols rows }

end Screen

/-- SGR. -/
def Look.sgr : Look → List ℕ → Look
  | look, [] => look
  | _, 0 :: params => Look.plain.sgr params
  | look, 1 :: params => { look with bold := true }.sgr params
  | look, 3 :: params => { look with italic := true }.sgr params
  | look, 4 :: params => { look with underline := true }.sgr params
  | look, 7 :: params => { look with reverse := true }.sgr params
  | look, 38 :: 5 :: n :: params => { look with fg := some n }.sgr params
  | look, 48 :: 5 :: n :: params => { look with bg := some n }.sgr params
  | look, _ :: params => look.sgr params

/-- A control sequence with its final character. -/
def Screen.dispatch {cols rows : ℕ} (s : Screen cols rows) (params : List ℕ) (final : Char) :
    Screen cols rows :=
  if final = 'H' then s.moveTo (params.getD 0 1) (params.getD 1 1)
  else if final = 'J' then if params = [2] then s.erase else s
  else if final = 'm' then { s with look := s.look.sgr params }
  else s

/-- What the parser hands on. -/
def Screen.command {cols rows : ℕ} (s : Screen cols rows) : Command → Screen cols rows
  | .print ch => s.print ch
  | .csi params final => s.dispatch params final

/-! ## The terminal -/

/-- A screen with the parser in front of it. -/
structure Terminal (cols rows : ℕ) where
  screen : Screen cols rows
  parse : Parse

/-- The terminal executes bytes, in UTF-8. -/
def Terminal.exec {cols rows : ℕ} (t : Terminal cols rows) (bytes : List UInt8) :
    Terminal cols rows :=
  let (parse, commands) := t.parse.run (Utf8.decodeLossy bytes)
  ⟨commands.foldl Screen.command t.screen, parse⟩

end Nosh.Lib.Vt
