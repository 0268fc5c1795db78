import Nosh.Server.Pump

/-!
# The server terminal

The screen part of `TerminalState` in `nosh-server/src/terminal.rs`: the grid, the
scrollback, the cursor, the mode flags, the pen and the saved primary screen, with
every dispatch of the `vte` parser that touches them.  The OSC side (title,
clipboard, hyperlink) shares no field with it and is left out; its prefilter is in
`OscFilter`.

A dispatch that would index outside a vector panics in the source; here it
answers `none`.  `width` is `UnicodeWidthChar::width`.

## Main definitions

* `TerminalState` — the screen
* `dispatch`, `feed` — what the parser calls, one by one and in a row
-/

namespace Nosh.Server

open Nosh.Lib Nosh.Proto

/-- `SCROLLBACK_LINE_CAP`. -/
def scrollbackLineCap : ℕ := 10000

/-- `EchoState`: the observable private modes. -/
structure EchoState where
  cursorVisible : Bool
  altScreen : Bool
  bracketedPaste : Bool
  appCursorKeys : Bool
  deriving DecidableEq, Repr

/-- `EchoState::default()`. -/
def EchoState.default : EchoState := ⟨false, false, false, false⟩

/-- `SgrState`: the pen. -/
structure SgrState where
  style : CellStyle
  fg : Option UInt8
  bg : Option UInt8
  deriving DecidableEq, Repr

/-- `SgrState::default()`, also what `reset` leaves. -/
def SgrState.default : SgrState := ⟨CellStyle.none, none, none⟩

/-- A cell written with the pen. -/
def SgrState.cell (sgr : SgrState) (ch : Char) (wide : Bool) : Cell :=
  ⟨ch, sgr.style, sgr.fg, sgr.bg, wide⟩

/-- The screen part of `TerminalState`. -/
structure TerminalState where
  cols : ℕ
  rows : ℕ
  grid : Grid Cell
  /-- Oldest line first. -/
  scrollback : Grid Cell
  cursor : CursorPos
  echoState : EchoState
  sgr : SgrState
  savedPrimary : Option (Grid Cell × CursorPos × SgrState)
  deriving DecidableEq, Repr

/-- One `vte` parameter: its value and its subparameters; `vte` never delivers an
empty one. -/
abbrev Param := ℕ × List ℕ

/-- What the parser hands to `TerminalState`. -/
inductive Dispatch
  | print (c : Char)
  | execute (byte : UInt8)
  | csi (params : List Param) (intermediates : List UInt8) (action : Char)
  | esc (byte : UInt8)
  deriving DecidableEq, Repr

namespace TerminalState

/-- `TerminalState::new`. -/
def new (cols rows : ℕ) : TerminalState where
  cols := cols
  rows := rows
  grid := makeGrid cols rows
  scrollback := []
  cursor := ⟨0, 0⟩
  echoState := .default
  sgr := .default
  savedPrimary := none

/-- `push_back` on the scrollback with the cap enforced. -/
def pushScrollback (scrollback : Grid Cell) (row : List Cell) : Grid Cell :=
  let scrollback := scrollback ++ [row]
  if scrollbackLineCap < scrollback.length then scrollback.tail else scrollback

/-! ## Resizing -/

/-- Fit the rows of a grid to `cols` and their number to `rows`: excess rows leave at
the top, missing ones come in blank at the bottom. -/
def resizeGrid (cols rows : ℕ) (grid : Grid Cell) : Grid Cell :=
  (grid.map (resizeRow cols)).drop (grid.length - rows)
    ++ List.replicate (rows - grid.length) (List.replicate cols Cell.blank)

/-- Clamp a cursor to the grid. -/
def clampCursor (cols rows : ℕ) (cursor : CursorPos) : CursorPos :=
  ⟨min cursor.row (rows - 1), min cursor.col (cols - 1)⟩

/-- `TerminalState::resize`: rows pushed out at the top go to the scrollback on the
primary screen and are dropped otherwise. -/
def resize (t : TerminalState) (cols rows : ℕ) : TerminalState :=
  { t with
    cols := cols
    rows := rows
    grid := resizeGrid cols rows t.grid
    scrollback :=
      if t.echoState.altScreen then t.scrollback
      else
        ((t.grid.map (resizeRow cols)).take (t.grid.length - rows)).foldl pushScrollback
          t.scrollback
    cursor := clampCursor cols rows t.cursor
    savedPrimary := t.savedPrimary.map fun saved =>
      (resizeGrid cols rows saved.1, clampCursor cols rows saved.2.1, saved.2.2) }

/-! ## The alternate screen -/

/-- `enter_alt_screen`; a nested enter saves the alternate grid. -/
def enterAltScreen (t : TerminalState) : TerminalState :=
  { t with
    grid := makeGrid t.cols t.rows
    savedPrimary := some (t.grid, t.cursor, t.sgr)
    cursor := ⟨0, 0⟩
    sgr := .default
    echoState := { t.echoState with altScreen := true } }

/-- `exit_alt_screen`; a bare exit only clears the flag. -/
def exitAltScreen (t : TerminalState) : TerminalState :=
  match t.savedPrimary with
  | some (grid, cursor, sgr) =>
      { t with
        grid := grid
        cursor := cursor
        sgr := sgr
        savedPrimary := none
        echoState := { t.echoState with altScreen := false } }
  | none => { t with echoState := { t.echoState with altScreen := false } }

/-! ## Printing and scrolling -/

/-- `scroll_up`; removing the top row of an empty grid panics. -/
def scrollUp (t : TerminalState) : Option TerminalState :=
  if t.rows = 0 then some t
  else
    match t.grid with
    | [] => none
    | top :: rest =>
        some { t with
          grid := rest ++ [List.replicate t.cols Cell.blank]
          scrollback :=
            if t.echoState.altScreen then t.scrollback else pushScrollback t.scrollback top }

/-- `lf`. -/
def lf (t : TerminalState) : Option TerminalState :=
  if t.rows ≤ t.cursor.row + 1 then t.scrollUp
  else some { t with cursor := { t.cursor with row := t.cursor.row + 1 } }

/-- Write a character and, for a width-2 one, its continuation cell; both stay inside
the row. -/
def putCell (sgr : SgrState) (c : Char) (colWidth col : ℕ) (row : List Cell) : List Cell :=
  if col < row.length then
    let row := row.set col (sgr.cell c false)
    if colWidth = 2 ∧ col + 1 < row.length then row.set (col + 1) (sgr.cell ' ' true) else row
  else row

/-- `print_char`. -/
def printChar (width : Char → Option ℕ) (t : TerminalState) (c : Char) : Option TerminalState :=
  if width c = some 0 then some t
  else
    let colWidth := if width c = some 2 then 2 else 1
    let row := min t.cursor.row (t.rows - 1)
    let col := min t.cursor.col (t.cols - 1)
    let grid := t.grid.modify row (putCell t.sgr c colWidth col)
    let newCol := min (t.cursor.col + colWidth) u16Max
    if t.cols ≤ newCol then lf { t with grid := grid, cursor := { t.cursor with col := 0 } }
    else some { t with grid := grid, cursor := { t.cursor with col := newCol } }

/-- `execute`. -/
def execute (t : TerminalState) (byte : UInt8) : Option TerminalState :=
  if byte = 0x0D then some { t with cursor := { t.cursor with col := 0 } }
  else if byte = 0x0A ∨ byte = 0x0B ∨ byte = 0x0C then t.lf
  else if byte = 0x08 then some { t with cursor := { t.cursor with col := t.cursor.col - 1 } }
  else some t

/-! ## Erasing -/

/-- Blank the cells of a row from `col` on. -/
def eraseRight (col : ℕ) (row : List Cell) : List Cell :=
  row.take col ++ List.replicate (row.length - col) Cell.blank

/-- Blank the cells of a row up to and including `col`.  The loop always visits
column 0, so an empty row panics. -/
def eraseLeft (col : ℕ) (row : List Cell) : Option (List Cell) :=
  if row.isEmpty then none
  else
    let last := min col (row.length - 1)
    some (List.replicate (last + 1) Cell.blank ++ row.drop (last + 1))

/-- Blank a whole row. -/
def eraseRow (row : List Cell) : List Cell := List.replicate row.length Cell.blank

/-- Apply a fallible edit to one row of a grid that has it. -/
def modifyRow? (edit : List Cell → Option (List Cell)) (grid : Grid Cell) (r : ℕ) :
    Option (Grid Cell) :=
  match grid[r]? with
  | none => some grid
  | some row => (edit row).map fun row => grid.set r row

/-- `CSI J`. -/
def eraseDisplay (t : TerminalState) (n : ℕ) : Option TerminalState :=
  let row := t.cursor.row
  let col := t.cursor.col
  match n with
  | 0 =>
      if row < t.grid.length then
        some { t with
          grid := (t.grid.take (row + 1)).modify row (eraseRight col)
            ++ (t.grid.drop (row + 1)).map eraseRow }
      else some t
  | 1 =>
      -- the rows above are indexed without a bound check
      if t.grid.length < row then none
      else
        (modifyRow? (eraseLeft col) ((t.grid.take row).map eraseRow ++ t.grid.drop row) row).map
          fun grid => { t with grid := grid }
  | 2 => some { t with grid := t.grid.map eraseRow }
  | 3 => some { t with grid := t.grid.map eraseRow, scrollback := [] }
  | _ => some t

/-- `CSI K`. -/
def eraseLine (t : TerminalState) (n : ℕ) : Option TerminalState :=
  let row := t.cursor.row
  let col := t.cursor.col
  let edit : List Cell → Option (List Cell) :=
    match n with
    | 0 => fun cells => some (eraseRight col cells)
    | 1 => eraseLeft col
    | 2 => fun cells => some (eraseRow cells)
    | _ => some
  (modifyRow? edit t.grid row).map fun grid => { t with grid := grid }

/-! ## SGR -/

/-- The single SGR codes; any other code is ignored. -/
def sgrCode (code : ℕ) (sgr : SgrState) : SgrState :=
  match code with
  | 0 => .default
  | 1 => { sgr with style := ⟨sgr.style.bits ||| CellStyle.bold⟩ }
  | 3 => { sgr with style := ⟨sgr.style.bits ||| CellStyle.italic⟩ }
  | 4 => { sgr with style := ⟨sgr.style.bits ||| CellStyle.underline⟩ }
  | 7 => { sgr with style := ⟨sgr.style.bits ||| CellStyle.reverse⟩ }
  | 22 => { sgr with style := ⟨sgr.style.bits &&& ~~~ CellStyle.bold⟩ }
  | 23 => { sgr with style := ⟨sgr.style.bits &&& ~~~ CellStyle.italic⟩ }
  | 24 => { sgr with style := ⟨sgr.style.bits &&& ~~~ CellStyle.underline⟩ }
  | 27 => { sgr with style := ⟨sgr.style.bits &&& ~~~ CellStyle.reverse⟩ }
  | 39 => { sgr with fg := none }
  | 49 => { sgr with bg := none }
  | code =>
      if 30 ≤ code ∧ code ≤ 37 then { sgr with fg := some (code - 30).toUInt8 }
      else if 40 ≤ code ∧ code ≤ 47 then { sgr with bg := some (code - 40).toUInt8 }
      else if 90 ≤ code ∧ code ≤ 97 then { sgr with fg := some (code - 90 + 8).toUInt8 }
      else if 100 ≤ code ∧ code ≤ 107 then { sgr with bg := some (code - 100 + 8).toUInt8 }
      else sgr

/-- The loop of `handle_sgr`.  `38` and `48` read on: `5` takes a palette index, `2`
drops three values, anything else is dropped itself. -/
def sgrLoop : List Param → SgrState → SgrState
  | [], sgr => sgr
  | param :: rest, sgr =>
      if param.1 = 38 ∨ param.1 = 48 then
        match rest with
        | [] => sgr
        | next :: rest =>
            if next.1 = 5 then
              match rest with
              | [] => sgr
              | color :: rest =>
                  sgrLoop rest
                    (if 255 < color.1 then sgr
                    else if param.1 = 38 then { sgr with fg := some color.1.toUInt8 }
                    else { sgr with bg := some color.1.toUInt8 })
            else if next.1 = 2 then
              match rest with
              | _ :: _ :: _ :: rest => sgrLoop rest sgr
              | _ => sgr
            else sgrLoop rest sgr
      else sgrLoop rest (sgrCode param.1 sgr)

/-- `handle_sgr`; no parameter at all is a reset. -/
def handleSgr (t : TerminalState) (params : List Param) : TerminalState :=
  { t with sgr := if params.isEmpty then .default else sgrLoop params t.sgr }

/-! ## Dispatches -/

/-- The first value of a parameter list, 0 when omitted. -/
def firstParam (params : List Param) : ℕ := (params.head?.map Prod.fst).getD 0

/-- `cursor_count`: an omitted count or 0 is 1. -/
def cursorCount (params : List Param) : ℕ := max (firstParam params) 1

/-- One private mode of `CSI ? Pm h` or `l`. -/
def privateMode (enable : Bool) (t : TerminalState) (mode : Param) : TerminalState :=
  match mode.1 with
  | 25 => { t with echoState := { t.echoState with cursorVisible := enable } }
  | 1049 => if enable then t.enterAltScreen else t.exitAltScreen
  | 2004 => { t with echoState := { t.echoState with bracketedPaste := enable } }
  | 1 => { t with echoState := { t.echoState with appCursorKeys := enable } }
  | _ => t

/-- `csi_dispatch`. -/
def csiDispatch (t : TerminalState) (params : List Param) (intermediates : List UInt8)
    (action : Char) : Option TerminalState :=
  if intermediates = [0x3F] then
    if action = 'h' ∨ action = 'l' then some (params.foldl (privateMode (action = 'h')) t)
    else some t
  else
    let n := cursorCount params
    let row := t.cursor.row
    let col := t.cursor.col
    match action with
    | 'A' => some { t with cursor := ⟨row - n, col⟩ }
    | 'B' => some { t with cursor := ⟨min (min (row + n) u16Max) (t.rows - 1), col⟩ }
    | 'C' => some { t with cursor := ⟨row, min (min (col + n) u16Max) (t.cols - 1)⟩ }
    | 'D' => some { t with cursor := ⟨row, col - n⟩ }
    | 'H' | 'f' =>
        let newRow := max (firstParam params) 1 - 1
        let newCol := max (firstParam params.tail) 1 - 1
        some { t with cursor := ⟨min newRow (t.rows - 1), min newCol (t.cols - 1)⟩ }
    | 'J' => t.eraseDisplay (firstParam params)
    | 'K' => t.eraseLine (firstParam params)
    | 'm' => some (t.handleSgr params)
    | _ => some t

/-- `esc_dispatch`: RIS resets the screen, everything else is ignored. -/
def escDispatch (t : TerminalState) (byte : UInt8) : TerminalState :=
  if byte = 0x63 then new t.cols t.rows else t

/-- One dispatch of the parser. -/
def dispatch (width : Char → Option ℕ) (t : TerminalState) : Dispatch → Option TerminalState
  | .print c => t.printChar width c
  | .execute byte => t.execute byte
  | .csi params intermediates action => t.csiDispatch params intermediates action
  | .esc byte => some (t.escDispatch byte)

/-- A sequence of dispatches. -/
def feed (width : Char → Option ℕ) (t : TerminalState) : List Dispatch → Option TerminalState
  | [] => some t
  | d :: ds => (t.dispatch width d).bind fun t' => feed width t' ds

/-- `TerminalState::size`. -/
def size (t : TerminalState) : ℕ × ℕ := (t.cols, t.rows)

/-- What `build_state_diff` reads under the lock. -/
def snapshot (t : TerminalState) : Snapshot where
  cols := t.cols
  rows := t.rows
  cursor := t.cursor
  altScreen := t.echoState.altScreen
  cells := t.grid

end TerminalState

end Nosh.Server
