import Nosh.Server.CellEdits
import Nosh.Server.Panic

/-!
# The terminal as a window on an endless page

What a terminal is for, said without a scrollback and without a cap: output is
written on a page that has no end, through a window that moves down one row when
the cursor would leave it at the bottom.  Lines are never removed; the window has
left them behind.

## Main Definitions

* `Paper` — the page, the window, the cursor in the window and the pen.
* `PageOp`, `Paper.act` — the operations on a page.
* `PageOp.ofDispatch` — the dispatches that ask for one of them.
* `Paper.Shows` — the terminal holds the window and the last lines above it.

## Main Results

* `Paper.Shows.dispatch` — one dispatch is one operation on the page.
* `terminal_refines_paper` — **scrollback and grid are the last rows of the page**, and
  the cursors agree.
-/

namespace Nosh.Server

open Lib Proto

/-! ## The page -/

/-- A part of a line or of the window, seen from the cursor. -/
inductive Part
  | toEnd
  | toStart
  | whole
  deriving DecidableEq, Repr

/-- What output asks of a page. -/
inductive PageOp
  | print (c : Char)
  | carriageReturn
  | lineFeed
  | backspace
  | up (n : ℕ)
  | down (n : ℕ)
  | right (n : ℕ)
  | left (n : ℕ)
  | goTo (row col : ℕ)
  | eraseLine (part : Part)
  | eraseDisplay (part : Part)
  | pen (params : List Param)
  deriving DecidableEq, Repr

/-- An endless page, with a window on it and a pen. -/
structure Paper where
  page : ℕ → ℕ → Cell
  /-- The first row of the window. -/
  top : ℕ
  /-- Counted from the top of the window. -/
  cursor : CursorPos
  sgr : SgrState

namespace Paper

/-- An empty page, with the window at its top. -/
def blank : Paper := ⟨fun _ _ => Cell.blank, 0, ⟨0, 0⟩, .default⟩

/-- The row of the page that the cursor is on. -/
def row (p : Paper) : ℕ := p.top + p.cursor.row

/-- Fill a region of the page. -/
def fill (p : Paper) (region : ℕ → ℕ → Prop) [∀ r c, Decidable (region r c)] (cell : Cell) :
    Paper :=
  { p with page := fun r c => if region r c then cell else p.page r c }

/-- The columns of the cursor's line in a part. -/
def InLine (p : Paper) : Part → ℕ → Prop
  | .toEnd, c => p.cursor.col ≤ c
  | .toStart, c => c ≤ p.cursor.col
  | .whole, _ => True

instance (p : Paper) : ∀ part c, Decidable (p.InLine part c)
  | .toEnd, _ | .toStart, _ => inferInstanceAs (Decidable (_ ≤ _))
  | .whole, _ => inferInstanceAs (Decidable True)

/-- The cells of the page in a part of the window, in reading order. -/
def InDisplay (p : Paper) : Part → ℕ → ℕ → Prop
  | .toEnd, r, c => p.row < r ∨ r = p.row ∧ p.cursor.col ≤ c
  | .toStart, r, c => r < p.row ∨ r = p.row ∧ c ≤ p.cursor.col
  | .whole, _, _ => True

instance (p : Paper) : ∀ part r c, Decidable (p.InDisplay part r c)
  | .toEnd, _, _ | .toStart, _, _ => inferInstanceAs (Decidable (_ ∨ _))
  | .whole, _, _ => inferInstanceAs (Decidable True)

section Act

variable (cols rows : ℕ)

/-- One row down; at the bottom of the window it is the window that moves. -/
def lineFeed (p : Paper) : Paper :=
  if p.cursor.row + 1 < rows then { p with cursor := ⟨p.cursor.row + 1, p.cursor.col⟩ }
  else { p with top := p.top + 1 }

/-- A character under the cursor; after the last column the next line begins. -/
def print (p : Paper) (c : Char) : Paper :=
  let written := p.fill (fun r col => r = p.row ∧ col = p.cursor.col) (p.sgr.cell c false)
  if p.cursor.col + 1 < cols then
    { written with cursor := ⟨p.cursor.row, p.cursor.col + 1⟩ }
  else lineFeed rows { written with cursor := ⟨p.cursor.row, 0⟩ }

/-- One operation on the page. -/
def act (p : Paper) : PageOp → Paper
  | .print c => p.print cols rows c
  | .carriageReturn => { p with cursor := ⟨p.cursor.row, 0⟩ }
  | .lineFeed => p.lineFeed rows
  | .backspace => { p with cursor := ⟨p.cursor.row, p.cursor.col - 1⟩ }
  | .up n => { p with cursor := ⟨p.cursor.row - n, p.cursor.col⟩ }
  | .down n => { p with cursor := ⟨min (p.cursor.row + n) (rows - 1), p.cursor.col⟩ }
  | .right n => { p with cursor := ⟨p.cursor.row, min (p.cursor.col + n) (cols - 1)⟩ }
  | .left n => { p with cursor := ⟨p.cursor.row, p.cursor.col - n⟩ }
  | .goTo row col => { p with cursor := ⟨min row (rows - 1), min col (cols - 1)⟩ }
  | .eraseLine part => p.fill (fun r c => r = p.row ∧ p.InLine part c) Cell.blank
  | .eraseDisplay part =>
      p.fill (fun r c => p.top ≤ r ∧ r < p.top + rows ∧ p.InDisplay part r c) Cell.blank
  | .pen params =>
      { p with
        sgr := if params.isEmpty then .default else TerminalState.sgrLoop params p.sgr }

/-- The number of rows from the top of the page to the bottom of the window. -/
def total (p : Paper) : ℕ := p.top + rows

/-- The last `n` rows of the page down to the bottom of the window. -/
def lastRows (p : Paper) (n : ℕ) : Grid Cell := Grid.window p.page cols (p.total rows - n) n

end Act

end Paper

/-! ## Dispatches -/

/-- The parts that the parameter of an erase names. -/
def Part.ofParam : ℕ → Option Part
  | 0 => some .toEnd
  | 1 => some .toStart
  | 2 => some .whole
  | _ => none

open TerminalState in
/-- The operation that a control sequence asks for: a cursor motion, an erase of a part, or SGR. -/
def PageOp.ofCsi (params : List Param) : Char → Option PageOp
  | 'A' => some (.up (cursorCount params))
  | 'B' => some (.down (cursorCount params))
  | 'C' => some (.right (cursorCount params))
  | 'D' => some (.left (cursorCount params))
  | 'H' => some (.goTo (max (firstParam params) 1 - 1) (max (firstParam params.tail) 1 - 1))
  | 'J' => (Part.ofParam (firstParam params)).map .eraseDisplay
  | 'K' => (Part.ofParam (firstParam params)).map .eraseLine
  | 'm' => some (.pen params)
  | _ => none

/-- The operation that a dispatch asks for: a width-1 print, CR, LF, BS, or a control sequence that
is not private. -/
def PageOp.ofDispatch (width : Char → Option ℕ) : Dispatch → Option PageOp
  | .print c => if width c = some 1 then some (.print c) else none
  | .execute byte =>
      if byte = 0x0D then some .carriageReturn
      else if byte = 0x0A then some .lineFeed
      else if byte = 0x08 then some .backspace
      else none
  | .csi params intermediates action =>
      if intermediates = [0x3F] then none else PageOp.ofCsi params action
  | .esc _ => none

namespace Paper

variable {width : Char → Option ℕ} {n : ℕ} {part : Part}

/-! ## The simulation -/

/-- The terminal holds the window of the page and the last lines above it; below the window the
page is still blank. -/
structure Shows (cols rows : ℕ) (t : TerminalState) (p : Paper) : Prop where
  size : t.size = (cols, rows)
  primary : t.echoState.altScreen = false
  cursor : t.cursor = p.cursor
  sgr : t.sgr = p.sgr
  grid : t.grid = Grid.window p.page cols p.top rows
  scrollback : t.scrollback =
    Grid.window p.page cols (p.top - scrollbackLineCap) (min p.top scrollbackLineCap)
  below : ∀ r, p.top + rows ≤ r → ∀ c, p.page r c = Cell.blank

variable {cols rows : ℕ} {t t' : TerminalState} {p : Paper}

theorem shows_blank (cols rows : ℕ) : Shows cols rows (.new cols rows) blank where
  size := rfl
  primary := rfl
  cursor := rfl
  sgr := rfl
  grid := (Grid.window_const ..).symm
  scrollback := rfl
  below := fun _ _ _ => rfl

/-- The cursor moves on the page as it does in the terminal. -/
theorem Shows.moved (h : Shows cols rows t p) (cursor : CursorPos) :
    Shows cols rows { t with cursor := cursor } { p with cursor := cursor } :=
  { h with cursor := rfl }

/-- Cells inside the window are changed in the grid and on the page. -/
theorem Shows.filled (h : Shows cols rows t p) {region : ℕ → ℕ → Prop}
    [∀ r c, Decidable (region r c)] {cell : Cell} {f : ℕ → ℕ → Cell → Cell}
    (hinside : ∀ r c, region r c → p.top ≤ r ∧ r < p.top + rows)
    (hf : ∀ r < rows, ∀ c old, f r c old = if region (p.top + r) c then cell else old) :
    Shows cols rows { t with grid := t.grid.edit f } (p.fill region cell) where
  size := h.size
  primary := h.primary
  cursor := h.cursor
  sgr := h.sgr
  grid := by
    dsimp only
    rw [h.grid]
    exact Grid.edit_window fun r hr c _ => (hf r hr c _).symm
  scrollback := by
    refine h.scrollback.trans (Grid.window_congr fun r _ hr c _ => ?_)
    refine (if_neg fun hregion => ?_).symm
    have := hinside r c hregion
    omega
  below := by
    intro r hr c
    refine (if_neg fun hregion => ?_).trans (h.below r hr c)
    have := hinside r c hregion
    exact absurd this.2 (Nat.not_lt_of_ge hr)

/-- The line that leaves the window is the newest one above it. -/
theorem pushScrollback_window (page : ℕ → ℕ → Cell) (cols top : ℕ) :
    TerminalState.pushScrollback
        (Grid.window page cols (top - scrollbackLineCap) (min top scrollbackLineCap))
        (Grid.line page cols top) =
      Grid.window page cols (top + 1 - scrollbackLineCap) (min (top + 1) scrollbackLineCap) := by
  unfold TerminalState.pushScrollback
  dsimp only
  generalize scrollbackLineCap = cap
  have hpush : Grid.window page cols (top - cap) (min top cap) ++ [Grid.line page cols top] =
      Grid.window page cols (top - cap) (min top cap + 1) := by
    have htop : top - cap + min top cap = top := by omega
    rw [← Grid.window_append, htop]
    rfl
  rw [hpush, Grid.length_window]
  split
  · next hfull =>
      have htop : top - cap + 1 = top + 1 - cap := by omega
      have hlen : min top cap + 1 - 1 = min (top + 1) cap := by omega
      rw [Grid.tail_window, htop, hlen]
  · next hroom =>
      have htop : top - cap = top + 1 - cap := by omega
      have hlen : min top cap + 1 = min (top + 1) cap := by omega
      rw [htop, hlen]

theorem Shows.scrollUp (h : Shows cols rows t p) (hrows : 1 ≤ rows)
    (hs : t.scrollUp = some t') : Shows cols rows t' { p with top := p.top + 1 } := by
  have hcols' : t.cols = cols := congrArg Prod.fst h.size
  have hrows' : t.rows = rows := congrArg Prod.snd h.size
  obtain ⟨n, rfl⟩ : ∃ n, rows = n + 1 := ⟨rows - 1, by omega⟩
  have hgrid := h.grid
  rw [Grid.window_succ] at hgrid
  unfold TerminalState.scrollUp at hs
  rw [if_neg (by omega), hgrid] at hs
  cases hs
  refine ⟨h.size, h.primary, h.cursor, h.sgr, ?_, ?_, fun r hr c => ?_⟩
  · -- the row that enters at the bottom is still blank on the page
    have hnew : [List.replicate cols Cell.blank] =
        Grid.window p.page cols (p.top + 1 + n) 1 := by
      have hblank : Grid.window p.page cols (p.top + 1 + n) 1 =
          Grid.window (fun _ _ => Cell.blank) cols (p.top + 1 + n) 1 :=
        Grid.window_congr fun r hr _ c _ => h.below r (by omega) c
      rw [hblank, Grid.window_const]
      rfl
    dsimp only
    rw [hcols', hnew, Grid.window_append]
  · dsimp only
    rw [h.primary, if_neg Bool.false_ne_true, h.scrollback]
    exact pushScrollback_window p.page cols p.top
  · dsimp only at hr
    exact h.below r (by omega) c

theorem Shows.lf (h : Shows cols rows t p) (hrows : 1 ≤ rows) (hs : t.lf = some t') :
    Shows cols rows t' (p.lineFeed rows) := by
  have hrows' : t.rows = rows := congrArg Prod.snd h.size
  have hrow : t.cursor.row = p.cursor.row := congrArg CursorPos.row h.cursor
  unfold TerminalState.lf at hs
  unfold lineFeed
  split at hs
  · rw [if_neg (by omega)]
    exact h.scrollUp hrows hs
  · cases hs
    rw [if_pos (by omega), h.cursor]
    exact h.moved _

theorem Shows.printChar (h : Shows cols rows t p) (hrep : t.Represented) (hmax : cols ≤ u16Max)
    (hcols : 1 ≤ cols) (hrows : 1 ≤ rows) {c : Char} (hc : width c = some 1)
    (hs : t.printChar width c = some t') : Shows cols rows t' (p.print cols rows c) := by
  have hcols' : t.cols = cols := congrArg Prod.fst h.size
  have hrows' : t.rows = rows := congrArg Prod.snd h.size
  have hrow := hrep.cursor.1
  have hcol := hrep.cursor.2
  have hnarrow : (if width c = some 2 then 2 else 1) = 1 := by
    rw [hc]
    rfl
  rw [TerminalState.printChar_eq hrep.cursor (by rw [hc]; decide), hnarrow] at hs
  dsimp only at hs
  rw [Nat.min_eq_left (by omega), h.cursor] at hs
  rw [h.cursor] at hrow hcol
  have hwritten : Shows cols rows { t with grid := t.grid.edit (t.printed c 1) }
      (p.fill (fun r col => r = p.row ∧ col = p.cursor.col) (p.sgr.cell c false)) := by
    refine h.filled (fun r col hregion => ?_) fun r _ col old => ?_
    · rw [hregion.1, row]
      omega
    · unfold TerminalState.printed row
      rw [h.cursor, h.sgr]
      by_cases hr : r = p.cursor.row <;> by_cases hcol : col = p.cursor.col <;> simp [hr, hcol]
  unfold print
  dsimp only
  split at hs
  · rw [if_neg (by omega)]
    exact (hwritten.moved _).lf hrows hs
  · cases hs
    rw [if_pos (by omega)]
    exact hwritten.moved _

theorem lineErased_iff (hpart : Part.ofParam n = some part) (r c : ℕ) :
    TerminalState.LineErased p.cursor n r c ↔ p.top + r = p.row ∧ p.InLine part c := by
  have hr : p.top + r = p.row ↔ r = p.cursor.row := Nat.add_left_cancel_iff
  unfold TerminalState.LineErased
  rw [hr]
  match n with
  | 0 | 1 | 2 =>
      cases hpart
      simp [InLine]
  | n + 3 => cases hpart

theorem displayErased_iff (hpart : Part.ofParam n = some part) (r c : ℕ) :
    TerminalState.DisplayErased p.cursor n r c ↔ p.InDisplay part (p.top + r) c := by
  unfold TerminalState.DisplayErased
  match n with
  | 0 | 1 | 2 =>
      cases hpart
      simp [InDisplay, row]
  | n + 3 => cases hpart

variable (h : Shows cols rows t p)

include h

theorem Shows.eraseLine (hrow : p.cursor.row < rows) (hpart : Part.ofParam n = some part)
    (hs : t.eraseLine n = some t') : Shows cols rows t' (p.act cols rows (.eraseLine part)) := by
  rw [TerminalState.eraseLine_eq hs]
  change Shows cols rows _ (p.fill (fun r c => r = p.row ∧ p.InLine part c) Cell.blank)
  refine h.filled (fun r c hregion => ?_) fun r _ c old => ?_
  · rw [hregion.1, row]
    omega
  · refine if_congr ?_ rfl rfl
    rw [h.cursor]
    exact lineErased_iff hpart r c

theorem Shows.eraseDisplay (hpart : Part.ofParam n = some part) (hs : t.eraseDisplay n = some t') :
    Shows cols rows t' (p.act cols rows (.eraseDisplay part)) := by
  have hkeeps : ¬ n = 3 := by
    rintro rfl
    cases hpart
  rw [TerminalState.eraseDisplay_eq hs, if_neg hkeeps]
  change Shows cols rows _
    (p.fill (fun r c => p.top ≤ r ∧ r < p.top + rows ∧ p.InDisplay part r c) Cell.blank)
  refine h.filled (fun r c hregion => ⟨hregion.1, hregion.2.1⟩) fun r hr c old => ?_
  refine if_congr ?_ rfl rfl
  rw [h.cursor, displayErased_iff hpart]
  exact ⟨fun hin => ⟨Nat.le_add_right _ _, Nat.add_lt_add_left hr _, hin⟩, fun hin => hin.2.2⟩

theorem Shows.csiDispatch (hrep : t.Represented) (hrows : 1 ≤ rows) (hmaxCols : cols ≤ u16Max)
    (hmaxRows : rows ≤ u16Max) {params : List Param} {intermediates : List UInt8} {action : Char}
    {op : PageOp} (hpublic : intermediates ≠ [0x3F]) (hop : PageOp.ofCsi params action = some op)
    (hs : t.csiDispatch params intermediates action = some t') :
    Shows cols rows t' (p.act cols rows op) := by
  have hcols' : t.cols = cols := congrArg Prod.fst h.size
  have hrows' : t.rows = rows := congrArg Prod.snd h.size
  have hrow := hrep.cursor.1
  rw [h.cursor] at hrow
  unfold TerminalState.csiDispatch at hs
  rw [if_neg hpublic] at hs
  dsimp only at hs
  unfold PageOp.ofCsi at hop
  split at hop
  · cases hop
    cases hs
    rw [h.cursor]
    exact h.moved _
  · cases hop
    cases hs
    have hmin : min (min (t.cursor.row + TerminalState.cursorCount params) u16Max) (t.rows - 1) =
        min (p.cursor.row + TerminalState.cursorCount params) (rows - 1) := by
      rw [h.cursor]
      omega
    rw [hmin, h.cursor]
    exact h.moved _
  · cases hop
    cases hs
    have hmin : min (min (t.cursor.col + TerminalState.cursorCount params) u16Max) (t.cols - 1) =
        min (p.cursor.col + TerminalState.cursorCount params) (cols - 1) := by
      rw [h.cursor]
      omega
    rw [hmin, h.cursor]
    exact h.moved _
  · cases hop
    cases hs
    rw [h.cursor]
    exact h.moved _
  · cases hop
    cases hs
    have hlastRow : t.rows - 1 = rows - 1 := by rw [hrows']
    have hlastCol : t.cols - 1 = cols - 1 := by rw [hcols']
    rw [hlastRow, hlastCol]
    exact h.moved _
  · obtain ⟨part, hpart, rfl⟩ := Option.map_eq_some_iff.mp hop
    exact h.eraseDisplay hpart hs
  · obtain ⟨part, hpart, rfl⟩ := Option.map_eq_some_iff.mp hop
    exact h.eraseLine (by omega) hpart hs
  · cases hop
    cases hs
    refine { h with sgr := ?_ }
    change (if _ then _ else _) = if _ then _ else _
    rw [h.sgr]
  · cases hop

/-- **One dispatch is one operation on the page.** -/
theorem Shows.dispatch (hrep : t.Represented) (hcols : 1 ≤ cols) (hrows : 1 ≤ rows)
    (hmaxCols : cols ≤ u16Max) (hmaxRows : rows ≤ u16Max) {d : Dispatch} {op : PageOp}
    (hop : PageOp.ofDispatch width d = some op) (hs : t.dispatch width d = some t') :
    Shows cols rows t' (p.act cols rows op) := by
  cases d with
  | print c =>
      rw [PageOp.ofDispatch] at hop
      split at hop
      · next hc =>
          cases hop
          exact h.printChar hrep hmaxCols hcols hrows hc hs
      · cases hop
  | execute byte =>
      rw [PageOp.ofDispatch] at hop
      change t.execute byte = some t' at hs
      unfold TerminalState.execute at hs
      split at hop
      · next hcr =>
          cases hop
          rw [if_pos hcr] at hs
          cases hs
          rw [h.cursor]
          exact h.moved _
      · next hcr =>
          rw [if_neg hcr] at hs
          split at hop
          · next hlf =>
              cases hop
              rw [if_pos (Or.inl hlf)] at hs
              exact h.lf hrows hs
          · split at hop
            · next hbs =>
                cases hop
                rw [hbs, if_neg (by decide), if_pos rfl] at hs
                cases hs
                rw [h.cursor]
                exact h.moved _
            · cases hop
  | csi params intermediates action =>
      rw [PageOp.ofDispatch] at hop
      split at hop
      · cases hop
      · next hpublic => exact h.csiDispatch hrep hrows hmaxCols hmaxRows hpublic hop hs
  | esc byte => cases hop

/-- The terminal and the page after a run of operations. -/
theorem Shows.feed (hrep : t.Represented) (hcols : 1 ≤ cols) (hrows : 1 ≤ rows)
    (hmaxCols : cols ≤ u16Max) (hmaxRows : rows ≤ u16Max) {ds : List Dispatch} {ops : List PageOp}
    (hops : ds.map (PageOp.ofDispatch width) = ops.map some) :
    ∃ t', t.feed width ds = some t' ∧ Shows cols rows t' (ops.foldl (act cols rows) p) := by
  induction ds generalizing t p ops with
  | nil =>
      rw [List.map_nil, eq_comm, List.map_eq_nil_iff] at hops
      subst hops
      exact ⟨t, rfl, h⟩
  | cons d ds ih =>
      obtain ⟨op, ops', rfl, hop, hops⟩ := List.map_eq_cons_iff.mp hops.symm
      have hwide : ¬ t.NoColumns := by
        have hcols' : t.cols = cols := congrArg Prod.fst h.size
        rintro ⟨hzero, -⟩
        omega
      obtain ⟨t₁, hs⟩ := Option.isSome_iff_exists.mp
        ((TerminalState.dispatch_isSome_iff hrep width d).mpr fun hpanic => hwide hpanic.2)
      obtain ⟨t', hfeed, hshows⟩ :=
        ih (h.dispatch hrep hcols hrows hmaxCols hmaxRows hop.symm hs) (hrep.dispatch hs)
          hops.symm
      refine ⟨t', ?_, hshows⟩
      rw [TerminalState.feed, hs, Option.bind_some, hfeed]

/-- The window and the lines above it that the scrollback has room for. -/
theorem Shows.history :
    t.scrollback ++ t.grid =
      p.lastRows cols rows (min (p.total rows) (scrollbackLineCap + rows)) := by
  rw [h.scrollback, h.grid, lastRows, total]
  generalize scrollbackLineCap = cap
  have htop : p.top - cap + min p.top cap = p.top := by omega
  have hfirst : p.top + rows - min (p.top + rows) (cap + rows) = p.top - cap := by omega
  have hcount : min (p.top + rows) (cap + rows) = min p.top cap + rows := by omega
  have happend := Grid.window_append p.page cols (p.top - cap) (min p.top cap) rows
  rw [htop] at happend
  rw [happend, hfirst, hcount]

end Paper

/-- **The terminal refines the page.**  A terminal of any size takes any sequence of width-1
prints, CR, LF, BS, cursor motions, erases and SGR.  Scrollback and grid together are then the last
rows of the page down to the bottom of the window, as many as the cap leaves, and the cursor is
where it is in the window. -/
theorem terminal_refines_paper {cols rows : ℕ} (hcols : 1 ≤ cols) (hrows : 1 ≤ rows)
    (hmaxCols : cols ≤ u16Max) (hmaxRows : rows ≤ u16Max) {width : Char → Option ℕ}
    {ds : List Dispatch} {ops : List PageOp}
    (hops : ds.map (PageOp.ofDispatch width) = ops.map some) :
    ∃ t, (TerminalState.new cols rows).feed width ds = some t ∧
      t.scrollback ++ t.grid =
        (ops.foldl (Paper.act cols rows) Paper.blank).lastRows cols rows
          (min ((ops.foldl (Paper.act cols rows) Paper.blank).total rows)
            (scrollbackLineCap + rows)) ∧
      t.cursor = (ops.foldl (Paper.act cols rows) Paper.blank).cursor := by
  obtain ⟨t, hfeed, hshows⟩ := (Paper.shows_blank cols rows).feed
    (TerminalState.represented_new cols rows) hcols hrows hmaxCols hmaxRows hops
  exact ⟨t, hfeed, hshows.history, hshows.cursor⟩

/-- Four letters on two rows of two columns: the window moves as the second row is full.  Then the
rows up to the cursor are erased from the row above. -/
def fourLetters : List Dispatch :=
  [.print 'a', .print 'b', .print 'c', .print 'd', .csi [] [] 'A', .csi [(1, [])] [] 'J']

theorem terminal_refines_paper_fourLetters :
    ∃ t, (TerminalState.new 2 2).feed (fun _ => some 1) fourLetters = some t ∧
      t.scrollback ++ t.grid =
        [[⟨'a', ⟨0⟩, none, none, false⟩, ⟨'b', ⟨0⟩, none, none, false⟩],
          [Cell.blank, ⟨'d', ⟨0⟩, none, none, false⟩], [Cell.blank, Cell.blank]] ∧
      t.cursor = ⟨0, 0⟩ := by
  have hops : fourLetters.map (PageOp.ofDispatch fun _ => some 1) =
      [PageOp.print 'a', .print 'b', .print 'c', .print 'd', .up 1,
        .eraseDisplay .toStart].map some := by decide
  have hsize : 1 ≤ 2 ∧ 2 ≤ u16Max := by decide
  obtain ⟨t, hfeed, hhistory, hcursor⟩ :=
    terminal_refines_paper hsize.1 hsize.1 hsize.2 hsize.2 hops
  exact ⟨t, hfeed, hhistory.trans (by decide), hcursor.trans (by decide)⟩

end Nosh.Server
