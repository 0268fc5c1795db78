import Nosh.Client.Render
import Nosh.Lib.Vt

/-!
# Painting on an ideal terminal

What the tokens of the renderers do to an ideal terminal, and what `emit_diff` makes of its display.

`emit_diff` moves the cursor and sets the attributes only where what it wrote last does not leave
them right. It paints the cells in which the desired grid differs from the physical one and no
others, so that the display is the desired grid afterwards exactly when it showed it before in all
the other cells.

## Main Definitions

* `Token.act` — what a token does to the screen
* `looks` — how a grid of cells is displayed
* `Tracks` — what `emit_diff` remembers is where the screen is

## Main Results

* `Token.run_flatMap_chars` — the parser of a terminal reads plain tokens one by one.
* `exec_encode` — executing the bytes of plain tokens.
* `emitDiff_grid` — `emit_diff` writes the cells that differ.
* `emitDiff_grid_eq_iff` — when the display is the desired grid afterwards.
-/

namespace Nosh.Client

open Nosh.Lib Nosh.Proto

variable {rows cols : ℕ} {desired physical : Grid Cell}

/-! ## Tokens -/

/-- The look of attributes. The reserved bits of a style are not displayed. -/
def Sgr.look : Sgr → Vt.Look
  | (style, fg, bg) =>
      ⟨style.bits &&& CellStyle.bold ≠ 0, style.bits &&& CellStyle.italic ≠ 0,
        style.bits &&& CellStyle.underline ≠ 0, style.bits &&& CellStyle.reverse ≠ 0,
        fg.map UInt8.toNat, bg.map UInt8.toNat⟩

/-- The numbers of an SGR sequence after the reset. -/
def Sgr.codes : Sgr → List ℕ
  | (style, fg, bg) =>
      (if style.bits &&& CellStyle.bold ≠ 0 then [1] else [])
        ++ ((if style.bits &&& CellStyle.italic ≠ 0 then [3] else [])
        ++ ((if style.bits &&& CellStyle.underline ≠ 0 then [4] else [])
        ++ ((if style.bits &&& CellStyle.reverse ≠ 0 then [7] else [])
        ++ ((fg.elim [] fun n => [38, 5, n.toNat]) ++ bg.elim [] fun n => [48, 5, n.toNat]))))

theorem Sgr.params_eq (attributes : Sgr) : attributes.params =
    Nat.toDigits 10 0 ++ attributes.codes.flatMap fun n => ';' :: Nat.toDigits 10 n := by
  obtain ⟨style, fg, bg⟩ := attributes
  have hflag : ∀ (flag : Prop) [Decidable flag] (n : ℕ) (digit : Char),
      Nat.toDigits 10 n = [digit] → (if flag then [';', digit] else []) =
        (if flag then [n] else []).flatMap fun n => ';' :: Nat.toDigits 10 n := by
    intro flag _ n digit hdigit
    split
    · rw [List.flatMap_singleton, hdigit]
    · rfl
  simp only [params, codes, List.flatMap_append, List.append_assoc]
  rw [hflag _ 1 '1' rfl, hflag _ 3 '3' rfl, hflag _ 4 '4' rfl, hflag _ 7 '7' rfl]
  iterate 5 refine congrArg (List.append _) ?_
  refine congrArg₂ List.append ?_ ?_
  · cases fg with
    | none => rfl
    | some n => exact congrArg (List.append _) (List.append_nil _).symm
  · cases bg with
    | none => rfl
    | some n => exact congrArg (List.append _) (List.append_nil _).symm

/-- Attributes are displayed as they are, whatever was set before. -/
theorem Sgr.sgr_codes (attributes : Sgr) (before : Vt.Look) :
    before.sgr (0 :: attributes.codes) = attributes.look := by
  obtain ⟨style, fg, bg⟩ := attributes
  -- each flag is set or left out
  have hflag : ∀ (flag : Prop) [Decidable flag] (n : ℕ) (set : Bool → Vt.Look) (rest : List ℕ),
      (set false).sgr (n :: rest) = (set true).sgr rest →
        (set false).sgr ((if flag then [n] else []) ++ rest) = (set (decide flag)).sgr rest := by
    intro flag _ n set rest hset
    by_cases hflag : flag
    · rw [if_pos hflag, decide_eq_true hflag]
      exact hset
    · rw [if_neg hflag, decide_eq_false hflag]
      rfl
  refine (hflag _ 1 (fun bold => ⟨bold, false, false, false, none, none⟩) _ rfl).trans ?_
  refine (hflag _ 3 (fun italic => ⟨_, italic, false, false, none, none⟩) _ rfl).trans ?_
  refine (hflag _ 4 (fun underline => ⟨_, _, underline, false, none, none⟩) _ rfl).trans ?_
  refine (hflag _ 7 (fun reverse => ⟨_, _, _, reverse, none, none⟩) _ rfl).trans ?_
  cases fg <;> cases bg <;> rfl

namespace Token

/-- What the parser of a terminal makes of a token. -/
def commands : Token → List Vt.Command
  | moveTo col row => [.csi [(row + 1) % 65536, (col + 1) % 65536] 'H']
  | sgr attributes => [.csi (0 :: attributes.codes) 'm']
  | clear => [.csi [2] 'J', .csi [0] 'H']
  | text ch => [.print ch]

theorem run_chars {token : Token} (h : token.Plain) :
    Vt.Parse.ground.run token.chars = (.ground, token.commands) := by
  cases token with
  | moveTo col row =>
      have hchars : chars (moveTo col row) =
          ['\x1b', '['] ++ (Nat.toDigits 10 ((row + 1) % 65536) ++
            (([(col + 1) % 65536].flatMap fun n => ';' :: Nat.toDigits 10 n) ++ ['H'])) := by
        simp [chars, decimal]
      rw [hchars, Vt.Parse.run_csi _ _ (by decide)]
      rfl
  | sgr attributes =>
      have hchars : chars (sgr attributes) = ['\x1b', '['] ++ (Nat.toDigits 10 0 ++
          ((attributes.codes.flatMap fun n => ';' :: Nat.toDigits 10 n) ++ ['m'])) := by
        rw [chars, attributes.params_eq, List.append_assoc, List.append_assoc]
      rw [hchars, Vt.Parse.run_csi _ _ (by decide)]
      rfl
  | clear => rfl
  | text ch =>
      refine Vt.Parse.run_print ?_
      have hplain := isControl_eq_false.mp h
      unfold Vt.IsControl
      omega

/-- **The parser reads plain tokens** one by one. -/
theorem run_flatMap_chars {tokens : List Token} (h : ∀ token ∈ tokens, token.Plain) :
    Vt.Parse.ground.run (tokens.flatMap chars) = (.ground, tokens.flatMap commands) := by
  induction tokens with
  | nil => rfl
  | cons token tokens ih =>
      obtain ⟨htoken, hrest⟩ := List.forall_mem_cons.mp h
      rw [List.flatMap_cons, Vt.Parse.run_append, run_chars htoken, ih hrest, List.flatMap_cons]

/-- What a token does to the screen. -/
def act (s : Vt.Screen cols rows) : Token → Vt.Screen cols rows
  | moveTo col row => s.moveTo ((row + 1) % 65536) ((col + 1) % 65536)
  | sgr attributes => { s with look := attributes.look }
  | clear => s.erase.moveTo 1 1
  | text ch => s.print ch

theorem foldl_commands (token : Token) (s : Vt.Screen cols rows) :
    token.commands.foldl Vt.Screen.command s = token.act s := by
  cases token with
  | sgr attributes =>
      change { s with look := s.look.sgr (0 :: attributes.codes) } = _
      rw [attributes.sgr_codes]
      rfl
  | moveTo col row => rfl
  | clear => rfl
  | text ch => rfl

end Token

/-- What tokens do to the screen. -/
def actAll {cols rows : ℕ} (s : Vt.Screen cols rows) (tokens : List Token) : Vt.Screen cols rows :=
  tokens.foldl Token.act s

theorem actAll_append (s : Vt.Screen cols rows) (tokens tokens' : List Token) :
    actAll s (tokens ++ tokens') = actAll (actAll s tokens) tokens' :=
  List.foldl_append

/-- **Executing the bytes of plain tokens.** -/
theorem exec_encode {tokens : List Token} (h : ∀ token ∈ tokens, token.Plain)
    (s : Vt.Screen cols rows) :
    Vt.Terminal.exec ⟨s, .ground⟩ (Utf8.encode (tokens.flatMap Token.chars)) =
      ⟨actAll s tokens, .ground⟩ := by
  rw [Vt.Terminal.exec, Utf8.decodeLossy_encode, Token.run_flatMap_chars h]
  dsimp only
  rw [List.foldl_flatMap]
  simp only [Token.foldl_commands]
  rfl

/-! ## Displayed grids -/

/-- How a cell is displayed. -/
def glyph (cell : Cell) : Vt.Glyph := ⟨cell.ch, Sgr.look (cell.style, cell.fg, cell.bg)⟩

/-- How a grid of cells is displayed. -/
def looks (grid : Grid Cell) : Grid Vt.Glyph := grid.map fun row => row.map glyph

theorem cellAt_looks (grid : Grid Cell) (r c : ℕ) :
    (looks grid).cellAt r c = (grid.cellAt r c).map glyph := by
  unfold looks Grid.cellAt
  rw [List.getElem?_map]
  cases grid[r]? with
  | none => rfl
  | some row => exact List.getElem?_map

theorem hasShape_looks {grid : Grid Cell} (h : grid.HasShape rows cols) :
    (looks grid).HasShape rows cols := by
  refine ⟨(List.length_map _).trans h.1, ?_⟩
  intro row hrow
  obtain ⟨cells, hcells, rfl⟩ := List.mem_map.mp hrow
  exact (List.length_map _).trans (h.2 cells hcells)

section

variable (hdesired : desired.HasShape rows cols) (hphysical : physical.HasShape rows cols)

include hdesired hphysical

/-- The loop of `emit_diff` is not cut short if both grids have the shape. -/
theorem diffCells_eq :
    diffCells desired physical = (desired.zip physical).zipIdx.flatMap fun line =>
      (line.1.1.zip line.1.2).zipIdx.map fun cell => (line.2, cell.2, cell.1.1, cell.1.2) := by
  unfold diffCells
  dsimp only
  rw [List.take_of_length_le (by rw [List.length_zipIdx, List.length_zip])]
  refine List.flatMap_congr ?_
  rintro ⟨⟨desRow, physRow⟩, r⟩ hmem
  have hpair := List.of_mem_zip (List.fst_mem_of_mem_zipIdx hmem)
  have hhead : ∀ {g : Grid Cell}, g.HasShape rows cols → g ≠ [] → (g.headD []).length = cols := by
    intro g hg hne
    cases g with
    | nil => exact absurd rfl hne
    | cons first rest => exact hg.2 first List.mem_cons_self
  dsimp only
  rw [hhead hdesired (List.ne_nil_of_mem hpair.1), hhead hphysical (List.ne_nil_of_mem hpair.2),
    List.take_of_length_le]
  rw [List.length_zipIdx, List.length_zip, hdesired.2 _ hpair.1, hphysical.2 _ hpair.2]

/-- The cells that `emit_diff` goes through are those of the two grids, side by side. -/
theorem mem_diffCells_iff {row col : ℕ} {want present : Cell} :
    (row, col, want, present) ∈ diffCells desired physical ↔
      desired.cellAt row col = some want ∧ physical.cellAt row col = some present := by
  unfold Grid.cellAt
  rw [diffCells_eq hdesired hphysical, List.mem_flatMap]
  constructor
  · rintro ⟨line, hline, hmem⟩
    obtain ⟨cell, hcell, heq⟩ := List.mem_map.mp hmem
    rw [List.mem_zipIdx_iff_getElem?, List.getElem?_zip_eq_some] at hline hcell
    cases heq
    rw [hline.1, hline.2]
    exact hcell
  · rintro ⟨hwant, hpresent⟩
    obtain ⟨desRow, hdesRow, hwant⟩ := Option.bind_eq_some_iff.mp hwant
    obtain ⟨physRow, hphysRow, hpresent⟩ := Option.bind_eq_some_iff.mp hpresent
    refine ⟨((desRow, physRow), row), ?_, List.mem_map.mpr ⟨((want, present), col), ?_, rfl⟩⟩
    · rw [List.mem_zipIdx_iff_getElem?, List.getElem?_zip_eq_some]
      exact ⟨hdesRow, hphysRow⟩
    · rw [List.mem_zipIdx_iff_getElem?, List.getElem?_zip_eq_some]
      exact ⟨hwant, hpresent⟩

/-- What `emit_diff` remembers afterwards is what it was asked for. -/
theorem commit_eq : commit desired physical = desired := by
  have hlen : desired.length = physical.length := hdesired.1.trans hphysical.1.symm
  unfold commit
  rw [List.drop_of_length_le hlen.ge, List.append_nil]
  refine List.ext_getElem ?_ fun r hr hr' => ?_
  · rw [List.length_zipWith, hlen, Nat.min_self]
  · have hrow := hdesired.2 _ (List.getElem_mem hr')
    have hrow' := hphysical.2 _ (List.getElem_mem (hlen ▸ hr'))
    rw [List.getElem_zipWith, List.take_of_length_le (hrow.trans hrow'.symm).le,
      List.drop_of_length_le (hrow'.trans hrow.symm).le, List.append_nil]

end

/-! ## The loop of `emit_diff` -/

/-- What a turn of the loop writes to the display. -/
def cellWrites : ℕ × ℕ × Cell × Cell → List ((ℕ × ℕ) × Vt.Glyph)
  | (row, col, want, present) => if want = present then [] else [((row, col), glyph want)]

/-- What `emit_diff` remembers of what it wrote last is where the screen is, as long as that is not
past the last column. -/
structure Tracks {cols rows : ℕ} (pen : Pen) (s : Vt.Screen cols rows) : Prop where
  position : ∀ row col, pen.lastRow = some row → pen.lastCol = some col → col < cols →
    s.row = row ∧ s.col = col ∧ s.wrapNext = false
  look : ∀ attributes, pen.lastSgr = some attributes → s.look = attributes.look

variable {s : Vt.Screen cols rows}

/-- A move to a cell of the screen. -/
theorem act_moveTo (s : Vt.Screen cols rows) {row col : ℕ} (hrows : rows < 65536)
    (hcols : cols < 65536) (hrow : row < rows) (hcol : col < cols) :
    Token.act s (.moveTo col row) = { s with row := row, col := col, wrapNext := false } := by
  have hr : min ((row + 1) % 65536 - 1) (rows - 1) = row := by omega
  have hc : min ((col + 1) % 65536 - 1) (cols - 1) = col := by omega
  change { s with row := min ((row + 1) % 65536 - 1) (rows - 1), col := _, wrapNext := false } = _
  rw [hr, hc]

/-- A character with its attributes, at the cursor. -/
theorem actAll_emitGlyph {lastSgr : Option Sgr}
    (hlook : ∀ attributes, lastSgr = some attributes → s.look = attributes.look) (attributes : Sgr)
    (ch : Char) :
    actAll s (emitGlyph lastSgr attributes ch) = { s with look := attributes.look }.print ch := by
  rw [emitGlyph, actAll_append]
  split
  · rfl
  · rename_i hsame
    rw [← hlook attributes (not_not.mp hsame)]
    rfl

/-- One turn of the loop. -/
theorem actAll_emitCell {pen : Pen} (h : Tracks pen s) (hrows : rows < 65536) (hcols : cols < 65536)
    {row col : ℕ} (hrow : row < rows) (hcol : col < cols) {want present : Cell}
    (hwide : want.wide = false) :
    Tracks (emitCell pen (row, col, want, present)).1
        (actAll s (emitCell pen (row, col, want, present)).2) ∧
      (actAll s (emitCell pen (row, col, want, present)).2).grid =
        s.grid.writeAll (cellWrites (row, col, want, present)) := by
  unfold emitCell cellWrites
  dsimp only
  split
  · exact ⟨h, rfl⟩
  rw [if_neg (by rw [hwide]; exact Bool.false_ne_true)]
  -- moved there or there already
  obtain ⟨moved, hmoved, hr, hc, hwrap, hgrid, hlook⟩ : ∃ moved,
      actAll s (if pen.lastRow ≠ some row ∨ pen.lastCol ≠ some col then [.moveTo col row] else []) =
        moved ∧ moved.row = row ∧ moved.col = col ∧ moved.wrapNext = false ∧
          moved.grid = s.grid ∧ moved.look = s.look := by
    split
    · exact ⟨_, act_moveTo s hrows hcols hrow hcol, rfl, rfl, rfl, rfl, rfl⟩
    · rename_i hthere
      rw [not_or, not_not, not_not] at hthere
      obtain ⟨hr, hc, hwrap⟩ := h.position row col hthere.1 hthere.2 hcol
      exact ⟨s, rfl, hr, hc, hwrap, rfl, rfl⟩
  dsimp only
  rw [actAll_append, hmoved, actAll_emitGlyph fun attributes hlast => hlook.trans
    (h.look attributes hlast),
    Vt.Screen.print_of_not_wrapNext (s := { moved with look := Sgr.look _ }) hwrap]
  refine ⟨⟨?_, ?_⟩, ?_⟩
  · rintro r c ⟨⟩ ⟨⟩ hroom
    dsimp only [Vt.Screen.put]
    rw [hc, if_pos hroom, decide_eq_false (not_not.mpr hroom)]
    exact ⟨hr, rfl, rfl⟩
  · rintro attributes ⟨⟩
    rfl
  · dsimp only [Vt.Screen.put]
    rw [hgrid, hr, hc]
    rfl

/-- The whole loop. -/
theorem actAll_emitAll (hrows : rows < 65536) (hcols : cols < 65536)
    {cells : List (ℕ × ℕ × Cell × Cell)}
    (hcells : ∀ row col want present, (row, col, want, present) ∈ cells →
      row < rows ∧ col < cols ∧ want.wide = false) {pen : Pen} (h : Tracks pen s) :
    (actAll s (emitAll emitCell pen cells)).grid = s.grid.writeAll (cells.flatMap cellWrites) := by
  induction cells generalizing pen s with
  | nil => rfl
  | cons cell cells ih =>
      obtain ⟨row, col, want, present⟩ := cell
      obtain ⟨hrow, hcol, hwide⟩ := hcells row col want present List.mem_cons_self
      obtain ⟨htracks, hgrid⟩ := actAll_emitCell h hrows hcols hrow hcol hwide
      have hrest := ih (fun row col want present hmem =>
        hcells row col want present (List.mem_cons_of_mem _ hmem)) htracks
      rw [emitAll, actAll_append, hrest, hgrid, List.flatMap_cons, Grid.writeAll_append]

/-- **`emit_diff` writes the cells that differ.** -/
theorem emitDiff_grid (hrows : rows < 65536) (hcols : cols < 65536)
    (hdesired : desired.HasShape rows cols) (hphysical : physical.HasShape rows cols)
    (hwide : desired.All fun cell => cell.wide = false) (s : Vt.Screen cols rows)
    (cursor : CursorPos) :
    (actAll s (emitDiff desired physical cursor)).grid =
      s.grid.writeAll ((diffCells desired physical).flatMap cellWrites) := by
  have htracks : Tracks ⟨none, none, none⟩ s := by
    refine ⟨?_, ?_⟩
    · rintro row col ⟨⟩
    · rintro attributes ⟨⟩
  rw [emitDiff, actAll_append]
  refine actAll_emitAll hrows hcols (fun row col want present hmem => ?_) htracks
  have hwant := ((mem_diffCells_iff hdesired hphysical).mp hmem).1
  have hin := (hdesired.isSome_cellAt row col).mp (by rw [hwant]; rfl)
  obtain ⟨cells, hcells, hcell⟩ := mem_of_mem_diffCells hmem
  exact ⟨hin.1, hin.2, hwide cells hcells want hcell⟩

/-- The loop writes the cells in which the two grids differ. -/
theorem mem_flatMap_cellWrites (hdesired : desired.HasShape rows cols)
    (hphysical : physical.HasShape rows cols) {w : (ℕ × ℕ) × Vt.Glyph} :
    w ∈ (diffCells desired physical).flatMap cellWrites ↔
      ∃ row col want present, desired.cellAt row col = some want ∧
        physical.cellAt row col = some present ∧ want ≠ present ∧ w = ((row, col), glyph want) := by
  rw [List.mem_flatMap]
  constructor
  · rintro ⟨⟨row, col, want, present⟩, hcell, hw⟩
    obtain ⟨hwant, hpresent⟩ := (mem_diffCells_iff hdesired hphysical).mp hcell
    unfold cellWrites at hw
    dsimp only at hw
    split at hw
    · exact absurd hw List.not_mem_nil
    · rename_i hne
      exact ⟨row, col, want, present, hwant, hpresent, hne, List.mem_singleton.mp hw⟩
  · rintro ⟨row, col, want, present, hwant, hpresent, hne, rfl⟩
    refine ⟨(row, col, want, present),
      (mem_diffCells_iff hdesired hphysical).mpr ⟨hwant, hpresent⟩, ?_⟩
    unfold cellWrites
    dsimp only
    rw [if_neg hne]
    exact List.mem_singleton_self _

/-- **The display is the desired grid** after `emit_diff` exactly when it showed the desired cell
before wherever the physical grid has it. -/
theorem emitDiff_grid_eq_iff (hrows : rows < 65536) (hcols : cols < 65536)
    (hdesired : desired.HasShape rows cols) (hphysical : physical.HasShape rows cols)
    (hwide : desired.All fun cell => cell.wide = false) (s : Vt.Screen cols rows)
    (cursor : CursorPos) :
    (actAll s (emitDiff desired physical cursor)).grid = looks desired ↔
      ∀ row col cell, desired.cellAt row col = some cell → physical.cellAt row col = some cell →
        s.grid.cellAt row col = some (glyph cell) := by
  rw [emitDiff_grid hrows hcols hdesired hphysical hwide s cursor,
    Grid.writeAll_eq_iff s.shape (hasShape_looks hdesired)]
  · constructor
    · intro hsilent row col cell hwant hpresent
      rw [hsilent row col, cellAt_looks, hwant]
      · rfl
      · intro w hw hpos
        obtain ⟨r, c, want, present, hwant', hpresent', hne, rfl⟩ :=
          (mem_flatMap_cellWrites hdesired hphysical).mp hw
        cases hpos
        rw [hwant] at hwant'
        rw [hpresent] at hpresent'
        cases hwant'
        cases hpresent'
        exact hne rfl
    · intro hshown row col hsilent
      rw [cellAt_looks]
      cases hwant : desired.cellAt row col with
      | none =>
          have hout :=
            (hdesired.isSome_cellAt row col).not.mp (by rw [hwant]; exact Bool.false_ne_true)
          rw [← s.shape.isSome_cellAt, Option.not_isSome_iff_eq_none] at hout
          exact hout
      | some want =>
          have hin := (hdesired.isSome_cellAt row col).mp (by rw [hwant]; rfl)
          obtain ⟨present, hpresent⟩ :=
            Option.isSome_iff_exists.mp ((hphysical.isSome_cellAt row col).mpr hin)
          have hsame : want = present := by
            by_contra hne
            exact hsilent _ ((mem_flatMap_cellWrites hdesired hphysical).mpr
              ⟨row, col, want, present, hwant, hpresent, hne, rfl⟩) rfl
          exact hshown row col want hwant (hsame ▸ hpresent)
  · intro w hw
    obtain ⟨row, col, want, present, hwant, -, -, rfl⟩ :=
      (mem_flatMap_cellWrites hdesired hphysical).mp hw
    rw [cellAt_looks, hwant]
    rfl

end Nosh.Client
