import Nosh.Proto.Datagram

/-!
# The changed-cell scanner

`compute_diff_runs` of `nosh-server/src/server.rs`: scan the current grid against
a baseline and collect the changed cells as runs.  A baseline shorter than the
grid leaves the uncovered cells changed, so the empty baseline asks for the full
screen.

A run carries its characters and one column, so its `n`-th character is meant for the
`n`-th column from there.  Continuation cells of wide glyphs take a column and carry
no character; inside a run they shift every later character to the left.

## Main Results

* `aligned_iff_packed` — the characters of a row are carried for their own columns
  exactly when no two sent cells of one run have only continuation cells between them.
* `Aligned.mem_rowRuns` — then the runs carry exactly the sent cells.
* `mem_computeDiffRuns` — on a grid without continuation cells, the cells the runs
  carry are exactly the cells that differ from the baseline, at their own position and
  with their own attributes.
-/

namespace Nosh.Server

open Nosh.Lib Nosh.Proto

variable {c d : Cell} {cells base : List Cell} {i row col skip : ℕ} {w : (ℕ × ℕ) × Cell}
    {current baseline : Grid Cell}

/-- The inner loop of the scanner: extend a run with attributes `style`, `fg`,
`bg` over the cells `cells` of the row, `base` being the rest of the baseline
row.  Returns the characters appended and the number of columns advanced.
Continuation cells advance the column and append nothing. -/
def extendRun (style : CellStyle) (fg bg : Option UInt8) : List Cell → List Cell → List Char × ℕ
  | [], _ => ([], 0)
  | c :: cells, base =>
      if c.wide then
        let ext := extendRun style fg bg cells base.tail
        (ext.1, ext.2 + 1)
      else if c.style ≠ style ∨ c.fg ≠ fg ∨ c.bg ≠ bg then ([], 0)
      else if base.head? = some c then ([], 0)
      else
        let ext := extendRun style fg bg cells base.tail
        (c.ch :: ext.1, ext.2 + 1)

/-- The outer loop of the scanner over one row: `col` is the column of the first
cell of `cells`, and the next `skip` columns belong to the run emitted last.  A
run starts at a changed cell that is no continuation cell; that cell always
passes the tests of the inner loop, so the run is never empty. -/
def rowRuns (row : ℕ) : ℕ → ℕ → List Cell → List Cell → List DiffRun
  | _, _, [], _ => []
  | col, skip + 1, _ :: cells, base => rowRuns row (col + 1) skip cells base.tail
  | col, 0, c :: cells, base =>
      if base.head? = some c then rowRuns row (col + 1) 0 cells base.tail
      else if c.wide then rowRuns row (col + 1) 0 cells base.tail
      else
        let ext := extendRun c.style c.fg c.bg cells base.tail
        { row := row, startCol := col, style := c.style, fg := c.fg, bg := c.bg
          chars := c.ch :: ext.1 } :: rowRuns row (col + 1) ext.2 cells base.tail

/-- `compute_diff_runs`. -/
def computeDiffRuns (current baseline : Grid Cell) : List DiffRun :=
  current.zipIdx.flatMap fun row => rowRuns row.2 0 0 row.1 (baseline.getD row.2 [])

/-! ## What the scanner sends -/

/-- Two cells that may share a run. -/
def SameAttrs (c d : Cell) : Prop := c.style = d.style ∧ c.fg = d.fg ∧ c.bg = d.bg

/-- The scanner sends the cell of column `i`: it is changed and no continuation cell. -/
def SentAt (cells base : List Cell) (i : ℕ) (c : Cell) : Prop :=
  cells[i]? = some c ∧ c.wide = false ∧ base[i]? ≠ some c

theorem sentAt_zero :
    SentAt (c :: cells) base 0 d ↔ c = d ∧ d.wide = false ∧ base.head? ≠ some d := by
  rw [SentAt, List.head?_eq_getElem?, List.getElem?_cons_zero, Option.some.injEq]

theorem sentAt_succ : SentAt (c :: cells) base (i + 1) d ↔ SentAt cells base.tail i d := by
  rw [SentAt, SentAt, List.getElem?_cons_succ, List.getElem?_tail]

/-- The cases of one iteration of the inner loop: it steps over a continuation cell, it
stops, or it takes a sent cell with the attributes of the run. -/
theorem extendRun_cons (c₀ c : Cell) (cells base : List Cell) :
    (c.wide = true ∧ extendRun c₀.style c₀.fg c₀.bg (c :: cells) base =
        ((extendRun c₀.style c₀.fg c₀.bg cells base.tail).1,
          (extendRun c₀.style c₀.fg c₀.bg cells base.tail).2 + 1)) ∨
      (c.wide = false ∧ (SameAttrs c₀ c → ¬ SentAt (c :: cells) base 0 c) ∧
        extendRun c₀.style c₀.fg c₀.bg (c :: cells) base = ([], 0)) ∨
      (SentAt (c :: cells) base 0 c ∧ SameAttrs c₀ c ∧
        extendRun c₀.style c₀.fg c₀.bg (c :: cells) base =
          (c.ch :: (extendRun c₀.style c₀.fg c₀.bg cells base.tail).1,
            (extendRun c₀.style c₀.fg c₀.bg cells base.tail).2 + 1)) := by
  rw [sentAt_zero, extendRun]
  split
  · next hwide => exact Or.inl ⟨hwide, rfl⟩
  · next hwide =>
      have hwide' : c.wide = false := Bool.eq_false_of_not_eq_true hwide
      refine Or.inr ?_
      split
      · next hattrs =>
          refine Or.inl ⟨hwide', ?_, rfl⟩
          rintro ⟨hstyle, hfg, hbg⟩
          rcases hattrs with hattrs | hattrs | hattrs
          · exact absurd hstyle.symm hattrs
          · exact absurd hfg.symm hattrs
          · exact absurd hbg.symm hattrs
      · next hattrs =>
          push Not at hattrs
          split
          · next hsame => exact Or.inl ⟨hwide', fun _ hsent => hsent.2.2 hsame, rfl⟩
          · next hchg =>
              exact Or.inr ⟨⟨rfl, hwide', hchg⟩,
                ⟨hattrs.1.symm, hattrs.2.1.symm, hattrs.2.2.symm⟩, rfl⟩

section ExtendRun

variable (c₀ : Cell) (cells base : List Cell)

/-- The inner loop advances by at least one column for each character, and stays inside
the row. -/
theorem extendRun_length :
    (extendRun c₀.style c₀.fg c₀.bg cells base).1.length ≤
        (extendRun c₀.style c₀.fg c₀.bg cells base).2 ∧
      (extendRun c₀.style c₀.fg c₀.bg cells base).2 ≤ cells.length := by
  induction cells generalizing base with
  | nil => exact ⟨le_rfl, le_rfl⟩
  | cons c cells ih =>
      obtain ⟨hchars, hcols⟩ := ih base.tail
      rcases extendRun_cons c₀ c cells base with ⟨-, heq⟩ | ⟨-, -, heq⟩ | ⟨-, -, heq⟩
      · rw [heq]
        exact ⟨Nat.le_succ_of_le hchars, Nat.succ_le_succ hcols⟩
      · rw [heq]
        exact ⟨le_rfl, Nat.zero_le _⟩
      · rw [heq]
        exact ⟨Nat.succ_le_succ hchars, Nat.succ_le_succ hcols⟩

/-- The inner loop stops only at a cell that is neither a continuation cell nor one to
send in this run. -/
theorem extendRun_stops (hd : cells[(extendRun c₀.style c₀.fg c₀.bg cells base).2]? = some d) :
    d.wide = false ∧ (SameAttrs c₀ d →
      ¬ SentAt cells base (extendRun c₀.style c₀.fg c₀.bg cells base).2 d) := by
  induction cells generalizing base with
  | nil => cases hd
  | cons c cells ih =>
      rcases extendRun_cons c₀ c cells base with ⟨-, heq⟩ | ⟨hwide, hstop, heq⟩ | ⟨-, -, heq⟩
      · rw [heq] at hd ⊢
        rw [sentAt_succ]
        exact ih base.tail hd
      · rw [heq] at hd ⊢
        cases hd
        exact ⟨hwide, hstop⟩
      · rw [heq] at hd ⊢
        rw [sentAt_succ]
        exact ih base.tail hd

/-- If the columns the characters are laid on hold no continuation cell, each character
is that of its own column, and what the loop advanced further are continuation cells. -/
theorem extendRun_aligned
    (haligned : ∀ i < (extendRun c₀.style c₀.fg c₀.bg cells base).1.length,
      ∃ d, cells[i]? = some d ∧ d.wide = false) :
    (∀ i ch, (extendRun c₀.style c₀.fg c₀.bg cells base).1[i]? = some ch →
        ∃ d, SentAt cells base i d ∧ SameAttrs c₀ d ∧ d.ch = ch) ∧
      ∀ i, (extendRun c₀.style c₀.fg c₀.bg cells base).1.length ≤ i →
        i < (extendRun c₀.style c₀.fg c₀.bg cells base).2 →
          ∃ e, cells[i]? = some e ∧ e.wide = true := by
  induction cells generalizing base with
  | nil => exact ⟨by simp [extendRun], by simp [extendRun]⟩
  | cons c cells ih =>
      rcases extendRun_cons c₀ c cells base with ⟨hwide, heq⟩ | ⟨-, -, heq⟩ | ⟨hsent, hattrs, heq⟩
      · rw [heq] at haligned ⊢
        dsimp only at haligned ⊢
        -- the first character would be laid on this continuation cell
        have hnil : (extendRun c₀.style c₀.fg c₀.bg cells base.tail).1 = [] := by
          rw [← List.length_eq_zero_iff]
          by_contra hpos
          obtain ⟨d, hd, hglyph⟩ := haligned 0 (Nat.pos_of_ne_zero hpos)
          cases hd
          rw [hwide] at hglyph
          cases hglyph
        obtain ⟨-, htail⟩ := ih base.tail (by rw [hnil]; rintro i ⟨⟩)
        rw [hnil] at htail ⊢
        refine ⟨by rintro i ch ⟨⟩, fun i _ hi => ?_⟩
        cases i with
        | zero => exact ⟨c, rfl, hwide⟩
        | succ i => exact htail i (Nat.zero_le i) (Nat.lt_of_succ_lt_succ hi)
      · rw [heq]
        exact ⟨by rintro i ch ⟨⟩, by rintro i - ⟨⟩⟩
      · rw [heq] at haligned ⊢
        dsimp only [List.length_cons] at haligned ⊢
        obtain ⟨hchars, htail⟩ := ih base.tail fun i hi => haligned (i + 1) (Nat.succ_lt_succ hi)
        constructor
        · intro i ch hch
          cases i with
          | zero =>
              cases hch
              exact ⟨c, hsent, hattrs, rfl⟩
          | succ i =>
              obtain ⟨d, hd, hrest⟩ := hchars i ch hch
              exact ⟨d, sentAt_succ.mpr hd, hrest⟩
        · intro i hle hlt
          cases i with
          | zero => cases hle
          | succ i => exact htail i (Nat.le_of_succ_le_succ hle) (Nat.lt_of_succ_lt_succ hlt)

/-- A sent cell that the loop passed is one of its characters. -/
theorem extendRun_mem (haligned : ∀ i < (extendRun c₀.style c₀.fg c₀.bg cells base).1.length,
      ∃ d, cells[i]? = some d ∧ d.wide = false) (hd : SentAt cells base i d)
    (hi : i < (extendRun c₀.style c₀.fg c₀.bg cells base).2) :
    SameAttrs c₀ d ∧ (extendRun c₀.style c₀.fg c₀.bg cells base).1[i]? = some d.ch := by
  obtain ⟨hchars, hconts⟩ := extendRun_aligned c₀ cells base haligned
  have hlen : i < (extendRun c₀.style c₀.fg c₀.bg cells base).1.length := by
    by_contra hlen
    obtain ⟨e, he, hcont⟩ := hconts i (Nat.le_of_not_lt hlen) hi
    have hsame : e = d := Option.some.inj (he.symm.trans hd.1)
    rw [hsame, hd.2.1] at hcont
    cases hcont
  obtain ⟨d', hd', hattrs, hch⟩ := hchars i _ (List.getElem?_eq_getElem hlen)
  obtain rfl : d' = d := Option.some.inj (hd'.1.symm.trans hd.1)
  exact ⟨hattrs, by rw [List.getElem?_eq_getElem hlen, hch]⟩

/-- A first character comes from a sent cell behind continuation cells only. -/
theorem extendRun_first {ch : Char} {rest : List Char}
    (h : (extendRun c₀.style c₀.fg c₀.bg cells base).1 = ch :: rest) :
    ∃ j d, SentAt cells base j d ∧ SameAttrs c₀ d ∧
      ∀ k < j, ∃ e, cells[k]? = some e ∧ e.wide = true := by
  induction cells generalizing base with
  | nil => cases h
  | cons c cells ih =>
      rcases extendRun_cons c₀ c cells base with ⟨hwide, heq⟩ | ⟨-, -, heq⟩ | ⟨hsent, hattrs, -⟩
      · rw [heq] at h
        obtain ⟨j, d, hd, hattrs, hbefore⟩ := ih base.tail h
        refine ⟨j + 1, d, sentAt_succ.mpr hd, hattrs, fun k hk => ?_⟩
        cases k with
        | zero => exact ⟨c, rfl, hwide⟩
        | succ k => exact hbefore k (Nat.lt_of_succ_lt_succ hk)
      · rw [heq] at h
        cases h
      · exact ⟨0, c, hsent, hattrs, by rintro k ⟨⟩⟩

end ExtendRun

/-! ## Aligned rows -/

/-- Between two sent cells that share their attributes and are not adjacent stands a
cell that is no continuation cell. -/
def PackedRow (cells base : List Cell) : Prop :=
  ∀ i j c d, SentAt cells base i c → SentAt cells base j d → SameAttrs c d → i + 1 < j →
    ∃ k e, i < k ∧ k < j ∧ cells[k]? = some e ∧ e.wide = false

theorem PackedRow.tail (h : PackedRow (c :: cells) base) : PackedRow cells base.tail := by
  intro i j d e hd he hattrs hij
  obtain ⟨k, x, hik, hkj, hx, hglyph⟩ := h (i + 1) (j + 1) d e (sentAt_succ.mpr hd)
    (sentAt_succ.mpr he) hattrs (Nat.succ_lt_succ hij)
  obtain ⟨k, rfl⟩ : ∃ k', k = k' + 1 := ⟨k - 1, by omega⟩
  exact ⟨k, x, by omega, by omega, hx, hglyph⟩

/-- Behind a sent first cell of a packed row, the next cell of its run is adjacent. -/
theorem PackedRow.next (h : PackedRow (c :: cells) base) (hsent : SentAt (c :: cells) base 0 c)
    (j : ℕ) (d : Cell) (hd : SentAt cells base.tail j d) (hattrs : SameAttrs c d) (hj : 0 < j) :
    ∃ k e, k < j ∧ cells[k]? = some e ∧ e.wide = false := by
  obtain ⟨k, e, hk, hkj, he, hglyph⟩ :=
    h 0 (j + 1) c d hsent (sentAt_succ.mpr hd) hattrs (Nat.succ_lt_succ hj)
  obtain ⟨k, rfl⟩ : ∃ k', k = k' + 1 := ⟨k - 1, by omega⟩
  exact ⟨k, e, by omega, he, hglyph⟩

/-- In a packed row the inner loop lays its characters on their own columns. -/
theorem PackedRow.extendRun_aligned (hpacked : PackedRow cells base) {c₀ : Cell}
    (hnext : ∀ j d, SentAt cells base j d → SameAttrs c₀ d → 0 < j →
      ∃ k e, k < j ∧ cells[k]? = some e ∧ e.wide = false) :
    ∀ i < (extendRun c₀.style c₀.fg c₀.bg cells base).1.length,
      ∃ d, cells[i]? = some d ∧ d.wide = false := by
  induction cells generalizing base with
  | nil => rintro i ⟨⟩
  | cons c cells ih =>
      rcases extendRun_cons c₀ c cells base with ⟨hwide, heq⟩ | ⟨-, -, heq⟩ | ⟨hsent, hattrs, heq⟩
      · rw [heq]
        -- a first character would lie behind this continuation cell
        cases hchars : (extendRun c₀.style c₀.fg c₀.bg cells base.tail).1 with
        | nil => rintro i ⟨⟩
        | cons ch rest =>
            obtain ⟨j, d, hd, hd', hbefore⟩ := extendRun_first c₀ cells base.tail hchars
            obtain ⟨k, e, hk, he, hglyph⟩ := hnext (j + 1) d (sentAt_succ.mpr hd) hd' (by omega)
            cases k with
            | zero =>
                cases he
                rw [hwide] at hglyph
                cases hglyph
            | succ k =>
                obtain ⟨e', he', hcont⟩ := hbefore k (by omega)
                have hsame : e' = e := Option.some.inj (he'.symm.trans he)
                rw [hsame, hglyph] at hcont
                cases hcont
      · rw [heq]
        rintro i ⟨⟩
      · rw [heq]
        intro i hi
        cases i with
        | zero => exact ⟨c, rfl, hsent.2.1⟩
        | succ i =>
            refine ih hpacked.tail (fun j d hd hd' hj => ?_) i (Nat.lt_of_succ_lt_succ hi)
            have hsame : SameAttrs c d :=
              ⟨hattrs.1.symm.trans hd'.1, hattrs.2.1.symm.trans hd'.2.1,
                hattrs.2.2.symm.trans hd'.2.2⟩
            exact hpacked.next hsent j d hd hsame hj

/-- Every character the runs of a row carry is laid on a column that holds no
continuation cell. -/
def Aligned (row col skip : ℕ) (cells base : List Cell) : Prop :=
  ∀ w ∈ runCells (rowRuns row col skip cells base),
    ∃ i d, w.1.2 = col + i ∧ cells[i]? = some d ∧ d.wide = false

/-- The cells of a text are laid out from left to right. -/
theorem layCells_sorted (row : ℕ) (mk : Char → Cell) (col : ℕ) (chars : List Char) :
    (layCells row mk col chars).Pairwise fun w w' => w.1.2 < w'.1.2 := by
  induction chars generalizing col with
  | nil => exact List.Pairwise.nil
  | cons ch chars ih =>
      refine List.Pairwise.cons ?_ (ih (col + 1))
      intro w hw
      obtain ⟨i, x, -, rfl⟩ := mem_layCells.mp hw
      dsimp only
      omega

/-- The cells of the runs from one column on: nothing new at a cell that is not sent,
else that cell, the characters of the inner loop, and what follows the run. -/
theorem runCells_rowRuns_cons (row col : ℕ) (c : Cell) (cells base : List Cell) :
    (¬ SentAt (c :: cells) base 0 c ∧
        runCells (rowRuns row col 0 (c :: cells) base) =
          runCells (rowRuns row (col + 1) 0 cells base.tail)) ∨
      (SentAt (c :: cells) base 0 c ∧
        runCells (rowRuns row col 0 (c :: cells) base) =
          ((row, col), c) ::
            (layCells row (fun ch => ⟨ch, c.style, c.fg, c.bg, false⟩) (col + 1)
                (extendRun c.style c.fg c.bg cells base.tail).1 ++
              runCells (rowRuns row (col + 1) (extendRun c.style c.fg c.bg cells base.tail).2
                cells base.tail))) := by
  rw [sentAt_zero, rowRuns]
  split
  · next hsame => exact Or.inl ⟨fun h => h.2.2 hsame, rfl⟩
  · next hchg =>
      split
      · next hwide => exact Or.inl ⟨fun h => Bool.false_ne_true (h.2.1.symm.trans hwide), rfl⟩
      · next hwide =>
          have hwide' : c.wide = false := Bool.eq_false_of_not_eq_true hwide
          refine Or.inr ⟨⟨rfl, hwide', hchg⟩, ?_⟩
          have hcell : Cell.mk c.ch c.style c.fg c.bg false = c := by
            rw [← hwide']
          rw [runCells_cons, DiffRun.cells, layCells]
          exact congrArg (fun d => ((row, col), d) :: _) hcell

/-- The runs of a row stay on the row, behind the columns to skip and before its end. -/
theorem mem_rowRuns_bounds (hw : w ∈ runCells (rowRuns row col skip cells base)) :
    w.1.1 = row ∧ col + skip ≤ w.1.2 ∧ w.1.2 < col + cells.length ∧ w.2.wide = false := by
  induction cells generalizing col skip base with
  | nil => cases skip <;> cases hw
  | cons c cells ih =>
      have hih : ∀ skip', w ∈ runCells (rowRuns row (col + 1) skip' cells base.tail) →
          w.1.1 = row ∧ col + 1 + skip' ≤ w.1.2 ∧ w.1.2 < col + (c :: cells).length ∧
            w.2.wide = false := by
        intro skip' hw'
        obtain ⟨hrow, hle, hlt, hwide⟩ := ih hw'
        exact ⟨hrow, hle, by rw [List.length_cons]; omega, hwide⟩
      cases skip with
      | succ skip =>
          obtain ⟨hrow, hle, hrest⟩ := hih skip hw
          exact ⟨hrow, by omega, hrest⟩
      | zero =>
          rcases runCells_rowRuns_cons row col c cells base with ⟨-, heq⟩ | ⟨hsent, heq⟩
          · rw [heq] at hw
            obtain ⟨hrow, hle, hrest⟩ := hih 0 hw
            exact ⟨hrow, by omega, hrest⟩
          · obtain ⟨hchars, hcols⟩ := extendRun_length c cells base.tail
            rw [heq, List.mem_cons, List.mem_append] at hw
            rcases hw with rfl | hw | hw
            · exact ⟨rfl, le_rfl, by simp, hsent.2.1⟩
            · obtain ⟨i, ch, hch, rfl⟩ := mem_layCells.mp hw
              have hi := (List.getElem?_eq_some_iff.mp hch).1
              refine ⟨rfl, by dsimp only; omega, ?_, rfl⟩
              rw [List.length_cons]
              dsimp only
              omega
            · obtain ⟨hrow, hle, hrest⟩ := hih _ hw
              exact ⟨hrow, by omega, hrest⟩

/-- The characters of a row are carried from left to right. -/
theorem rowRuns_sorted (row col skip : ℕ) (cells base : List Cell) :
    (runCells (rowRuns row col skip cells base)).Pairwise fun w w' => w.1.2 < w'.1.2 := by
  induction cells generalizing col skip base with
  | nil => cases skip <;> exact List.Pairwise.nil
  | cons c cells ih =>
      cases skip with
      | succ skip => exact ih (col + 1) skip base.tail
      | zero =>
          rcases runCells_rowRuns_cons row col c cells base with ⟨-, heq⟩ | ⟨-, heq⟩
          · rw [heq]
            exact ih (col + 1) 0 base.tail
          · obtain ⟨hchars, -⟩ := extendRun_length c cells base.tail
            rw [heq, List.pairwise_cons, List.pairwise_append]
            refine ⟨?_, layCells_sorted .., ih .., ?_⟩
            · intro w hw
              rcases List.mem_append.mp hw with hw | hw
              · obtain ⟨i, ch, -, rfl⟩ := mem_layCells.mp hw
                dsimp only
                omega
              · obtain ⟨-, hle, -⟩ := mem_rowRuns_bounds hw
                dsimp only
                omega
            · intro w hw w' hw'
              obtain ⟨i, ch, hch, rfl⟩ := mem_layCells.mp hw
              have hi := (List.getElem?_eq_some_iff.mp hch).1
              obtain ⟨-, hle, -⟩ := mem_rowRuns_bounds hw'
              dsimp only
              omega

/-- What an aligned new run says about its characters and about the rest of the row. -/
theorem Aligned.of_run (h : Aligned row col 0 (c :: cells) base)
    (hsent : SentAt (c :: cells) base 0 c) :
    (∀ i < (extendRun c.style c.fg c.bg cells base.tail).1.length,
        ∃ d, cells[i]? = some d ∧ d.wide = false) ∧
      Aligned row (col + 1) (extendRun c.style c.fg c.bg cells base.tail).2 cells base.tail := by
  rcases runCells_rowRuns_cons row col c cells base with ⟨hnot, -⟩ | ⟨-, heq⟩
  · exact absurd hsent hnot
  · unfold Aligned at h
    rw [heq] at h
    constructor
    · intro i hi
      obtain ⟨k, d, hk, hd, hglyph⟩ := h ((row, col + 1 + i), _)
        (List.mem_cons_of_mem _ (List.mem_append_left _
          (mem_layCells.mpr ⟨i, _, List.getElem?_eq_getElem hi, rfl⟩)))
      obtain rfl : k = i + 1 := by
        dsimp only at hk
        omega
      exact ⟨d, hd, hglyph⟩
    · intro w hw
      obtain ⟨k, d, hk, hd, hglyph⟩ :=
        h w (List.mem_cons_of_mem _ (List.mem_append_right _ hw))
      have hle := (mem_rowRuns_bounds hw).2.1
      obtain ⟨k, rfl⟩ : ∃ k', k = k' + 1 := ⟨k - 1, by omega⟩
      exact ⟨k, d, by omega, hd, hglyph⟩

theorem Aligned.tail {skip' : ℕ} (h : Aligned row col skip (c :: cells) base)
    (heq : runCells (rowRuns row col skip (c :: cells) base) =
      runCells (rowRuns row (col + 1) skip' cells base.tail)) :
    Aligned row (col + 1) skip' cells base.tail := by
  intro w hw
  obtain ⟨k, d, hk, hd, hglyph⟩ := h w (by rwa [heq])
  have hle := (mem_rowRuns_bounds hw).2.1
  obtain ⟨k, rfl⟩ : ∃ k', k = k' + 1 := ⟨k - 1, by omega⟩
  exact ⟨k, d, by omega, hd, hglyph⟩

/-- **The runs of an aligned row carry the sent cells**, those behind the columns to
skip. -/
theorem Aligned.mem_rowRuns (h : Aligned row col skip cells base) :
    w ∈ runCells (rowRuns row col skip cells base) ↔
      ∃ i c, skip ≤ i ∧ SentAt cells base i c ∧ w = ((row, col + i), c) := by
  induction cells generalizing col skip base with
  | nil => cases skip <;> simp [rowRuns, SentAt]
  | cons c cells ih =>
      -- one column further the tail of the row is scanned against the tail of the baseline
      have hshift : ∀ skip', Aligned row (col + 1) skip' cells base.tail →
          (w ∈ runCells (rowRuns row (col + 1) skip' cells base.tail) ↔
            ∃ i d, skip' + 1 ≤ i ∧ SentAt (c :: cells) base i d ∧ w = ((row, col + i), d)) := by
        intro skip' h'
        rw [ih h']
        constructor
        · rintro ⟨i, d, hi, hd, rfl⟩
          exact ⟨i + 1, d, by omega, sentAt_succ.mpr hd, by
            rw [Nat.add_assoc col 1, Nat.add_comm 1]⟩
        · rintro ⟨i, d, hi, hd, rfl⟩
          obtain ⟨i, rfl⟩ : ∃ j, i = j + 1 := ⟨i - 1, by omega⟩
          exact ⟨i, d, by omega, sentAt_succ.mp hd, by
            rw [Nat.add_assoc col 1, Nat.add_comm 1]⟩
      cases skip with
      | succ skip => exact hshift skip (h.tail rfl)
      | zero =>
          rcases runCells_rowRuns_cons row col c cells base with ⟨hnot, heq⟩ | ⟨hsent, heq⟩
          · rw [heq, hshift 0 (h.tail heq)]
            refine exists_congr fun i => exists_congr fun d => ?_
            constructor
            · rintro ⟨-, hrest⟩
              exact ⟨Nat.zero_le _, hrest⟩
            · rintro ⟨-, hd, hw⟩
              refine ⟨?_, hd, hw⟩
              by_contra hi
              obtain rfl : i = 0 := by omega
              obtain rfl := (sentAt_zero.mp hd).1
              exact hnot hd
          · obtain ⟨halign, hrest⟩ := h.of_run hsent
            obtain ⟨hchars, -⟩ := extendRun_aligned c cells base.tail halign
            rw [heq, List.mem_cons, List.mem_append, hshift _ hrest, mem_layCells]
            constructor
            · rintro (rfl | ⟨i, ch, hch, rfl⟩ | ⟨i, d, -, hd, rfl⟩)
              · exact ⟨0, c, le_rfl, hsent, rfl⟩
              · obtain ⟨d, hd, hattrs, rfl⟩ := hchars i ch hch
                refine ⟨i + 1, d, Nat.zero_le _, sentAt_succ.mpr hd, ?_⟩
                rw [Nat.add_assoc col 1, Nat.add_comm 1, hattrs.1, hattrs.2.1, hattrs.2.2,
                  ← hd.2.1]
              · exact ⟨i, d, Nat.zero_le _, hd, rfl⟩
            · rintro ⟨i, d, -, hd, rfl⟩
              cases i with
              | zero =>
                  obtain rfl := (sentAt_zero.mp hd).1
                  exact Or.inl rfl
              | succ i =>
                  by_cases hi : i < (extendRun c.style c.fg c.bg cells base.tail).2
                  · rw [sentAt_succ] at hd
                    obtain ⟨hattrs, hch⟩ := extendRun_mem c cells base.tail halign hd hi
                    refine Or.inr (Or.inl ⟨i, d.ch, hch, ?_⟩)
                    rw [Nat.add_assoc col 1, Nat.add_comm 1, hattrs.1, hattrs.2.1, hattrs.2.2,
                      ← hd.2.1]
                  · exact Or.inr (Or.inr ⟨i + 1, d, by omega, hd, rfl⟩)

/-- A packed row is aligned. -/
theorem PackedRow.aligned (h : PackedRow cells base) (row col skip : ℕ) :
    Aligned row col skip cells base := by
  induction cells generalizing col skip base with
  | nil => cases skip <;> rintro w ⟨⟩
  | cons c cells ih =>
      have hih : ∀ skip', ∀ w ∈ runCells (rowRuns row (col + 1) skip' cells base.tail),
          ∃ i d, w.1.2 = col + i ∧ (c :: cells)[i]? = some d ∧ d.wide = false := by
        intro skip' w hw
        obtain ⟨i, d, hi, hd⟩ := ih h.tail (col + 1) skip' w hw
        exact ⟨i + 1, d, by omega, hd⟩
      cases skip with
      | succ skip => exact hih skip
      | zero =>
          rcases runCells_rowRuns_cons row col c cells base with ⟨-, heq⟩ | ⟨hsent, heq⟩
          · unfold Aligned
            rw [heq]
            exact hih 0
          · unfold Aligned
            rw [heq]
            intro w hw
            rw [List.mem_cons, List.mem_append] at hw
            rcases hw with rfl | hw | hw
            · exact ⟨0, c, rfl, rfl, hsent.2.1⟩
            · obtain ⟨i, ch, hch, rfl⟩ := mem_layCells.mp hw
              have hi := (List.getElem?_eq_some_iff.mp hch).1
              obtain ⟨d, hd⟩ := h.tail.extendRun_aligned (h.next hsent) i hi
              exact ⟨i + 1, d, by dsimp only; omega, hd⟩
            · exact hih _ w hw

/-- In an aligned row no two sent cells of one run have a gap between them. -/
theorem Aligned.packed (h : Aligned row col skip cells base) {j : ℕ} (hskip : skip ≤ i)
    (hc : SentAt cells base i c) (hd : SentAt cells base j d) (hattrs : SameAttrs c d)
    (hij : i + 1 < j) : ∃ k e, i < k ∧ k < j ∧ cells[k]? = some e ∧ e.wide = false := by
  induction cells generalizing col skip base i j with
  | nil => cases hc.1
  | cons a cells ih =>
      -- behind the first column the pair is one of the rest of the row
      have hshift : ∀ skip', Aligned row (col + 1) skip' cells base.tail → skip' + 1 ≤ i →
          ∃ k e, i < k ∧ k < j ∧ (a :: cells)[k]? = some e ∧ e.wide = false := by
        intro skip' h' hle
        obtain ⟨i, rfl⟩ : ∃ i', i = i' + 1 := ⟨i - 1, by omega⟩
        obtain ⟨j, rfl⟩ : ∃ j', j = j' + 1 := ⟨j - 1, by omega⟩
        obtain ⟨k, e, hik, hkj, he⟩ :=
          ih h' (by omega) (sentAt_succ.mp hc) (sentAt_succ.mp hd) (by omega)
        exact ⟨k + 1, e, by omega, by omega, he⟩
      cases skip with
      | succ skip => exact hshift skip (h.tail rfl) hskip
      | zero =>
          rcases runCells_rowRuns_cons row col a cells base with ⟨hnot, heq⟩ | ⟨hsent, heq⟩
          · refine hshift 0 (h.tail heq) ?_
            by_contra hi
            obtain rfl : i = 0 := by omega
            obtain rfl := (sentAt_zero.mp hc).1
            exact hnot hc
          · obtain ⟨halign, hrest⟩ := h.of_run hsent
            obtain ⟨hchars, hconts⟩ := extendRun_aligned a cells base.tail halign
            by_cases hi : (extendRun a.style a.fg a.bg cells base.tail).2 + 1 ≤ i
            · exact hshift _ hrest hi
            · -- the first cell lies in the run, which goes on to the next glyph
              by_contra hgap
              push Not at hgap
              obtain ⟨j, rfl⟩ : ∃ j', j = j' + 1 := ⟨j - 1, by omega⟩
              rw [sentAt_succ] at hd
              have hbetween : ∀ m e, i ≤ m → m < j → cells[m]? = some e → e.wide ≠ false :=
                fun m e him hmj he => hgap (m + 1) e (by omega) (by omega) he
              have hfirst : SameAttrs a c := by
                cases i with
                | zero =>
                    obtain rfl := (sentAt_zero.mp hc).1
                    exact ⟨rfl, rfl, rfl⟩
                | succ i =>
                    exact (extendRun_mem a cells base.tail halign (sentAt_succ.mp hc) (by omega)).1
              have hsame : SameAttrs a d :=
                ⟨hfirst.1.trans hattrs.1, hfirst.2.1.trans hattrs.2.1, hfirst.2.2.trans hattrs.2.2⟩
              have hlast : (extendRun a.style a.fg a.bg cells base.tail).1.length ≤ i := by
                by_contra hlen
                obtain ⟨e, he, hglyph⟩ := halign i (by omega)
                exact hbetween i e le_rfl (by omega) he hglyph
              have hle : (extendRun a.style a.fg a.bg cells base.tail).2 ≤ j := by
                by_contra hlt
                obtain ⟨e, he, hcont⟩ := hconts j (by omega) (by omega)
                obtain rfl : e = d := Option.some.inj (he.symm.trans hd.1)
                exact Bool.false_ne_true (hd.2.1.symm.trans hcont)
              have hj : j < cells.length := (List.getElem?_eq_some_iff.mp hd.1).1
              rcases Nat.eq_or_lt_of_le hle with heqj | hlt
              · rw [← heqj] at hd
                exact (extendRun_stops a cells base.tail hd.1).2 hsame hd
              · have hnext := List.getElem?_eq_getElem (Nat.lt_trans hlt hj)
                exact hbetween _ _ (by omega) hlt hnext
                  (extendRun_stops a cells base.tail hnext).1

theorem aligned_iff_packed (row col : ℕ) : Aligned row col 0 cells base ↔ PackedRow cells base :=
  ⟨fun h i _ _ _ hc hd hattrs hij => h.packed (Nat.zero_le i) hc hd hattrs hij,
    fun h => h.aligned row col 0⟩

/-- Runs stay inside the row they were scanned from. -/
theorem rowRuns_bound :
    ∀ run ∈ rowRuns row col skip cells base,
      run.row = row ∧ run.startCol + run.chars.length ≤ col + cells.length := by
  induction cells generalizing col skip base with
  | nil => cases skip <;> simp [rowRuns]
  | cons c cells ih =>
      have hih : ∀ skip' run, run ∈ rowRuns row (col + 1) skip' cells base.tail →
          run.row = row ∧ run.startCol + run.chars.length ≤ col + (c :: cells).length := by
        intro skip' run hrun
        obtain ⟨hrow, hrest⟩ := ih run hrun
        rw [List.length_cons]
        exact ⟨hrow, by omega⟩
      cases skip with
      | succ skip => exact hih skip
      | zero =>
          rw [rowRuns]
          split
          · exact hih 0
          · split
            · exact hih 0
            · intro run hrun
              rw [List.mem_cons] at hrun
              rcases hrun with rfl | hrun
              · obtain ⟨hchars, hcols⟩ := extendRun_length c cells base.tail
                simp only [List.length_cons]
                exact ⟨trivial, by omega⟩
              · exact hih _ run hrun

/-! ## The scanner on grids -/

/-- The scanner sends the cell at the position: it is changed and no continuation cell. -/
def Sent (current baseline : Grid Cell) (r i : ℕ) (c : Cell) : Prop :=
  current.cellAt r i = some c ∧ c.wide = false ∧ baseline.cellAt r i ≠ some c

theorem sentAt_iff_sent {r : ℕ} (hrow : current[r]? = some cells) :
    SentAt cells (baseline.getD r []) i c ↔ Sent current baseline r i c := by
  have hbase : (baseline.getD r [])[i]? = baseline.cellAt r i := by
    unfold Grid.cellAt
    rw [List.getD_eq_getElem?_getD]
    cases baseline[r]? <;> simp
  have hcur : current.cellAt r i = cells[i]? := by
    unfold Grid.cellAt
    rw [hrow, Option.bind_some]
  rw [SentAt, Sent, hbase, hcur]

theorem mem_runCells_computeDiffRuns :
    w ∈ runCells (computeDiffRuns current baseline) ↔
      ∃ cells r, current[r]? = some cells ∧
        w ∈ runCells (rowRuns r 0 0 cells (baseline.getD r [])) := by
  simp only [computeDiffRuns, mem_runCells, List.mem_flatMap, List.mem_zipIdx_iff_getElem?]
  constructor
  · rintro ⟨run, ⟨⟨cells, r⟩, hrow, hrun⟩, hw⟩
    exact ⟨cells, r, hrow, run, hrun, hw⟩
  · rintro ⟨cells, r, hrow, run, hrun, hw⟩
    exact ⟨run, ⟨(cells, r), hrow, hrun⟩, hw⟩

/-- **The scanner on packed rows.**  The runs carry exactly the sent cells, each at its
own position with its own attributes. -/
theorem mem_computeDiffRuns_of_packed
    (hpacked : ∀ r cells, current[r]? = some cells → PackedRow cells (baseline.getD r [])) :
    w ∈ runCells (computeDiffRuns current baseline) ↔ Sent current baseline w.1.1 w.1.2 w.2 := by
  rw [mem_runCells_computeDiffRuns]
  constructor
  · rintro ⟨cells, r, hrow, hw⟩
    obtain ⟨i, c, -, hc, rfl⟩ := ((hpacked r cells hrow).aligned r 0 0).mem_rowRuns.mp hw
    rw [Nat.zero_add]
    exact (sentAt_iff_sent hrow).mp hc
  · intro hsent
    obtain ⟨cells, hrow, -⟩ := Option.bind_eq_some_iff.mp hsent.1
    refine ⟨cells, w.1.1, hrow, ((hpacked w.1.1 cells hrow).aligned w.1.1 0 0).mem_rowRuns.mpr ?_⟩
    exact ⟨w.1.2, w.2, Nat.zero_le _, (sentAt_iff_sent hrow).mpr hsent, by simp⟩

/-- Every run of a diff stays inside its row of the grid. -/
theorem computeDiffRuns_inside {run : DiffRun} (hrun : run ∈ computeDiffRuns current baseline) :
    ∃ cells, current[run.row]? = some cells ∧
      run.startCol + run.chars.length ≤ cells.length := by
  obtain ⟨⟨cells, r⟩, hrow, hrun⟩ := List.mem_flatMap.mp hrun
  obtain ⟨rfl, hbound⟩ := rowRuns_bound run hrun
  rw [Nat.zero_add] at hbound
  exact ⟨cells, List.mem_zipIdx_iff_getElem?.mp hrow, hbound⟩

/-- Runs that stay in a grid no wider than a `u16` are bounded. -/
theorem computeDiffRuns_bounded (hwidth : ∀ row ∈ current, row.length ≤ u16Max) :
    ∀ run ∈ computeDiffRuns current baseline, run.Bounded := by
  intro run hrun
  obtain ⟨cells, hrow, hbound⟩ := computeDiffRuns_inside hrun
  exact le_trans hbound (hwidth cells (List.mem_of_getElem? hrow))

/-! ## Plain grids -/

/-- No cell of the row is a continuation cell. -/
def PlainRow (cells : List Cell) : Prop := ∀ c ∈ cells, c.wide = false

/-- No cell of the grid is a continuation cell. -/
def PlainGrid (g : Grid Cell) : Prop := ∀ row ∈ g, PlainRow row

instance (cells : List Cell) : Decidable (PlainRow cells) :=
  inferInstanceAs (Decidable (∀ c ∈ cells, c.wide = false))

instance (g : Grid Cell) : Decidable (PlainGrid g) :=
  inferInstanceAs (Decidable (∀ row ∈ g, PlainRow row))

theorem PlainRow.packed (h : PlainRow cells) (base : List Cell) : PackedRow cells base := by
  intro i j c d _ hd _ hij
  have hj : j < cells.length := (List.getElem?_eq_some_iff.mp hd.1).1
  have hi : i + 1 < cells.length := Nat.lt_trans hij hj
  exact ⟨i + 1, _, Nat.lt_succ_self i, hij, List.getElem?_eq_getElem hi, h _ (List.getElem_mem hi)⟩

/-- **The scanner.**  On a plain grid the runs carry exactly the cells that differ
from the baseline, each at its own position with its own attributes. -/
theorem mem_computeDiffRuns (hplain : PlainGrid current) :
    w ∈ runCells (computeDiffRuns current baseline) ↔
      current.cellAt w.1.1 w.1.2 = some w.2 ∧ baseline.cellAt w.1.1 w.1.2 ≠ some w.2 := by
  rw [mem_computeDiffRuns_of_packed fun r cells hrow =>
    (hplain cells (List.mem_of_getElem? hrow)).packed _]
  constructor
  · rintro ⟨hcell, -, hbase⟩
    exact ⟨hcell, hbase⟩
  · rintro ⟨hcell, hbase⟩
    refine ⟨hcell, ?_, hbase⟩
    obtain ⟨cells, hrow, hc⟩ := Option.bind_eq_some_iff.mp hcell
    exact hplain cells (List.mem_of_getElem? hrow) w.2 (List.mem_of_getElem? hc)

end Nosh.Server
