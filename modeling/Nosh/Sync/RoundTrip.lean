import Nosh.Client.Screen
import Nosh.Server.Representation

/-!
# One diff from the server grid to the client grid

The scanner `compute_diff_runs` and the writer `ClientScreen::apply`, one after the other.  The
scanner drops the continuation cells of wide glyphs; the writer puts the characters of a run on
consecutive columns and marks a continuation cell after each width-2 one.  The two loops agree on
columns as long as no character follows a wide glyph in its run, and on continuation cells as long
as the grids have them only where a wide glyph was just sent.

## Main Definitions

* `Carried` — the condition on the two grids under which a diff carries the whole difference

## Main Results

* `lastWrite_glyph`, `lastWrite_continuation` — what the writes of a diff leave in a cell
* `roundTrip_iff` — **the client ends with the grid of the server exactly when the difference is
  carried**, whatever the sizes of the two grids
* `wide_text_misplaced` — two wide glyphs on a blank row: the second arrives one column too early
-/

namespace Nosh.Sync

open Lib Proto Client Server

/-! ## The writes of a diff -/

section Writes

variable {width : Char → Option ℕ}
variable {ws : List ((ℕ × ℕ) × Cell)}

/-- Reading order: by rows, and from left to right in a row. -/
def Before (w w' : (ℕ × ℕ) × Cell) : Prop :=
  w.1.1 < w'.1.1 ∨ (w.1.1 = w'.1.1 ∧ w.1.2 < w'.1.2)

theorem zipIdx_sorted {α : Type*} (l : List α) (n : ℕ) :
    (l.zipIdx n).Pairwise fun a b => a.2 < b.2 := by
  induction l generalizing n with
  | nil => exact List.Pairwise.nil
  | cons a l ih =>
      refine List.Pairwise.cons (fun b hb => ?_) (ih (n + 1))
      exact List.le_snd_of_mem_zipIdx hb

/-- A diff carries its characters in reading order. -/
theorem computeDiffRuns_sorted (current baseline : Grid Cell) :
    (runCells (computeDiffRuns current baseline)).Pairwise Before := by
  unfold runCells computeDiffRuns
  rw [List.flatMap_assoc, List.pairwise_flatMap]
  constructor
  · rintro ⟨cells, r⟩ -
    refine (rowRuns_sorted r 0 0 cells _).imp_of_mem fun hw hw' hlt => ?_
    exact Or.inr ⟨(mem_rowRuns_bounds hw).1.trans (mem_rowRuns_bounds hw').1.symm, hlt⟩
  · refine (zipIdx_sorted current 0).imp fun hlt w hw w' hw' => Or.inl ?_
    rw [(mem_rowRuns_bounds hw).1, (mem_rowRuns_bounds hw').1]
    exact hlt

/-- The characters laid down last at a position stay, and continuation marks do not cover them. -/
theorem lastWrite_glyph (hsorted : ws.Pairwise Before) {w : (ℕ × ℕ) × Cell} (hw : w ∈ ws) :
    Grid.lastWrite (ws.flatMap (glyphWrites width)) w.1 = some w.2 := by
  induction ws with
  | nil => cases hw
  | cons a ws ih =>
      obtain ⟨hfirst, hrest⟩ := List.pairwise_cons.mp hsorted
      rw [List.flatMap_cons, Grid.lastWrite_append]
      rcases List.mem_cons.mp hw with rfl | hw
      · have hnone : Grid.lastWrite (ws.flatMap (glyphWrites width)) w.1 = none := by
          refine Grid.lastWrite_eq_none fun x hx hpos => ?_
          obtain ⟨w', hw', hx⟩ := List.mem_flatMap.mp hx
          have hbefore := hfirst w' hw'
          unfold Before at hbefore
          rcases mem_glyphWrites.mp hx with rfl | ⟨-, rfl⟩
          · rw [← hpos] at hbefore
            omega
          · rw [← hpos] at hbefore
            dsimp only at hbefore
            omega
        rw [hnone, Option.none_or]
        unfold glyphWrites
        split
        · have hright : (w.1.1, w.1.2 + 1) ≠ w.1 := fun h => by
            have := congrArg Prod.snd h
            dsimp only at this
            omega
          rw [Grid.lastWrite, Grid.lastWrite, Grid.lastWrite, if_neg hright, if_pos rfl]
          rfl
        · rw [Grid.lastWrite, Grid.lastWrite, if_pos rfl]
          rfl
      · rw [ih hrest hw, Option.some_or]

/-- A continuation mark stays where no character is laid down. -/
theorem lastWrite_continuation (hsorted : ws.Pairwise Before) {w : (ℕ × ℕ) × Cell} (hw : w ∈ ws)
    (hwide : width w.2.ch = some 2) (hfree : ∀ w' ∈ ws, w'.1 ≠ (w.1.1, w.1.2 + 1)) :
    Grid.lastWrite (ws.flatMap (glyphWrites width)) (w.1.1, w.1.2 + 1) =
      some (continuationCell w.2) := by
  induction ws with
  | nil => cases hw
  | cons a ws ih =>
      obtain ⟨hfirst, hrest⟩ := List.pairwise_cons.mp hsorted
      obtain ⟨-, hfree'⟩ := List.forall_mem_cons.mp hfree
      rw [List.flatMap_cons, Grid.lastWrite_append]
      rcases List.mem_cons.mp hw with rfl | hw
      · have hnone : Grid.lastWrite (ws.flatMap (glyphWrites width)) (w.1.1, w.1.2 + 1) = none := by
          refine Grid.lastWrite_eq_none fun x hx hpos => ?_
          obtain ⟨w', hw', hx⟩ := List.mem_flatMap.mp hx
          rcases mem_glyphWrites.mp hx with rfl | ⟨-, rfl⟩
          · exact hfree' x hw' hpos
          · -- only one character has this column to its right
            have hbefore := hfirst w' hw'
            simp only [Prod.mk.injEq] at hpos
            unfold Before at hbefore
            omega
        rw [hnone, Option.none_or, glyphWrites, if_pos hwide, Grid.lastWrite, Grid.lastWrite,
          if_pos rfl]
        rfl
      · rw [ih hrest hw hfree', Option.some_or]

theorem lastWrite_free {pos : ℕ × ℕ} (hfree : ∀ w ∈ ws, w.1 ≠ pos)
    (hleft : ∀ w ∈ ws, width w.2.ch = some 2 → (w.1.1, w.1.2 + 1) ≠ pos) :
    Grid.lastWrite (ws.flatMap (glyphWrites width)) pos = none := by
  refine Grid.lastWrite_eq_none fun x hx => ?_
  obtain ⟨w, hw, hx⟩ := List.mem_flatMap.mp hx
  rcases mem_glyphWrites.mp hx with rfl | ⟨hwide, rfl⟩
  · exact hfree x hw
  · exact hleft w hw hwide

end Writes

/-! ## The round trip -/

/-- The difference of the two grids is one that a diff carries. -/
structure Carried (width : Char → Option ℕ) (current baseline : Grid Cell) : Prop where
  /-- Two sent cells of a row with the same attributes are adjacent, or have a cell between them
  that is no continuation cell. -/
  packed : ∀ r i j c d, Sent current baseline r i c → Sent current baseline r j d →
    SameAttrs c d → i + 1 < j → ∃ k e, i < k ∧ k < j ∧ current.cellAt r k = some e ∧ e.wide = false
  /-- Right of a sent width-2 glyph is its continuation cell, or a cell that is sent itself. -/
  continued : ∀ r i c e, Sent current baseline r i c → width c.ch = some 2 →
    current.cellAt r (i + 1) = some e → e = continuationCell c ∨ Sent current baseline r (i + 1) e
  /-- A continuation cell is that of the baseline, or stands right of a sent width-2 glyph. -/
  backed : ∀ r i e, current.cellAt r i = some e → e.wide = true →
    baseline.cellAt r i = some e ∨
      ∃ k c, i = k + 1 ∧ Sent current baseline r k c ∧ width c.ch = some 2

section RoundTrip

variable {width : Char → Option ℕ} {current baseline : Grid Cell}
variable {r : ℕ}

/-- Packing is a matter of single rows. -/
theorem packedRow_iff {cells : List Cell} (hrow : current[r]? = some cells) :
    PackedRow cells (baseline.getD r []) ↔
      ∀ i j c d, Sent current baseline r i c → Sent current baseline r j d → SameAttrs c d →
        i + 1 < j → ∃ k e, i < k ∧ k < j ∧ current.cellAt r k = some e ∧ e.wide = false := by
  have hcell : ∀ k, current.cellAt r k = cells[k]? := by
    intro k
    rw [Grid.cellAt, hrow, Option.bind_some]
  simp only [PackedRow, sentAt_iff_sent hrow, hcell]

theorem Carried.mem_runCells (h : Carried width current baseline) {w : (ℕ × ℕ) × Cell} :
    w ∈ runCells (computeDiffRuns current baseline) ↔ Sent current baseline w.1.1 w.1.2 w.2 :=
  mem_computeDiffRuns_of_packed fun r _ hrow => (packedRow_iff hrow).mpr (h.packed r)

/-- Where the characters of a diff are laid on their own cells, its rows are packed. -/
theorem packedRow_of_glyphs (hglyphs : ∀ w ∈ runCells (computeDiffRuns current baseline),
      current.cellAt w.1.1 w.1.2 = some w.2) {cells : List Cell} (hrow : current[r]? = some cells) :
    PackedRow cells (baseline.getD r []) := by
  refine (aligned_iff_packed r 0).mp fun w hw => ?_
  have hcell := hglyphs w (mem_runCells_computeDiffRuns.mpr ⟨cells, r, hrow, hw⟩)
  obtain ⟨hr, -, -, hglyph⟩ := mem_rowRuns_bounds hw
  rw [hr, Grid.cellAt, hrow, Option.bind_some] at hcell
  exact ⟨w.1.2, w.2, (Nat.zero_add _).symm, hcell, hglyph⟩

/-- Every character of a diff is laid on a cell of the grid. -/
theorem exists_cell_of_glyph {w : (ℕ × ℕ) × Cell}
    (hw : w ∈ runCells (computeDiffRuns current baseline)) :
    ∃ e, current.cellAt w.1.1 w.1.2 = some e := by
  obtain ⟨cells, r, hrow, hw⟩ := mem_runCells_computeDiffRuns.mp hw
  obtain ⟨hr, -, hlt, -⟩ := mem_rowRuns_bounds hw
  rw [hr, Grid.cellAt, hrow, Option.bind_some]
  exact ⟨_, List.getElem?_eq_getElem (by omega)⟩

variable (width) in
/-- Where the diff carries exactly the sent cells, the last write to a cell of the grid is: its
own value if it is sent; the mark of a sent width-2 glyph to its left; else nothing. -/
theorem lastWrite_of_mem_iff (hmem : ∀ w, w ∈ runCells (computeDiffRuns current baseline) ↔
      Sent current baseline w.1.1 w.1.2 w.2) {i : ℕ} {e : Cell} (he : current.cellAt r i = some e) :
    (Sent current baseline r i e ∧
        Grid.lastWrite (runWrites width (computeDiffRuns current baseline)) (r, i) = some e) ∨
      (¬ Sent current baseline r i e ∧ ∃ k c, i = k + 1 ∧ Sent current baseline r k c ∧
        width c.ch = some 2 ∧
        Grid.lastWrite (runWrites width (computeDiffRuns current baseline)) (r, i) =
          some (continuationCell c)) ∨
      (¬ Sent current baseline r i e ∧
        (¬ ∃ k c, i = k + 1 ∧ Sent current baseline r k c ∧ width c.ch = some 2) ∧
        Grid.lastWrite (runWrites width (computeDiffRuns current baseline)) (r, i) = none) := by
  have hsorted := computeDiffRuns_sorted current baseline
  by_cases hsent : Sent current baseline r i e
  · exact Or.inl ⟨hsent, lastWrite_glyph hsorted ((hmem ((r, i), e)).mpr hsent)⟩
  · refine Or.inr ?_
    have hfree : ∀ w ∈ runCells (computeDiffRuns current baseline), w.1 ≠ (r, i) := by
      intro w hw hpos
      have hw' := (hmem w).mp hw
      rw [hpos] at hw'
      obtain rfl : w.2 = e := Option.some.inj (hw'.1.symm.trans he)
      exact hsent hw'
    by_cases hleft : ∃ k c, i = k + 1 ∧ Sent current baseline r k c ∧ width c.ch = some 2
    · obtain ⟨k, c, rfl, hc, hwide⟩ := hleft
      have hlast := lastWrite_continuation hsorted ((hmem ((r, k), c)).mpr hc) hwide hfree
      exact Or.inl ⟨hsent, k, c, rfl, hc, hwide, hlast⟩
    · refine Or.inr ⟨hsent, hleft, lastWrite_free hfree ?_⟩
      intro w hw hwide hpos
      have hw' := (hmem w).mp hw
      rw [Prod.mk.injEq] at hpos
      rw [hpos.1] at hw'
      exact hleft ⟨w.1.2, w.2, hpos.2.symm, hw', hwide⟩

section Fitted

variable {fitted : Grid Cell} {rows cols : ℕ}

/-- A cell of the result is the last write to it, else that of the baseline or a blank. -/
theorem cellAt_writeAll_fitted (hcurrent : current.HasShape rows cols)
    (hfitted : fitted.HasShape rows cols) (hfit : ∀ r < rows, ∀ c < cols,
      fitted.cellAt r c = some ((baseline.cellAt r c).getD Cell.blank)) (ws : List ((ℕ × ℕ) × Cell))
    {i : ℕ} {e : Cell} (he : current.cellAt r i = some e) :
    (fitted.writeAll ws).cellAt r i =
      (Grid.lastWrite ws (r, i)).or (some ((baseline.cellAt r i).getD Cell.blank)) := by
  obtain ⟨hr, hi⟩ := (hcurrent.isSome_cellAt r i).mp (by rw [he]; rfl)
  rw [Grid.cellAt_writeAll _ _ ((hfitted.isSome_cellAt r i).mpr ⟨hr, hi⟩), hfit r hr i hi]

theorem carried_of_writeAll_eq (hcurrent : current.HasShape rows cols)
    (hfitted : fitted.HasShape rows cols)
    (hfit : ∀ r < rows, ∀ c < cols,
      fitted.cellAt r c = some ((baseline.cellAt r c).getD Cell.blank))
    (heq : fitted.writeAll (runWrites width (computeDiffRuns current baseline)) = current) :
    Carried width current baseline := by
  have hcell : ∀ r i e, current.cellAt r i = some e →
      (Grid.lastWrite (runWrites width (computeDiffRuns current baseline)) (r, i)).or
        (some ((baseline.cellAt r i).getD Cell.blank)) = some e := by
    intro r i e he
    rw [← cellAt_writeAll_fitted hcurrent hfitted hfit _ he, heq, he]
  -- a character that was laid down stays, so it was laid on its own cell
  have hglyphs : ∀ w ∈ runCells (computeDiffRuns current baseline),
      current.cellAt w.1.1 w.1.2 = some w.2 := by
    intro w hw
    obtain ⟨e, he⟩ := exists_cell_of_glyph hw
    have hlast := hcell _ _ e he
    rw [runWrites, lastWrite_glyph (computeDiffRuns_sorted current baseline) hw,
      Option.some_or] at hlast
    rw [he, ← hlast]
  have hmem : ∀ w, w ∈ runCells (computeDiffRuns current baseline) ↔
      Sent current baseline w.1.1 w.1.2 w.2 := fun w =>
    mem_computeDiffRuns_of_packed fun r _ hrow => packedRow_of_glyphs hglyphs hrow
  refine ⟨?_, ?_, ?_⟩
  · intro r i j c d hc
    obtain ⟨cells, hrow, -⟩ := Option.bind_eq_some_iff.mp hc.1
    exact (packedRow_iff hrow).mp (packedRow_of_glyphs hglyphs hrow) i j c d hc
  · intro r i c e hc hwide he
    rcases lastWrite_of_mem_iff width hmem he with
      ⟨hsent, -⟩ | ⟨-, k, d, hk, hd, -, hlast⟩ | ⟨-, hleft, -⟩
    · exact Or.inr hsent
    · obtain rfl : i = k := by omega
      obtain rfl : c = d := Option.some.inj (hc.1.symm.trans hd.1)
      have hvalue := hcell r (i + 1) e he
      rw [hlast, Option.some_or] at hvalue
      exact Or.inl (Option.some.inj hvalue).symm
    · exact absurd ⟨i, c, rfl, hc, hwide⟩ hleft
  · intro r i e he hcont
    rcases lastWrite_of_mem_iff width hmem he with
      ⟨hsent, -⟩ | ⟨-, k, c, hk, hc, hwide, -⟩ | ⟨-, -, hlast⟩
    · exact absurd (hsent.2.1.symm.trans hcont) Bool.false_ne_true
    · exact Or.inr ⟨k, c, hk, hc, hwide⟩
    · have hvalue := hcell r i e he
      rw [hlast, Option.none_or] at hvalue
      refine Or.inl ?_
      -- a blank is no continuation cell, so the baseline has this one
      cases hb : baseline.cellAt r i with
      | none =>
          rw [hb] at hvalue
          obtain rfl : Cell.blank = e := Option.some.inj hvalue
          cases hcont
      | some b =>
          rw [hb] at hvalue
          exact hvalue

theorem Carried.writeAll_eq (h : Carried width current baseline)
    (hcurrent : current.HasShape rows cols) (hfitted : fitted.HasShape rows cols)
    (hfit : ∀ r < rows, ∀ c < cols,
      fitted.cellAt r c = some ((baseline.cellAt r c).getD Cell.blank)) :
    fitted.writeAll (runWrites width (computeDiffRuns current baseline)) = current := by
  refine (hfitted.writeAll _).ext hcurrent fun r i => ?_
  cases he : current.cellAt r i with
  | none =>
      rw [← Option.not_isSome_iff_eq_none, hcurrent.isSome_cellAt] at he
      rwa [← Option.not_isSome_iff_eq_none, (hfitted.writeAll _).isSome_cellAt]
  | some e =>
      rw [cellAt_writeAll_fitted hcurrent hfitted hfit _ he]
      rcases lastWrite_of_mem_iff width (fun w => h.mem_runCells) he with
        ⟨-, hlast⟩ | ⟨hsent, k, c, rfl, hc, hwide, hlast⟩ | ⟨hsent, hleft, hlast⟩
      · rw [hlast, Option.some_or]
      · rw [hlast, Option.some_or]
        rcases h.continued r k c e hc hwide he with rfl | hsent'
        · rfl
        · exact absurd hsent' hsent
      · have hbase : baseline.cellAt r i = some e := by
          cases hcont : e.wide with
          | true => exact (h.backed r i e he hcont).resolve_right hleft
          | false =>
              by_contra hbase
              exact hsent ⟨he, hcont, hbase⟩
        rw [hlast, Option.none_or, hbase, Option.getD_some]

end Fitted

/-- **The round trip.**  Take any grid that a terminal reaches, of a size the client accepts, and
a client whose confirmed grid is any baseline.  Applying a newer diff with the size of the grid and
the runs of `compute_diff_runs` against the baseline makes the confirmed grid equal to it exactly
when the difference is one that a diff carries. -/
theorem roundTrip_iff {toLowercase : List Char → List Char} {startCols startRows : ℕ}
    {calls : List TerminalCall} {t : WholeTerminal}
    (hrun : (WholeTerminal.life width toLowercase).run (.new startCols startRows) calls = some t)
    (hdims : DimsInRange t.screen.cols t.screen.rows) {screen : ClientScreen}
    (hscreen : screen.WellShaped) {diff : StateDiff}
    (hepoch : screen.lastAppliedEpoch < diff.epoch) (hcols : diff.cols = t.screen.cols)
    (hrows : diff.rows = t.screen.rows)
    (hruns : diff.runs = computeDiffRuns t.screen.grid screen.confirmed) :
    (screen.apply width diff).confirmed = t.screen.grid ↔
      Carried width t.screen.grid screen.confirmed := by
  have hshape : t.screen.grid.HasShape t.screen.rows t.screen.cols :=
    ((WholeTerminal.life width toLowercase).invariant_run (fun t => t.screen.Represented)
      (fun _ _ _ h hs => WholeTerminal.step_represented h hs)
      (TerminalState.represented_new startCols startRows) hrun).shaped.grid
  have haccepts : screen.Accepts diff := by
    refine ⟨by omega, hepoch.le, ?_⟩
    rwa [hcols, hrows]
  have hfitted := hscreen.fitTo t.screen.cols t.screen.rows
  have hfit : ∀ r < t.screen.rows, ∀ c < t.screen.cols,
      (screen.fitTo t.screen.cols t.screen.rows).confirmed.cellAt r c =
        some ((screen.confirmed.cellAt r c).getD Cell.blank) :=
    fun r hr c hc => hscreen.cellAt_fitTo hr hc
  rw [ClientScreen.apply_of_accepts width haccepts]
  dsimp only
  rw [applyRuns_eq_writeAll_runWrites, hcols, hrows, hruns]
  exact ⟨carried_of_writeAll_eq hshape hfitted hfit, fun h => h.writeAll_eq hshape hfitted hfit⟩

end RoundTrip

/-- Two glyphs are wide, everything else is not. -/
def someWide (ch : Char) : Option ℕ := if ch = '世' ∨ ch = '界' then some 2 else some 1

/-- The diff that takes a client from its confirmed grid to the grid of a terminal. -/
def diffTo (t : WholeTerminal) (screen : ClientScreen) : StateDiff where
  epoch := screen.lastAppliedEpoch + 1
  cols := t.screen.cols
  rows := t.screen.rows
  cursor := t.screen.cursor
  altScreen := t.screen.echoState.altScreen
  runs := computeDiffRuns t.screen.grid screen.confirmed

/-- A wide glyph and a bold letter on a row of four columns. -/
def boldText : WholeTerminal :=
  ((WholeTerminal.life someWide id).run (.new 4 1)
    [.dispatch (.print '世'), .dispatch (.csi [(1, [])] [] 'm'), .dispatch (.print 'a')]).getD
      (.new 4 1)

theorem roundTrip_boldText :
    ((ClientScreen.new 3 2).apply someWide (diffTo boldText (.new 3 2))).confirmed =
        boldText.screen.grid ∧
      Carried someWide boldText.screen.grid (ClientScreen.new 3 2).confirmed := by
  have hrun : (WholeTerminal.life someWide id).run (.new 4 1)
      [.dispatch (.print '世'), .dispatch (.csi [(1, [])] [] 'm'), .dispatch (.print 'a')] =
        some boldText := by
    decide
  have hequal : ((ClientScreen.new 3 2).apply someWide (diffTo boldText (.new 3 2))).confirmed =
      boldText.screen.grid := by
    decide
  have hnewer : (ClientScreen.new 3 2).lastAppliedEpoch < (diffTo boldText (.new 3 2)).epoch := by
    decide
  have hiff := roundTrip_iff hrun (by decide) (ClientScreen.wellShaped_new 3 2) hnewer rfl rfl rfl
  exact ⟨hequal, hiff.mp hequal⟩

/-- Two wide glyphs on a row of five columns. -/
def wideText : WholeTerminal :=
  ((WholeTerminal.life someWide id).run (.new 5 1)
    [.dispatch (.print '世'), .dispatch (.print '界')]).getD (.new 5 1)

/-- **Wide text is misplaced.**  The scanner sends both glyphs in one run, and the writer lays the
second on the column of the first one's continuation cell. -/
theorem wide_text_misplaced :
    (WholeTerminal.life someWide id).run (.new 5 1)
        [.dispatch (.print '世'), .dispatch (.print '界')] = some wideText ∧
      (ClientScreen.new 5 1).confirmed = (WholeTerminal.new 5 1).screen.grid ∧
      wideText.screen.grid =
        [[SgrState.default.cell '世' false, SgrState.default.cell ' ' true,
          SgrState.default.cell '界' false, SgrState.default.cell ' ' true, Cell.blank]] ∧
      ((ClientScreen.new 5 1).apply someWide (diffTo wideText (.new 5 1))).confirmed =
        [[SgrState.default.cell '世' false, SgrState.default.cell '界' false,
          SgrState.default.cell ' ' true, Cell.blank, Cell.blank]] := by
  decide

end Nosh.Sync
