import Nosh.Server.PlainTerminal

/-!
# The alternate screen and the scrollback

Only the primary screen has a scrollback. Whether a cell of a pushed line was once on the
alternate screen cannot be seen from the cell, so its origin is traced with dye: a second
terminal receives the same dispatches, but before each of them every cell of the alternate screen
takes a colour, and the pen loses it on the primary screen. The two terminals differ in
attributes only, so the colour of a cell of the second terminal says that the cell at its place
in the first one was on the alternate screen when some dispatch began.

`?1049h` on the alternate screen saves the alternate grid as the primary one. The next `?1049l`
makes it the primary screen, and it scrolls into the scrollback.

## Main Definitions

* `TerminalState.dyed`, `TerminalHistory.dyedLife` — the dyed terminal
* `TerminalState.Edits` — what a step that stays on its screen may do
* `TerminalState.Separate` — the invariant of the dyed terminal

## Main Results

* `run_plain` — the dyed terminal is the terminal up to attributes, and stays clean.
* `pushed_not_alternate` — no line with a cell of the alternate screen is pushed, as long as
  the alternate screen is entered from the primary one only.
-/

namespace Nosh.Server

open Lib Proto

namespace TerminalState

variable {t t' : TerminalState} {width : Char → Option ℕ} {params : List Param}

/-! ## Dye -/

/-- The colour of the alternate screen. -/
def dye (cell : Cell) : Cell := { cell with fg := some 1 }

/-- The cell does not have the colour of the alternate screen. -/
def Undyed (cell : Cell) : Prop := cell.fg ≠ some 1

instance : DecidablePred Undyed := fun cell => inferInstanceAs (Decidable (cell.fg ≠ some 1))

/-- On the alternate screen every cell takes the colour; what is printed on the primary screen
has no colour at all. -/
def dyed (t : TerminalState) : TerminalState :=
  { t with
    grid := if t.echoState.altScreen then t.grid.map (List.map dye) else t.grid
    sgr := if t.echoState.altScreen then { SgrState.default with fg := some 1 } else .default }

theorem plain_dyed (t : TerminalState) : t.dyed.plain = t.plain := by
  have hgrid : plainGrid (t.grid.map (List.map dye)) = plainGrid t.grid := by
    simp [plainGrid, unstyled, dye, Function.comp_def]
  unfold dyed plain
  split
  · rw [hgrid]
  · rfl

/-! ## What a dispatch writes -/

/-- A step that stays on its screen: the saved screen is untouched, and the cells of the grid
are old ones, blanks and cells written with the pen. -/
structure Edits (t t' : TerminalState) : Prop where
  echoState : t'.echoState = t.echoState
  saved : t'.savedPrimary = t.savedPrimary
  cells : ∀ p : Cell → Prop, p Cell.blank → (∀ c wide, p (t.sgr.cell c wide)) → t.grid.All p →
    t'.grid.All p

theorem Edits.refl (t : TerminalState) : t.Edits t := ⟨rfl, rfl, fun _ _ _ h => h⟩

theorem forall_mem_putCell {p : Cell → Prop} {sgr : SgrState} (hpen : ∀ c wide, p (sgr.cell c wide))
    (c : Char) (colWidth col : ℕ) (row : List Cell) (h : ∀ cell ∈ row, p cell) :
    ∀ cell ∈ putCell sgr c colWidth col row, p cell := by
  rw [putCell_eq_mapIdx]
  intro cell hcell
  obtain ⟨i, hi, rfl⟩ := List.mem_mapIdx.mp hcell
  split
  · exact hpen c false
  · split
    · exact hpen ' ' true
    · exact h _ (List.getElem_mem hi)

section Blank

variable {p : Cell → Prop} (hblank : p Cell.blank)
include hblank

theorem forall_mem_replicate_blank (n : ℕ) : ∀ cell ∈ List.replicate n Cell.blank, p cell := by
  intro cell hcell
  rwa [List.eq_of_mem_replicate hcell]

theorem forall_mem_resizeRow (cols : ℕ) (row : List Cell) (h : ∀ cell ∈ row, p cell) :
    ∀ cell ∈ resizeRow cols row, p cell :=
  List.forall_mem_append.mpr
    ⟨fun cell hcell => h cell (List.mem_of_mem_take hcell), forall_mem_replicate_blank hblank _⟩

theorem all_edit_blankWhere (region : ℕ → ℕ → Prop) [∀ r c, Decidable (region r c)]
    {grid : Grid Cell} (h : grid.All p) : (grid.edit (blankWhere region)).All p := by
  refine h.edit fun r c cell hcell => ?_
  unfold blankWhere
  split
  · exact hblank
  · exact hcell

theorem all_resizeGrid (cols rows : ℕ) {grid : Grid Cell} (h : grid.All p) :
    (resizeGrid cols rows grid).All p :=
  ((h.map (forall_mem_resizeRow hblank cols)).drop _).append (Grid.all_replicate hblank _ _)

end Blank

theorem scrollUp_edits (hs : t.scrollUp = some t') : t.Edits t' := by
  unfold scrollUp at hs
  split at hs
  · cases hs
    exact .refl t
  · split at hs
    · cases hs
    · rename_i top rest hgrid
      cases hs
      refine ⟨rfl, rfl, fun p hblank _ h => ?_⟩
      rw [hgrid] at h
      exact (h.drop 1).append (Grid.all_replicate hblank 1 t.cols)

theorem lf_edits (hs : t.lf = some t') : t.Edits t' := by
  unfold lf at hs
  split at hs
  · exact scrollUp_edits hs
  · cases hs
    exact { Edits.refl t with }

/-- A character is written before the line feed of a wrap. -/
theorem all_write {p : Cell → Prop} (hpen : ∀ c wide, p (t.sgr.cell c wide)) (h : t.grid.All p)
    (c : Char) (colWidth row col : ℕ) :
    Grid.All p (t.grid.modify row (putCell t.sgr c colWidth col)) :=
  h.modify row (forall_mem_putCell hpen c colWidth col)

theorem printChar_edits {c : Char} (hs : t.printChar width c = some t') : t.Edits t' := by
  unfold printChar at hs
  split at hs
  · cases hs
    exact .refl t
  · dsimp only at hs
    generalize (if width c = some 2 then 2 else 1) = colWidth at hs
    split at hs
    · have hlf := lf_edits hs
      exact ⟨hlf.echoState, hlf.saved,
        fun p hblank hpen h => hlf.cells p hblank hpen (all_write hpen h c colWidth _ _)⟩
    · cases hs
      exact ⟨rfl, rfl, fun p _ hpen h => all_write hpen h c colWidth _ _⟩

theorem execute_edits {byte : UInt8} (hs : t.execute byte = some t') : t.Edits t' := by
  unfold execute at hs
  split at hs
  · cases hs
    exact { Edits.refl t with }
  · split at hs
    · exact lf_edits hs
    · split at hs
      · cases hs
        exact { Edits.refl t with }
      · cases hs
        exact .refl t

theorem eraseDisplay_edits {n : ℕ} (hs : t.eraseDisplay n = some t') : t.Edits t' := by
  rw [eraseDisplay_eq hs]
  exact ⟨rfl, rfl, fun p hblank _ h => all_edit_blankWhere hblank _ h⟩

theorem eraseLine_edits {n : ℕ} (hs : t.eraseLine n = some t') : t.Edits t' := by
  rw [eraseLine_eq hs]
  exact ⟨rfl, rfl, fun p hblank _ h => all_edit_blankWhere hblank _ h⟩

theorem csiDispatch_edits {intermediates : List UInt8} {action : Char}
    (hpublic : intermediates ≠ [0x3F]) (hs : t.csiDispatch params intermediates action = some t') :
    t.Edits t' := by
  unfold csiDispatch at hs
  rw [if_neg hpublic] at hs
  dsimp only at hs
  split at hs
  case h_7 => exact eraseDisplay_edits hs
  case h_8 => exact eraseLine_edits hs
  all_goals
    cases hs
    exact { Edits.refl t with }

/-! ## Keeping the screens apart -/

/-- No cell of the primary screen, shown or saved, has the colour of the alternate screen, and
the primary screen is saved while the alternate one is shown. -/
structure Separate (t : TerminalState) : Prop where
  shown : t.echoState.altScreen = false → t.grid.All Undyed
  saved : ∀ saved, t.savedPrimary = some saved → saved.1.All Undyed
  entered : t.echoState.altScreen = true → t.savedPrimary.isSome

theorem undyed_blank : Undyed Cell.blank := by decide

theorem separate_new (cols rows : ℕ) : (new cols rows).Separate where
  shown _ := Grid.all_replicate undyed_blank rows cols
  saved := by
    intro saved h
    cases h
  entered h := by cases h

theorem Separate.dyed (h : t.Separate) : t.dyed.Separate where
  shown := by
    intro hprimary
    have hgrid : t.dyed.grid = t.grid := by
      unfold TerminalState.dyed at hprimary ⊢
      dsimp only at hprimary ⊢
      rw [if_neg (Bool.eq_false_iff.mp hprimary)]
    rw [hgrid]
    exact h.shown hprimary
  saved := h.saved
  entered := h.entered

/-- On the primary screen the pen of a dyed terminal leaves no colour. -/
theorem dyed_pen (hprimary : t.echoState.altScreen = false) (c : Char) (wide : Bool) :
    Undyed (t.dyed.sgr.cell c wide) := by
  unfold TerminalState.dyed
  dsimp only
  rw [if_neg (Bool.eq_false_iff.mp hprimary)]
  rintro ⟨⟩

/-- How often a parameter list asks for `?1049`. -/
def altScreenModes (params : List Param) : ℕ := params.countP fun mode => mode.1 = 1049

/-- The dispatch enters the alternate screen at most once, and from the primary screen only. -/
def EntersFromPrimary (t : TerminalState) : Dispatch → Prop
  | .csi params intermediates action =>
      intermediates = [0x3F] → action = 'h' →
        altScreenModes params ≤ if t.echoState.altScreen then 0 else 1
  | _ => True

instance (t : TerminalState) (d : Dispatch) : Decidable (t.EntersFromPrimary d) :=
  match d with
  | .csi params intermediates action =>
      inferInstanceAs (Decidable (intermediates = [0x3F] → action = 'h' →
        altScreenModes params ≤ if t.echoState.altScreen then 0 else 1))
  | .print _ | .execute _ | .esc _ => instDecidableTrue

section

variable (h : t.Separate)

include h

theorem Separate.of_edits (he : t.Edits t')
    (hpen : t.echoState.altScreen = false → ∀ c wide, Undyed (t.sgr.cell c wide)) :
    t'.Separate where
  shown := by
    intro hprimary
    rw [he.echoState] at hprimary
    exact he.cells Undyed undyed_blank (hpen hprimary) (h.shown hprimary)
  saved := by
    rw [he.saved]
    exact h.saved
  entered := by
    rw [he.echoState, he.saved]
    exact h.entered

theorem Separate.resize (cols rows : ℕ) : (t.resize cols rows).Separate where
  shown hprimary := all_resizeGrid undyed_blank cols rows (h.shown hprimary)
  saved := by
    intro saved hsaved
    obtain ⟨old, hold, rfl⟩ := Option.map_eq_some_iff.mp hsaved
    exact all_resizeGrid undyed_blank cols rows (h.saved old hold)
  entered := by
    intro halt
    have := h.entered halt
    simpa [TerminalState.resize] using this

theorem Separate.enterAltScreen (hprimary : t.echoState.altScreen = false) :
    t.enterAltScreen.Separate where
  shown := by
    rintro ⟨⟩
  saved := by
    rintro saved ⟨⟩
    exact h.shown hprimary
  entered _ := rfl

theorem Separate.exitAltScreen : t.exitAltScreen.Separate := by
  unfold TerminalState.exitAltScreen
  split
  · rename_i grid cursor sgr hsaved
    refine ⟨fun _ => h.saved _ hsaved, ?_, ?_⟩
    · rintro saved ⟨⟩
    · rintro ⟨⟩
  · rename_i hnone
    -- nothing is saved, so the primary screen was shown already
    refine ⟨fun _ => ?_, h.saved, ?_⟩
    · refine h.shown (Bool.eq_false_iff.mpr fun halt => ?_)
      have := h.entered halt
      rw [hnone] at this
      cases this
    · rintro ⟨⟩

/-- The modes of one `CSI ? Pm h`: the alternate screen is entered at most once, and from the
primary screen only. -/
theorem Separate.enable (hmodes : altScreenModes params ≤ if t.echoState.altScreen then 0 else 1) :
    (params.foldl (privateMode true) t).Separate := by
  induction params generalizing t with
  | nil => exact h
  | cons mode params ih =>
      rw [List.foldl_cons]
      by_cases hmode : mode.1 = 1049
      · have hcount : altScreenModes (mode :: params) = altScreenModes params + 1 :=
          List.countP_cons_of_pos (by simpa using hmode)
        have henter : t.privateMode true mode = t.enterAltScreen := by
          unfold privateMode
          rw [hmode]
          rfl
        rw [hcount] at hmodes
        rw [henter]
        cases halt : t.echoState.altScreen with
        -- here the alternate grid would be saved as the primary one
        | true => simp [halt] at hmodes
        | false =>
            refine ih (h.enterAltScreen halt) ?_
            rw [if_pos (show t.enterAltScreen.echoState.altScreen = true from rfl)]
            simpa [halt] using hmodes
      · have hcount : altScreenModes (mode :: params) = altScreenModes params :=
          List.countP_cons_of_neg (by simpa using hmode)
        rw [hcount] at hmodes
        have hkeep : (t.privateMode true mode).Separate ∧
            (t.privateMode true mode).echoState.altScreen = t.echoState.altScreen := by
          unfold privateMode
          split
          · exact ⟨{ h with }, rfl⟩
          · contradiction
          · exact ⟨{ h with }, rfl⟩
          · exact ⟨{ h with }, rfl⟩
          · exact ⟨h, rfl⟩
        refine ih hkeep.1 ?_
        rw [hkeep.2]
        exact hmodes

theorem Separate.disable (params : List Param) : (params.foldl (privateMode false) t).Separate := by
  induction params generalizing t with
  | nil => exact h
  | cons mode params ih =>
      refine ih ?_
      unfold privateMode
      split
      · exact { h with }
      · exact h.exitAltScreen
      · exact { h with }
      · exact { h with }
      · exact h

theorem Separate.csiDispatch
    (hpen : t.echoState.altScreen = false → ∀ c wide, Undyed (t.sgr.cell c wide))
    {intermediates : List UInt8} {action : Char}
    (hok : t.EntersFromPrimary (.csi params intermediates action))
    (hs : t.csiDispatch params intermediates action = some t') : t'.Separate := by
  by_cases hprivate : intermediates = [0x3F]
  · unfold TerminalState.csiDispatch at hs
    rw [if_pos hprivate] at hs
    split at hs
    · cases hs
      by_cases hset : action = 'h'
      · rw [decide_eq_true hset]
        exact h.enable (hok hprivate hset)
      · rw [decide_eq_false hset]
        exact h.disable params
    · cases hs
      exact h
  · exact h.of_edits (csiDispatch_edits hprivate hs) hpen

theorem Separate.dispatch
    (hpen : t.echoState.altScreen = false → ∀ c wide, Undyed (t.sgr.cell c wide)) {d : Dispatch}
    (hok : t.EntersFromPrimary d) (hs : t.dispatch width d = some t') : t'.Separate := by
  cases d with
  | print c => exact h.of_edits (printChar_edits hs) hpen
  | execute byte => exact h.of_edits (execute_edits hs) hpen
  | csi params intermediates action => exact h.csiDispatch hpen hok hs
  | esc byte =>
      cases hs
      unfold escDispatch
      split
      · exact separate_new _ _
      · exact h

end

theorem lfPushes_undyed (h : t.echoState.altScreen = false → t.grid.All Undyed) :
    t.lfPushes.All Undyed := by
  unfold lfPushes
  split
  · rename_i hscroll
    exact (h hscroll.2.2).take 1
  · exact fun row hrow => (List.not_mem_nil hrow).elim

/-- What leaves the screen was on the primary screen. -/
theorem Separate.pushes (h : t.Separate)
    (hpen : t.echoState.altScreen = false → ∀ c wide, Undyed (t.sgr.cell c wide)) (d : Dispatch) :
    (t.pushes width d).All Undyed := by
  have hnil : Grid.All Undyed [] := fun row hrow => (List.not_mem_nil hrow).elim
  cases d with
  | print c =>
      dsimp only [TerminalState.pushes]
      generalize (if width c = some 2 then 2 else 1) = colWidth
      split
      · exact hnil
      · split
        · refine lfPushes_undyed fun hprimary => ?_
          exact all_write (hpen hprimary) (h.shown hprimary) c colWidth _ _
        · exact hnil
  | execute byte =>
      dsimp only [TerminalState.pushes]
      split
      · exact lfPushes_undyed h.shown
      · exact hnil
  | csi params intermediates action => exact hnil
  | esc byte => exact hnil

theorem Separate.resizePushes (h : t.Separate) (cols rows : ℕ) :
    (t.resizePushes cols rows).All Undyed := by
  unfold TerminalState.resizePushes
  split
  · exact fun row hrow => (List.not_mem_nil hrow).elim
  · rename_i hprimary
    exact ((h.shown (Bool.eq_false_iff.mpr hprimary)).map
      (forall_mem_resizeRow undyed_blank cols)).take _

end TerminalState

namespace TerminalHistory

variable {h o : TerminalHistory}

/-- One event of the dyed terminal. -/
def dyedStep (width : Char → Option ℕ) (h : TerminalHistory) (ev : TerminalEvent) :
    Option TerminalHistory :=
  step width { h with terminal := h.terminal.dyed } ev

/-- The life of the dyed terminal. -/
def dyedLife (width : Char → Option ℕ) : Machine TerminalHistory TerminalEvent :=
  ⟨dyedStep width⟩

/-- Dye changes attributes only. -/
theorem dyedStep_plain (width : Char → Option ℕ) (heq : o.plain = h.plain) (ev : TerminalEvent) :
    (o.dyedStep width ev).map plain = (h.step width ev).map plain := by
  unfold dyedStep
  have hdye : plain { o with terminal := o.terminal.dyed } = h.plain := by
    rw [← heq, plain, TerminalState.plain_dyed]
    rfl
  rw [step_plain, hdye, ← step_plain]

/-- The dyed terminal has kept its screens apart, and no line it pushed has a cell with the
colour of the alternate screen. -/
structure Clean (h : TerminalHistory) : Prop where
  terminal : h.terminal.Separate
  pushed : h.pushed.All TerminalState.Undyed

theorem clean_new (cols rows : ℕ) : (new cols rows).Clean :=
  ⟨TerminalState.separate_new cols rows, fun _ hrow => (List.not_mem_nil hrow).elim⟩

/-- The event enters the alternate screen from the primary one only. -/
def EntersFromPrimary (h : TerminalHistory) : TerminalEvent → Prop
  | .dispatch d => h.terminal.EntersFromPrimary d
  | .resize _ _ => True

instance (h : TerminalHistory) (ev : TerminalEvent) : Decidable (h.EntersFromPrimary ev) :=
  match ev with
  | .dispatch d => inferInstanceAs (Decidable (h.terminal.EntersFromPrimary d))
  | .resize _ _ => instDecidableTrue

theorem Clean.step {width : Char → Option ℕ} {o' : TerminalHistory} {ev : TerminalEvent}
    (h : o.Clean) (hok : o.EntersFromPrimary ev) (hs : o.dyedStep width ev = some o') :
    o'.Clean := by
  have hdyed := h.terminal.dyed
  cases ev with
  | dispatch d =>
      obtain ⟨t, ht, rfl⟩ := Option.map_eq_some_iff.mp hs
      exact ⟨hdyed.dispatch TerminalState.dyed_pen hok ht,
        h.pushed.append (hdyed.pushes TerminalState.dyed_pen d)⟩
  | resize cols rows =>
      cases hs
      exact ⟨hdyed.resize cols rows, h.pushed.append (hdyed.resizePushes cols rows)⟩

/-- The guard does not look at attributes. -/
theorem entersFromPrimary_of_plain (heq : o.plain = h.plain) {ev : TerminalEvent}
    (hok : h.EntersFromPrimary ev) : o.EntersFromPrimary ev := by
  have hplain : o.plain.terminal.echoState = h.plain.terminal.echoState := by rw [heq]
  have halt : o.terminal.echoState = h.terminal.echoState := hplain
  cases ev with
  | dispatch d =>
      cases d with
      | csi params intermediates action =>
          intro hprivate hset
          rw [halt]
          exact hok hprivate hset
      | print c => trivial
      | execute byte => trivial
      | esc byte => trivial
  | resize cols rows => trivial

/-- The dyed terminal follows the terminal, and stays clean. -/
theorem run_plain {width : Char → Option ℕ} (heq : o.plain = h.plain) (hclean : o.Clean)
    {evs : List TerminalEvent} (hok : (life width).Along EntersFromPrimary h evs)
    {h' : TerminalHistory} (hrun : (life width).run h evs = some h') :
    ∃ o', (dyedLife width).run o evs = some o' ∧ o'.plain = h'.plain ∧ o'.Clean := by
  induction evs generalizing h o with
  | nil =>
      cases hrun
      exact ⟨o, rfl, heq, hclean⟩
  | cons ev evs ih =>
      rw [Machine.run_cons] at hrun
      obtain ⟨h₁, hs, hrun⟩ := Option.bind_eq_some_iff.mp hrun
      obtain ⟨hok₁, hok⟩ := ((life width).along_cons_of_step hs).mp hok
      -- no step depends on attributes, so the dyed terminal can follow
      have hmap : (o.dyedStep width ev).map plain = some h₁.plain := by
        rw [dyedStep_plain width heq ev]
        exact congrArg (Option.map plain) hs
      obtain ⟨o₁, ho, heq₁⟩ := Option.map_eq_some_iff.mp hmap
      obtain ⟨o', hrun', hends⟩ :=
        ih heq₁ (hclean.step (entersFromPrimary_of_plain heq hok₁) ho) hok hrun
      refine ⟨o', ?_, hends⟩
      rw [Machine.run_cons]
      exact Option.bind_eq_some_iff.mpr ⟨o₁, ho, hrun'⟩

/-- **Only the primary screen scrolls into the scrollback.** In every run that enters the
alternate screen from the primary one only, no cell of a pushed line was ever on the alternate
screen: the dyed terminal goes through the same run, has pushed the same lines up to attributes,
and none of them has the colour of the alternate screen. -/
theorem pushed_not_alternate {width : Char → Option ℕ} {cols rows : ℕ} {evs : List TerminalEvent}
    {h : TerminalHistory} (hok : (life width).Along EntersFromPrimary (new cols rows) evs)
    (hrun : (life width).run (new cols rows) evs = some h) :
    ∃ o, (dyedLife width).run (new cols rows) evs = some o ∧
      plainGrid o.pushed = plainGrid h.pushed ∧ o.pushed.All TerminalState.Undyed := by
  obtain ⟨o, hrun', heq, hclean⟩ := run_plain rfl (clean_new cols rows) hok hrun
  exact ⟨o, hrun', congrArg TerminalHistory.pushed heq, hclean.pushed⟩

/-- `CSI ? 1049 h` or `l`. -/
def altScreen (action : Char) : TerminalEvent := .dispatch (.csi [(1049, [])] [0x3F] action)

/-- `P` on the primary screen, `X` on the alternate one, and back: the line feed pushes `P`. -/
theorem pushed_not_alternate_once :
    ∃ o, (dyedLife fun _ => some 1).run (new 2 1)
        [.dispatch (.print 'P'), altScreen 'h', .dispatch (.print 'X'), altScreen 'l',
          .dispatch (.execute 0x0A)] = some o ∧
      plainGrid o.pushed = [[⟨'P', .none, none, none, false⟩, Cell.blank]] ∧
      o.pushed.All TerminalState.Undyed :=
  have hok : (life fun _ => some 1).Along EntersFromPrimary (new 2 1)
      [.dispatch (.print 'P'), altScreen 'h', .dispatch (.print 'X'), altScreen 'l',
        .dispatch (.execute 0x0A)] := by decide
  pushed_not_alternate hok rfl

/-- **A second `?1049h` on the alternate screen.** It saves the alternate grid as the primary
one; back on the primary screen, the line feed pushes the `X` that was printed on the alternate
screen. -/
theorem nested_enter_pushes_alternate :
    ∃ o h, (dyedLife fun _ => some 1).run (new 2 1)
        [altScreen 'h', .dispatch (.print 'X'), altScreen 'h', altScreen 'l',
          .dispatch (.execute 0x0A)] = some o ∧
      (life fun _ => some 1).run (new 2 1)
        [altScreen 'h', .dispatch (.print 'X'), altScreen 'h', altScreen 'l',
          .dispatch (.execute 0x0A)] = some h ∧
      plainGrid o.pushed = plainGrid h.pushed ∧
      h.pushed = [[⟨'X', .none, none, none, false⟩, Cell.blank]] ∧
      ¬ o.pushed.All TerminalState.Undyed :=
  ⟨_, _, rfl, rfl, rfl, rfl, by decide⟩

end TerminalHistory

end Nosh.Server
