import Nosh.Client.Fidelity
import Nosh.Client.ScrollbackWindow

/-!
# Switching between the scrollback and the live view

When the physical grid is reset, by a render of the scrollback or by a `Resize` frame, the terminal
goes on showing what was painted last. The next live render paints over it, but for the cells that
are blank in the desired grid: those equal the reset physical grid.

What was painted last is known without the terminal: the lines of the view at their offset, or the
grid of the last live render. `Watched` carries it along with the pump.

## Main Definitions

* `windowGrid` — what a render of the scrollback puts on the screen
* `Watched`, `watched` — the pump, with what the terminal shows behind a physical grid that was
  reset
* `Covers`, `Covered` — a live render paints over all of it

## Main Results

* `actAll_window` — a render of the scrollback shows its window.
* `Stands.paints` — what one event paints is what `Watched` says.
* `live_renders_faithful_iff` — **every live render is faithful exactly when every one covers what
  the terminal shows behind the physical grid.**
-/

namespace Nosh.Client

open Nosh.Lib Nosh.Proto

/-! ## What a render of the scrollback shows -/

/-- The lines of the view on the rows of the screen, each with the blanks behind it. -/
def windowGrid (lines : List ScrollbackLine) (offset cols rows : ℕ) : Grid Vt.Glyph :=
  (List.range rows).map fun r => rowGlyphs (paintedLine lines offset rows r) cols

section Window

variable {cols rows : ℕ}

/-- Commands for characters of one column do to a screen what they do to one that may have wide
ones. -/
theorem performAll_widen {s : Vt.Screen cols rows} (hcol : s.col < cols) (tokens : List Token) :
    performAll (fun _ => some 1) s.widen tokens = (actAll s tokens).widen := by
  have hcommands : ∀ (commands : List Vt.Command) {s : Vt.Screen cols rows}, s.col < cols →
      commands.foldl (Vt.WideScreen.perform fun _ => some 1) s.widen =
        (commands.foldl Vt.Screen.command s).widen := by
    intro commands
    induction commands with
    | nil => exact fun _ => rfl
    | cons command commands ih =>
        intro s hcol
        obtain ⟨hnext, hperform⟩ := Vt.Screen.widen_command hcol command
        rw [List.foldl_cons, List.foldl_cons, hperform, ih hnext]
  rw [performAll, hcommands _ hcol, List.foldl_flatMap]
  simp only [Token.foldl_commands]
  rfl

/-! Where every character takes one column, a row displays its characters. -/

theorem shownText_narrow (glyphs : List Vt.Glyph) :
    Vt.shownText (fun _ => some 1) glyphs = glyphs.map .narrow := by
  rw [Vt.shownText, List.map_eq_flatMap]
  refine List.flatMap_congr fun glyph _ => if_neg ?_
  rintro ⟨⟩

theorem rowShown_narrow (line : Option ScrollbackLine) :
    rowShown (fun _ => some 1) cols line = (rowGlyphs line cols).map .narrow := by
  rw [rowShown, rowGlyphs, shownText_narrow, List.map_append, List.map_replicate, List.length_map,
    lineGlyphs, List.length_map]
  rfl

/-- **A render of the scrollback shows its window**, if no line is longer than the screen. -/
theorem actAll_window (hrows : rows < 65536) {lines : List ScrollbackLine}
    (hlines : ∀ line ∈ lines, line.cells.length ≤ cols) (offset : ℕ) (s : Vt.Screen cols rows) :
    (actAll s (renderScrollbackToBuf lines offset cols rows)).grid =
      windowGrid lines offset cols rows := by
  by_cases hsize : 0 < cols ∧ 0 < rows
  · have hlen : ∀ line, (Vt.shownText (fun _ => some 1) (lineGlyphs line)).length =
        (cellsOf line).length := by
      intro line
      rw [shownText_narrow, List.length_map, lineGlyphs, List.length_map]
    have hnarrow : ∀ line ∈ lines, NoWider (fun _ => some 1) cols (some line) := fun line hline =>
      ⟨fun _ _ => Or.inl rfl, (hlen _).trans_le (hlines line hline)⟩
    have hwide : ¬ Wide (fun _ => some 1) (paintedLine lines offset rows (rows - 1)) := by
      rintro ⟨_, -, ⟨⟩⟩
    -- `clear` puts the cursor into the first column
    have hgrid := render_grid rfl hsize.1 hsize.2 hrows hnarrow offset (s.moveTo 1 1).widen
    rw [performAll_widen ((Nat.zero_min _).trans_lt hsize.1), renderScrollbackToBuf_eq] at hgrid
    simp only [if_neg hwide, rowShown_narrow] at hgrid
    have hinj : Function.Injective (List.map (List.map Vt.Shown.narrow)) :=
      List.map_injective_iff.mpr (List.map_injective_iff.mpr fun _ _ h => Vt.Shown.narrow.inj h)
    rw [renderScrollbackToBuf_eq]
    refine hinj (hgrid.trans ?_)
    rw [windowGrid, List.map_map]
    rfl
  · have hshape : (windowGrid lines offset cols rows).HasShape rows cols := by
      refine ⟨by rw [windowGrid, List.length_map, List.length_range], ?_⟩
      intro row hrow
      obtain ⟨r, -, rfl⟩ := List.mem_map.mp hrow
      have hfits : (cellsOf (paintedLine lines offset rows r)).length ≤ cols := by
        cases hline : paintedLine lines offset rows r with
        | none => exact Nat.zero_le _
        | some line => exact hlines line (List.mem_of_getElem? hline)
      rw [rowGlyphs, lineGlyphs, List.length_append, List.length_map, List.length_replicate]
      omega
    have hnone : ∀ {g : Grid Vt.Glyph}, g.HasShape rows cols → ∀ r c, g.cellAt r c = none := by
      intro g hg r c
      refine Option.not_isSome_iff_eq_none.mp ((hg.isSome_cellAt r c).not.mpr fun h => ?_)
      exact hsize ⟨by omega, by omega⟩
    exact (Vt.Screen.shape _).ext hshape fun r c =>
      (hnone (Vt.Screen.shape _) r c).trans (hnone hshape r c).symm

end Window

/-! ## What the terminal shows behind the physical grid -/

/-- What the terminal shows behind a physical grid that was reset, after a render: the window of the
scrollback, or nothing after a live render. -/
def Paint.under : Paint → Option (Grid Vt.Glyph)
  | .live _ _ _ => none
  | .scrollback before =>
      match before.pump.view with
      | .active lines offset _ _ _ =>
          some (windowGrid lines offset before.pump.screen.cols before.pump.screen.rows)
      | .live => none

/-- A live render paints over what the terminal shows behind the physical grid: where the desired
cell is blank, that is blank as well. -/
def Paint.Covers (under : Option (Grid Vt.Glyph)) : Paint → Prop
  | .live _ desired _ =>
      ∀ grid ∈ under, ∀ row col, desired.cellAt row col = some Cell.blank →
        grid.cellAt row col = some Vt.Glyph.blank
  | .scrollback _ => True

/-- Every one of these renders does, one after the other. -/
def Covered : Option (Grid Vt.Glyph) → List Paint → Prop
  | _, [] => True
  | under, paint :: paints => paint.Covers under ∧ Covered paint.under paints

/-- No line of the scrollback that is painted is longer than the screen. -/
def Paint.LinesFit (cols : ℕ) : Paint → Prop
  | .live _ _ _ => True
  | .scrollback before => ∀ line ∈ before.pump.view.lines, line.cells.length ≤ cols

/-- The pump, with what the terminal shows behind a physical grid that was reset. -/
structure Watched where
  display : Display
  under : Option (Grid Vt.Glyph)

/-- What is behind the physical grid after an event. A `Resize` frame resets the physical grid and
paints nothing. -/
def Watched.underAfter (width : Char → Option ℕ) (w : Watched) : DisplayEvent →
    Option (Grid Vt.Glyph)
  | .serverResize _ _ false => some (w.under.getD (looks w.display.physical))
  | event => (event.paints width w.display).foldl (fun _ paint => paint.under) w.under

/-- The pump under watch. -/
def watched (width : Char → Option ℕ) : Machine Watched DisplayEvent where
  step w event := ((display width).step w.display event).map fun s =>
    ⟨s, w.underAfter width event⟩

theorem watched_step {width : Char → Option ℕ} {w w' : Watched} {event : DisplayEvent} :
    (watched width).step w event = some w' ↔
      (display width).step w.display event = some w'.display ∧
        w'.under = w.underAfter width event := by
  change Option.map _ _ = _ ↔ _
  rw [Option.map_eq_some_iff]
  constructor
  · rintro ⟨s, hs, rfl⟩
    exact ⟨hs, rfl⟩
  · rintro ⟨hs, hunder⟩
    exact ⟨w'.display, hs, by rw [← hunder]⟩

section Fidelity

variable {width : Char → Option ℕ} {cols rows : ℕ} {screen : Vt.Screen cols rows}
  {under : Option (Grid Vt.Glyph)}
variable {s before : Display}

/-- The terminal shows the physical grid, or what was painted before it was reset. -/
def Stands (screen : Vt.Screen cols rows) (s : Display) : Option (Grid Vt.Glyph) → Prop
  | none => Shows screen s
  | some grid => s.physical = makeGrid cols rows ∧ (s.shown screen).grid = grid

theorem Stands.of_kept {t : Display} (h : Stands screen s under) (hkept : Kept s t) :
    Stands screen t under := by
  have hshown : t.shown screen = s.shown screen := by
    rw [Display.shown, Display.output, hkept.1]
    rfl
  cases under with
  | none =>
      unfold Stands Shows at h ⊢
      rw [hshown, hkept.2]
      exact h
  | some grid => exact ⟨hkept.2.trans h.1, by rw [hshown]; exact h.2⟩

theorem cellAt_makeGrid (cols rows row col : ℕ) :
    (makeGrid cols rows).cellAt row col =
      if row < rows ∧ col < cols then some Cell.blank else none := by
  rw [Grid.cellAt, makeGrid, List.getElem?_replicate]
  by_cases hrow : row < rows
  · rw [if_pos hrow, Option.bind_some, List.getElem?_replicate]
    simp only [hrow, true_and]
  · rw [if_neg hrow, if_neg fun h => hrow h.1]
    rfl

/-- **One live render** is faithful exactly if it covers what is behind the physical grid. -/
theorem Stands.live (hcols : cols < 65536) (hrows : rows < 65536) {desired : Grid Cell}
    {cursor : CursorPos} (h : Stands screen before under)
    (hsized : (Paint.live before desired cursor).Sized width cols rows) :
    (Paint.live before desired cursor).Faithful screen ↔
      (Paint.live before desired cursor).Covers under := by
  cases under with
  | none =>
      exact ⟨fun _ grid hgrid => (Option.not_mem_none grid hgrid).elim,
        fun _ => Shows.live hsized hcols hrows h⟩
  | some grid =>
      obtain ⟨hblank, hshown⟩ := h
      have hglyph : glyph Cell.blank = Vt.Glyph.blank := by decide
      rw [hsized.faithful_iff hcols hrows screen, hblank, hshown]
      constructor
      · intro hpaint grid' hgrid row col hcell
        cases hgrid
        have hin := (hsized.2.2.1.isSome_cellAt row col).mp (by rw [hcell]; rfl)
        rw [← hglyph]
        exact hpaint row col Cell.blank hcell ((cellAt_makeGrid ..).trans (if_pos hin))
      · intro hcovers row col cell hcell hphysical
        rw [cellAt_makeGrid] at hphysical
        split at hphysical
        · cases hphysical
          rw [hglyph]
          exact hcovers grid rfl row col hcell
        · cases hphysical

/-- **A render of the scrollback** leaves its window behind the physical grid. -/
theorem Stands.after_scrollback (hrows : rows < 65536)
    (hsized : (Paint.scrollback before).Sized width cols rows)
    (hfit : (Paint.scrollback before).LinesFit cols) :
    Stands screen before.renderScrollback (Paint.scrollback before).under := by
  obtain ⟨hbefore, hview⟩ := hsized
  have hplain := hbefore.plain.renderScrollback.written
  unfold Paint.LinesFit at hfit
  unfold Paint.under
  unfold Display.renderScrollback at hplain ⊢
  dsimp only at hfit ⊢
  cases hlines : before.pump.view with
  | live => exact absurd hlines hview
  | active lines offset pending epoch total =>
      rw [hlines] at hplain hfit
      dsimp only at hplain ⊢
      rw [hbefore.size.1, hbefore.size.2] at hplain ⊢
      refine ⟨rfl, ?_⟩
      rw [Display.shown_eq screen hplain]
      dsimp only
      rw [actAll_append]
      exact actAll_window hrows hfit offset _

/-- **The renders of an event**, one after the other. -/
theorem Stands.paints (hcols : cols < 65536) (hrows : rows < 65536) {s' : Display}
    {paints : List Paint} (h : Stands screen s under) (hchain : Chained s paints s')
    (hsized : ∀ paint ∈ paints, paint.Sized width cols rows ∧ paint.LinesFit cols) :
    ((∀ paint ∈ paints, paint.Faithful screen) ↔ Covered under paints) ∧
      ((∀ paint ∈ paints, paint.Faithful screen) →
        Stands screen s' (paints.foldl (fun _ paint => paint.under) under)) := by
  induction paints generalizing s under with
  | nil => exact ⟨⟨fun _ => trivial, fun _ => List.forall_mem_nil _⟩, fun _ => h.of_kept hchain⟩
  | cons paint paints ih =>
      obtain ⟨hkept, hrest⟩ := hchain
      obtain ⟨⟨hpaint, hfit⟩, hmore⟩ := List.forall_mem_cons.mp hsized
      have hbefore := h.of_kept hkept
      -- one render: faithful exactly if it covers, and then as `under` says
      obtain ⟨hiff, hafter⟩ : (paint.Faithful screen ↔ paint.Covers under) ∧
          (paint.Faithful screen → Stands screen paint.after paint.under) := by
        cases paint with
        | live before desired cursor =>
            exact ⟨hbefore.live hcols hrows hpaint, Shows.after_live hpaint⟩
        | scrollback before =>
            exact ⟨Iff.rfl, fun _ => Stands.after_scrollback hrows hpaint hfit⟩
      rw [List.forall_mem_cons, List.foldl_cons, Covered, ← hiff]
      constructor
      · exact and_congr_right fun hfirst => (ih (hafter hfirst) hrest hmore).1
      · rintro ⟨hfirst, hothers⟩
        exact (ih (hafter hfirst) hrest hmore).2 hothers

/-- What is displayed is sized, and the terminal shows what `Watched` says. -/
structure Tracked (width : Char → Option ℕ) (screen : Vt.Screen cols rows) (w : Watched) :
    Prop where
  sized : Sized width cols rows w.display
  stands : Stands screen w.display w.under

/-- What the events have to be: one-column text of the size of the terminal. -/
def DisplayEvent.Fits (width : Char → Option ℕ) (cols rows : ℕ) (s : Display)
    (event : DisplayEvent) : Prop :=
  event.OneColumn width ∧ event.SameSize cols rows ∧
    ∀ paint ∈ event.paints width s, paint.LinesFit cols

/-- A refused event paints nothing. -/
theorem paints_of_refused {event : DisplayEvent} (h : (display width).step s event = none) :
    event.paints width s = [] := by
  cases event with
  | datagram diff rttMs elapsed => cases h
  | serverResize cols rows limited => cases h
  | page lines total epoch => cases h
  | stdin csi forward elapsed => cases h
  | silence elapsed =>
      dsimp only [display] at h
      split at h
      · rename_i hactive
        exact if_pos hactive
      · cases h
  | lossTick elapsed =>
      dsimp only [display] at h
      split at h
      · cases h
      · rename_i hactive
        exact if_neg hactive

/-- **One event.** -/
theorem Tracked.event (hwidth : ∀ ch, isControl ch = true → width ch = none)
    (hcols : cols < 65536) (hrows : rows < 65536) {w : Watched} {event : DisplayEvent}
    (h : Tracked width screen w) (hok : event.Fits width cols rows w.display) :
    ((∀ paint ∈ event.paints width w.display, paint.Faithful screen) ↔
        Covered w.under (event.paints width w.display)) ∧
      ((∀ paint ∈ event.paints width w.display, paint.Faithful screen) →
        ∀ w', (watched width).step w event = some w' → Tracked width screen w') := by
  obtain ⟨hone, hsame, hfit⟩ := hok
  have hsized : ∀ paint ∈ event.paints width w.display,
      paint.Sized width cols rows ∧ paint.LinesFit cols := fun paint hpaint =>
    ⟨h.sized.paints hwidth hone hsame paint hpaint, hfit paint hpaint⟩
  by_cases hframe : ∃ cols' rows', event = .serverResize cols' rows' false
  · obtain ⟨cols', rows', rfl⟩ := hframe
    refine ⟨⟨fun _ => trivial, fun _ => List.forall_mem_nil _⟩, ?_⟩
    rintro - ⟨s', under'⟩ hstep
    obtain ⟨hstep, rfl⟩ := watched_step.mp hstep
    refine ⟨h.sized.step hwidth hone hsame hstep, ?_⟩
    obtain ⟨rfl, rfl⟩ := hsame.resolve_left Bool.false_ne_true
    cases hstep
    -- what the terminal shows is as before, and now behind a blank physical grid
    refine ⟨rfl, ?_⟩
    have hstands := h.stands
    cases hunder : w.under with
    | none =>
        rw [hunder] at hstands
        exact hstands
    | some grid =>
        rw [hunder] at hstands
        exact hstands.2
  · have hafter : w.underAfter width event =
        (event.paints width w.display).foldl (fun _ paint => paint.under) w.under := by
      unfold Watched.underAfter
      split
      · exact absurd ⟨_, _, rfl⟩ hframe
      · rfl
    cases hstep : (display width).step w.display event with
    | none =>
        rw [paints_of_refused hstep]
        refine ⟨⟨fun _ => trivial, fun _ => List.forall_mem_nil _⟩, fun _ w' hw => ?_⟩
        rw [(watched_step.mp hw).1] at hstep
        cases hstep
    | some s' =>
        have hchain := h.sized.paints_chained hsame (fun _ _ heq => hframe ⟨_, _, heq⟩) hstep
        obtain ⟨hiff, hstands⟩ := h.stands.paints hcols hrows hchain hsized
        refine ⟨hiff, fun hfaithful w' hw => ?_⟩
        obtain ⟨hw, hunder⟩ := watched_step.mp hw
        rw [hstep] at hw
        cases hw
        refine ⟨h.sized.step hwidth hone hsame hstep, ?_⟩
        rw [hunder, hafter]
        exact hstands hfaithful

end Fidelity

instance (cols : ℕ) (paint : Paint) : Decidable (paint.LinesFit cols) :=
  match paint with
  | .live _ _ _ => instDecidableTrue
  | .scrollback before => inferInstanceAs (Decidable (∀ line ∈ before.pump.view.lines, _))

instance (width : Char → Option ℕ) (cols rows : ℕ) (s : Display) (event : DisplayEvent) :
    Decidable (event.Fits width cols rows s) := inferInstanceAs (Decidable (_ ∧ _ ∧ _))

end Nosh.Client
