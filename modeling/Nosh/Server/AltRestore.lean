import Nosh.Server.Panic

/-!
# Leaving the alternate screen

A program that switches to the alternate screen with `?1049h`, draws there and leaves with
`?1049l` finds the primary screen as it was: no call in between touches the saved screen, and
nothing that scrolls off the alternate screen gets into the scrollback. `CSI 3 J` clears the
scrollback from either screen.

## Main Definitions

* `TerminalCall.StaysOnScreen` — a call that is no `?1049`, no RIS and no resize
* `TerminalState.Saves` — the alternate screen is shown, and a screen is saved

## Main Results

* `Saves.step` — a call on the alternate screen keeps the saved screen and the scrollback.
* `alternate_restores` — **a visit to the alternate screen leaves the primary one as it was.**
-/

namespace Nosh.Server

open Nosh.Lib Nosh.Proto

namespace TerminalCall

/-- The call changes neither the screen that is shown nor its size: no `?1049`, no RIS and no
resize. -/
def StaysOnScreen : TerminalCall → Prop
  | .dispatch (.csi params intermediates action) =>
      intermediates = [0x3F] → action = 'h' ∨ action = 'l' → ∀ mode ∈ params, mode.1 ≠ 1049
  | .dispatch (.esc byte) => byte ≠ 0x63
  | .dispatch (.print _) | .dispatch (.execute _) | .osc _ => True
  | .resize _ _ => False

/-- The call is `CSI 3 J`. -/
def ErasesScrollback : TerminalCall → Prop
  | .dispatch d => TerminalState.ErasesScrollback d
  | .osc _ | .resize _ _ => False

instance : DecidablePred ErasesScrollback
  | .dispatch d => inferInstanceAs (Decidable (TerminalState.ErasesScrollback d))
  | .osc _ | .resize _ _ => inferInstanceAs (Decidable False)

/-- `?1049h`. -/
def enterAlternate : TerminalCall := .dispatch (.csi [(1049, [])] [0x3F] 'h')

/-- `?1049l`. -/
def exitAlternate : TerminalCall := .dispatch (.csi [(1049, [])] [0x3F] 'l')

end TerminalCall

namespace TerminalState

variable {s t t' : TerminalState}

/-- The alternate screen is shown, and the screen of `s` is saved. -/
structure Saves (s t : TerminalState) : Prop where
  alternate : t.echoState.altScreen = true
  saved : t.savedPrimary = some (s.grid, s.cursor, s.sgr)

theorem saves_enterAltScreen (s : TerminalState) : s.Saves s.enterAltScreen := ⟨rfl, rfl⟩

theorem Saves.of_edits (h : s.Saves t) (he : t.Edits t') : s.Saves t' where
  alternate := by
    rw [he.echoState]
    exact h.alternate
  saved := by
    rw [he.saved]
    exact h.saved

theorem Saves.privateMode (h : s.Saves t) (enable : Bool) {mode : Param} (hmode : mode.1 ≠ 1049) :
    s.Saves (t.privateMode enable mode) := by
  unfold TerminalState.privateMode
  split
  · exact ⟨h.alternate, h.saved⟩
  · rename_i halternate
    exact absurd halternate hmode
  · exact ⟨h.alternate, h.saved⟩
  · exact ⟨h.alternate, h.saved⟩
  · exact h

theorem Saves.privateModes (h : s.Saves t) (enable : Bool) {modes : List Param}
    (hmodes : ∀ mode ∈ modes, mode.1 ≠ 1049) :
    s.Saves (modes.foldl (TerminalState.privateMode enable) t) := by
  induction modes generalizing t with
  | nil => exact h
  | cons mode modes ih =>
      obtain ⟨hmode, hrest⟩ := List.forall_mem_cons.mp hmodes
      exact ih (h.privateMode enable hmode) hrest

/-- The alternate screen has no scrollback. -/
theorem pushes_of_alternate (width : Char → Option ℕ) (h : t.echoState.altScreen = true)
    (d : Dispatch) : t.pushes width d = [] := by
  have hlf : ∀ {t : TerminalState}, t.echoState.altScreen = true → t.lfPushes = [] := by
    intro t h
    unfold lfPushes
    rw [if_neg]
    rintro ⟨-, -, hprimary⟩
    rw [h] at hprimary
    cases hprimary
  cases d with
  | print c =>
      dsimp only [pushes]
      generalize (if width c = some 2 then 2 else 1) = colWidth
      split
      · rfl
      · split
        · exact hlf h
        · rfl
  | execute byte =>
      dsimp only [pushes]
      split
      · exact hlf h
      · rfl
  | csi params intermediates action => rfl
  | esc byte => rfl

/-- A dispatch on the alternate screen keeps what is saved. -/
theorem Saves.dispatch {width : Char → Option ℕ} {d : Dispatch} (h : s.Saves t)
    (hstays : TerminalCall.StaysOnScreen (.dispatch d)) (hs : t.dispatch width d = some t') :
    s.Saves t' ∧ t'.scrollback = if ErasesScrollback d then [] else t.scrollback := by
  have hpushes := pushes_of_alternate width h.alternate d
  cases d with
  | print c =>
      refine ⟨h.of_edits (printChar_edits hs), ?_⟩
      rw [printChar_scrollback hs, hpushes]
      rfl
  | execute byte =>
      refine ⟨h.of_edits (execute_edits hs), ?_⟩
      rw [execute_scrollback hs, hpushes]
      rfl
  | csi params intermediates action =>
      refine ⟨?_, csiDispatch_scrollback hs⟩
      by_cases hprivate : intermediates = [0x3F]
      · dsimp only [TerminalState.dispatch] at hs
        unfold csiDispatch at hs
        rw [if_pos hprivate] at hs
        split at hs
        · rename_i haction
          cases hs
          exact h.privateModes _ (hstays hprivate haction)
        · cases hs
          exact h
      · exact h.of_edits (csiDispatch_edits hprivate hs)
  | esc byte =>
      have hsame : t' = t := by
        cases hs
        exact if_neg hstays
      rw [hsame]
      exact ⟨h, rfl⟩

/-- Leaving the alternate screen shows what is saved. -/
theorem Saves.exitAltScreen (h : s.Saves t) :
    t.exitAltScreen.grid = s.grid ∧ t.exitAltScreen.cursor = s.cursor ∧
      t.exitAltScreen.sgr = s.sgr ∧ t.exitAltScreen.scrollback = t.scrollback := by
  unfold TerminalState.exitAltScreen
  rw [h.saved]
  exact ⟨rfl, rfl, rfl, rfl⟩

end TerminalState

namespace WholeTerminal

variable {width : Char → Option ℕ} {toLowercase : List Char → List Char}
  {s : TerminalState} {t t' : WholeTerminal}

/-- **A call on the alternate screen** keeps what is saved. -/
theorem step_saves {call : TerminalCall} (h : s.Saves t.screen) (hstays : call.StaysOnScreen)
    (hs : t.step width toLowercase call = some t') :
    s.Saves t'.screen ∧
      t'.screen.scrollback = if call.ErasesScrollback then [] else t.screen.scrollback := by
  cases call with
  | dispatch d =>
      obtain ⟨screen, hscreen, rfl⟩ := Option.map_eq_some_iff.mp hs
      exact h.dispatch hstays hscreen
  | osc params =>
      cases hs
      exact ⟨h, rfl⟩
  | resize cols rows => exact absurd hstays id

/-- So do the calls of a whole visit. -/
theorem run_saves {calls : List TerminalCall} (h : s.Saves t.screen)
    (hstays : ∀ call ∈ calls, call.StaysOnScreen)
    (hrun : (life width toLowercase).run t calls = some t') :
    s.Saves t'.screen ∧ t'.screen.scrollback =
      if ∃ call ∈ calls, call.ErasesScrollback then [] else t.screen.scrollback := by
  induction calls generalizing t with
  | nil =>
      cases hrun
      refine ⟨h, (if_neg ?_).symm⟩
      rintro ⟨call, hcall, -⟩
      exact absurd hcall List.not_mem_nil
  | cons call calls ih =>
      obtain ⟨hfirst, hrest⟩ := List.forall_mem_cons.mp hstays
      rw [Machine.run_cons, Option.bind_eq_some_iff] at hrun
      obtain ⟨t₁, hstep, hrun⟩ := hrun
      obtain ⟨hsaves, hscrollback⟩ := step_saves h hfirst hstep
      obtain ⟨hsaves', hscrollback'⟩ := ih hsaves hrest hrun
      refine ⟨hsaves', ?_⟩
      rw [hscrollback', hscrollback]
      by_cases hfirst : call.ErasesScrollback <;>
        by_cases hlater : ∃ call ∈ calls, call.ErasesScrollback <;>
          simp [hfirst, hlater]

/-- The calls of a visit to the alternate screen. -/
def visit (calls : List TerminalCall) : List TerminalCall :=
  TerminalCall.enterAlternate :: calls ++ [TerminalCall.exitAlternate]

theorem step_size {call : TerminalCall} (hstays : ∀ cols rows, call ≠ .resize cols rows)
    (hs : t.step width toLowercase call = some t') : t'.screen.size = t.screen.size := by
  cases call with
  | dispatch d =>
      obtain ⟨screen, hscreen, rfl⟩ := Option.map_eq_some_iff.mp hs
      exact TerminalState.dispatch_size hscreen
  | osc params =>
      cases hs
      rfl
  | resize cols rows => exact absurd rfl (hstays cols rows)

theorem noColumns_iff_of_size {u u' : TerminalState} (h : u'.size = u.size) :
    u'.NoColumns ↔ u.NoColumns := by
  obtain ⟨hcols, hrows⟩ := Prod.mk.inj h
  unfold TerminalState.NoColumns
  rw [hcols, hrows]

/-- A visit runs to its end unless it erases up to the cursor where there is no column. -/
theorem visit_isSome_iff {s : WholeTerminal} {calls : List TerminalCall}
    (h : s.screen.Represented) (hstays : ∀ call ∈ calls, call.StaysOnScreen) :
    ((life width toLowercase).run s (visit calls)).isSome ↔
      ¬ (s.screen.NoColumns ∧ ∃ call ∈ calls, call.ErasesToCursor) := by
  have hresize : ∀ call ∈ visit calls, ∀ cols rows, call ≠ .resize cols rows := by
    rintro call hcall cols rows rfl
    rcases List.mem_append.mp hcall with hvisit | hexit
    · rcases List.mem_cons.mp hvisit with henter | hmem
      · cases henter
      · exact hstays _ hmem
    · cases List.mem_singleton.mp hexit
  rw [(life width toLowercase).isSome_run_iff_forall
    (fun t => t.screen.Represented ∧ t.screen.size = s.screen.size)
    (fun call => ¬ (call.ErasesToCursor ∧ s.screen.NoColumns))
    (fun t call hcall t' ht hs => ⟨step_represented ht.1 hs,
      (step_size (hresize call hcall) hs).trans ht.2⟩)
    (fun t call _ ht => by
      refine (step_isSome_iff ht.1).trans (not_congr (and_congr_right fun _ => ?_))
      exact noColumns_iff_of_size ht.2) ⟨h, rfl⟩]
  constructor
  · rintro hall ⟨hnone, call, hcall, herase⟩
    exact hall call (List.mem_append_left _ (List.mem_cons_of_mem _ hcall)) ⟨herase, hnone⟩
  · rintro hsome call hcall ⟨herase, hnone⟩
    rcases List.mem_append.mp hcall with hvisit | hexit
    · rcases List.mem_cons.mp hvisit with rfl | hmem
      · exact absurd herase.2.1 (by decide)
      · exact hsome ⟨hnone, call, hmem, herase⟩
    · rw [List.mem_singleton.mp hexit] at herase
      exact absurd herase.2.1 (by decide)

/-- **A visit to the alternate screen** by calls that stay there leaves the grid, the cursor and the
pen as they were, and the scrollback too unless one of the calls is `CSI 3 J`. It comes to its end,
unless a call panics because the terminal has no columns. -/
theorem alternate_restores (width : Char → Option ℕ) (toLowercase : List Char → List Char)
    (s : WholeTerminal) {calls : List TerminalCall} (hstays : ∀ call ∈ calls, call.StaysOnScreen) :
    (∀ t, (life width toLowercase).run s (visit calls) = some t →
      t.screen.grid = s.screen.grid ∧ t.screen.cursor = s.screen.cursor ∧
        t.screen.sgr = s.screen.sgr ∧ t.screen.scrollback =
          if ∃ call ∈ calls, call.ErasesScrollback then [] else s.screen.scrollback) ∧
      (s.screen.Represented → (((life width toLowercase).run s (visit calls)).isSome ↔
        ¬ (s.screen.NoColumns ∧ ∃ call ∈ calls, call.ErasesToCursor))) := by
  refine ⟨fun t hrun => ?_, fun h => visit_isSome_iff h hstays⟩
  rw [visit, List.cons_append, Machine.run_cons, Option.bind_eq_some_iff] at hrun
  obtain ⟨entered, henter, hrun⟩ := hrun
  cases henter
  rw [Machine.run_append, Option.bind_eq_some_iff] at hrun
  obtain ⟨visited, hvisit, hexit⟩ := hrun
  obtain ⟨hsaves, hscrollback⟩ := run_saves (s.screen.saves_enterAltScreen) hstays hvisit
  obtain ⟨hgrid, hcursor, hsgr, hkept⟩ := hsaves.exitAltScreen
  rw [Machine.run_singleton] at hexit
  cases hexit
  exact ⟨hgrid, hcursor, hsgr, hkept.trans hscrollback⟩

/-- A screen with a line in its scrollback. -/
def started : WholeTerminal :=
  ⟨{ TerminalState.new 2 2 with
      scrollback := [List.replicate 2 Cell.blank]
      cursor := ⟨1, 1⟩ }, .empty⟩

/-- Output that scrolls, a mode and a title. -/
def drawing : List TerminalCall :=
  [.dispatch (.print 'a'), .dispatch (.execute 0x0A), .dispatch (.execute 0x0A),
    .dispatch (.csi [(25, [])] [0x3F] 'l'), .osc [[0x30], [0x68]]]

theorem alternate_restores_drawing :
    ∃ t, (life (fun _ => some 1) id).run started (visit drawing) = some t ∧
      t.screen.grid = started.screen.grid ∧ t.screen.cursor = started.screen.cursor ∧
        t.screen.sgr = started.screen.sgr ∧ t.screen.scrollback = started.screen.scrollback := by
  have hstays : ∀ call ∈ drawing, call.StaysOnScreen := by
    simp [drawing, TerminalCall.StaysOnScreen]
  have hsome : ((life (fun _ => some 1) id).run started (visit drawing)).isSome := by decide
  obtain ⟨t, hrun⟩ := Option.isSome_iff_exists.mp hsome
  obtain ⟨hgrid, hcursor, hsgr, hscrollback⟩ :=
    (alternate_restores (fun _ => some 1) id started hstays).1 t hrun
  exact ⟨t, hrun, hgrid, hcursor, hsgr, hscrollback.trans (if_neg (by decide))⟩

end WholeTerminal

end Nosh.Server
