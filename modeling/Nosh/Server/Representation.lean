import Nosh.Client.TerminalControl
import Nosh.Lib.Postcard
import Nosh.Server.AltScreen

/-!
# The representation of the server terminal

`TerminalState` with the OSC fields that `Terminal` leaves out, every call that changes it, and
what holds between any two calls.

The strings that `osc_dispatch` stores share no field with the screen, so the whole state is a
pair. RIS is the one call that writes both.

## Main Definitions

* `oscDispatch` — titles, clipboard writes and hyperlinks
* `TerminalState.Represented` — the invariant of the screen

## Main Results

* `Represented.dispatch`, `Represented.resize` — every call that returns keeps the invariant.
* `reachable_represented` — **every state that a terminal reaches is well formed**: the shape of
  both grids, the saved screen, both cursors and the bound of the scrollback.
-/

namespace Nosh.Server

open Lib Proto

/-! ## OSC strings -/

/-- `MAX_TITLE_BYTES`. -/
def maxTitleBytes : ℕ := 1024

/-- `OSC_52_MAX_BYTES`. -/
def osc52MaxBytes : ℕ := 65536

/-- The fields of `TerminalState` that hold OSC strings until they are drained. -/
structure OscState where
  title : Option String
  /-- The selection and the data. -/
  osc52Pending : Option (List UInt8 × List UInt8)
  osc8HyperlinkPending : Option String
  deriving DecidableEq, Repr

/-- Nothing pending. -/
def OscState.empty : OscState := ⟨none, none, none⟩

/-- `osc_dispatch`; the scheme test of hyperlinks is the one that the client repeats. -/
def oscDispatch (toLowercase : List Char → List Char) (osc : OscState) :
    List (List UInt8) → OscState
  | [] => osc
  | code :: args =>
      if code = [0x30] ∨ code = [0x32] then
        match args[0]? with
        | none => osc
        | some titleBytes =>
            if titleBytes.length ≤ maxTitleBytes then
              match Postcard.ofUtf8Bytes titleBytes with
              | some title => { osc with title := some title }
              | none => osc
            else osc
      else if code = [0x35, 0x32] then
        let data := args[1]?.getD []
        -- the query form is dropped
        if data = [0x3F] then osc
        else
          let selection := args[0]?.getD [0x63]
          if selection.any fun b => b == 0x1B || b == 0x07 then osc
          else { osc with osc52Pending := some (selection, data.take osc52MaxBytes) }
      else if code = [0x38] then
        match args[1]? with
        | none => osc
        | some uriBytes =>
            match Postcard.ofUtf8Bytes uriBytes with
            | some uri =>
                if Client.isWhitelisted toLowercase uri.toList then
                  { osc with osc8HyperlinkPending := some uri }
                else osc
            | none => osc
      else osc

/-- `TerminalState` as a whole. -/
structure WholeTerminal where
  screen : TerminalState
  osc : OscState
  deriving DecidableEq, Repr

/-- The calls that change a terminal. -/
inductive TerminalCall
  | dispatch (d : Dispatch)
  | osc (params : List (List UInt8))
  | resize (cols rows : ℕ)
  deriving DecidableEq, Repr

namespace WholeTerminal

/-- `TerminalState::new`. -/
def new (cols rows : ℕ) : WholeTerminal := ⟨.new cols rows, .empty⟩

/-- One call; `none` is a panic. -/
def step (width : Char → Option ℕ) (toLowercase : List Char → List Char) (t : WholeTerminal) :
    TerminalCall → Option WholeTerminal
  | .dispatch d =>
      (t.screen.dispatch width d).map fun screen =>
        ⟨screen, if d = .esc 0x63 then .empty else t.osc⟩
  | .osc params => some { t with osc := oscDispatch toLowercase t.osc params }
  | .resize cols rows => some { t with screen := t.screen.resize cols rows }

/-- The life of a terminal. -/
def life (width : Char → Option ℕ) (toLowercase : List Char → List Char) :
    Machine WholeTerminal TerminalCall := ⟨step width toLowercase⟩

end WholeTerminal

/-! ## The cursor -/

namespace TerminalState

variable {t t' : TerminalState}

/-- The position is on the grid, or at its origin if there is no such row or column. -/
def InGrid (t : TerminalState) (pos : CursorPos) : Prop :=
  pos.row ≤ t.rows - 1 ∧ pos.col ≤ t.cols - 1

theorem InGrid.of_size {pos : CursorPos} (h : t.InGrid pos) (hsize : t'.size = t.size) :
    t'.InGrid pos := by
  obtain ⟨hcols, hrows⟩ := Prod.mk.inj hsize
  unfold InGrid
  rw [hcols, hrows]
  exact h

theorem inGrid_origin (t : TerminalState) : t.InGrid ⟨0, 0⟩ := ⟨Nat.zero_le _, Nat.zero_le _⟩

theorem scrollUp_cursor (hs : t.scrollUp = some t') : t'.cursor = t.cursor := by
  unfold scrollUp at hs
  split at hs
  · cases hs
    rfl
  · split at hs <;> cases hs
    rfl

theorem InGrid.lf (h : t.InGrid t.cursor) (hs : t.lf = some t') : t'.InGrid t'.cursor := by
  have hsize := lf_size hs
  unfold TerminalState.lf at hs
  split at hs
  · rw [scrollUp_cursor hs]
    exact h.of_size hsize
  · next hroom =>
      cases hs
      refine ⟨?_, h.2⟩
      change t.cursor.row + 1 ≤ t.rows - 1
      omega

theorem InGrid.printChar {width : Char → Option ℕ} {c : Char} (h : t.InGrid t.cursor)
    (hs : t.printChar width c = some t') : t'.InGrid t'.cursor := by
  unfold TerminalState.printChar at hs
  split at hs
  · cases hs
    exact h
  · dsimp only at hs
    generalize (if width c = some 2 then 2 else 1) = colWidth at hs
    split at hs
    · -- the line feed starts in the first column
      exact InGrid.lf (t := { t with
        grid := t.grid.modify (min t.cursor.row (t.rows - 1))
          (putCell t.sgr c colWidth (min t.cursor.col (t.cols - 1)))
        cursor := { t.cursor with col := 0 } }) ⟨h.1, Nat.zero_le _⟩ hs
    · next hroom =>
        cases hs
        refine ⟨h.1, ?_⟩
        change min (t.cursor.col + colWidth) u16Max ≤ t.cols - 1
        omega

theorem InGrid.execute {byte : UInt8} (h : t.InGrid t.cursor) (hs : t.execute byte = some t') :
    t'.InGrid t'.cursor := by
  unfold TerminalState.execute at hs
  split at hs
  · cases hs
    exact ⟨h.1, Nat.zero_le _⟩
  · split at hs
    · exact h.lf hs
    · split at hs
      · cases hs
        exact ⟨h.1, le_trans (Nat.sub_le _ _) h.2⟩
      · cases hs
        exact h

theorem InGrid.csiDispatch {params : List Param} {intermediates : List UInt8} {action : Char}
    (h : t.InGrid t.cursor) (hpublic : intermediates ≠ [0x3F])
    (hs : t.csiDispatch params intermediates action = some t') : t'.InGrid t'.cursor := by
  unfold TerminalState.csiDispatch at hs
  rw [if_neg hpublic] at hs
  dsimp only at hs
  split at hs
  · cases hs
    exact ⟨le_trans (Nat.sub_le _ _) h.1, h.2⟩
  · cases hs
    exact ⟨Nat.min_le_right _ _, h.2⟩
  · cases hs
    exact ⟨h.1, Nat.min_le_right _ _⟩
  · cases hs
    exact ⟨h.1, le_trans (Nat.sub_le _ _) h.2⟩
  · cases hs
    exact ⟨Nat.min_le_right _ _, Nat.min_le_right _ _⟩
  · cases hs
    exact ⟨Nat.min_le_right _ _, Nat.min_le_right _ _⟩
  · rw [eraseDisplay_eq hs]
    exact h
  · obtain ⟨grid, -, rfl⟩ := Option.map_eq_some_iff.mp hs
    exact h
  · cases hs
    exact h
  · cases hs
    exact h

/-! ## The scrollback -/

theorem length_pushScrollback_le {scrollback : Grid Cell}
    (h : scrollback.length ≤ scrollbackLineCap) (line : List Cell) :
    (pushScrollback scrollback line).length ≤ scrollbackLineCap := by
  dsimp only [pushScrollback]
  split
  · rw [List.length_tail, List.length_append, List.length_singleton]
    omega
  · next hfits => exact Nat.le_of_not_lt hfits

theorem length_pushAll_le {scrollback : Grid Cell} (h : scrollback.length ≤ scrollbackLineCap)
    (lines : Grid Cell) : (pushAll scrollback lines).length ≤ scrollbackLineCap := by
  induction lines generalizing scrollback with
  | nil => exact h
  | cons line lines ih => exact ih (length_pushScrollback_le h line)

/-! ## The invariant -/

/-- The representation invariant of the screen. -/
structure Represented (t : TerminalState) : Prop where
  /-- The grid and the saved grid are `rows` by `cols`. -/
  shaped : t.Shaped
  saved_iff : t.savedPrimary.isSome ↔ t.echoState.altScreen = true
  saved_cursor : ∀ saved, t.savedPrimary = some saved → t.InGrid saved.2.1
  cursor : t.InGrid t.cursor
  scrollback : t.scrollback.length ≤ scrollbackLineCap

theorem represented_new (cols rows : ℕ) : (new cols rows).Represented where
  shaped := shaped_new cols rows
  saved_iff := by simp [new, EchoState.default]
  saved_cursor := by
    intro saved h
    cases h
  cursor := inGrid_origin _
  scrollback := Nat.zero_le _

variable (h : t.Represented)

include h

/-- A dispatch that stays on its screen. -/
theorem Represented.of_edits (he : t.Edits t') (hshaped : t'.Shaped) (hsize : t'.size = t.size)
    (hcursor : t'.InGrid t'.cursor) (hscrollback : t'.scrollback.length ≤ scrollbackLineCap) :
    t'.Represented where
  shaped := hshaped
  saved_iff := by
    rw [he.saved, he.echoState]
    exact h.saved_iff
  saved_cursor := by
    rw [he.saved]
    intro saved hsaved
    exact (h.saved_cursor saved hsaved).of_size hsize
  cursor := hcursor
  scrollback := hscrollback

theorem Represented.enterAltScreen : t.enterAltScreen.Represented where
  shaped := h.shaped.privateMode true (1049, [])
  saved_iff := by simp [TerminalState.enterAltScreen]
  saved_cursor := by
    intro saved hsaved
    cases hsaved
    exact h.cursor
  cursor := inGrid_origin _
  scrollback := h.scrollback

theorem Represented.exitAltScreen : t.exitAltScreen.Represented := by
  have hshaped := h.shaped.privateMode false (1049, [])
  change t.exitAltScreen.Shaped at hshaped
  unfold TerminalState.exitAltScreen at hshaped ⊢
  cases hsaved : t.savedPrimary with
  | none =>
      rw [hsaved] at hshaped
      refine ⟨hshaped, ?_, ?_, h.cursor, h.scrollback⟩
      · simp
      · intro saved hnone
        cases hnone
  | some saved =>
      rw [hsaved] at hshaped
      refine ⟨hshaped, ?_, ?_, h.saved_cursor saved hsaved, h.scrollback⟩
      · simp
      · intro saved hnone
        cases hnone

theorem Represented.privateMode (enable : Bool) (mode : Param) :
    (t.privateMode enable mode).Represented := by
  unfold TerminalState.privateMode
  split
  · exact { h with shaped := { h.shaped with } }
  · split
    · exact h.enterAltScreen
    · exact h.exitAltScreen
  · exact { h with shaped := { h.shaped with } }
  · exact { h with shaped := { h.shaped with } }
  · exact h

theorem Represented.csiDispatch {params : List Param} {intermediates : List UInt8} {action : Char}
    (hs : t.csiDispatch params intermediates action = some t') : t'.Represented := by
  by_cases hprivate : intermediates = [0x3F]
  · unfold TerminalState.csiDispatch at hs
    rw [if_pos hprivate] at hs
    split at hs
    · cases hs
      clear * - h
      induction params generalizing t with
      | nil => exact h
      | cons mode params ih => exact ih (h.privateMode _ mode)
    · cases hs
      exact h
  · refine h.of_edits (csiDispatch_edits hprivate hs) (h.shaped.csiDispatch hs)
      (csiDispatch_size hs) (h.cursor.csiDispatch hprivate hs) ?_
    rw [csiDispatch_scrollback hs]
    split
    · exact Nat.zero_le _
    · exact h.scrollback

/-- Every dispatch that returns keeps the invariant. -/
theorem Represented.dispatch {width : Char → Option ℕ} {d : Dispatch}
    (hs : t.dispatch width d = some t') : t'.Represented := by
  have hscrollback : t'.scrollback.length ≤ scrollbackLineCap := by
    rcases dispatch_scrollback hs with hpushed | ⟨-, hnil⟩
    · rw [hpushed]
      exact length_pushAll_le h.scrollback _
    · rw [hnil]
      exact Nat.zero_le _
  cases d with
  | print c =>
      exact h.of_edits (printChar_edits hs) (h.shaped.printChar hs) (printChar_size hs)
        (h.cursor.printChar hs) hscrollback
  | execute byte =>
      exact h.of_edits (execute_edits hs) (h.shaped.execute hs) (execute_size hs)
        (h.cursor.execute hs) hscrollback
  | csi params intermediates action => exact h.csiDispatch hs
  | esc byte =>
      cases hs
      unfold escDispatch
      split
      · exact represented_new _ _
      · exact h

/-- A resize fits both grids and clamps both cursors. -/
theorem Represented.resize (cols rows : ℕ) : (t.resize cols rows).Represented where
  shaped := h.shaped.resize cols rows
  saved_iff := by
    change (t.savedPrimary.map _).isSome ↔ t.echoState.altScreen = true
    rw [Option.isSome_map]
    exact h.saved_iff
  saved_cursor := by
    intro saved hsaved
    obtain ⟨old, -, rfl⟩ := Option.map_eq_some_iff.mp hsaved
    exact ⟨Nat.min_le_right _ _, Nat.min_le_right _ _⟩
  cursor := ⟨Nat.min_le_right _ _, Nat.min_le_right _ _⟩
  scrollback := by
    rw [resize_scrollback]
    exact length_pushAll_le h.scrollback _

end TerminalState

namespace WholeTerminal

theorem step_represented {width : Char → Option ℕ} {toLowercase : List Char → List Char}
    {t t' : WholeTerminal} {call : TerminalCall} (h : t.screen.Represented)
    (hs : t.step width toLowercase call = some t') : t'.screen.Represented := by
  cases call with
  | dispatch d =>
      obtain ⟨screen, hscreen, rfl⟩ := Option.map_eq_some_iff.mp hs
      exact h.dispatch hscreen
  | osc params =>
      cases hs
      exact h
  | resize cols rows =>
      cases hs
      exact h.resize cols rows

/-- **Representation.**  In every state that a terminal of any size reaches by calls that
return: the grid has `rows` rows of `cols` cells; the primary screen is saved if and only if the
alternate one is shown, and has the same shape and a cursor in range; the cursor is in range; and
the scrollback has at most `SCROLLBACK_LINE_CAP` lines. -/
theorem reachable_represented {width : Char → Option ℕ} {toLowercase : List Char → List Char}
    {cols rows : ℕ} {calls : List TerminalCall} {t : WholeTerminal}
    (hrun : (life width toLowercase).run (new cols rows) calls = some t) :
    t.screen.Represented :=
  (life width toLowercase).invariant_run (fun t => t.screen.Represented)
    (fun _ _ _ h hs => step_represented h hs) (TerminalState.represented_new cols rows) hrun

/-- A wide character that wraps, a nested alternate screen, a title, a resize and a way back. -/
def tour : List TerminalCall :=
  [.dispatch (.print '世'), .dispatch (.print '世'),
    .dispatch (.csi [(1049, []), (1049, [])] [0x3F] 'h'), .osc [[0x30], [0x68, 0x69]],
    .dispatch (.csi [(9, []), (9, [])] [] 'H'), .resize 2 1,
    .dispatch (.csi [(1049, [])] [0x3F] 'l')]

/-- The terminal after `tour`. -/
def toured : WholeTerminal :=
  ((life (fun c => if c = '世' then some 2 else some 1) id).run (new 3 2) tour).getD (new 3 2)

theorem reachable_represented_tour : toured.screen.size = (2, 1) ∧ toured.screen.Represented := by
  have hrun : (life (fun c => if c = '世' then some 2 else some 1) id).run (new 3 2) tour =
      some toured := by
    decide
  exact ⟨by decide, reachable_represented hrun⟩

end WholeTerminal

end Nosh.Server
