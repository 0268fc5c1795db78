import Nosh.Server.Representation
import Nosh.Server.WindowSize

/-!
# Where the server terminal panics

Every call on `TerminalState` that the parser and `SessionSlot::resize` make, with the one addition
of fixed width that is not saturating, `self.cursor.row + 1` in `lf`.

A client may resize the terminal to zero columns. Its rows are then empty, but the loops that erase
from the start of a line or of the screen to the cursor always visit column 0.

## Main Definitions

* `WholeTerminal.checkedStep` — a call, with the overflow check
* `SessionSlot.forward` — the clamp of `SessionSlot::resize`
* `TerminalCall.ErasesEmptyRow` — an erase up to the cursor, in a row without columns

## Main Results

* `dispatch_isSome_iff` — a well-formed screen panics on such an erase and on nothing else.
* `sessionLife_survives_iff` — **a terminal survives exactly the runs without such an erase.**
-/

namespace Nosh.Server

open Nosh.Lib Nosh.Proto

namespace TerminalState

variable {t : TerminalState}

/-! ## Dispatches that return -/

theorem Shaped.scrollUp_isSome (h : t.Shaped) : t.scrollUp.isSome := by
  unfold TerminalState.scrollUp
  split
  · rfl
  · rename_i hrows
    cases hgrid : t.grid with
    | nil =>
        have hlength := h.grid.1
        rw [hgrid] at hlength
        exact absurd hlength.symm hrows
    | cons top rest => rfl

theorem Shaped.lf_isSome (h : t.Shaped) : t.lf.isSome := by
  unfold TerminalState.lf
  split
  · exact h.scrollUp_isSome
  · rfl

theorem Shaped.printChar_isSome (h : t.Shaped) (width : Char → Option ℕ) (c : Char) :
    (t.printChar width c).isSome := by
  unfold TerminalState.printChar
  split
  · rfl
  · dsimp only
    generalize (if width c = some 2 then 2 else 1) = colWidth
    split
    · refine Shaped.lf_isSome ?_
      exact h.of_grid (h.grid.modify (min t.cursor.row (t.rows - 1))
        (length_putCell t.sgr c colWidth (min t.cursor.col (t.cols - 1)))) rfl rfl rfl rfl
    · rfl

theorem Shaped.execute_isSome (h : t.Shaped) (byte : UInt8) : (t.execute byte).isSome := by
  unfold TerminalState.execute
  split
  · rfl
  · split
    · exact h.lf_isSome
    · split <;> rfl

/-! ## Erasing up to the cursor -/

/-- The screen has rows but no columns. -/
def NoColumns (t : TerminalState) : Prop := t.cols = 0 ∧ 0 < t.rows

/-- The row of the cursor is empty if there is one and it has no columns. -/
theorem Represented.emptyRow_iff (h : t.Represented) :
    t.grid[t.cursor.row]? = some [] ↔ t.NoColumns := by
  have hcursor : t.cursor.row ≤ t.rows - 1 := h.cursor.1
  have hheight := h.shaped.grid.1
  constructor
  · intro hrow
    have hlength := h.shaped.grid.2 _ (List.mem_of_getElem? hrow)
    have hlt := (List.getElem?_eq_some_iff.mp hrow).1
    exact ⟨hlength.symm, by omega⟩
  · rintro ⟨hcols, hrows⟩
    have hlt : t.cursor.row < t.grid.length := by omega
    have hlength := h.shaped.grid.2 _ (List.getElem_mem hlt)
    rw [hcols] at hlength
    rw [List.getElem?_eq_getElem hlt, List.length_eq_zero_iff.mp hlength]

theorem Represented.eraseLine_isSome_iff (h : t.Represented) (n : ℕ) :
    (t.eraseLine n).isSome ↔ ¬ (n = 1 ∧ t.NoColumns) := by
  rw [TerminalState.eraseLine_isSome_iff, h.emptyRow_iff]

theorem Represented.eraseDisplay_isSome_iff (h : t.Represented) (n : ℕ) :
    (t.eraseDisplay n).isSome ↔ ¬ (n = 1 ∧ t.NoColumns) := by
  have hcursor : t.cursor.row ≤ t.rows - 1 := h.cursor.1
  have habove : ¬ t.grid.length < t.cursor.row := by
    rw [h.shaped.grid.1]
    omega
  rw [TerminalState.eraseDisplay_isSome_iff, h.emptyRow_iff, or_iff_right habove]

/-- `CSI 1 J` and `CSI 1 K`: the dispatch erases up to the cursor. -/
def ErasesToCursor : Dispatch → Prop
  | .csi params intermediates action =>
      intermediates ≠ [0x3F] ∧ (action = 'J' ∨ action = 'K') ∧ firstParam params = 1
  | _ => False

instance : DecidablePred ErasesToCursor
  | .csi _ _ _ => inferInstanceAs (Decidable (_ ∧ _ ∧ _))
  | .print _ | .execute _ | .esc _ => inferInstanceAs (Decidable False)

/-- **A dispatch returns** on every well-formed screen, unless it erases up to the cursor where
there is no column. -/
theorem dispatch_isSome_iff (h : t.Represented) (width : Char → Option ℕ) (d : Dispatch) :
    (t.dispatch width d).isSome ↔ ¬ (ErasesToCursor d ∧ t.NoColumns) := by
  cases d with
  | print c => exact ⟨fun _ hnone => hnone.1, fun _ => h.shaped.printChar_isSome width c⟩
  | execute byte => exact ⟨fun _ hnone => hnone.1, fun _ => h.shaped.execute_isSome byte⟩
  | esc byte => exact ⟨fun _ hnone => hnone.1, fun _ => rfl⟩
  | csi params intermediates action =>
      change (t.csiDispatch params intermediates action).isSome ↔ ¬ ((_ ∧ _) ∧ _)
      unfold csiDispatch
      split
      · rename_i hprivate
        refine ⟨fun _ herase => herase.1.1 hprivate, fun _ => ?_⟩
        split <;> rfl
      · rename_i hpublic
        dsimp only
        split
        case h_7 =>
            rw [h.eraseDisplay_isSome_iff]
            exact ⟨fun hne herase => hne ⟨herase.1.2.2, herase.2⟩, fun hne hone =>
              hne ⟨⟨hpublic, Or.inl rfl, hone.1⟩, hone.2⟩⟩
        case h_8 =>
            rw [h.eraseLine_isSome_iff]
            exact ⟨fun hne herase => hne ⟨herase.1.2.2, herase.2⟩, fun hne hone =>
              hne ⟨⟨hpublic, Or.inr rfl, hone.1⟩, hone.2⟩⟩
        case h_10 =>
            rename_i hdisplay hline _
            refine ⟨fun _ herase => ?_, fun _ => rfl⟩
            rcases herase.1.2.1 with rfl | rfl
            · exact hdisplay rfl
            · exact hline rfl
        all_goals
          exact ⟨fun _ herase => absurd herase.1.2.1 (by decide), fun _ => rfl⟩

end TerminalState

/-! ## Whole runs -/

/-- `SessionSlot::resize` clamps both dimensions; the other calls reach the terminal as they are. -/
def SessionSlot.forward : TerminalCall → TerminalCall
  | .resize cols rows => .resize (clampSize cols rows).1 (clampSize cols rows).2
  | call => call

/-- The call erases up to the cursor. -/
def TerminalCall.ErasesToCursor : TerminalCall → Prop
  | .dispatch d => TerminalState.ErasesToCursor d
  | .osc _ | .resize _ _ => False

/-- The call erases up to the cursor in a row without columns. -/
def TerminalCall.ErasesEmptyRow (t : WholeTerminal) (call : TerminalCall) : Prop :=
  call.ErasesToCursor ∧ t.screen.NoColumns

namespace WholeTerminal

/-- A call that reaches the terminal; `none` is a panic, also where `self.cursor.row + 1` does not
fit a `u16`. -/
def checkedStep (width : Char → Option ℕ) (toLowercase : List Char → List Char) (t : WholeTerminal)
    (call : TerminalCall) : Option WholeTerminal :=
  if u16Max < t.screen.cursor.row + 1 then none
  else t.step width toLowercase (SessionSlot.forward call)

/-- The life of a terminal in a session. -/
def sessionLife (width : Char → Option ℕ) (toLowercase : List Char → List Char) :
    Machine WholeTerminal TerminalCall := ⟨checkedStep width toLowercase⟩

/-- The screen is well formed, and its height fits a `u16`. -/
structure Sized (t : WholeTerminal) : Prop where
  represented : t.screen.Represented
  rows_le : t.screen.rows ≤ u16Max

variable {width : Char → Option ℕ} {toLowercase : List Char → List Char} {t t' : WholeTerminal}
  {call : TerminalCall}

theorem Sized.row_lt (h : t.Sized) : ¬ u16Max < t.screen.cursor.row + 1 := by
  have hrow := h.represented.cursor.1
  have hrows := h.rows_le
  unfold u16Max at *
  omega

theorem Sized.checkedStep (h : t.Sized) (hs : t.checkedStep width toLowercase call = some t') :
    t'.Sized := by
  rw [WholeTerminal.checkedStep, if_neg h.row_lt] at hs
  refine ⟨step_represented h.represented hs, ?_⟩
  cases call with
  | dispatch d =>
      obtain ⟨screen, hscreen, rfl⟩ := Option.map_eq_some_iff.mp hs
      have hsize : screen.rows = t.screen.rows :=
        congrArg Prod.snd (TerminalState.dispatch_size hscreen)
      exact hsize.trans_le h.rows_le
  | osc params =>
      cases hs
      exact h.rows_le
  | resize cols rows =>
      cases hs
      exact (Nat.min_le_right rows maxRows).trans (by decide)

/-- A call panics on an erase up to the cursor in a row without columns, and on nothing else. -/
theorem step_isSome_iff (h : t.screen.Represented) :
    (t.step width toLowercase call).isSome ↔ ¬ call.ErasesEmptyRow t := by
  cases call with
  | dispatch d =>
      change ((t.screen.dispatch width d).map _).isSome ↔ _
      rw [Option.isSome_map]
      exact TerminalState.dispatch_isSome_iff h width d
  | osc params => exact ⟨fun _ hnone => hnone.1, fun _ => rfl⟩
  | resize cols rows => exact ⟨fun _ hnone => hnone.1, fun _ => rfl⟩

theorem Sized.checkedStep_isSome_iff (h : t.Sized) :
    (t.checkedStep width toLowercase call).isSome ↔ ¬ call.ErasesEmptyRow t := by
  rw [WholeTerminal.checkedStep, if_neg h.row_lt, step_isSome_iff h.represented]
  cases call <;> rfl

/-- **A terminal survives** exactly the runs in which nothing is erased up to the cursor while the
terminal has rows but no columns. -/
theorem sessionLife_survives_iff (width : Char → Option ℕ) (toLowercase : List Char → List Char)
    (cols rows : UInt16) (calls : List TerminalCall) :
    ((sessionLife width toLowercase).run (new cols.toNat rows.toNat) calls).isSome ↔
      (sessionLife width toLowercase).Along (fun t call => ¬ call.ErasesEmptyRow t)
        (new cols.toNat rows.toNat) calls := by
  refine (sessionLife width toLowercase).isSome_run_iff_along Sized
    (fun _ _ _ h hs => h.checkedStep hs) (fun _ _ h => h.checkedStep_isSome_iff) ?_ calls
  exact ⟨TerminalState.represented_new _ _, Nat.le_of_lt_succ rows.toNat_lt⟩

/-- A client that asks for zero columns, and a program that erases the line up to the cursor. -/
theorem sessionLife_panics :
    (sessionLife (fun _ => some 1) id).run (new 80 24)
      [.resize 0 24, .dispatch (.csi [(1, [])] [] 'K')] = none := by
  decide

end WholeTerminal

end Nosh.Server
