import Nosh.Lib.Machine
import Nosh.Server.Shape

/-!
# The lines that leave the screen

The scrollback of `TerminalState` holds the last lines that left the primary screen at the top,
at most `SCROLLBACK_LINE_CAP` of them and none from before `CSI 3 J` or RIS. A history records
all of them, in the order they were pushed.

## Main Definitions

* `pushes`, `resizePushes` — the lines that one dispatch or one resize pushes
* `TerminalHistory` — a terminal and every line it has pushed

## Main Results

* `dispatch_scrollback` — what a dispatch does to the scrollback.
* `scrollback_suffix` — the scrollback is always the end of the history.
-/

namespace Nosh.Server

open Lib Proto

namespace TerminalState

variable {t t' : TerminalState} {width : Char → Option ℕ}

/-- The line that `lf` pushes, if it scrolls the primary screen. -/
def lfPushes (t : TerminalState) : Grid Cell :=
  if t.rows ≤ t.cursor.row + 1 ∧ t.rows ≠ 0 ∧ t.echoState.altScreen = false then t.grid.take 1
  else []

/-- The lines that a dispatch pushes: a line feed at the bottom, or a character that wraps
there. -/
def pushes (width : Char → Option ℕ) (t : TerminalState) : Dispatch → Grid Cell
  | .print c =>
      if width c = some 0 then []
      else
        let colWidth := if width c = some 2 then 2 else 1
        let row := min t.cursor.row (t.rows - 1)
        let col := min t.cursor.col (t.cols - 1)
        let grid := t.grid.modify row (putCell t.sgr c colWidth col)
        if t.cols ≤ min (t.cursor.col + colWidth) u16Max then
          lfPushes { t with grid := grid, cursor := { t.cursor with col := 0 } }
        else []
  | .execute byte => if byte = 0x0A ∨ byte = 0x0B ∨ byte = 0x0C then t.lfPushes else []
  | .csi _ _ _ => []
  | .esc _ => []

/-- The lines that a resize pushes. -/
def resizePushes (t : TerminalState) (cols rows : ℕ) : Grid Cell :=
  if t.echoState.altScreen then []
  else (t.grid.map (resizeRow cols)).take (t.grid.length - rows)

/-- Push several lines. -/
def pushAll (scrollback lines : Grid Cell) : Grid Cell := lines.foldl pushScrollback scrollback

theorem resize_scrollback (t : TerminalState) (cols rows : ℕ) :
    (t.resize cols rows).scrollback = pushAll t.scrollback (t.resizePushes cols rows) := by
  unfold resizePushes
  dsimp only [resize]
  split <;> rfl

theorem lf_scrollback (hs : t.lf = some t') : t'.scrollback = pushAll t.scrollback t.lfPushes := by
  unfold lf at hs
  unfold lfPushes
  split at hs
  · rename_i hbottom
    unfold scrollUp at hs
    split at hs
    · rename_i hrows
      cases hs
      rw [if_neg fun h => h.2.1 hrows]
      rfl
    · rename_i hrows
      split at hs
      · cases hs
      · rename_i top rest hgrid
        cases hs
        cases halt : t.echoState.altScreen with
        | true => simp [pushAll]
        | false => simp [pushAll, hbottom, hrows, hgrid]
  · rename_i hbottom
    cases hs
    rw [if_neg fun h => hbottom h.1]
    rfl

/-- `CSI 3 J`. -/
def ErasesScrollback : Dispatch → Prop
  | .csi params intermediates action =>
      intermediates ≠ [0x3F] ∧ action = 'J' ∧ firstParam params = 3
  | _ => False

instance : DecidablePred ErasesScrollback
  | .csi _ _ _ => inferInstanceAs (Decidable (_ ∧ _ ∧ _))
  | .print _ | .execute _ | .esc _ => inferInstanceAs (Decidable False)

theorem csiDispatch_scrollback {params : List Param} {intermediates : List UInt8} {action : Char}
    (hs : t.csiDispatch params intermediates action = some t') :
    t'.scrollback =
      if ErasesScrollback (.csi params intermediates action) then [] else t.scrollback := by
  unfold csiDispatch at hs
  split at hs
  · rename_i hprivate
    rw [if_neg fun herase => herase.1 hprivate]
    split at hs
    · cases hs
      induction params generalizing t with
      | nil => rfl
      | cons mode params ih => exact ih.trans (privateMode_keeps _ t mode).2
    · cases hs
      rfl
  · rename_i hpublic
    dsimp only at hs
    split at hs
    case h_7 =>
        rw [eraseDisplay_eq hs]
        exact if_congr ⟨fun hthree => ⟨hpublic, rfl, hthree⟩, fun herase => herase.2.2⟩ rfl rfl
    case h_10 =>
        rename_i hdisplay _ _
        cases hs
        rw [if_neg fun herase => hdisplay herase.2.1]
    case h_8 =>
        obtain ⟨grid, -, rfl⟩ := Option.map_eq_some_iff.mp hs
        rw [if_neg fun herase => absurd herase.2.1 (by decide)]
    all_goals
      cases hs
      exact (if_neg fun herase => absurd herase.2.1 (by decide)).symm

theorem printChar_scrollback {c : Char} (hs : t.printChar width c = some t') :
    t'.scrollback = pushAll t.scrollback (t.pushes width (.print c)) := by
  dsimp only [printChar] at hs
  dsimp only [pushes]
  split at hs
  · rename_i hzero
    cases hs
    rw [if_pos hzero]
    rfl
  · rename_i hzero
    rw [if_neg hzero]
    generalize (if width c = some 2 then 2 else 1) = colWidth at hs ⊢
    split at hs
    · -- the line feed comes before the character is written
      rename_i hwrap
      rw [if_pos hwrap]
      exact lf_scrollback hs
    · rename_i hwrap
      cases hs
      rw [if_neg hwrap]
      rfl

theorem execute_scrollback {byte : UInt8} (hs : t.execute byte = some t') :
    t'.scrollback = pushAll t.scrollback (t.pushes width (.execute byte)) := by
  dsimp only [execute] at hs
  dsimp only [pushes]
  split at hs
  · rename_i hcr
    cases hs
    subst hcr
    rfl
  · split at hs
    · rename_i hlf
      rw [if_pos hlf]
      exact lf_scrollback hs
    · rename_i hlf
      rw [if_neg hlf]
      split at hs <;> cases hs <;> rfl

/-- A dispatch pushes its lines, or pushes nothing and clears the scrollback. -/
theorem dispatch_scrollback {d : Dispatch} (hs : t.dispatch width d = some t') :
    t'.scrollback = pushAll t.scrollback (t.pushes width d) ∨
      t.pushes width d = [] ∧ t'.scrollback = [] := by
  cases d with
  | print c => exact Or.inl (printChar_scrollback hs)
  | execute byte => exact Or.inl (execute_scrollback hs)
  | csi params intermediates action =>
      rw [csiDispatch_scrollback hs]
      split
      · exact Or.inr ⟨rfl, rfl⟩
      · exact Or.inl rfl
  | esc byte =>
      cases hs
      unfold escDispatch
      split
      · exact Or.inr ⟨rfl, rfl⟩
      · exact Or.inl rfl

end TerminalState

/-! ## Histories -/

/-- What happens to a terminal. -/
inductive TerminalEvent
  | dispatch (d : Dispatch)
  | resize (cols rows : ℕ)
  deriving DecidableEq, Repr

/-- A terminal and every line it has pushed to its scrollback, oldest first. -/
structure TerminalHistory where
  terminal : TerminalState
  pushed : Grid Cell
  deriving DecidableEq, Repr

namespace TerminalHistory

/-- The history of a terminal that has just been created. -/
def new (cols rows : ℕ) : TerminalHistory := ⟨.new cols rows, []⟩

/-- One event, with the lines it pushes. -/
def step (width : Char → Option ℕ) (h : TerminalHistory) : TerminalEvent → Option TerminalHistory
  | .dispatch d =>
      (h.terminal.dispatch width d).map fun t => ⟨t, h.pushed ++ h.terminal.pushes width d⟩
  | .resize cols rows =>
      some ⟨h.terminal.resize cols rows, h.pushed ++ h.terminal.resizePushes cols rows⟩

/-- The life of a terminal. -/
def life (width : Char → Option ℕ) : Machine TerminalHistory TerminalEvent := ⟨step width⟩

end TerminalHistory

namespace TerminalState

theorem pushScrollback_suffix {scrollback pushed : Grid Cell} (h : scrollback <:+ pushed)
    (line : List Cell) : pushScrollback scrollback line <:+ pushed ++ [line] := by
  have hline : scrollback ++ [line] <:+ pushed ++ [line] := by
    obtain ⟨pre, rfl⟩ := h
    exact ⟨pre, (List.append_assoc ..).symm⟩
  dsimp only [pushScrollback]
  split
  · exact (List.tail_suffix _).trans hline
  · exact hline

theorem pushAll_suffix {scrollback pushed : Grid Cell} (h : scrollback <:+ pushed)
    (lines : Grid Cell) : pushAll scrollback lines <:+ pushed ++ lines := by
  induction lines generalizing scrollback pushed with
  | nil =>
      rw [List.append_nil]
      exact h
  | cons line lines ih =>
      rw [← List.singleton_append, ← List.append_assoc]
      exact ih (pushScrollback_suffix h line)

end TerminalState

namespace TerminalHistory

/-- Every event keeps the scrollback at the end of the history. -/
theorem step_suffix {width : Char → Option ℕ} {h h' : TerminalHistory} {ev : TerminalEvent}
    (hsuf : h.terminal.scrollback <:+ h.pushed) (hs : h.step width ev = some h') :
    h'.terminal.scrollback <:+ h'.pushed := by
  cases ev with
  | dispatch d =>
      obtain ⟨t, ht, rfl⟩ := Option.map_eq_some_iff.mp hs
      obtain hsb | ⟨-, hsb⟩ := TerminalState.dispatch_scrollback ht
      · dsimp only
        rw [hsb]
        exact TerminalState.pushAll_suffix hsuf _
      · dsimp only
        rw [hsb]
        exact List.nil_suffix
  | resize cols rows =>
      cases hs
      dsimp only
      rw [TerminalState.resize_scrollback]
      exact TerminalState.pushAll_suffix hsuf _

/-- **The scrollback is the end of the history**, in every state of every run. -/
theorem scrollback_suffix {width : Char → Option ℕ} {cols rows : ℕ} {evs : List TerminalEvent}
    {h : TerminalHistory} (hrun : (life width).run (new cols rows) evs = some h) :
    h.terminal.scrollback <:+ h.pushed :=
  (life width).invariant_run (fun h => h.terminal.scrollback <:+ h.pushed)
    (fun _ _ _ hsuf hs => step_suffix hsuf hs) List.nil_suffix hrun

theorem scrollback_suffix_twoLines :
    ∃ h, (life fun _ => some 1).run (new 1 1) [.dispatch (.print 'a'), .dispatch (.print 'b')] =
      some h ∧ h.terminal.scrollback <:+ h.pushed :=
  ⟨_, rfl, @scrollback_suffix (fun _ => some 1) 1 1
    [.dispatch (.print 'a'), .dispatch (.print 'b')] _ rfl⟩

/-- The history only grows. -/
theorem step_prefix {width : Char → Option ℕ} {h h' : TerminalHistory} {ev : TerminalEvent}
    (hs : h.step width ev = some h') : h.pushed <+: h'.pushed := by
  cases ev with
  | dispatch d =>
      obtain ⟨t, -, rfl⟩ := Option.map_eq_some_iff.mp hs
      exact List.prefix_append _ _
  | resize cols rows =>
      cases hs
      exact List.prefix_append _ _

end TerminalHistory

end Nosh.Server
