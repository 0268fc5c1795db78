import Nosh.Client.NoEcho

/-!
# The overlay over its whole life

The operations of `PredictionOverlay` as a build with overflow checks runs them: the additions and
subtractions on `u16` are partial, and an operation whose arithmetic overflows is refused. The
terminal is within `MAX_TERMINAL_COLS` and `MAX_TERMINAL_ROWS`, while the confirmed cursors and the
screens are arbitrary.

`cull` classifies the predictions one after the other, while the epoch that decides which of them
are tentative is being raised. If it comes to an end at all, every mismatch that it met was
tentative from the beginning, so that the order of the predictions has no influence on what is
kept.

## Main Definitions

* `addU16`, `subU16` — arithmetic with overflow checks
* `onActionChecked`, `checkedOverlays` — the operations with their arithmetic checked
* `Outlives` — a prediction that is not due, of an epoch without a mismatch

## Main Results

* `onActionChecked_eq` — no arithmetic overflows on a terminal of an admissible size.
* `cull_keeps` — **`cull` resets, or keeps exactly the predictions that outlive it.**
* `overlay_life` — **both, and the order of the epochs, after every sequence of operations.**
-/

namespace Nosh.Client

open Nosh.Lib Nosh.Proto

/-! ## Checked arithmetic -/

/-- An addition of `u16`, which overflows above 65535. -/
def addU16 (a b : ℕ) : Option ℕ := if a + b ≤ 65535 then some (a + b) else none

/-- A subtraction of `u16`, which overflows below 0. -/
def subU16 (a b : ℕ) : Option ℕ := if b ≤ a then some (a - b) else none

theorem addU16_of_le {a b : ℕ} (h : a + b ≤ 65535) : addU16 a b = some (a + b) := if_pos h

theorem subU16_of_le {a b : ℕ} (h : b ≤ a) : subU16 a b = some (a - b) := if_pos h

namespace PredictionOverlay

/-- `find_line_end` with its addition checked. -/
def findLineEndChecked (overlay : PredictionOverlay) (row : ℕ) (screen : ClientScreen) :
    Option ℕ :=
  match (List.range overlay.termCols).reverse.find? fun col =>
      (screen.confirmedCell row col).ch != ' ' with
  | some col => addU16 col 1
  | none => some 0

/-- `predictChar` with its addition checked. -/
def predictCharChecked (overlay : PredictionOverlay) (screen : ClientScreen) (ch : Char)
    (colWidth : ℕ) : Option (Bool × PredictionOverlay) :=
  let col := overlay.predictedCursor.col
  if overlay.termCols < min (col + colWidth) 65535 then some (false, overlay.becomeTentative)
  else do
    let newCol ← addU16 col colWidth
    some (true, { overlay with
      pending := overlay.pending ++ [{
        row := overlay.predictedCursor.row
        col := col
        predictedCh := ch
        colWidth := colWidth
        epochRequired := (screen.lastAppliedEpoch + 1) % 2 ^ 64
        tentativeUntilEpoch := overlay.predictionEpoch }]
      predictedCursor := { overlay.predictedCursor with col := newCol }
      cursorMotionPending := false })

/-- `predictBatch` with its additions checked. -/
def predictBatchChecked (screen : ClientScreen) :
    List (Char × ℕ) → PredictionOverlay → Option PredictionOverlay
  | [], overlay => some overlay
  | (ch, colWidth) :: chars, overlay =>
      match overlay.predictCharChecked screen ch colWidth with
      | some (true, overlay') => predictBatchChecked screen chars overlay'
      | some (false, overlay') => some overlay'
      | none => none

/-- The arms of `on_input` with their arithmetic checked. -/
def onActionChecked (overlay : PredictionOverlay) (screen : ClientScreen) :
    InputAction → Option PredictionOverlay
  | .predictChar ch colWidth =>
      if overlay.inBracketedPaste then some overlay
      else (overlay.predictCharChecked screen ch colWidth).map Prod.snd
  | .predictBackspace =>
      if overlay.epochStartCol < overlay.predictedCursor.col then do
        let vacated ← subU16 overlay.predictedCursor.col 1
        some { overlay.moveCursor vacated with
          pending := overlay.pending.filter fun p =>
            !(p.row == overlay.predictedCursor.row && p.col == vacated) }
      else some overlay
  | .predictCursorLeft =>
      if overlay.epochStartCol < overlay.predictedCursor.col then
        (subU16 overlay.predictedCursor.col 1).map overlay.moveCursor
      else some (overlay.moveCursor overlay.predictedCursor.col)
  | .predictCursorRight =>
      if min (overlay.predictedCursor.col + 1) 65535 < overlay.termCols then
        (addU16 overlay.predictedCursor.col 1).map overlay.moveCursor
      else some (overlay.moveCursor overlay.predictedCursor.col)
  | .predictLineEnd =>
      (overlay.findLineEndChecked overlay.predictedCursor.row screen).map overlay.moveCursor
  | .predictEnter =>
      if overlay.predictedCursor.row < overlay.termRows - 1 then
        (addU16 overlay.predictedCursor.row 1).map fun row =>
          { overlay.reset with
            epochStartCol := 0
            predictedCursor := ⟨row, 0⟩
            cursorMotionPending := true }
      else
        some { overlay.reset with
          epochStartCol := 0
          predictedCursor := ⟨overlay.predictedCursor.row, 0⟩
          cursorMotionPending := true }
  | .predictBatch chars =>
      if overlay.inBracketedPaste then some overlay else predictBatchChecked screen chars overlay
  -- the other arms have no arithmetic on `u16`
  | action => some (overlay.onAction screen action)

/-- One operation with its arithmetic checked. -/
def actChecked (width : Char → Option ℕ) (overlay : PredictionOverlay) :
    OverlayAction → Option PredictionOverlay
  | .input bytes screen => overlay.onActionChecked screen (classifyInput width bytes)
  | action => some (overlay.act width action)

/-- The size of the terminal. -/
def size (overlay : PredictionOverlay) : ℕ × ℕ := (overlay.termCols, overlay.termRows)

/-- The size of the terminal is one that a diff may have. -/
def Sized (overlay : PredictionOverlay) : Prop :=
  overlay.termCols ≤ maxTerminalCols ∧ overlay.termRows ≤ maxTerminalRows

theorem Sized.of_size {overlay overlay' : PredictionOverlay} (h : overlay.Sized)
    (hsize : overlay'.size = overlay.size) : overlay'.Sized := by
  obtain ⟨hcols, hrows⟩ := Prod.mk.inj hsize
  unfold Sized
  rw [hcols, hrows]
  exact h

end PredictionOverlay

open PredictionOverlay

/-- The operations as a machine that refuses what overflows. -/
def checkedOverlays (width : Char → Option ℕ) : Machine PredictionOverlay OverlayAction where
  step overlay action := overlay.actChecked width action

/-- The operation sets an admissible size, if any. -/
def OverlayAction.Sized : OverlayAction → Prop
  | .setSize cols rows => cols ≤ maxTerminalCols ∧ rows ≤ maxTerminalRows
  | _ => True

namespace PredictionOverlay

variable {overlay : PredictionOverlay}

/-! ## No overflow -/

theorem findLineEndChecked_eq (hsize : overlay.Sized) (row : ℕ) (screen : ClientScreen) :
    overlay.findLineEndChecked row screen = some (overlay.findLineEnd row screen) := by
  have hmax : maxTerminalCols ≤ 65535 := by decide
  unfold findLineEndChecked findLineEnd
  cases hfind : (List.range overlay.termCols).reverse.find? fun col =>
      (screen.confirmedCell row col).ch != ' ' with
  | some col =>
      have hcol : col < overlay.termCols :=
        List.mem_range.mp (List.mem_reverse.mp (List.mem_of_find?_eq_some hfind))
      exact addU16_of_le (hcol.trans_le (hsize.1.trans hmax))
  | none => rfl

theorem predictCharChecked_eq (hsize : overlay.Sized) (screen : ClientScreen) (ch : Char)
    (colWidth : ℕ) :
    overlay.predictCharChecked screen ch colWidth =
      some (overlay.predictChar screen ch colWidth) := by
  have hcols : overlay.termCols < 65535 := hsize.1.trans_lt (by decide)
  unfold predictCharChecked predictChar
  dsimp only
  split
  · rfl
  · rename_i hfits
    -- the guard saturates, and what saturates does not fit
    have hsum : overlay.predictedCursor.col + colWidth < 65535 := by omega
    have hmod : (overlay.predictedCursor.col + colWidth) % 65536 =
        overlay.predictedCursor.col + colWidth := Nat.mod_eq_of_lt (hsum.trans (by decide))
    rw [addU16_of_le hsum.le, hmod]
    rfl

theorem predictChar_size (overlay : PredictionOverlay) (screen : ClientScreen) (ch : Char)
    (colWidth : ℕ) : (overlay.predictChar screen ch colWidth).2.size = overlay.size := by
  unfold predictChar
  dsimp only
  split <;> rfl

theorem predictBatchChecked_eq (screen : ClientScreen) (chars : List (Char × ℕ))
    (hsize : overlay.Sized) :
    predictBatchChecked screen chars overlay = some (predictBatch screen chars overlay) := by
  induction chars generalizing overlay with
  | nil => rfl
  | cons pair chars ih =>
      obtain ⟨ch, colWidth⟩ := pair
      have hnext := hsize.of_size (overlay.predictChar_size screen ch colWidth)
      rw [predictBatchChecked, predictBatch, predictCharChecked_eq hsize]
      generalize overlay.predictChar screen ch colWidth = out at hnext
      obtain ⟨fits, overlay'⟩ := out
      cases fits with
      | true => exact ih hnext
      | false => rfl

/-- **No arithmetic on `u16` overflows** on a terminal of an admissible size. -/
theorem onActionChecked_eq (hsize : overlay.Sized) (screen : ClientScreen) (action : InputAction) :
    overlay.onActionChecked screen action = some (overlay.onAction screen action) := by
  have hcols : overlay.termCols < 65535 := hsize.1.trans_lt (by decide)
  have hrows : overlay.termRows < 65535 := hsize.2.trans_lt (by decide)
  cases action with
  | predictChar ch colWidth =>
      rw [onActionChecked, onAction, predictCharChecked_eq hsize]
      split <;> rfl
  | predictBackspace =>
      rw [onActionChecked, onAction]
      split
      · rename_i hcol
        rw [subU16_of_le (Nat.one_le_of_lt hcol)]
        rfl
      · rfl
  | predictCursorLeft =>
      rw [onActionChecked, onAction]
      split
      · rename_i hcol
        rw [subU16_of_le (Nat.one_le_of_lt hcol)]
        rfl
      · rfl
  | predictCursorRight =>
      rw [onActionChecked, onAction]
      by_cases hcol : min (overlay.predictedCursor.col + 1) 65535 < overlay.termCols
      · have hsum : overlay.predictedCursor.col + 1 ≤ 65535 := by omega
        rw [if_pos hcol, if_pos hcol, addU16_of_le hsum]
        rfl
      · rw [if_neg hcol, if_neg hcol]
  | predictLineEnd =>
      rw [onActionChecked, onAction, findLineEndChecked_eq hsize]
      rfl
  | predictEnter =>
      rw [onActionChecked, onAction]
      by_cases hrow : overlay.predictedCursor.row < overlay.termRows - 1
      · have hsum : overlay.predictedCursor.row + 1 ≤ 65535 := by omega
        rw [if_pos hrow, if_pos hrow, addU16_of_le hsum]
        rfl
      · rw [if_neg hrow, if_neg hrow]
  | predictBatch chars =>
      rw [onActionChecked, onAction, predictBatchChecked_eq screen chars hsize]
      split <;> rfl
  | predictLineStart | epochReset | bulkSuppressed | bracketedPasteStart | bracketedPasteEnd => rfl

/-! ## What `cull` keeps -/

/-- The prediction is not due, and its epoch is not that of a tentative prediction that fails. -/
def Outlives (overlay : PredictionOverlay) (screen : ClientScreen) (newEpoch : ℕ)
    (pred : PendingPrediction) : Prop :=
  newEpoch < pred.epochRequired ∧
    ∀ q ∈ overlay.pending, Fails screen newEpoch q → overlay.isTentative q = true →
      q.tentativeUntilEpoch ≠ pred.tentativeUntilEpoch

instance (overlay : PredictionOverlay) (screen : ClientScreen) (newEpoch : ℕ)
    (pred : PendingPrediction) : Decidable (overlay.Outlives screen newEpoch pred) :=
  inferInstanceAs (Decidable (_ ∧ ∀ q ∈ overlay.pending, _ → _ → _))

/-- **`cull` resets, or keeps exactly what outlives it.** -/
theorem cull_keeps (overlay : PredictionOverlay) (screen : ClientScreen) (newEpoch rttMs : ℕ) :
    (overlay.cull screen newEpoch rttMs).pending = [] ∨
      (overlay.cull screen newEpoch rttMs).pending =
        overlay.pending.filter fun pred => overlay.Outlives screen newEpoch pred := by
  unfold cull
  dsimp only [updateRttThresholds]
  split
  · exact .inl rfl
  · rename_i confirmed keys epochs hresult
    right
    obtain ⟨hkeys, hepochs, htentative⟩ := cullLoop_completes (congrArg Prod.snd hresult)
    refine List.filter_congr fun pred hpred => ?_
    rw [Bool.eq_iff_iff, Bool.and_eq_true, Bool.not_eq_true', Bool.not_eq_true',
      ← Bool.not_eq_true, ← Bool.not_eq_true, List.contains_iff_mem, List.contains_iff_mem,
      decide_eq_true_iff, hkeys, hepochs]
    unfold Outlives isTentative
    constructor
    · rintro ⟨hepoch, hkey⟩
      refine ⟨Nat.not_le.mp fun hdue => hkey (.inr ⟨pred, hpred, hdue, rfl⟩), ?_⟩
      exact fun q hq hfails _ heq => hepoch (.inr ⟨q, hq, hfails, heq⟩)
    · rintro ⟨hdue, hother⟩
      refine ⟨?_, ?_⟩
      · rintro (h | ⟨q, hq, hfails, heq⟩)
        · exact List.not_mem_nil h
        · exact hother q hq hfails (decide_eq_true (htentative q hq hfails)) heq
      · rintro (h | ⟨q, -, hqdue, hkey⟩)
        · exact List.not_mem_nil h
        · -- the key holds the deadline
          have hrequired : q.epochRequired = pred.epochRequired :=
            congrArg (fun key : Key => key.2.2) hkey
          exact absurd hqdue (Nat.not_le.mpr (hrequired ▸ hdue))

/-! ## Runs -/

theorem predictBatch_size (screen : ClientScreen) (chars : List (Char × ℕ))
    (overlay : PredictionOverlay) : (predictBatch screen chars overlay).size = overlay.size := by
  induction chars generalizing overlay with
  | nil => rfl
  | cons pair chars ih =>
      obtain ⟨ch, colWidth⟩ := pair
      have hnext := overlay.predictChar_size screen ch colWidth
      rw [predictBatch]
      split
      · rename_i overlay' hpredict
        rw [hpredict] at hnext
        exact (ih overlay').trans hnext
      · rename_i overlay' hpredict
        rw [hpredict] at hnext
        exact hnext

theorem onAction_size (overlay : PredictionOverlay) (screen : ClientScreen)
    (action : InputAction) : (overlay.onAction screen action).size = overlay.size := by
  cases action with
  | predictChar ch colWidth =>
      rw [onAction]
      split
      · rfl
      · exact overlay.predictChar_size screen ch colWidth
  | predictBatch chars =>
      rw [onAction]
      split
      · rfl
      · exact predictBatch_size screen chars overlay
  | predictBackspace | bulkSuppressed =>
      rw [onAction]
      split <;> rfl
  | _ => rfl

/-- Only `set_size` changes the size. -/
theorem Sized.act {width : Char → Option ℕ} (hsize : overlay.Sized) {action : OverlayAction}
    (haction : action.Sized) : (overlay.act width action).Sized := by
  cases action with
  | input bytes screen => exact hsize.of_size (overlay.onAction_size screen _)
  | cull screen newEpoch rttMs =>
      refine hsize.of_size ?_
      change (overlay.cull screen newEpoch rttMs).size = _
      unfold PredictionOverlay.cull
      dsimp only
      split <;> rfl
  | sync confirmed =>
      refine hsize.of_size ?_
      change (overlay.syncCursorFromConfirmed confirmed).size = _
      unfold syncCursorFromConfirmed
      split <;> rfl
  | setSize cols rows => exact haction
  | reset | resetWithCursor => exact hsize

theorem actChecked_eq (width : Char → Option ℕ) (hsize : overlay.Sized) (action : OverlayAction) :
    overlay.actChecked width action = some (overlay.act width action) := by
  cases action with
  | input bytes screen => exact onActionChecked_eq hsize screen (classifyInput width bytes)
  | cull | sync | setSize | reset | resetWithCursor => rfl

end PredictionOverlay

/-- **The life of an overlay.** Whatever is done with it on terminals of an admissible size, no
arithmetic overflows, the epochs are in order, and `cull` resets or keeps exactly the predictions
that are not due and whose epoch is not that of a tentative prediction that fails. -/
theorem overlay_life (width : Char → Option ℕ) (mode : PredictDisplayMode) {cols rows : ℕ}
    (hcols : cols ≤ maxTerminalCols) (hrows : rows ≤ maxTerminalRows)
    {actions : List OverlayAction} (hactions : ∀ action ∈ actions, action.Sized) :
    ∃ overlay, (checkedOverlays width).run (.new mode cols rows) actions = some overlay ∧
      overlay.confirmedEpoch ≤ overlay.predictionEpoch ∧
      (∀ pred ∈ overlay.pending, pred.tentativeUntilEpoch ≤ overlay.predictionEpoch) ∧
      ∀ (screen : ClientScreen) (newEpoch rttMs : ℕ),
        (overlay.cull screen newEpoch rttMs).pending = [] ∨
          (∀ pred ∈ (overlay.cull screen newEpoch rttMs).pending,
            ¬ pred.epochRequired ≤ newEpoch) ∧
          (overlay.cull screen newEpoch rttMs).pending =
            overlay.pending.filter fun pred => overlay.Outlives screen newEpoch pred := by
  have hstep : ∀ (overlay : PredictionOverlay) (action : OverlayAction),
      overlay.Sized ∧ overlay.Sound width → action.Sized →
      ∃ overlay', (checkedOverlays width).step overlay action = some overlay' ∧
        overlay'.Sized ∧ overlay'.Sound width := by
    rintro overlay action ⟨hsize, hsound⟩ haction
    exact ⟨_, actChecked_eq width hsize action, hsize.act haction, hsound.act action⟩
  obtain ⟨overlay, hrun, -, hsound⟩ := (checkedOverlays width).exists_run
    (fun overlay => overlay.Sized ∧ overlay.Sound width) OverlayAction.Sized hstep
    ⟨⟨hcols, hrows⟩, Sound.new mode cols rows⟩ hactions
  refine ⟨overlay, hrun, hsound.confirmed, fun pred hpred => (hsound.pending pred hpred).1, ?_⟩
  intro screen newEpoch rttMs
  rcases overlay.cull_keeps screen newEpoch rttMs with hnil | hkept
  · exact .inl hnil
  · refine .inr ⟨fun pred hpred => ?_, hkept⟩
    rw [hkept] at hpred
    exact Nat.not_le.mpr (of_decide_eq_true (List.mem_filter.mp hpred).2).1

/-- The screen that shows the echo of `a`. -/
def echoed : ClientScreen :=
  (ClientScreen.new 80 24).apply (fun _ => some 1)
    ⟨1, 80, 24, ⟨0, 1⟩, false, [⟨0, 0, .none, none, none, ['a']⟩]⟩

/-- A key, its echo, after which nothing is pending, and a terminal that is made smaller. -/
theorem overlay_life_echo :
    ∃ overlay, (checkedOverlays fun _ => some 1).run (.new .always 80 24)
        [.input [0x61] (.new 80 24), .cull echoed 1 40, .setSize 40 12] = some overlay ∧
      overlay.pending = [] ∧ overlay.confirmedEpoch ≤ overlay.predictionEpoch := by
  have hactions : ∀ action ∈ [OverlayAction.input [0x61] (.new 80 24), .cull echoed 1 40,
      .setSize 40 12], action.Sized := by
    simp [OverlayAction.Sized, maxTerminalCols, maxTerminalRows]
  have hsize : 80 ≤ maxTerminalCols ∧ 24 ≤ maxTerminalRows := by decide
  have hpending : ∀ overlay ∈ (checkedOverlays fun _ => some 1).run (.new .always 80 24)
      [.input [0x61] (.new 80 24), .cull echoed 1 40, .setSize 40 12],
      overlay.pending = [] := by
    decide +kernel
  obtain ⟨overlay, hrun, hepochs, -⟩ :=
    overlay_life (fun _ => some 1) .always hsize.1 hsize.2 hactions
  exact ⟨overlay, hrun, hpending overlay hrun, hepochs⟩

end Nosh.Client
