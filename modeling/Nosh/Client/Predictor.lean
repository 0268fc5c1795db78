import Nosh.Client.Screen
import Nosh.Lib.Postcard

/-!
# Speculative echo

`PredictionOverlay` of `nosh-client/src/predictor.rs`. A keystroke that prints a character queues a
prediction of the cell it will change. `cull` compares the predictions with the confirmed grid once
the server has answered: a prediction that holds raises `confirmed_epoch`, one that fails takes its
epoch with it. A prediction is displayed once `confirmed_epoch` has reached the epoch it was made
in, and a reset starts a new epoch.

The display width of a character is the parameter `width`, as in `Nosh.Client.Screen`.

## Main Definitions

* `PredictionOverlay` — the overlay, with `onInput`, `cull` and `cellAt`
* `classifyInput` — what a batch of keystrokes does to it

## Main Results

* `Grows` — what every operation but `cull` keeps: `confirmed_epoch`, and the epochs of what is
  pending.
* `onInput_grows`, `cull_spec` — **what input and culling do.**
* `onInput_pending` — input adds predictions that the next epoch makes due, or removes some.
* `cull_of_due` — **when all predictions are due, `cull` leaves none**, and drops the motion of the
  cursor exactly when a displayed one fails.
-/

namespace Nosh.Client

open Nosh.Lib Nosh.Proto

/-! ## Input -/

/-- `BULK_SUPPRESS_THRESHOLD`. -/
def bulkSuppressThreshold : ℕ := 4

/-- `InputAction`. -/
inductive InputAction
  | predictChar (ch : Char) (colWidth : ℕ)
  | predictBackspace
  | predictCursorLeft
  | predictCursorRight
  | predictLineStart
  | predictLineEnd
  | epochReset
  | predictEnter
  | bracketedPasteStart
  | bracketedPasteEnd
  | bulkSuppressed
  | predictBatch (chars : List (Char × ℕ))
  deriving DecidableEq

section Classify

variable (width : Char → Option ℕ)

/-- `classify_printable`: one character of width 1 or 2. -/
def classifyPrintable (bytes : List UInt8) : InputAction :=
  match (Postcard.ofUtf8Bytes bytes).map String.toList with
  | some [ch] =>
      if width ch = some 1 then .predictChar ch 1
      else if width ch = some 2 then .predictChar ch 2
      else .epochReset
  | _ => .epochReset

/-- The bulk branch of `classify_input`: characters of width 1 only, or no prediction. -/
def classifyBulk (bytes : List UInt8) : InputAction :=
  match (Postcard.ofUtf8Bytes bytes).map String.toList with
  | some chars =>
      if !chars.isEmpty && chars.all fun ch => width ch == some 1 then
        .predictBatch (chars.map fun ch => (ch, 1))
      else .bulkSuppressed
  | none => .bulkSuppressed

/-- `classify_input`. -/
def classifyInput (bytes : List UInt8) : InputAction :=
  if bytes = [0x1b, 0x5b, 0x32, 0x30, 0x30, 0x7e] then .bracketedPasteStart
  else if bytes = [0x1b, 0x5b, 0x32, 0x30, 0x31, 0x7e] then .bracketedPasteEnd
  else if bulkSuppressThreshold < bytes.length then classifyBulk width bytes
  else
    match bytes with
    | [0x7f] | [0x08] => .predictBackspace
    | [0x01] => .predictLineStart
    | [0x05] => .predictLineEnd
    | [0x0d] | [0x0a] => .predictEnter
    | [0x09] => .epochReset
    | [0x1b, 0x5b, 0x43] | [0x1b, 0x4f, 0x43] => .predictCursorRight
    | [0x1b, 0x5b, 0x44] | [0x1b, 0x4f, 0x44] => .predictCursorLeft
    | [0x1b, 0x5b, 0x48] | [0x1b, 0x5b, 0x31, 0x7e] | [0x1b, 0x4f, 0x48] => .predictLineStart
    | [0x1b, 0x5b, 0x46] | [0x1b, 0x5b, 0x34, 0x7e] | [0x1b, 0x4f, 0x46] => .predictLineEnd
    | 0x1b :: _ => .epochReset
    | [byte] => if byte < 0x20 then .epochReset else classifyPrintable width [byte]
    | bytes => classifyPrintable width bytes

end Classify

/-- The characters that are predicted. -/
def Printable (width : Char → Option ℕ) (ch : Char) : Prop := width ch = some 1 ∨ width ch = some 2

/-- Whatever the action predicts is printable. -/
def InputAction.Predicts (width : Char → Option ℕ) : InputAction → Prop
  | .predictChar ch _ => Printable width ch
  | .predictBatch chars => ∀ pair ∈ chars, Printable width pair.1
  | _ => True

theorem classifyPrintable_predicts (width : Char → Option ℕ) (bytes : List UInt8) :
    (classifyPrintable width bytes).Predicts width := by
  unfold classifyPrintable
  split
  · split
    · rename_i hwidth
      exact Or.inl hwidth
    · split
      · rename_i hwidth
        exact Or.inr hwidth
      · trivial
  · trivial

theorem classifyBulk_predicts (width : Char → Option ℕ) (bytes : List UInt8) :
    (classifyBulk width bytes).Predicts width := by
  unfold classifyBulk
  split
  · split
    · rename_i hchars
      intro pair hpair
      obtain ⟨ch, hch, rfl⟩ := List.mem_map.mp hpair
      have hall := List.all_eq_true.mp (Bool.and_eq_true_iff.mp hchars).2
      exact Or.inl (beq_iff_eq.mp (hall ch hch))
    · trivial
  · trivial

/-- The action is that of a control key: it holds no text and is no marker of a paste. -/
def InputAction.isControl : InputAction → Bool
  | .predictChar _ _ | .predictBatch _ | .bracketedPasteStart | .bracketedPasteEnd => false
  | _ => true

/-- What `classify_input` can give: a marker if the bytes are one, the action of a bulk, that of a
control key if there is a control byte, or else the action of a printable. -/
theorem classifyInput_cases {motive : InputAction → Prop} {width : Char → Option ℕ}
    {bytes : List UInt8}
    (opening : bytes = [0x1b, 0x5b, 0x32, 0x30, 0x30, 0x7e] → motive .bracketedPasteStart)
    (closing : bytes = [0x1b, 0x5b, 0x32, 0x30, 0x31, 0x7e] → motive .bracketedPasteEnd)
    (bulk : bulkSuppressThreshold < bytes.length → motive (classifyBulk width bytes))
    (control : ∀ action : InputAction, action.isControl = true →
      (∃ byte ∈ bytes, byte < 0x20 ∨ byte = 0x7f) → motive action)
    (printable : motive (classifyPrintable width bytes)) :
    motive (classifyInput width bytes) := by
  unfold classifyInput
  split
  · exact opening ‹_›
  split
  · exact closing ‹_›
  split
  · exact bulk ‹_›
  clear opening closing bulk
  split
  -- the first byte of every pattern of keys is a control byte
  all_goals first
    | exact printable
    | exact control _ rfl ⟨_, List.mem_cons_self, by decide⟩
    | split
      · exact control _ rfl ⟨_, List.mem_cons_self, Or.inl ‹_›⟩
      · exact printable

/-- **Only printable characters are predicted.** -/
theorem classifyInput_predicts (width : Char → Option ℕ) (bytes : List UInt8) :
    (classifyInput width bytes).Predicts width := by
  refine classifyInput_cases (fun _ => trivial) (fun _ => trivial)
    (fun _ => classifyBulk_predicts width bytes) ?_ (classifyPrintable_predicts width bytes)
  intro action hcontrol _
  cases action with
  | predictChar ch w => cases hcontrol
  | predictBatch chars => cases hcontrol
  | _ => trivial

/-! ## The overlay -/

/-- `SRTT_TRIGGER_HIGH_MS`. -/
def srttTriggerHighMs : ℕ := 30

/-- `SRTT_TRIGGER_LOW_MS`. -/
def srttTriggerLowMs : ℕ := 20

/-- `FLAG_TRIGGER_HIGH_MS`. -/
def flagTriggerHighMs : ℕ := 80

/-- `FLAG_TRIGGER_LOW_MS`. -/
def flagTriggerLowMs : ℕ := 50

/-- `PredictDisplayMode`. -/
inductive PredictDisplayMode
  | always
  | adaptive
  | never
  deriving DecidableEq

/-- The verdicts of `check_validity`. `Validity` has two more, which nothing constructs. -/
inductive Validity
  | correct
  | correctNoCredit
  | incorrectOrExpired
  deriving DecidableEq

/-- `PendingPrediction`. -/
structure PendingPrediction where
  row : ℕ
  col : ℕ
  predictedCh : Char
  colWidth : ℕ
  epochRequired : ℕ
  tentativeUntilEpoch : ℕ
  deriving DecidableEq

/-- `PredictionOverlay`. -/
structure PredictionOverlay where
  confirmedEpoch : ℕ
  predictionEpoch : ℕ
  pending : List PendingPrediction
  displayMode : PredictDisplayMode
  srttTrigger : Bool
  flagging : Bool
  inBracketedPaste : Bool
  predictedCursor : CursorPos
  cursorMotionPending : Bool
  termCols : ℕ
  termRows : ℕ
  epochStartCol : ℕ
  needsEpochStartSync : Bool
  deriving DecidableEq

/-- `ClientScreen::confirmed_cell`: blank outside the grid. -/
def ClientScreen.confirmedCell (screen : ClientScreen) (row col : ℕ) : Cell :=
  (screen.confirmed.cellAt row col).getD Cell.blank

/-- `check_validity`. -/
def checkValidity (confirmedCh predictedCh : Char) : Validity :=
  if confirmedCh = predictedCh then
    if confirmedCh = ' ' then .correctNoCredit else .correct
  else .incorrectOrExpired

namespace PredictionOverlay

/-- `PredictionOverlay::new`. -/
def new (mode : PredictDisplayMode) (cols rows : ℕ) : PredictionOverlay where
  confirmedEpoch := 0
  predictionEpoch := 0
  pending := []
  displayMode := mode
  srttTrigger := false
  flagging := false
  inBracketedPaste := false
  predictedCursor := ⟨0, 0⟩
  cursorMotionPending := false
  termCols := cols
  termRows := rows
  epochStartCol := 0
  needsEpochStartSync := false

/-- `become_tentative`. -/
def becomeTentative (overlay : PredictionOverlay) : PredictionOverlay :=
  { overlay with predictionEpoch := overlay.predictionEpoch + 1 }

/-- `reset`. -/
def reset (overlay : PredictionOverlay) : PredictionOverlay :=
  { overlay with
    pending := []
    predictionEpoch := overlay.predictionEpoch + 1
    cursorMotionPending := false
    needsEpochStartSync := true }

/-- `reset_with_cursor`. -/
def resetWithCursor (overlay : PredictionOverlay) (confirmed : CursorPos) : PredictionOverlay :=
  { overlay.reset with predictedCursor := confirmed }

/-- `set_size`. -/
def setSize (overlay : PredictionOverlay) (cols rows : ℕ) : PredictionOverlay :=
  { overlay with termCols := cols, termRows := rows }

/-- `sync_cursor_from_confirmed`. -/
def syncCursorFromConfirmed (overlay : PredictionOverlay) (confirmed : CursorPos) :
    PredictionOverlay :=
  if overlay.pending = [] ∧ overlay.cursorMotionPending = false then
    { overlay with
      predictedCursor := confirmed
      epochStartCol := if overlay.needsEpochStartSync then confirmed.col else overlay.epochStartCol
      needsEpochStartSync := false }
  else overlay

/-- `find_line_end`. -/
def findLineEnd (overlay : PredictionOverlay) (row : ℕ) (screen : ClientScreen) : ℕ :=
  match (List.range overlay.termCols).reverse.find? fun col =>
      (screen.confirmedCell row col).ch != ' ' with
  | some col => col + 1
  | none => 0

/-- The move of the cursor, without a prediction of a cell. -/
def moveCursor (overlay : PredictionOverlay) (col : ℕ) : PredictionOverlay :=
  { overlay with
    predictedCursor := { overlay.predictedCursor with col := col }
    cursorMotionPending := true }

/-- The `PredictChar` arm, and one turn of the loop of the `PredictBatch` arm: whether the
character still fits, and the overlay after it. The column is a `u16`. -/
def predictChar (overlay : PredictionOverlay) (screen : ClientScreen) (ch : Char) (colWidth : ℕ) :
    Bool × PredictionOverlay :=
  let col := overlay.predictedCursor.col
  if overlay.termCols < min (col + colWidth) 65535 then (false, overlay.becomeTentative)
  else
    (true, { overlay with
      pending := overlay.pending ++ [{
        row := overlay.predictedCursor.row
        col := col
        predictedCh := ch
        colWidth := colWidth
        epochRequired := (screen.lastAppliedEpoch + 1) % 2 ^ 64
        tentativeUntilEpoch := overlay.predictionEpoch }]
      predictedCursor := { overlay.predictedCursor with col := (col + colWidth) % 65536 }
      cursorMotionPending := false })

/-- The loop of the `PredictBatch` arm: it returns at the right edge. -/
def predictBatch (screen : ClientScreen) : List (Char × ℕ) → PredictionOverlay → PredictionOverlay
  | [], overlay => overlay
  | (ch, colWidth) :: chars, overlay =>
      match overlay.predictChar screen ch colWidth with
      | (true, overlay') => predictBatch screen chars overlay'
      | (false, overlay') => overlay'

/-- The arms of `on_input`. -/
def onAction (overlay : PredictionOverlay) (screen : ClientScreen) :
    InputAction → PredictionOverlay
  | .predictChar ch colWidth =>
      if overlay.inBracketedPaste then overlay else (overlay.predictChar screen ch colWidth).2
  | .predictBackspace =>
      if overlay.epochStartCol < overlay.predictedCursor.col then
        let vacated := overlay.predictedCursor.col - 1
        { overlay.moveCursor vacated with
          pending := overlay.pending.filter fun p =>
            !(p.row == overlay.predictedCursor.row && p.col == vacated) }
      else overlay
  | .predictCursorLeft =>
      overlay.moveCursor (if overlay.epochStartCol < overlay.predictedCursor.col then
        overlay.predictedCursor.col - 1 else overlay.predictedCursor.col)
  | .predictCursorRight =>
      overlay.moveCursor (if min (overlay.predictedCursor.col + 1) 65535 < overlay.termCols then
        overlay.predictedCursor.col + 1 else overlay.predictedCursor.col)
  | .predictLineStart => overlay.moveCursor overlay.epochStartCol
  | .predictLineEnd =>
      overlay.moveCursor (overlay.findLineEnd overlay.predictedCursor.row screen)
  | .epochReset => overlay.resetWithCursor screen.confirmedCursor
  | .predictEnter =>
      { overlay.reset with
        epochStartCol := 0
        predictedCursor :=
          if overlay.predictedCursor.row < overlay.termRows - 1 then
            ⟨overlay.predictedCursor.row + 1, 0⟩
          else ⟨overlay.predictedCursor.row, 0⟩
        cursorMotionPending := true }
  | .bulkSuppressed => if overlay.pending = [] then overlay.reset else overlay.becomeTentative
  | .bracketedPasteStart => { overlay with inBracketedPaste := true }.reset
  | .bracketedPasteEnd => { overlay with inBracketedPaste := false }
  | .predictBatch chars =>
      if overlay.inBracketedPaste then overlay else predictBatch screen chars overlay

/-- `on_input`. -/
def onInput (width : Char → Option ℕ) (overlay : PredictionOverlay) (bytes : List UInt8)
    (screen : ClientScreen) : PredictionOverlay :=
  overlay.onAction screen (classifyInput width bytes)

/-- `is_tentative`. -/
def isTentative (overlay : PredictionOverlay) (pred : PendingPrediction) : Bool :=
  decide (overlay.confirmedEpoch < pred.tentativeUntilEpoch)

/-- `should_display`. -/
def shouldDisplay (overlay : PredictionOverlay) : Bool :=
  match overlay.displayMode with
  | .always => true
  | .never => false
  | .adaptive => overlay.srttTrigger

/-- `cell_at`. -/
def cellAt (overlay : PredictionOverlay) (row col : ℕ) : Option Cell :=
  if !overlay.shouldDisplay then none
  else
    (overlay.pending.find? fun pred =>
      pred.row == row && pred.col == col && !overlay.isTentative pred).map fun pred =>
        ⟨pred.predictedCh, if overlay.flagging then ⟨CellStyle.underline⟩ else CellStyle.none,
          none, none, false⟩

/-- The accessor `predicted_cursor`: where the cursor is displayed. -/
def displayedCursor (overlay : PredictionOverlay) : Option CursorPos :=
  if !overlay.shouldDisplay then none
  else if overlay.pending.any (!overlay.isTentative ·) || overlay.cursorMotionPending then
    some overlay.predictedCursor
  else none

/-- `update_rtt_thresholds`. -/
def updateRttThresholds (overlay : PredictionOverlay) (rttMs : ℕ) : PredictionOverlay :=
  { overlay with
    srttTrigger :=
      if srttTriggerHighMs < rttMs then true
      else if overlay.srttTrigger = true ∧ rttMs ≤ srttTriggerLowMs ∧ overlay.pending = [] then
        false
      else overlay.srttTrigger
    flagging :=
      if flagTriggerHighMs < rttMs then true
      else if rttMs ≤ flagTriggerLowMs then false
      else overlay.flagging }

/-- What identifies a prediction to be removed. -/
abbrev Key := ℕ × ℕ × ℕ

/-- The key of a prediction. -/
def Key.of (pred : PendingPrediction) : Key := (pred.row, pred.col, pred.epochRequired)

/-- The loop of `cull`, which raises `confirmed_epoch` as it goes: the epoch after it, and what to
remove, by key and by epoch; `none` when a displayed prediction failed. -/
def cullLoop (screen : ClientScreen) (newEpoch : ℕ) :
    List PendingPrediction → ℕ → List Key → List ℕ → ℕ × Option (List Key × List ℕ)
  | [], confirmed, keys, epochs => (confirmed, some (keys, epochs))
  | pred :: rest, confirmed, keys, epochs =>
      if pred.epochRequired ≤ newEpoch then
        match checkValidity (screen.confirmedCell pred.row pred.col).ch pred.predictedCh with
        | .correct =>
            cullLoop screen newEpoch rest (max confirmed pred.tentativeUntilEpoch)
              (.of pred :: keys) epochs
        | .correctNoCredit => cullLoop screen newEpoch rest confirmed (.of pred :: keys) epochs
        | .incorrectOrExpired =>
            if confirmed < pred.tentativeUntilEpoch then
              cullLoop screen newEpoch rest confirmed (.of pred :: keys)
                (pred.tentativeUntilEpoch :: epochs)
            else (confirmed, none)
      else cullLoop screen newEpoch rest confirmed keys epochs

/-- `cull`. -/
def cull (overlay : PredictionOverlay) (screen : ClientScreen) (newEpoch rttMs : ℕ) :
    PredictionOverlay :=
  let overlay := overlay.updateRttThresholds rttMs
  match cullLoop screen newEpoch overlay.pending overlay.confirmedEpoch [] [] with
  | (confirmed, none) => { overlay with confirmedEpoch := confirmed }.reset
  | (confirmed, some (keys, epochs)) =>
      { overlay with
        confirmedEpoch := confirmed
        pending := overlay.pending.filter fun pred =>
          !epochs.contains pred.tentativeUntilEpoch && !keys.contains (.of pred) }

/-! ## What the operations keep -/

section Grows

variable (width : Char → Option ℕ)

/-- **What every operation but `cull` keeps.** `confirmed_epoch` stays, and whatever is newly
pending was made in an epoch from then on. -/
structure Grows (overlay overlay' : PredictionOverlay) : Prop where
  confirmed : overlay'.confirmedEpoch = overlay.confirmedEpoch
  epoch : overlay.predictionEpoch ≤ overlay'.predictionEpoch
  pending : ∀ p ∈ overlay'.pending, p ∈ overlay.pending ∨
    overlay.predictionEpoch ≤ p.tentativeUntilEpoch ∧
      p.tentativeUntilEpoch ≤ overlay'.predictionEpoch ∧ Printable width p.predictedCh

variable {width} {overlay overlay' overlay'' : PredictionOverlay}

theorem Grows.trans (h : Grows width overlay overlay') (h' : Grows width overlay' overlay'') :
    Grows width overlay overlay'' where
  confirmed := h'.confirmed.trans h.confirmed
  epoch := h.epoch.trans h'.epoch
  pending p hp := by
    rcases h'.pending p hp with hold | ⟨hlow, hhigh, hch⟩
    · rcases h.pending p hold with hold | ⟨hlow, hhigh, hch⟩
      · exact Or.inl hold
      · exact Or.inr ⟨hlow, hhigh.trans h'.epoch, hch⟩
    · exact Or.inr ⟨h.epoch.trans hlow, hhigh, hch⟩

/-- An operation that predicts nothing. -/
theorem Grows.of_subset (hconfirmed : overlay'.confirmedEpoch = overlay.confirmedEpoch)
    (hepoch : overlay.predictionEpoch ≤ overlay'.predictionEpoch)
    (hpending : overlay'.pending ⊆ overlay.pending) : Grows width overlay overlay' :=
  ⟨hconfirmed, hepoch, fun _ hp => Or.inl (hpending hp)⟩

theorem Grows.refl (overlay : PredictionOverlay) : Grows width overlay overlay :=
  .of_subset rfl le_rfl (List.Subset.refl _)

theorem reset_grows (overlay : PredictionOverlay) : Grows width overlay overlay.reset :=
  .of_subset rfl (Nat.le_succ _) (List.nil_subset _)

theorem becomeTentative_grows (overlay : PredictionOverlay) :
    Grows width overlay overlay.becomeTentative :=
  .of_subset rfl (Nat.le_succ _) (List.Subset.refl _)

theorem syncCursorFromConfirmed_grows (overlay : PredictionOverlay) (confirmed : CursorPos) :
    Grows width overlay (overlay.syncCursorFromConfirmed confirmed) := by
  unfold syncCursorFromConfirmed
  split
  · exact .of_subset rfl le_rfl (List.Subset.refl _)
  · exact .refl overlay

theorem predictChar_grows (overlay : PredictionOverlay) (screen : ClientScreen) {ch : Char}
    (hch : Printable width ch) (colWidth : ℕ) :
    Grows width overlay (overlay.predictChar screen ch colWidth).2 := by
  unfold predictChar
  dsimp only
  split
  · exact becomeTentative_grows overlay
  · refine ⟨rfl, le_rfl, ?_⟩
    intro p hp
    rcases List.mem_append.mp hp with hold | hnew
    · exact Or.inl hold
    · obtain rfl := List.mem_singleton.mp hnew
      exact Or.inr ⟨le_rfl, le_rfl, hch⟩

theorem predictBatch_grows (screen : ClientScreen) {chars : List (Char × ℕ)}
    (hchars : ∀ pair ∈ chars, Printable width pair.1) (overlay : PredictionOverlay) :
    Grows width overlay (predictBatch screen chars overlay) := by
  induction chars generalizing overlay with
  | nil => exact .refl overlay
  | cons pair chars ih =>
      obtain ⟨ch, colWidth⟩ := pair
      rw [List.forall_mem_cons] at hchars
      have hgrows := overlay.predictChar_grows screen hchars.1 colWidth
      rw [predictBatch]
      split
      · rename_i overlay' hpredict
        rw [hpredict] at hgrows
        exact hgrows.trans (ih hchars.2 overlay')
      · rename_i overlay' hpredict
        rw [hpredict] at hgrows
        exact hgrows

/-- Every action that predicts printable characters only. -/
theorem onAction_grows (overlay : PredictionOverlay) (screen : ClientScreen)
    {action : InputAction} (haction : action.Predicts width) :
    Grows width overlay (overlay.onAction screen action) := by
  cases action with
  | predictChar ch colWidth =>
      rw [onAction]
      split
      · exact .refl overlay
      · exact overlay.predictChar_grows screen haction colWidth
  | predictBackspace =>
      rw [onAction]
      split
      · exact .of_subset rfl le_rfl List.filter_sublist.subset
      · exact .refl overlay
  | predictCursorLeft | predictCursorRight | predictLineStart | predictLineEnd |
    bracketedPasteEnd => exact .of_subset rfl le_rfl (List.Subset.refl _)
  | epochReset | predictEnter | bracketedPasteStart =>
      exact .of_subset rfl (Nat.le_succ _) (List.nil_subset _)
  | bulkSuppressed =>
      rw [onAction]
      split
      · exact reset_grows overlay
      · exact becomeTentative_grows overlay
  | predictBatch chars =>
      rw [onAction]
      split
      · exact .refl overlay
      · exact predictBatch_grows screen haction overlay

/-- **Input keeps `confirmed_epoch`.** -/
theorem onInput_grows (width : Char → Option ℕ) (overlay : PredictionOverlay)
    (bytes : List UInt8) (screen : ClientScreen) :
    Grows width overlay (overlay.onInput width bytes screen) :=
  overlay.onAction_grows screen (classifyInput_predicts width bytes)

end Grows

/-! ## What `cull` does -/

/-- The prediction is due, and the grid shows its character, which is not blank. -/
def Holds (screen : ClientScreen) (newEpoch : ℕ) (pred : PendingPrediction) : Prop :=
  pred.epochRequired ≤ newEpoch ∧ pred.predictedCh ≠ ' ' ∧
    (screen.confirmedCell pred.row pred.col).ch = pred.predictedCh

instance (screen : ClientScreen) (newEpoch : ℕ) (pred : PendingPrediction) :
    Decidable (Holds screen newEpoch pred) :=
  inferInstanceAs (Decidable (_ ∧ _ ∧ _))

theorem checkValidity_eq_correct_iff {confirmedCh predictedCh : Char} :
    checkValidity confirmedCh predictedCh = .correct ↔
      predictedCh ≠ ' ' ∧ confirmedCh = predictedCh := by
  unfold checkValidity
  split
  · rename_i heq
    subst heq
    split
    · rename_i hblank
      exact ⟨nofun, fun h => (h.1 hblank).elim⟩
    · rename_i hblank
      exact ⟨fun _ => ⟨hblank, rfl⟩, fun _ => rfl⟩
  · rename_i hne
    exact ⟨nofun, fun h => (hne h.2).elim⟩

/-- The loop raises `confirmed_epoch` only to the epoch of a prediction that holds. -/
theorem cullLoop_confirmed (screen : ClientScreen) (newEpoch : ℕ)
    (preds : List PendingPrediction) (confirmed : ℕ) (keys : List Key) (epochs : List ℕ) :
    (cullLoop screen newEpoch preds confirmed keys epochs).1 = confirmed ∨
      ∃ pred ∈ preds, Holds screen newEpoch pred ∧
        (cullLoop screen newEpoch preds confirmed keys epochs).1 = pred.tentativeUntilEpoch := by
  -- whatever the rest of the loop starts from, it ends there or at a later prediction
  have hrest : ∀ (pred : PendingPrediction) (rest : List PendingPrediction) {start result : ℕ},
      (result = start ∨ ∃ other ∈ rest, Holds screen newEpoch other ∧
        result = other.tentativeUntilEpoch) →
      result = start ∨ ∃ other ∈ pred :: rest, Holds screen newEpoch other ∧
        result = other.tentativeUntilEpoch := by
    rintro pred rest start result (hstart | ⟨other, hother, h⟩)
    · exact Or.inl hstart
    · exact Or.inr ⟨other, List.mem_cons_of_mem _ hother, h⟩
  induction preds generalizing confirmed keys epochs with
  | nil => exact Or.inl rfl
  | cons pred rest ih =>
      rw [cullLoop]
      split
      · rename_i hdue
        split
        · rename_i hvalid
          have hholds : Holds screen newEpoch pred :=
            ⟨hdue, checkValidity_eq_correct_iff.mp hvalid⟩
          rcases hrest pred rest (ih (max confirmed pred.tentativeUntilEpoch) _ _) with h | h
          · rcases Nat.le_total pred.tentativeUntilEpoch confirmed with hle | hle
            · exact Or.inl (h.trans (Nat.max_eq_left hle))
            · exact Or.inr ⟨pred, List.mem_cons_self, hholds, h.trans (Nat.max_eq_right hle)⟩
          · exact Or.inr h
        · exact hrest pred rest (ih confirmed _ _)
        · split
          · exact hrest pred rest (ih confirmed _ _)
          · exact Or.inl rfl
      · exact hrest pred rest (ih confirmed _ _)

/-- **What `cull` does**: it adds nothing, and raises `confirmed_epoch` only to the epoch of a
prediction that holds. -/
theorem cull_spec (overlay : PredictionOverlay) (screen : ClientScreen) (newEpoch rttMs : ℕ) :
    (overlay.cull screen newEpoch rttMs).pending ⊆ overlay.pending ∧
      overlay.predictionEpoch ≤ (overlay.cull screen newEpoch rttMs).predictionEpoch ∧
        ((overlay.cull screen newEpoch rttMs).confirmedEpoch = overlay.confirmedEpoch ∨
          ∃ pred ∈ overlay.pending, Holds screen newEpoch pred ∧
            (overlay.cull screen newEpoch rttMs).confirmedEpoch = pred.tentativeUntilEpoch) := by
  have hloop := cullLoop_confirmed screen newEpoch overlay.pending overlay.confirmedEpoch [] []
  unfold cull
  dsimp only
  split
  · rename_i confirmed hresult
    have hconfirmed : (cullLoop screen newEpoch overlay.pending overlay.confirmedEpoch [] []).1 =
        confirmed := congrArg Prod.fst hresult
    rw [hconfirmed] at hloop
    exact ⟨List.nil_subset _, Nat.le_succ _, hloop⟩
  · rename_i confirmed keys epochs hresult
    have hconfirmed : (cullLoop screen newEpoch overlay.pending overlay.confirmedEpoch [] []).1 =
        confirmed := congrArg Prod.fst hresult
    rw [hconfirmed] at hloop
    exact ⟨List.filter_sublist.subset, le_rfl, hloop⟩

/-! ## Deadlines -/

/-- The prediction is due, and the grid shows another character: `cull` takes it for incorrect. -/
def Fails (screen : ClientScreen) (newEpoch : ℕ) (pred : PendingPrediction) : Prop :=
  pred.epochRequired ≤ newEpoch ∧
    (screen.confirmedCell pred.row pred.col).ch ≠ pred.predictedCh

instance (screen : ClientScreen) (newEpoch : ℕ) (pred : PendingPrediction) :
    Decidable (Fails screen newEpoch pred) :=
  inferInstanceAs (Decidable (_ ∧ _))

/-- A displayed prediction fails. A prediction that holds makes those of its epoch displayed. -/
def mispredicts (screen : ClientScreen) (newEpoch : ℕ) : List PendingPrediction → ℕ → Bool
  | [], _ => false
  | pred :: rest, confirmed =>
      decide (Fails screen newEpoch pred ∧ pred.tentativeUntilEpoch ≤ confirmed) ||
        mispredicts screen newEpoch rest
          (if Holds screen newEpoch pred then max confirmed pred.tentativeUntilEpoch else confirmed)

/-- Predictions with this deadline are added at the end, or some predictions are removed. -/
def Revises (deadline : ℕ) (pending pending' : List PendingPrediction) : Prop :=
  (∃ new, pending' = pending ++ new ∧ ∀ p ∈ new, p.epochRequired = deadline) ∨
    ∃ keep, pending' = pending.filter keep

theorem Revises.refl (deadline : ℕ) (pending : List PendingPrediction) :
    Revises deadline pending pending :=
  .inl ⟨[], (List.append_nil _).symm, fun _ hp => (List.not_mem_nil hp).elim⟩

theorem Revises.nil (deadline : ℕ) (pending : List PendingPrediction) :
    Revises deadline pending [] :=
  .inr ⟨fun _ => false, (List.filter_false pending).symm⟩

theorem predictChar_pending (overlay : PredictionOverlay) (screen : ClientScreen) (ch : Char)
    (colWidth : ℕ) :
    ∃ new, (overlay.predictChar screen ch colWidth).2.pending = overlay.pending ++ new ∧
      ∀ p ∈ new, p.epochRequired = (screen.lastAppliedEpoch + 1) % 2 ^ 64 := by
  unfold predictChar
  dsimp only
  split
  · exact ⟨[], (List.append_nil _).symm, fun _ hp => (List.not_mem_nil hp).elim⟩
  · exact ⟨_, rfl, fun _ hp => List.mem_singleton.mp hp ▸ rfl⟩

theorem predictBatch_pending (screen : ClientScreen) (chars : List (Char × ℕ))
    (overlay : PredictionOverlay) :
    ∃ new, (predictBatch screen chars overlay).pending = overlay.pending ++ new ∧
      ∀ p ∈ new, p.epochRequired = (screen.lastAppliedEpoch + 1) % 2 ^ 64 := by
  induction chars generalizing overlay with
  | nil => exact ⟨[], (List.append_nil _).symm, fun _ hp => (List.not_mem_nil hp).elim⟩
  | cons pair chars ih =>
      obtain ⟨ch, colWidth⟩ := pair
      obtain ⟨first, hfirst, hdeadline⟩ := overlay.predictChar_pending screen ch colWidth
      rw [predictBatch]
      split
      · rename_i overlay' hpredict
        rw [hpredict] at hfirst
        obtain ⟨rest, hrest, hdeadlines⟩ := ih overlay'
        refine ⟨first ++ rest, ?_, List.forall_mem_append.mpr ⟨hdeadline, hdeadlines⟩⟩
        rw [hrest, hfirst, List.append_assoc]
      · rename_i overlay' hpredict
        rw [hpredict] at hfirst
        exact ⟨first, hfirst, hdeadline⟩

/-- **Every prediction is due with the next epoch** after the one that was last applied when it was
made. -/
theorem onInput_pending (width : Char → Option ℕ) (overlay : PredictionOverlay)
    (bytes : List UInt8) (screen : ClientScreen) :
    Revises ((screen.lastAppliedEpoch + 1) % 2 ^ 64) overlay.pending
      (overlay.onInput width bytes screen).pending := by
  unfold onInput
  cases classifyInput width bytes with
  | predictChar ch colWidth =>
      rw [onAction]
      split
      · exact .refl _ _
      · exact .inl (overlay.predictChar_pending screen ch colWidth)
  | predictBackspace =>
      rw [onAction]
      split
      · exact .inr ⟨_, rfl⟩
      · exact .refl _ _
  | predictCursorLeft | predictCursorRight | predictLineStart | predictLineEnd |
    bracketedPasteEnd => exact .refl _ _
  | epochReset | predictEnter | bracketedPasteStart => exact .nil _ _
  | bulkSuppressed =>
      rw [onAction]
      split
      · exact .nil _ _
      · exact .refl _ _
  | predictBatch chars =>
      rw [onAction]
      split
      · exact .refl _ _
      · exact .inl (predictBatch_pending screen chars overlay)

theorem checkValidity_eq_incorrect_iff {confirmedCh predictedCh : Char} :
    checkValidity confirmedCh predictedCh = .incorrectOrExpired ↔ confirmedCh ≠ predictedCh := by
  unfold checkValidity
  split
  · rename_i heq
    split <;> exact ⟨nofun, fun h => (h heq).elim⟩
  · rename_i hne
    exact ⟨fun _ => hne, fun _ => rfl⟩

/-- The loop ends early exactly when a displayed prediction fails. -/
theorem cullLoop_eq_none_iff (screen : ClientScreen) (newEpoch : ℕ)
    (preds : List PendingPrediction) (confirmed : ℕ) (keys : List Key) (epochs : List ℕ) :
    (cullLoop screen newEpoch preds confirmed keys epochs).2 = none ↔
      mispredicts screen newEpoch preds confirmed = true := by
  induction preds generalizing confirmed keys epochs with
  | nil => exact ⟨nofun, nofun⟩
  | cons pred rest ih =>
      rw [cullLoop, mispredicts, Bool.or_eq_true, decide_eq_true_iff]
      by_cases hdue : pred.epochRequired ≤ newEpoch
      · rw [if_pos hdue]
        cases hvalid : checkValidity (screen.confirmedCell pred.row pred.col).ch
            pred.predictedCh with
        | correct =>
            have hholds : Holds screen newEpoch pred :=
              ⟨hdue, checkValidity_eq_correct_iff.mp hvalid⟩
            have hfails : ¬ Fails screen newEpoch pred := fun h => h.2 hholds.2.2
            rw [if_pos hholds]
            exact (ih _ _ _).trans ⟨Or.inr, fun h => h.resolve_left fun h => hfails h.1⟩
        | correctNoCredit =>
            have hfails : ¬ Fails screen newEpoch pred := by
              intro h
              rw [checkValidity_eq_incorrect_iff.mpr h.2] at hvalid
              cases hvalid
            have hholds : ¬ Holds screen newEpoch pred := by
              intro h
              rw [checkValidity_eq_correct_iff.mpr h.2] at hvalid
              cases hvalid
            rw [if_neg hholds]
            exact (ih _ _ _).trans ⟨Or.inr, fun h => h.resolve_left fun h => hfails h.1⟩
        | incorrectOrExpired =>
            have hne := checkValidity_eq_incorrect_iff.mp hvalid
            have hholds : ¬ Holds screen newEpoch pred := fun h => hne h.2.2
            rw [if_neg hholds]
            dsimp only
            split
            · rename_i htentative
              exact (ih _ _ _).trans
                ⟨Or.inr, fun h => h.resolve_left fun h => Nat.not_le.mpr htentative h.2⟩
            · rename_i hshown
              exact ⟨fun _ => .inl ⟨⟨hdue, hne⟩, Nat.le_of_not_lt hshown⟩, fun _ => rfl⟩
      · rw [if_neg hdue, if_neg fun h : Holds screen newEpoch pred => hdue h.1]
        exact (ih _ _ _).trans ⟨Or.inr, fun h => h.resolve_left fun h => hdue h.1.1⟩

/-- One turn of a loop that runs to its end. -/
theorem cullLoop_cons {screen : ClientScreen} {newEpoch : ℕ} {pred : PendingPrediction}
    {rest : List PendingPrediction} {confirmed : ℕ} {keys : List Key} {epochs : List ℕ}
    {noted : List Key × List ℕ}
    (h : (cullLoop screen newEpoch (pred :: rest) confirmed keys epochs).2 = some noted) :
    ∃ confirmed' keys' epochs', confirmed ≤ confirmed' ∧
      (∀ key, key ∈ keys' ↔ key ∈ keys ∨ pred.epochRequired ≤ newEpoch ∧ Key.of pred = key) ∧
      (∀ epoch, epoch ∈ epochs' ↔
        epoch ∈ epochs ∨ Fails screen newEpoch pred ∧ pred.tentativeUntilEpoch = epoch) ∧
      (Fails screen newEpoch pred → confirmed < pred.tentativeUntilEpoch) ∧
      (cullLoop screen newEpoch rest confirmed' keys' epochs').2 = some noted := by
  have hnoted : ∀ {due : Prop}, due → ∀ key : Key,
      key ∈ Key.of pred :: keys ↔ key ∈ keys ∨ due ∧ Key.of pred = key := by
    intro due hdue key
    rw [List.mem_cons, or_comm, and_iff_right hdue, eq_comm]
  have hsame : ∀ {β : Type} {x y : β} {xs : List β} {bad : Prop}, ¬ bad →
      (x ∈ xs ↔ x ∈ xs ∨ bad ∧ y = x) :=
    fun hbad => ⟨.inl, fun h => h.resolve_right fun h => hbad h.1⟩
  rw [cullLoop] at h
  split at h
  · rename_i hdue
    split at h
    · rename_i hvalid
      have hfails : ¬ Fails screen newEpoch pred :=
        fun hfails => hfails.2 (checkValidity_eq_correct_iff.mp hvalid).2
      exact ⟨_, _, _, Nat.le_max_left _ _, hnoted hdue, fun _ => hsame hfails,
        fun h => (hfails h).elim, h⟩
    · rename_i hvalid
      have hfails : ¬ Fails screen newEpoch pred := by
        intro hfails
        rw [checkValidity_eq_incorrect_iff.mpr hfails.2] at hvalid
        cases hvalid
      exact ⟨_, _, _, le_rfl, hnoted hdue, fun _ => hsame hfails, fun h => (hfails h).elim, h⟩
    · rename_i hvalid
      have hfails : Fails screen newEpoch pred :=
        ⟨hdue, checkValidity_eq_incorrect_iff.mp hvalid⟩
      split at h
      · rename_i htentative
        refine ⟨_, _, _, le_rfl, hnoted hdue, fun epoch => ?_, fun _ => htentative, h⟩
        rw [List.mem_cons, or_comm, and_iff_right hfails, eq_comm]
      · cases h
  · rename_i hdue
    have hfails : ¬ Fails screen newEpoch pred := fun hfails => hdue hfails.1
    exact ⟨_, _, _, le_rfl, fun _ => hsame hdue, fun _ => hsame hfails, fun h => (hfails h).elim, h⟩

/-- A loop that runs to its end has noted the keys of what is due and the epochs of what failed,
and all that failed was tentative when the loop started. -/
theorem cullLoop_completes {screen : ClientScreen} {newEpoch : ℕ} {preds : List PendingPrediction}
    {confirmed : ℕ} {keys : List Key} {epochs : List ℕ} {noted : List Key × List ℕ}
    (h : (cullLoop screen newEpoch preds confirmed keys epochs).2 = some noted) :
    (∀ key, key ∈ noted.1 ↔
        key ∈ keys ∨ ∃ q ∈ preds, q.epochRequired ≤ newEpoch ∧ Key.of q = key) ∧
      (∀ epoch, epoch ∈ noted.2 ↔
        epoch ∈ epochs ∨ ∃ q ∈ preds, Fails screen newEpoch q ∧ q.tentativeUntilEpoch = epoch) ∧
      ∀ q ∈ preds, Fails screen newEpoch q → confirmed < q.tentativeUntilEpoch := by
  induction preds generalizing confirmed keys epochs with
  | nil =>
      cases h
      simp
  | cons pred rest ih =>
      obtain ⟨confirmed', keys', epochs', hle, hkeys, hepochs, htentative, hrest⟩ := cullLoop_cons h
      obtain ⟨hkeys', hepochs', htentative'⟩ := ih hrest
      refine ⟨fun key => ?_, fun epoch => ?_, List.forall_mem_cons.mpr ⟨htentative, ?_⟩⟩
      · rw [hkeys' key, hkeys key, List.exists_mem_cons_iff, or_assoc]
      · rw [hepochs' epoch, hepochs epoch, List.exists_mem_cons_iff, or_assoc]
      · exact fun q hq hfails => hle.trans_lt (htentative' q hq hfails)

/-- **When everything is due, `cull` settles everything.** The predicted cursor stays, and its
motion is dropped exactly when a displayed prediction fails. -/
theorem cull_of_due {overlay : PredictionOverlay} {screen : ClientScreen} {newEpoch : ℕ}
    (hdue : ∀ pred ∈ overlay.pending, pred.epochRequired ≤ newEpoch) (rttMs : ℕ) :
    (overlay.cull screen newEpoch rttMs).pending = [] ∧
      (overlay.cull screen newEpoch rttMs).predictedCursor = overlay.predictedCursor ∧
      (overlay.cull screen newEpoch rttMs).cursorMotionPending =
        (overlay.cursorMotionPending &&
          !mispredicts screen newEpoch overlay.pending overlay.confirmedEpoch) := by
  have hnone := cullLoop_eq_none_iff screen newEpoch overlay.pending overlay.confirmedEpoch [] []
  unfold cull
  dsimp only [updateRttThresholds]
  split
  · rename_i hresult
    rw [hresult] at hnone
    rw [hnone.mp rfl, Bool.not_true, Bool.and_false]
    exact ⟨rfl, rfl, rfl⟩
  · rename_i confirmed keys epochs hresult
    rw [hresult] at hnone
    have hmiss := Bool.eq_false_iff.mpr fun h => by
      cases hnone.mpr h
    rw [hmiss, Bool.not_false, Bool.and_true]
    refine ⟨?_, rfl, rfl⟩
    obtain ⟨hkeys, -⟩ := cullLoop_completes (congrArg Prod.snd hresult)
    refine List.filter_eq_nil_iff.mpr fun pred hpred => ?_
    have hkey := List.contains_iff_mem.mpr
      ((hkeys (.of pred)).mpr (.inr ⟨pred, hpred, hdue pred hpred, rfl⟩))
    rw [hkey, Bool.not_true, Bool.and_false]
    exact Bool.false_ne_true

end PredictionOverlay

end Nosh.Client
