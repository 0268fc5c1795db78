import Nosh.Client.Answers

/-!
# Several predictions for one cell

The keys that move the cursor let a user type onto a cell for which a prediction is pending already.
The new prediction is put behind the old one, and `cell_at` displays the first prediction that it
finds: the older character stays on the screen until the server answers.

`StampedOverlay` numbers the predictions in the order in which they were typed. The latest one is
displayed as long as nothing is typed over a pending prediction of another character.

## Main Definitions

* `StampedOverlay` — an overlay with the order in which its predictions were typed
* `Unspoilt` — nothing is typed over a pending prediction of another character
* `Agreeing` — the predictions for a cell are for the same character

## Main Results

* `Agreeing.act` — unspoilt operations keep the predictions in agreement.
* `latest_prediction_displayed` — **in every run of unspoilt operations `cell_at` displays the
  latest prediction for a cell.**
-/

namespace Nosh.Client

open Nosh.Lib Nosh.Proto PredictionOverlay

/-! ## The order of typing -/

/-- An overlay whose predictions are numbered as they are typed. -/
structure StampedOverlay where
  overlay : PredictionOverlay
  /-- A number that no prediction has had. -/
  next : ℕ
  /-- What is pending, with its numbers. -/
  marked : List (PendingPrediction × ℕ)
  map_fst_marked : marked.map Prod.fst = overlay.pending

section Stamped

variable (width : Char → Option ℕ)

/-- An operation adds predictions at the end, or removes some. -/
theorem PredictionOverlay.act_revises (overlay : PredictionOverlay) (action : OverlayAction) :
    ∃ deadline, Revises deadline overlay.pending (overlay.act width action).pending := by
  cases action with
  | input bytes screen => exact ⟨_, overlay.onInput_pending width bytes screen⟩
  | cull screen newEpoch rttMs => exact ⟨0, .inr (overlay.cull_pending screen newEpoch rttMs)⟩
  | sync confirmed =>
      refine ⟨0, ?_⟩
      rw [act, syncCursorFromConfirmed_pending]
      exact .refl _ _
  | setSize cols rows => exact ⟨0, .refl _ _⟩
  | reset | resetWithCursor => exact ⟨0, .nil _ _⟩

namespace StampedOverlay

/-- Nothing is pending at first. -/
theorem map_fst_new (mode : PredictDisplayMode) (cols rows : ℕ) :
    ([] : List (PendingPrediction × ℕ)).map Prod.fst =
      (PredictionOverlay.new mode cols rows).pending := rfl

/-- A new overlay. -/
def new (mode : PredictDisplayMode) (cols rows : ℕ) : StampedOverlay where
  overlay := .new mode cols rows
  next := 0
  marked := []
  map_fst_marked := map_fst_new mode cols rows

/-- One operation. What it adds is numbered from `next`. -/
def act (s : StampedOverlay) (action : OverlayAction) : StampedOverlay where
  overlay := s.overlay.act width action
  next := s.next + (s.overlay.act width action).pending.length
  marked := remark (s.overlay.act width action).pending s.marked s.next
  map_fst_marked := by
    obtain ⟨deadline, hrevises⟩ := s.overlay.act_revises width action
    exact map_fst_remark s.map_fst_marked hrevises s.next

/-- The operations as a machine. -/
def life : Machine StampedOverlay OverlayAction := ⟨fun s action => some (s.act width action)⟩

/-- The prediction is for the cell, and not tentative. -/
def ShowsAt (s : StampedOverlay) (row col : ℕ) (pred : PendingPrediction) : Prop :=
  pred.row = row ∧ pred.col = col ∧ s.overlay.isTentative pred = false

instance (s : StampedOverlay) (row col : ℕ) (pred : PendingPrediction) :
    Decidable (s.ShowsAt row col pred) :=
  inferInstanceAs (Decidable (_ ∧ _ ∧ _))

/-- Of the predictions for the cell that are not tentative, this one was typed last. -/
def Latest (s : StampedOverlay) (row col : ℕ) (m : PendingPrediction × ℕ) : Prop :=
  m ∈ s.marked ∧ s.ShowsAt row col m.1 ∧
    ∀ n ∈ s.marked, s.ShowsAt row col n.1 → n.2 ≤ m.2

instance (s : StampedOverlay) (row col : ℕ) (m : PendingPrediction × ℕ) :
    Decidable (s.Latest row col m) :=
  inferInstanceAs (Decidable (_ ∧ _ ∧ ∀ n ∈ s.marked, _))

end StampedOverlay

end Stamped

/-! ## Agreement -/

namespace PredictionOverlay

/-- The predictions for a cell are for the same character. -/
def Agreeing (pending : List PendingPrediction) : Prop :=
  ∀ p ∈ pending, ∀ q ∈ pending, p.row = q.row → p.col = q.col → p.predictedCh = q.predictedCh

/-- The predictions for the cell under the cursor are for this character. -/
def Unspoilt (overlay : PredictionOverlay) (ch : Char) : Prop :=
  ∀ p ∈ overlay.pending, p.row = overlay.predictedCursor.row →
    p.col = overlay.predictedCursor.col → p.predictedCh = ch

instance (overlay : PredictionOverlay) (ch : Char) : Decidable (overlay.Unspoilt ch) :=
  inferInstanceAs (Decidable (∀ p ∈ overlay.pending, _ → _ → _))

/-- Each of the characters that fit is typed where no other character is predicted. -/
def UnspoiltBatch (screen : ClientScreen) : List (Char × ℕ) → PredictionOverlay → Prop
  | [], _ => True
  | (ch, colWidth) :: chars, overlay =>
      (overlay.predictChar screen ch colWidth).1 = true →
        overlay.Unspoilt ch ∧
          UnspoiltBatch screen chars (overlay.predictChar screen ch colWidth).2

instance decidableUnspoiltBatch (screen : ClientScreen) :
    ∀ (chars : List (Char × ℕ)) (overlay : PredictionOverlay),
      Decidable (UnspoiltBatch screen chars overlay)
  | [], _ => isTrue trivial
  | (ch, colWidth) :: chars, overlay =>
      have := decidableUnspoiltBatch screen chars (overlay.predictChar screen ch colWidth).2
      inferInstanceAs (Decidable (_ → _ ∧ _))

end PredictionOverlay

/-- The characters that an action types. -/
def InputAction.typed : InputAction → List (Char × ℕ)
  | .predictChar ch colWidth => [(ch, colWidth)]
  | .predictBatch chars => chars
  | _ => []

/-- The operation types nothing over a pending prediction of another character. -/
def UnspoiltBy (width : Char → Option ℕ) (overlay : PredictionOverlay) : OverlayAction → Prop
  | .input bytes screen =>
      overlay.inBracketedPaste = false →
        UnspoiltBatch screen (classifyInput width bytes).typed overlay
  | _ => True

instance (width : Char → Option ℕ) (overlay : PredictionOverlay) :
    ∀ action, Decidable (UnspoiltBy width overlay action)
  | .input _ _ => inferInstanceAs (Decidable (_ → _))
  | .cull _ _ _ | .sync _ | .setSize _ _ | .reset | .resetWithCursor _ => isTrue trivial

namespace PredictionOverlay

variable {overlay : PredictionOverlay} {screen : ClientScreen}

theorem Agreeing.subset {pending pending' : List PendingPrediction} (h : Agreeing pending)
    (hsub : pending' ⊆ pending) : Agreeing pending' :=
  fun p hp q hq => h p (hsub hp) q (hsub hq)

theorem Agreeing.nil : Agreeing [] := fun _ hp => (List.not_mem_nil hp).elim

theorem Agreeing.append_singleton {pending : List PendingPrediction} {new : PendingPrediction}
    (h : Agreeing pending)
    (hnew : ∀ p ∈ pending, p.row = new.row → p.col = new.col → p.predictedCh = new.predictedCh) :
    Agreeing (pending ++ [new]) := by
  intro p hp q hq hrow hcol
  rcases List.mem_append.mp hp with hpold | hpnew
  · rcases List.mem_append.mp hq with hqold | hqnew
    · exact h p hpold q hqold hrow hcol
    · obtain rfl := List.mem_singleton.mp hqnew
      exact hnew p hpold hrow hcol
  · obtain rfl := List.mem_singleton.mp hpnew
    rcases List.mem_append.mp hq with hqold | hqnew
    · exact (hnew q hqold hrow.symm hcol.symm).symm
    · rw [List.mem_singleton.mp hqnew]

section

variable (h : Agreeing overlay.pending)

include h

theorem Agreeing.predictChar {ch : Char} {colWidth : ℕ}
    (hunspoilt : (overlay.predictChar screen ch colWidth).1 = true → overlay.Unspoilt ch) :
    Agreeing (overlay.predictChar screen ch colWidth).2.pending := by
  unfold PredictionOverlay.predictChar at hunspoilt ⊢
  dsimp only at hunspoilt ⊢
  split
  · exact h
  · rename_i hfits
    rw [if_neg hfits] at hunspoilt
    exact h.append_singleton (hunspoilt rfl)

theorem Agreeing.predictBatch {chars : List (Char × ℕ)}
    (hunspoilt : UnspoiltBatch screen chars overlay) :
    Agreeing (predictBatch screen chars overlay).pending := by
  induction chars generalizing overlay with
  | nil => exact h
  | cons pair chars ih =>
      obtain ⟨ch, colWidth⟩ := pair
      rw [UnspoiltBatch] at hunspoilt
      have hnext := h.predictChar fun hfits => (hunspoilt hfits).1
      rw [PredictionOverlay.predictBatch]
      split
      · rename_i overlay' hpredict
        rw [hpredict] at hunspoilt hnext
        exact ih hnext (hunspoilt rfl).2
      · rename_i overlay' hpredict
        rw [hpredict] at hnext
        exact hnext

theorem Agreeing.onAction {action : InputAction}
    (hunspoilt : overlay.inBracketedPaste = false → UnspoiltBatch screen action.typed overlay) :
    Agreeing (overlay.onAction screen action).pending := by
  cases action with
  | predictChar ch colWidth =>
      rw [PredictionOverlay.onAction]
      split
      · exact h
      · rename_i hpaste
        exact h.predictChar fun hfits => (hunspoilt (Bool.eq_false_iff.mpr hpaste) hfits).1
  | predictBatch chars =>
      rw [PredictionOverlay.onAction]
      split
      · exact h
      · rename_i hpaste
        exact h.predictBatch (hunspoilt (Bool.eq_false_iff.mpr hpaste))
  | predictBackspace =>
      rw [PredictionOverlay.onAction]
      split
      · exact h.subset List.filter_sublist.subset
      · exact h
  | bulkSuppressed =>
      rw [PredictionOverlay.onAction]
      split
      · exact .nil
      · exact h
  | predictCursorLeft | predictCursorRight | predictLineStart | predictLineEnd |
    bracketedPasteEnd => exact h
  | epochReset | predictEnter | bracketedPasteStart => exact .nil

/-- **Unspoilt operations keep the predictions in agreement.** -/
theorem Agreeing.act {width : Char → Option ℕ} {action : OverlayAction}
    (hunspoilt : UnspoiltBy width overlay action) :
    Agreeing (overlay.act width action).pending := by
  cases action with
  | input bytes screen => exact h.onAction hunspoilt
  | cull screen newEpoch rttMs =>
      obtain ⟨keep, hkeep⟩ := overlay.cull_pending screen newEpoch rttMs
      rw [PredictionOverlay.act, hkeep]
      exact h.subset List.filter_sublist.subset
  | sync confirmed =>
      rw [PredictionOverlay.act, syncCursorFromConfirmed_pending]
      exact h
  | setSize cols rows => exact h
  | reset | resetWithCursor => exact .nil

end

/-- What `cell_at` displays is pending for the cell, and not tentative. -/
theorem cellAt_of_shows (hdisplay : overlay.shouldDisplay = true) {pred : PendingPrediction}
    (hpred : pred ∈ overlay.pending) (htentative : overlay.isTentative pred = false) :
    ∃ first ∈ overlay.pending, first.row = pred.row ∧ first.col = pred.col ∧
      (overlay.cellAt pred.row pred.col).map Cell.ch = some first.predictedCh := by
  unfold cellAt
  rw [hdisplay, Bool.not_true, if_neg Bool.false_ne_true]
  cases hfind : overlay.pending.find? fun p =>
      p.row == pred.row && p.col == pred.col && !overlay.isTentative p with
  | none =>
      have hnot := List.find?_eq_none.mp hfind pred hpred
      simp [htentative] at hnot
  | some first =>
      have hfirst := List.find?_some hfind
      rw [Bool.and_eq_true, Bool.and_eq_true, beq_iff_eq, beq_iff_eq] at hfirst
      exact ⟨first, List.mem_of_find?_eq_some hfind, hfirst.1.1, hfirst.1.2, rfl⟩

end PredictionOverlay

/-- **The latest prediction is displayed**: in every run in which nothing is typed over a pending
prediction of another character. -/
theorem latest_prediction_displayed (width : Char → Option ℕ) (mode : PredictDisplayMode)
    (cols rows : ℕ) {actions : List OverlayAction} {s : StampedOverlay}
    (hunspoilt : (StampedOverlay.life width).Along (fun s => UnspoiltBy width s.overlay)
      (.new mode cols rows) actions)
    (hrun : (StampedOverlay.life width).run (.new mode cols rows) actions = some s)
    (hdisplay : s.overlay.shouldDisplay = true) {row col : ℕ} {m : PendingPrediction × ℕ}
    (hlatest : s.Latest row col m) :
    (s.overlay.cellAt row col).map Cell.ch = some m.1.predictedCh := by
  have hagree : Agreeing s.overlay.pending := by
    refine (StampedOverlay.life width).invariant_along (fun s => Agreeing s.overlay.pending) ?_
      Agreeing.nil hunspoilt hrun
    rintro s action _ h hok ⟨⟩
    exact h.act hok
  obtain ⟨hmem, ⟨rfl, rfl, htentative⟩, -⟩ := hlatest
  have hpending : m.1 ∈ s.overlay.pending := by
    rw [← s.map_fst_marked]
    exact List.mem_map_of_mem hmem
  obtain ⟨first, hfirst, hrow, hcol, hcell⟩ := cellAt_of_shows hdisplay hpending htentative
  rw [hcell, hagree first hfirst m.1 hpending hrow hcol]

/-- `a`, Left and `a`: the same character is predicted twice for one cell. -/
theorem latest_prediction_displayed_retyped :
    ∃ s, (StampedOverlay.life narrow).run (.new .always 4 2)
        [.input [0x61] (.new 4 2), .input [0x1b, 0x5b, 0x44] (.new 4 2),
          .input [0x61] (.new 4 2)] = some s ∧
      s.Latest 0 0 (⟨0, 0, 'a', 1, 1, 0⟩, 2) ∧ s.overlay.pending.length = 2 ∧
      (s.overlay.cellAt 0 0).map Cell.ch = some 'a' := by
  refine ⟨_, rfl, by decide, by decide, ?_⟩
  exact @latest_prediction_displayed narrow .always 4 2
    [.input [0x61] (.new 4 2), .input [0x1b, 0x5b, 0x44] (.new 4 2), .input [0x61] (.new 4 2)] _
    (by decide) rfl (by decide) 0 0 (⟨0, 0, 'a', 1, 1, 0⟩, 2) (by decide)

/-- **`a`, Left and `b`**: the character that is displayed is `a`. -/
theorem cursorLeft_displays_oldest :
    ∃ s m, (StampedOverlay.life narrow).run (.new .always 4 2)
        [.input [0x61] (.new 4 2), .input [0x1b, 0x5b, 0x44] (.new 4 2),
          .input [0x62] (.new 4 2)] = some s ∧
      s.overlay.shouldDisplay = true ∧ s.Latest 0 0 m ∧ m.1.predictedCh = 'b' ∧
      (s.overlay.cellAt 0 0).map Cell.ch = some 'a' :=
  ⟨_, (⟨0, 0, 'b', 1, 1, 0⟩, 2), rfl, by decide, by decide, by decide, by decide⟩

end Nosh.Client
