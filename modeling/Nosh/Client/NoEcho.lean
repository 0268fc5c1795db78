import Nosh.Client.Predictor
import Nosh.Client.Pump

/-!
# Typing without echo

While the server echoes nothing — at a password prompt — no typed character may be displayed. The
overlay has no flag for this. After a reset every prediction belongs to an epoch that
`confirmed_epoch` has not reached, and stays hidden until one of them is confirmed.

A prediction is confirmed by what the grid shows at its place, and not by a change of it. A typed
character that the grid already shows where it is predicted counts as an echo, and what is typed
after it is displayed.

## Main Definitions

* `PredictingPump` — the pump with its predictor
* `Reachable`, `AfterReset` — the overlays that the operations lead to, and those right after a
  reset
* `typing` — keystrokes and datagrams, in any order
* `Echoless`, `Distinct` — what a step has to keep to

## Main Results

* `Hidden` — nothing pending is displayed.
* `no_echo_hidden` — **nothing is displayed while the server echoes nothing and no typed character
  is already where it is predicted.**
-/

namespace Nosh.Client

open Nosh.Lib Nosh.Proto

/-! ## The predictor in the pump -/

/-- What the datagram arm does with the predictor after `apply`. -/
def PredictionOverlay.afterApply (overlay : PredictionOverlay) (before after : ClientScreen)
    (diff : StateDiff) (wasAltScreen : Bool) (rttMs : ℕ) : PredictionOverlay :=
  let overlay := if diff.altScreen && !wasAltScreen then overlay.reset else overlay
  let overlay := overlay.cull after diff.epoch rttMs
  let overlay :=
    if after.cols ≠ before.cols ∨ after.rows ≠ before.rows then
      (overlay.setSize after.cols after.rows).reset
    else overlay
  overlay.syncCursorFromConfirmed after.confirmedCursor

/-- The pump with its predictor. -/
structure PredictingPump where
  pump : ClientPump
  predictor : PredictionOverlay
  deriving DecidableEq

section Pump

variable (width : Char → Option ℕ)

/-- The datagram arm. -/
def PredictingPump.recvDatagram (s : PredictingPump) (diff : StateDiff) (rttMs : ℕ) :
    PredictingPump where
  pump := (s.pump.recvDatagram width diff).1
  predictor :=
    if s.pump.screen.lastAppliedEpoch < diff.epoch ∧ ¬ s.pump.view.Hides diff.epoch then
      s.predictor.afterApply s.pump.screen (s.pump.recvDatagram width diff).1.screen diff
        s.pump.wasAltScreen rttMs
    else s.predictor

/-- The stdin arm on bytes that are forwarded: they end the scrollback view. -/
def PredictingPump.recvKeys (s : PredictingPump) (bytes : List UInt8) : PredictingPump where
  pump := { s.pump with view := .live }
  predictor := s.predictor.onInput width bytes s.pump.screen

end Pump

/-! ## Reachable overlays -/

/-- The operations on an overlay. -/
inductive OverlayAction
  | input (bytes : List UInt8) (screen : ClientScreen)
  | cull (screen : ClientScreen) (newEpoch rttMs : ℕ)
  | sync (confirmed : CursorPos)
  | setSize (cols rows : ℕ)
  | reset
  | resetWithCursor (confirmed : CursorPos)

section Reachable

variable (width : Char → Option ℕ)

/-- One operation. -/
def PredictionOverlay.act (overlay : PredictionOverlay) : OverlayAction → PredictionOverlay
  | .input bytes screen => overlay.onInput width bytes screen
  | .cull screen newEpoch rttMs => overlay.cull screen newEpoch rttMs
  | .sync confirmed => overlay.syncCursorFromConfirmed confirmed
  | .setSize cols rows => overlay.setSize cols rows
  | .reset => overlay.reset
  | .resetWithCursor confirmed => overlay.resetWithCursor confirmed

/-- The operations as a machine. -/
def overlays : Machine PredictionOverlay OverlayAction where
  step overlay a := some (overlay.act width a)

/-- The operations lead there. -/
def Reachable (overlay : PredictionOverlay) : Prop :=
  ∃ mode cols rows schedule, (overlays width).run (.new mode cols rows) schedule = some overlay

/-- A reachable overlay was just reset: by `reset`, by `reset_with_cursor`, or by Enter. -/
def AfterReset (overlay : PredictionOverlay) : Prop :=
  ∃ before, Reachable width before ∧
    (overlay = before.reset ∨ (∃ confirmed, overlay = before.resetWithCursor confirmed) ∨
      ∃ bytes screen, (bytes = [0x0d] ∨ bytes = [0x0a]) ∧
        overlay = before.onInput width bytes screen)

end Reachable

namespace PredictionOverlay

variable {width : Char → Option ℕ} {overlay overlay' : PredictionOverlay}

variable (width) in
/-- No epoch is ahead of the present one, and only printable characters are predicted. -/
structure Sound (overlay : PredictionOverlay) : Prop where
  confirmed : overlay.confirmedEpoch ≤ overlay.predictionEpoch
  pending : ∀ p ∈ overlay.pending,
    p.tentativeUntilEpoch ≤ overlay.predictionEpoch ∧ Printable width p.predictedCh

theorem Sound.new (mode : PredictDisplayMode) (cols rows : ℕ) : Sound width (.new mode cols rows) :=
  ⟨le_rfl, fun _ hp => (List.not_mem_nil hp).elim⟩

theorem Sound.grows (h : Sound width overlay) (hgrows : Grows width overlay overlay') :
    Sound width overlay' where
  confirmed := hgrows.confirmed.trans_le (h.confirmed.trans hgrows.epoch)
  pending p hp := by
    rcases hgrows.pending p hp with hold | ⟨-, hhigh, hch⟩
    · exact ⟨(h.pending p hold).1.trans hgrows.epoch, (h.pending p hold).2⟩
    · exact ⟨hhigh, hch⟩

theorem Sound.cull (h : Sound width overlay) (screen : ClientScreen) (newEpoch rttMs : ℕ) :
    Sound width (overlay.cull screen newEpoch rttMs) := by
  obtain ⟨hpending, hepoch, hconfirmed⟩ := overlay.cull_spec screen newEpoch rttMs
  refine ⟨?_, fun p hp => ?_⟩
  · rcases hconfirmed with hsame | ⟨pred, hpred, -, hraised⟩
    · exact hsame.trans_le (h.confirmed.trans hepoch)
    · exact hraised.trans_le ((h.pending pred hpred).1.trans hepoch)
  · have hold := h.pending p (hpending hp)
    exact ⟨hold.1.trans hepoch, hold.2⟩

/-- Every operation keeps the overlay sound. -/
theorem Sound.act (h : Sound width overlay) (a : OverlayAction) :
    Sound width (overlay.act width a) := by
  cases a with
  | input bytes screen => exact h.grows (overlay.onInput_grows width bytes screen)
  | cull screen newEpoch rttMs => exact h.cull screen newEpoch rttMs
  | sync confirmed => exact h.grows (overlay.syncCursorFromConfirmed_grows confirmed)
  | setSize cols rows => exact ⟨h.confirmed, h.pending⟩
  | reset => exact h.grows (reset_grows overlay)
  | resetWithCursor confirmed =>
      exact h.grows (.of_subset rfl (Nat.le_succ _) (List.nil_subset _))

/-- What the datagram arm does: a reset on a new alternate screen, `cull`, a reset on a new size,
and the cursor follows. -/
theorem afterApply_cases (overlay : PredictionOverlay) (before after : ClientScreen)
    (diff : StateDiff) (wasAltScreen : Bool) (rttMs : ℕ) :
    ∃ first last : PredictionOverlay, (first = overlay ∨ first = overlay.reset) ∧
      (last = first.cull after diff.epoch rttMs ∨
        last = ((first.cull after diff.epoch rttMs).setSize after.cols after.rows).reset) ∧
      overlay.afterApply before after diff wasAltScreen rttMs =
        last.syncCursorFromConfirmed after.confirmedCursor := by
  refine ⟨if diff.altScreen && !wasAltScreen then overlay.reset else overlay, _, ?_, ?_, rfl⟩
  · exact (ite_eq_or_eq _ _ _).symm
  · exact (ite_eq_or_eq _ _ _).symm

/-- The datagram arm keeps the overlay sound. -/
theorem Sound.afterApply (h : Sound width overlay) (before after : ClientScreen)
    (diff : StateDiff) (wasAltScreen : Bool) (rttMs : ℕ) :
    Sound width (overlay.afterApply before after diff wasAltScreen rttMs) := by
  obtain ⟨first, last, hfirst, hlast, heq⟩ :=
    overlay.afterApply_cases before after diff wasAltScreen rttMs
  have hsound : Sound width first := by
    rcases hfirst with rfl | rfl
    · exact h
    · exact h.act .reset
  have hcull := hsound.cull after diff.epoch rttMs
  rw [heq]
  rcases hlast with rfl | rfl
  · exact hcull.act (.sync after.confirmedCursor)
  · exact ((hcull.act (.setSize after.cols after.rows)).act .reset).act
      (.sync after.confirmedCursor)

theorem sound_of_reachable (h : Reachable width overlay) : Sound width overlay := by
  obtain ⟨mode, cols, rows, schedule, hrun⟩ := h
  refine (overlays width).invariant_run (Sound width) ?_ (.new mode cols rows) hrun
  rintro before a _ hbefore ⟨⟩
  exact hbefore.act a

/-! ## Hidden predictions -/

/-- Nothing that is or will be pending in this epoch is displayed. -/
structure Hidden (overlay : PredictionOverlay) : Prop where
  epoch : overlay.confirmedEpoch < overlay.predictionEpoch
  pending : ∀ p ∈ overlay.pending, overlay.confirmedEpoch < p.tentativeUntilEpoch

theorem Hidden.grows (h : Hidden overlay) (hgrows : Grows width overlay overlay') :
    Hidden overlay' where
  epoch := hgrows.confirmed.trans_lt (h.epoch.trans_le hgrows.epoch)
  pending p hp := by
    rw [hgrows.confirmed]
    rcases hgrows.pending p hp with hold | ⟨hlow, -, -⟩
    · exact h.pending p hold
    · exact h.epoch.trans_le hlow

/-- What is hidden stays so when no prediction holds. -/
theorem Hidden.cull (h : Hidden overlay) {screen : ClientScreen} {newEpoch : ℕ} (rttMs : ℕ)
    (hnone : ∀ pred ∈ overlay.pending, ¬ Holds screen newEpoch pred) :
    Hidden (overlay.cull screen newEpoch rttMs) := by
  obtain ⟨hpending, hepoch, hconfirmed⟩ := overlay.cull_spec screen newEpoch rttMs
  have hsame : (overlay.cull screen newEpoch rttMs).confirmedEpoch = overlay.confirmedEpoch := by
    rcases hconfirmed with hsame | ⟨pred, hpred, hholds, -⟩
    · exact hsame
    · exact (hnone pred hpred hholds).elim
  refine ⟨hsame.trans_lt (h.epoch.trans_le hepoch), fun p hp => ?_⟩
  exact hsame.trans_lt (h.pending p (hpending hp))

/-- Hidden predictions are not displayed. -/
theorem Hidden.cellAt (h : Hidden overlay) (row col : ℕ) : overlay.cellAt row col = none := by
  unfold PredictionOverlay.cellAt
  split
  · rfl
  · rw [Option.map_eq_none_iff, List.find?_eq_none]
    intro pred hpred
    have htentative : overlay.isTentative pred = true := decide_eq_true (h.pending pred hpred)
    rw [htentative, Bool.not_true, Bool.and_false]
    exact Bool.false_ne_true

/-- A reset hides everything. -/
theorem Sound.reset_hidden (h : Sound width overlay)
    (hconfirmed : overlay'.confirmedEpoch = overlay.confirmedEpoch)
    (hepoch : overlay'.predictionEpoch = overlay.predictionEpoch + 1)
    (hpending : overlay'.pending = []) : Hidden overlay' where
  epoch := by
    rw [hconfirmed, hepoch]
    exact Nat.lt_succ_of_le h.confirmed
  pending p hp := by
    rw [hpending] at hp
    exact (List.not_mem_nil hp).elim

theorem hidden_of_afterReset (h : AfterReset width overlay) : Hidden overlay := by
  obtain ⟨before, hreachable, hreset⟩ := h
  have hsound := sound_of_reachable hreachable
  rcases hreset with rfl | ⟨confirmed, rfl⟩ | ⟨bytes, screen, rfl | rfl, rfl⟩
  · exact hsound.reset_hidden rfl rfl rfl
  · exact hsound.reset_hidden rfl rfl rfl
  · exact hsound.reset_hidden rfl rfl rfl
  · exact hsound.reset_hidden rfl rfl rfl

theorem Hidden.reset (h : Hidden overlay) : Hidden overlay.reset where
  epoch := h.epoch.trans (Nat.lt_succ_self _)
  pending _ hp := (List.not_mem_nil hp).elim

theorem Hidden.setSize (h : Hidden overlay) (cols rows : ℕ) : Hidden (overlay.setSize cols rows) :=
  ⟨h.epoch, h.pending⟩

theorem Hidden.syncCursorFromConfirmed (h : Hidden overlay) (confirmed : CursorPos) :
    Hidden (overlay.syncCursorFromConfirmed confirmed) := by
  unfold PredictionOverlay.syncCursorFromConfirmed
  split
  · exact ⟨h.epoch, h.pending⟩
  · exact h

/-- The datagram arm keeps what is hidden when no prediction holds. -/
theorem Hidden.afterApply (h : Hidden overlay) {before after : ClientScreen} {diff : StateDiff}
    (hnone : ∀ pred ∈ overlay.pending, ¬ Holds after diff.epoch pred) (wasAltScreen : Bool)
    (rttMs : ℕ) : Hidden (overlay.afterApply before after diff wasAltScreen rttMs) := by
  obtain ⟨first, last, hfirst, hlast, heq⟩ :=
    overlay.afterApply_cases before after diff wasAltScreen rttMs
  have hcull : Hidden (first.cull after diff.epoch rttMs) := by
    rcases hfirst with rfl | rfl
    · exact h.cull rttMs hnone
    · exact h.reset.cull rttMs fun _ hpred => (List.not_mem_nil hpred).elim
  rw [heq]
  rcases hlast with rfl | rfl
  · exact hcull.syncCursorFromConfirmed _
  · exact (hcull.setSize _ _).reset.syncCursorFromConfirmed _

end PredictionOverlay

/-! ## Runs -/

/-- A keystroke batch, or a datagram with the RTT at its time. -/
inductive TypingAction
  | keys (bytes : List UInt8)
  | datagram (diff : StateDiff) (rttMs : ℕ)

section Runs

variable (width : Char → Option ℕ)

/-- Keystrokes and datagrams, in any order. -/
def typing : Machine PredictingPump TypingAction where
  step s
    | .keys bytes => some (s.recvKeys width bytes)
    | .datagram diff rttMs => some (s.recvDatagram width diff rttMs)

/-- The server echoes nothing: the datagram changes no cell of the confirmed grid. -/
def Echoless (s : PredictingPump) : TypingAction → Prop
  | .keys _ => True
  | .datagram diff rttMs =>
      (s.recvDatagram width diff rttMs).pump.screen.confirmed = s.pump.screen.confirmed

/-- No prediction that the datagram makes due is for a character, other than a blank, that the grid
already shows at its place. -/
def Distinct (s : PredictingPump) : TypingAction → Prop
  | .keys _ => True
  | .datagram diff _ =>
      ∀ pred ∈ s.predictor.pending, ¬ PredictionOverlay.Holds s.pump.screen diff.epoch pred

instance (s : PredictingPump) (a : TypingAction) : Decidable (Echoless width s a) :=
  match a with
  | .keys _ => inferInstanceAs (Decidable True)
  | .datagram _ _ => inferInstanceAs (Decidable (_ = _))

instance (s : PredictingPump) (a : TypingAction) : Decidable (Distinct s a) :=
  match a with
  | .keys _ => inferInstanceAs (Decidable True)
  | .datagram _ _ => inferInstanceAs (Decidable (∀ pred ∈ _, ¬ _))

variable {width}

/-- The grid decides whether a prediction holds. -/
theorem PredictionOverlay.holds_congr {screen screen' : ClientScreen} {newEpoch : ℕ}
    {pred : PendingPrediction} (hgrid : screen'.confirmed = screen.confirmed) :
    Holds screen' newEpoch pred ↔ Holds screen newEpoch pred := by
  unfold Holds ClientScreen.confirmedCell
  rw [hgrid]

/-- A step without echo and without coincidence keeps everything hidden. -/
theorem hidden_step {s s' : PredictingPump} {a : TypingAction} (h : s.predictor.Hidden)
    (hecho : Echoless width s a) (hdistinct : Distinct s a)
    (hstep : (typing width).step s a = some s') : s'.predictor.Hidden := by
  cases a with
  | keys bytes =>
      cases hstep
      exact h.grows (s.predictor.onInput_grows width bytes s.pump.screen)
  | datagram diff rttMs =>
      cases hstep
      unfold PredictingPump.recvDatagram
      dsimp only
      split
      · refine h.afterApply (fun pred hpred hholds => ?_) _ _
        exact hdistinct pred hpred ((PredictionOverlay.holds_congr hecho).mp hholds)
      · exact h

/-- **No echo, no display.** From any state right after a reset, whatever is on the screen, is typed
and arrives: as long as the server echoes nothing, and no typed character is already where it is
predicted, the overlay displays no cell. -/
theorem no_echo_hidden (width : Char → Option ℕ) {s s' : PredictingPump}
    {schedule : List TypingAction} (hreset : AfterReset width s.predictor)
    (hecho : (typing width).Along (Echoless width) s schedule)
    (hdistinct : (typing width).Along Distinct s schedule)
    (hrun : (typing width).run s schedule = some s') (row col : ℕ) :
    s'.predictor.cellAt row col = none := by
  have hhidden : s'.predictor.Hidden :=
    (typing width).invariant_along (fun s => s.predictor.Hidden)
      (fun _ _ _ h hok hstep => hidden_step h hok.1 hok.2 hstep)
      (PredictionOverlay.hidden_of_afterReset hreset)
      ((typing width).along_and.mpr ⟨hecho, hdistinct⟩) hrun
  exact hhidden.cellAt row col

end Runs

/-- Every character but the control characters is one column wide. -/
def narrow (ch : Char) : Option ℕ := if ch.toNat < 0x20 then none else some 1

/-- A line that shows `ch`, with the cursor on it, right after a reset. -/
def promptOn (ch : Char) : PredictingPump where
  pump := {
    screen := ⟨3, 1, [[⟨ch, .none, none, none, false⟩, .blank, .blank]], ⟨0, 0⟩, 1⟩
    view := .live
    wasAltScreen := false
    scrollbackAvailable := false }
  predictor := (PredictionOverlay.new .always 3 1).reset

theorem afterReset_promptOn (width : Char → Option ℕ) (ch : Char) :
    AfterReset width (promptOn ch).predictor :=
  ⟨.new .always 3 1, ⟨.always, 3, 1, [], rfl⟩, Or.inl rfl⟩

/-- The keys `p` and `q`, with an empty datagram between them. -/
def typedSecret : List TypingAction :=
  [.keys [0x70], .datagram ⟨2, 3, 1, ⟨0, 0⟩, false, []⟩ 100, .keys [0x71]]

theorem no_echo_hidden_typedSecret :
    ∃ s, (typing narrow).run (promptOn ' ') typedSecret = some s ∧
      s.predictor.pending.length = 1 ∧ s.predictor.cellAt 0 0 = none :=
  ⟨_, rfl, by decide, @no_echo_hidden narrow (promptOn ' ') _ typedSecret
    (afterReset_promptOn narrow ' ') (by decide) (by decide) rfl 0 0⟩

/-- On a line that starts with `p`, the second key is displayed, though the server echoes
nothing. -/
theorem coincident_key_displays_next :
    AfterReset narrow (promptOn 'p').predictor ∧
      (typing narrow).Along (Echoless narrow) (promptOn 'p') typedSecret ∧
        ∃ s, (typing narrow).run (promptOn 'p') typedSecret = some s ∧
          s.predictor.cellAt 0 0 = some ⟨'q', ⟨CellStyle.underline⟩, none, none, false⟩ :=
  ⟨afterReset_promptOn narrow 'p', by decide, _, rfl, by decide⟩

end Nosh.Client
