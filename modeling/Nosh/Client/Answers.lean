import Nosh.Client.NoEcho

/-!
# Keystrokes and the diffs that answer them

The predictor does not know which keystrokes the server had processed when it produced a diff. The
deadline of a prediction is the epoch after the one that was on the screen when the key was typed,
so that the next diff decides about it, whether the server has seen the key or not. And a motion of
the cursor stays predicted until a character is typed or the predictor is reset.

`Typist` counts the keystrokes that were sent, and every diff comes with the number of keystrokes
that the server had processed by then. Delays, losses and what the server does otherwise are in the
choice of the diffs that arrive and of these numbers.

## Main Definitions

* `Typist.step` — keystrokes and datagrams, in any order, with the keystrokes numbered
* `Reconciled` — the predicted cursor is the confirmed one
* `Typist.Misjudges` — `cull` takes a prediction for incorrect that the server could not answer yet

## Main Results

* `Typist.Sound.step` — every pending prediction is due with the next diff.
* `reconciled_iff` — **the cursor is reconciled in every state of a run exactly when no motion is
  pending that the server has answered otherwise.**
* `never_misjudged_iff` — **no prediction is misjudged in a run exactly when every diff that finds
  a prediction was produced after its keystroke was processed**, or shows its character anyway.
-/

namespace Nosh.Client

open Nosh.Lib Nosh.Proto PredictionOverlay

/-! ## Numbered keystrokes -/

/-- The keystrokes of a batch: one for every character of a `PredictBatch`, else one. -/
def InputAction.keystrokes : InputAction → ℕ
  | .predictBatch chars => chars.length
  | _ => 1

theorem keystrokes_classifyPrintable (width : Char → Option ℕ) (bytes : List UInt8) :
    (classifyPrintable width bytes).keystrokes = 1 := by
  unfold classifyPrintable
  split
  · split
    · rfl
    · split <;> rfl
  · rfl

theorem keystrokes_classifyBulk_pos (width : Char → Option ℕ) (bytes : List UInt8) :
    0 < (classifyBulk width bytes).keystrokes := by
  unfold classifyBulk
  split
  · rename_i chars _
    split
    · rename_i hchars
      change 0 < (chars.map fun ch => (ch, 1)).length
      rw [List.length_map, List.length_pos_iff]
      rintro rfl
      exact Bool.noConfusion hchars
    · exact Nat.one_pos
  · exact Nat.one_pos

/-- Every batch has a keystroke. -/
theorem keystrokes_classifyInput_pos (width : Char → Option ℕ) (bytes : List UInt8) :
    0 < (classifyInput width bytes).keystrokes := by
  refine classifyInput_cases (motive := fun action => 0 < action.keystrokes)
    (fun _ => Nat.one_pos) (fun _ => Nat.one_pos) (fun _ => keystrokes_classifyBulk_pos width bytes)
    ?_ ?_
  · intro action hcontrol _
    cases action with
    | predictBatch chars => cases hcontrol
    | _ => exact Nat.one_pos
  · rw [keystrokes_classifyPrintable]
    exact Nat.one_pos

/-- What is pending now, with the numbers of the keystrokes. What was pending before keeps its
number, and what is new is numbered from `first`. -/
def remark (pending : List PendingPrediction) (marked : List (PendingPrediction × ℕ)) (first : ℕ) :
    List (PendingPrediction × ℕ) :=
  let kept := marked.filter fun m => decide (m.1 ∈ pending)
  kept ++ (pending.drop kept.length).zipIdx first

/-- Predictions that are added or removed leave every prediction with one number. -/
theorem map_fst_remark {deadline : ℕ} {pending pending' : List PendingPrediction}
    {marked : List (PendingPrediction × ℕ)} (hmarked : marked.map Prod.fst = pending)
    (hrevises : Revises deadline pending pending') (first : ℕ) :
    (remark pending' marked first).map Prod.fst = pending' := by
  have hmem : ∀ m ∈ marked, m.1 ∈ pending := by
    intro m hm
    rw [← hmarked]
    exact List.mem_map_of_mem hm
  unfold remark
  rcases hrevises with ⟨new, rfl, -⟩ | ⟨keep, rfl⟩
  · have hkept : marked.filter (fun m => decide (m.1 ∈ pending ++ new)) = marked :=
      List.filter_eq_self.mpr fun m hm => decide_eq_true (List.mem_append_left _ (hmem m hm))
    have hlength : marked.length = pending.length := by
      rw [← hmarked, List.length_map]
    dsimp only
    rw [hkept, hlength, List.drop_left, List.map_append, hmarked, List.zipIdx_map_fst]
  · have hkept : marked.filter (fun m => decide (m.1 ∈ pending.filter keep)) =
        marked.filter (fun m => keep m.1) := by
      refine List.filter_congr fun m hm => ?_
      rw [Bool.eq_iff_iff, decide_eq_true_iff, List.mem_filter]
      exact and_iff_right (hmem m hm)
    have hmap : (marked.filter fun m => keep m.1).map Prod.fst = pending.filter keep := by
      rw [← hmarked, List.filter_map]
      rfl
    have hlength : (marked.filter fun m => keep m.1).length = (pending.filter keep).length := by
      rw [← hmap, List.length_map]
    dsimp only
    rw [hkept, hlength, List.drop_length, List.zipIdx_nil, List.append_nil, hmap]

/-- The client, with the keystrokes that were sent and answered. -/
structure Typist where
  client : PredictingPump
  /-- The keystrokes sent. -/
  sent : ℕ
  /-- The keystrokes that the server had processed for the diff that was applied last. -/
  answered : ℕ
  /-- What is pending, with the numbers of the keystrokes. -/
  marked : List (PendingPrediction × ℕ)
  map_fst_marked : marked.map Prod.fst = client.predictor.pending

/-- A batch of keystrokes, or a diff that the server produced after so many keystrokes. -/
inductive TypistAction
  | keys (bytes : List UInt8)
  | datagram (diff : StateDiff) (rttMs processed : ℕ)

/-- The datagram arm goes on to `apply`, `cull` and the cursor. -/
def PredictingPump.Processes (s : PredictingPump) (diff : StateDiff) : Prop :=
  s.pump.screen.lastAppliedEpoch < diff.epoch ∧ ¬ s.pump.view.Hides diff.epoch

instance (s : PredictingPump) (diff : StateDiff) : Decidable (s.Processes diff) :=
  inferInstanceAs (Decidable (_ ∧ _))

section Arm

variable (width : Char → Option ℕ)

theorem PredictingPump.recvDatagram_of_processes {s : PredictingPump} {diff : StateDiff}
    (h : s.Processes diff) (rttMs : ℕ) :
    (s.recvDatagram width diff rttMs).pump.screen = s.pump.screen.apply width diff ∧
      (s.recvDatagram width diff rttMs).predictor =
        s.predictor.afterApply s.pump.screen (s.pump.screen.apply width diff) diff
          s.pump.wasAltScreen rttMs := by
  have hscreen := (ClientPump.recvDatagram_fresh width h.1).2
  rw [if_neg h.2] at hscreen
  refine ⟨hscreen, ?_⟩
  unfold PredictingPump.Processes at h
  unfold PredictingPump.recvDatagram
  dsimp only
  rw [if_pos h, hscreen]

theorem PredictingPump.recvDatagram_of_not_processes {s : PredictingPump} {diff : StateDiff}
    (h : ¬ s.Processes diff) (rttMs : ℕ) : s.recvDatagram width diff rttMs = s := by
  unfold PredictingPump.Processes at h
  unfold PredictingPump.recvDatagram
  rw [if_neg h]
  by_cases hgate : s.pump.screen.lastAppliedEpoch < diff.epoch
  · have hhides : s.pump.view.Hides diff.epoch := by
      by_contra hshown
      exact h ⟨hgate, hshown⟩
    unfold ClientPump.recvDatagram
    rw [if_pos hgate]
    cases hview : s.pump.view with
    | live =>
        rw [hview] at hhides
        exact hhides.elim
    | active lines offset pendingRequest epochAtSnapshot totalAvailable =>
        rw [hview] at hhides
        have hold : diff.epoch < epochAtSnapshot := hhides
        dsimp only
        rw [if_pos hold]
  · rw [ClientPump.recvDatagram_stale width hgate]

end Arm

namespace PredictionOverlay

theorem cull_pending (overlay : PredictionOverlay) (screen : ClientScreen) (newEpoch rttMs : ℕ) :
    ∃ keep, (overlay.cull screen newEpoch rttMs).pending = overlay.pending.filter keep := by
  unfold cull
  dsimp only
  split
  · exact ⟨fun _ => false, (List.filter_false overlay.pending).symm⟩
  · exact ⟨_, rfl⟩

theorem syncCursorFromConfirmed_pending (overlay : PredictionOverlay) (confirmed : CursorPos) :
    (overlay.syncCursorFromConfirmed confirmed).pending = overlay.pending := by
  unfold syncCursorFromConfirmed
  split <;> rfl

/-- The datagram arm adds no prediction. -/
theorem afterApply_pending (overlay : PredictionOverlay) (before after : ClientScreen)
    (diff : StateDiff) (wasAltScreen : Bool) (rttMs : ℕ) :
    ∃ keep, (overlay.afterApply before after diff wasAltScreen rttMs).pending =
      overlay.pending.filter keep := by
  obtain ⟨first, last, hfirst, hlast, heq⟩ :=
    overlay.afterApply_cases before after diff wasAltScreen rttMs
  rw [heq, syncCursorFromConfirmed_pending]
  have hnil : ∃ keep, [] = overlay.pending.filter keep :=
    ⟨fun _ => false, (List.filter_false overlay.pending).symm⟩
  rcases hlast with rfl | rfl
  · rcases hfirst with rfl | rfl
    · exact first.cull_pending after diff.epoch rttMs
    · obtain ⟨keep, hkeep⟩ := overlay.reset.cull_pending after diff.epoch rttMs
      rw [hkeep]
      exact hnil
  · exact hnil

/-- The datagram arm resets the predictor: the alternate screen is entered, the size changes, or a
displayed prediction fails. -/
def Resets (overlay : PredictionOverlay) (before after : ClientScreen) (diff : StateDiff)
    (wasAltScreen : Bool) : Prop :=
  (diff.altScreen && !wasAltScreen) = true ∨ (after.cols ≠ before.cols ∨ after.rows ≠ before.rows) ∨
    mispredicts after diff.epoch overlay.pending overlay.confirmedEpoch = true

instance (overlay : PredictionOverlay) (before after : ClientScreen) (diff : StateDiff)
    (wasAltScreen : Bool) : Decidable (overlay.Resets before after diff wasAltScreen) :=
  inferInstanceAs (Decidable (_ ∨ _ ∨ _))

theorem syncCursorFromConfirmed_cursor {overlay : PredictionOverlay} (h : overlay.pending = [])
    (confirmed : CursorPos) :
    (overlay.syncCursorFromConfirmed confirmed).predictedCursor =
      if overlay.cursorMotionPending = false then confirmed else overlay.predictedCursor := by
  unfold syncCursorFromConfirmed
  by_cases hmotion : overlay.cursorMotionPending = false
  · rw [if_pos ⟨h, hmotion⟩, if_pos hmotion]
  · rw [if_neg fun hboth => hmotion hboth.2, if_neg hmotion]

/-- **What a diff does when everything is due.** Nothing stays pending. The cursor follows the
confirmed one, unless a motion is pending that nothing resets. -/
theorem afterApply_of_due {overlay : PredictionOverlay} {diff : StateDiff}
    (hdue : ∀ pred ∈ overlay.pending, pred.epochRequired ≤ diff.epoch)
    (before after : ClientScreen) (wasAltScreen : Bool) (rttMs : ℕ) :
    (overlay.afterApply before after diff wasAltScreen rttMs).pending = [] ∧
      (overlay.afterApply before after diff wasAltScreen rttMs).predictedCursor =
        if overlay.cursorMotionPending = false ∨ overlay.Resets before after diff wasAltScreen then
          after.confirmedCursor
        else overlay.predictedCursor := by
  unfold afterApply
  dsimp only
  rw [syncCursorFromConfirmed_pending]
  by_cases halt : (diff.altScreen && !wasAltScreen) = true
  · -- the reset leaves nothing to cull
    have hresets : overlay.Resets before after diff wasAltScreen := .inl halt
    rw [if_pos halt, if_pos (Or.inr hresets)]
    obtain ⟨hpending, -, hmotion⟩ := @cull_of_due overlay.reset after diff.epoch
      (fun _ hpred => (List.not_mem_nil hpred).elim) rttMs
    have hstill : (overlay.reset.cull after diff.epoch rttMs).cursorMotionPending = false := hmotion
    split
    · exact ⟨rfl, (syncCursorFromConfirmed_cursor rfl _).trans (if_pos rfl)⟩
    · exact ⟨hpending, (syncCursorFromConfirmed_cursor hpending _).trans (if_pos hstill)⟩
  · rw [if_neg halt]
    obtain ⟨hpending, hcursor, hmotion⟩ := @cull_of_due overlay after diff.epoch hdue rttMs
    by_cases hsize : after.cols ≠ before.cols ∨ after.rows ≠ before.rows
    · have hresets : overlay.Resets before after diff wasAltScreen := .inr (.inl hsize)
      rw [if_pos hsize, if_pos (Or.inr hresets)]
      exact ⟨rfl, (syncCursorFromConfirmed_cursor rfl _).trans (if_pos rfl)⟩
    · rw [if_neg hsize, syncCursorFromConfirmed_cursor hpending, hcursor, hmotion]
      refine ⟨hpending, ?_⟩
      congr 1
      rw [Bool.and_eq_false_iff, Bool.not_eq_false']
      refine propext (or_congr_right ⟨fun hmiss => .inr (.inr hmiss), ?_⟩)
      rintro (h | h | hmiss)
      · exact (halt h).elim
      · exact (hsize h).elim
      · exact hmiss

end PredictionOverlay

namespace Typist

/-- The client right after `run_pump` was entered. -/
def new (mode : PredictDisplayMode) (cols rows : ℕ) (scrollbackAvailable : Bool) : Typist where
  client := ⟨.new cols rows scrollbackAvailable, .new mode cols rows⟩
  sent := 0
  answered := 0
  marked := []
  map_fst_marked := rfl

/-- The keystrokes answered on the screen after a datagram; the server has processed no more than
was sent. -/
def answeredBy (s : Typist) (diff : StateDiff) (processed : ℕ) : ℕ :=
  if s.client.pump.Applies diff then min processed s.sent else s.answered

section Runs

variable (width : Char → Option ℕ)

theorem revises_recvDatagram (s : Typist) (diff : StateDiff) (rttMs : ℕ) :
    Revises 0 s.client.predictor.pending
      (s.client.recvDatagram width diff rttMs).predictor.pending := by
  by_cases h : s.client.Processes diff
  · rw [(PredictingPump.recvDatagram_of_processes width h rttMs).2]
    exact .inr (afterApply_pending _ _ _ _ _ _)
  · rw [PredictingPump.recvDatagram_of_not_processes width h]
    exact .refl _ _

/-- One step. -/
def step (s : Typist) : TypistAction → Typist
  | .keys bytes =>
      { client := s.client.recvKeys width bytes
        sent := s.sent + (classifyInput width bytes).keystrokes
        answered := s.answered
        marked := remark (s.client.recvKeys width bytes).predictor.pending s.marked (s.sent + 1)
        map_fst_marked := map_fst_remark s.map_fst_marked (onInput_pending width _ _ _) _ }
  | .datagram diff rttMs processed =>
      { client := s.client.recvDatagram width diff rttMs
        sent := s.sent
        answered := s.answeredBy diff processed
        marked := remark (s.client.recvDatagram width diff rttMs).predictor.pending s.marked s.sent
        map_fst_marked := map_fst_remark s.map_fst_marked (s.revises_recvDatagram width _ _) _ }

/-- Keystrokes and datagrams, in any order. -/
def life : Machine Typist TypistAction := ⟨fun s a => some (s.step width a)⟩

/-- No more is answered than was sent, and every pending prediction is due with the next diff. -/
structure Sound (s : Typist) : Prop where
  answered : s.answered ≤ s.sent
  due : ∀ pred ∈ s.client.predictor.pending,
    pred.epochRequired ≤ s.client.pump.screen.lastAppliedEpoch + 1

theorem sound_new (mode : PredictDisplayMode) (cols rows : ℕ) (scrollbackAvailable : Bool) :
    (new mode cols rows scrollbackAvailable).Sound :=
  ⟨le_rfl, fun _ hpred => (List.not_mem_nil hpred).elim⟩

/-- A diff that is processed finds every prediction due. -/
theorem Sound.due_of_processes {s : Typist} (h : s.Sound) {diff : StateDiff}
    (hprocesses : s.client.Processes diff) :
    ∀ pred ∈ s.client.predictor.pending, pred.epochRequired ≤ diff.epoch :=
  fun pred hpred => (h.due pred hpred).trans hprocesses.1

variable {width}

theorem Sound.step {s : Typist} (h : s.Sound) (a : TypistAction) : (s.step width a).Sound := by
  cases a with
  | keys bytes =>
      refine ⟨h.answered.trans (Nat.le_add_right _ _), fun pred hpred => ?_⟩
      change pred ∈ (s.client.predictor.onInput width bytes s.client.pump.screen).pending at hpred
      rcases s.client.predictor.onInput_pending width bytes s.client.pump.screen with
        ⟨new, hnew, hdeadline⟩ | ⟨keep, hkeep⟩
      · rw [hnew] at hpred
        rcases List.mem_append.mp hpred with hold | hadded
        · exact h.due pred hold
        · exact (hdeadline pred hadded).trans_le (Nat.mod_le _ _)
      · rw [hkeep] at hpred
        exact h.due pred (List.mem_of_mem_filter hpred)
  | datagram diff rttMs processed =>
      have hanswered : s.answeredBy diff processed ≤ s.sent := by
        unfold answeredBy
        split
        · exact Nat.min_le_right _ _
        · exact h.answered
      refine ⟨hanswered, ?_⟩
      by_cases hprocesses : s.client.Processes diff
      · have hnone := (afterApply_of_due (h.due_of_processes hprocesses) s.client.pump.screen
          (s.client.pump.screen.apply width diff) s.client.pump.wasAltScreen rttMs).1
        intro pred hpred
        change pred ∈ (s.client.recvDatagram width diff rttMs).predictor.pending at hpred
        rw [(PredictingPump.recvDatagram_of_processes width hprocesses rttMs).2, hnone] at hpred
        exact (List.not_mem_nil hpred).elim
      · change ∀ pred ∈ (s.client.recvDatagram width diff rttMs).predictor.pending,
          pred.epochRequired ≤
            (s.client.recvDatagram width diff rttMs).pump.screen.lastAppliedEpoch + 1
        rw [PredictingPump.recvDatagram_of_not_processes width hprocesses]
        exact h.due

end Runs

end Typist

/-! ## The predicted cursor -/

section Cursor

variable (width : Char → Option ℕ)

/-- The predicted cursor is the confirmed one: it is displayed there or not at all, and the next
character that is typed is predicted there. -/
structure Reconciled (s : PredictingPump) : Prop where
  cursor : s.predictor.predictedCursor = s.pump.screen.confirmedCursor
  displayed : s.predictor.displayedCursor = none ∨
    s.predictor.displayedCursor = some s.pump.screen.confirmedCursor
  next : ∀ bytes ch colWidth, classifyInput width bytes = .predictChar ch colWidth →
    ∀ pred ∈ (s.recvKeys width bytes).predictor.pending,
      (⟨pred.row, pred.col⟩ : CursorPos) = s.pump.screen.confirmedCursor

/-- The three are one. -/
theorem reconciled_iff_cursor {s : PredictingPump} (hnone : s.predictor.pending = []) :
    Reconciled width s ↔ s.predictor.predictedCursor = s.pump.screen.confirmedCursor := by
  refine ⟨Reconciled.cursor, fun hcursor => ⟨hcursor, ?_, ?_⟩⟩
  · unfold displayedCursor
    split
    · exact .inl rfl
    · split
      · exact .inr (congrArg some hcursor)
      · exact .inl rfl
  · intro bytes ch colWidth hclassify pred hpred
    change pred ∈ (s.predictor.onInput width bytes s.pump.screen).pending at hpred
    unfold onInput at hpred
    rw [hclassify, onAction] at hpred
    split at hpred
    · rw [hnone] at hpred
      exact (List.not_mem_nil hpred).elim
    · unfold PredictionOverlay.predictChar at hpred
      dsimp only at hpred
      split at hpred
      · change pred ∈ s.predictor.pending at hpred
        rw [hnone] at hpred
        exact (List.not_mem_nil hpred).elim
      · rw [hnone, List.nil_append, List.mem_singleton] at hpred
        subst hpred
        exact hcursor

/-- The diff on the screen answers every keystroke, and no prediction is pending. -/
def Typist.InStep (s : Typist) : Prop := s.answered = s.sent ∧ s.client.predictor.pending = []

/-- A diff that answers every keystroke finds no motion of the cursor pending, or the predicted
cursor where it puts the cursor itself, or it resets the predictor. -/
def Typist.MotionAnswered (s : Typist) : TypistAction → Prop
  | .keys _ => True
  | .datagram diff _ processed =>
      s.client.Processes diff → s.answeredBy diff processed = s.sent →
        s.client.predictor.cursorMotionPending = false ∨
          s.client.predictor.predictedCursor =
            (s.client.pump.screen.apply width diff).confirmedCursor ∨
          s.client.predictor.Resets s.client.pump.screen (s.client.pump.screen.apply width diff)
            diff s.client.pump.wasAltScreen

variable {width}

/-- What a diff that is processed does to the cursor. -/
theorem Typist.reconciled_datagram {s : Typist} (h : s.Sound) {diff : StateDiff}
    (hprocesses : s.client.Processes diff) (rttMs : ℕ) :
    (s.client.recvDatagram width diff rttMs).predictor.pending = [] ∧
      (Reconciled width (s.client.recvDatagram width diff rttMs) ↔
        s.client.predictor.cursorMotionPending = false ∨
          s.client.predictor.predictedCursor =
            (s.client.pump.screen.apply width diff).confirmedCursor ∨
          s.client.predictor.Resets s.client.pump.screen (s.client.pump.screen.apply width diff)
            diff s.client.pump.wasAltScreen) := by
  obtain ⟨hscreen, hpredictor⟩ :=
    PredictingPump.recvDatagram_of_processes width hprocesses rttMs
  obtain ⟨hnone, hcursor⟩ := afterApply_of_due (h.due_of_processes hprocesses)
    s.client.pump.screen (s.client.pump.screen.apply width diff) s.client.pump.wasAltScreen rttMs
  rw [← hpredictor] at hnone hcursor
  refine ⟨hnone, (reconciled_iff_cursor width hnone).trans ?_⟩
  rw [hcursor, hscreen]
  split
  · rename_i hfollows
    exact iff_of_true rfl (hfollows.imp_right .inr)
  · rename_i hstays
    refine ⟨fun heq => .inr (.inl heq), ?_⟩
    rintro (hstill | heq | hresets)
    · exact (hstays (.inl hstill)).elim
    · exact heq
    · exact (hstays (.inr hresets)).elim

theorem Typist.reconciled_step {s : Typist} (h : s.Sound)
    (hgood : s.InStep → Reconciled width s.client) (a : TypistAction) :
    ((s.step width a).InStep → Reconciled width (s.step width a).client) ↔
      s.MotionAnswered width a := by
  cases a with
  | keys bytes =>
      -- the new keystroke is not answered
      refine iff_of_true (fun hin => ?_) trivial
      have hpos := keystrokes_classifyInput_pos width bytes
      have hanswered : s.answered = s.sent + (classifyInput width bytes).keystrokes := hin.1
      have hle := h.answered
      omega
  | datagram diff rttMs processed =>
      by_cases hprocesses : s.client.Processes diff
      · obtain ⟨hnone, hiff⟩ := Typist.reconciled_datagram h hprocesses rttMs
        constructor
        · exact fun hgood' _ hanswered => hiff.mp (hgood' ⟨hanswered, hnone⟩)
        · exact fun hok hin => hiff.mpr (hok hprocesses hin.1)
      · have hsame := PredictingPump.recvDatagram_of_not_processes width hprocesses rttMs
        have hanswered : s.answeredBy diff processed = s.answered :=
          if_neg fun happlies => hprocesses ⟨happlies.1, happlies.2.1⟩
        refine iff_of_true (fun hin => ?_) fun hprocesses' => (hprocesses hprocesses').elim
        change Reconciled width (s.client.recvDatagram width diff rttMs)
        have hnone : (s.client.recvDatagram width diff rttMs).predictor.pending = [] := hin.2
        rw [hsame] at hnone ⊢
        exact hgood ⟨hanswered.symm.trans hin.1, hnone⟩

variable (width)

/-- **Reconciliation of the cursor.** In every state of a run in which the diff on the screen
answers every keystroke and nothing is pending, the predicted cursor is the confirmed one, exactly
when every diff that answers every keystroke finds no other motion of the cursor pending. -/
theorem reconciled_iff (mode : PredictDisplayMode) (cols rows : ℕ) (scrollbackAvailable : Bool)
    (actions : List TypistAction) :
    (∀ s, (Typist.life width).Visits (.new mode cols rows scrollbackAvailable) actions s →
        s.InStep → Reconciled width s.client) ↔
      (Typist.life width).Along (Typist.MotionAnswered width)
        (.new mode cols rows scrollbackAvailable) actions := by
  refine (Typist.life width).forall_visits_iff_along Typist.Sound
    (fun s => s.InStep → Reconciled width s.client) ?_ ?_
    (Typist.sound_new mode cols rows scrollbackAvailable) ?_ actions
  · rintro s a _ hsound hgood ⟨⟩
    exact ⟨hsound.step a, Typist.reconciled_step hsound hgood a⟩
  · rintro s a - - ⟨⟩
  · exact fun _ => (reconciled_iff_cursor width rfl).mpr rfl

end Cursor

/-- Enter on the last row, and the prompt that answers it. -/
def promptedAgain : List TypistAction :=
  [.keys [0x0d],
    .datagram ⟨1, 3, 1, ⟨0, 2⟩, false, [⟨0, 0, .none, none, none, ['$']⟩]⟩ 100 1]

/-- **A caret left behind.** The prompt is on the screen and its cursor behind it. The caret is
displayed at the start of the line, and the next key is predicted there. -/
theorem caret_left_behind :
    ∃ s, (Typist.life narrow).run (.new .always 3 1 false) promptedAgain = some s ∧ s.InStep ∧
      s.client.pump.screen.confirmedCursor = ⟨0, 2⟩ ∧
      s.client.predictor.displayedCursor = some ⟨0, 0⟩ ∧
      (s.client.recvKeys narrow [0x6c]).predictor.pending.map (fun pred => (pred.row, pred.col)) =
        [(0, 0)] ∧
      ¬ Reconciled narrow s.client := by
  refine ⟨_, rfl, ⟨by decide, by decide⟩, by decide, by decide, by decide, fun h => ?_⟩
  exact absurd h.cursor (by decide)

/-! ## Predictions that are judged too early -/

section Misjudged

variable (width : Char → Option ℕ)

/-- The predictions that `cull` looks at: a reset on a new alternate screen has removed them. -/
def Typist.culled (s : Typist) (diff : StateDiff) : List (PendingPrediction × ℕ) :=
  if diff.altScreen && !s.client.pump.wasAltScreen then [] else s.marked

/-- `cull` takes a prediction for incorrect on a diff that the server produced before it had
processed the keystroke. -/
def Typist.Misjudges (s : Typist) : TypistAction → Prop
  | .keys _ => False
  | .datagram diff _ processed =>
      s.client.Processes diff ∧ ∃ m ∈ s.culled diff, processed < m.2 ∧
        Fails (s.client.pump.screen.apply width diff) diff.epoch m.1

/-- The server had processed the keystroke of every prediction that the diff finds, or the diff
shows the character at its place anyway. -/
def Typist.Timely (s : Typist) : TypistAction → Prop
  | .keys _ => True
  | .datagram diff _ processed =>
      s.client.Processes diff → ∀ m ∈ s.culled diff, m.2 ≤ processed ∨
        ((s.client.pump.screen.apply width diff).confirmedCell m.1.row m.1.col).ch =
          m.1.predictedCh

variable {width}

/-- The deadline protects no prediction. -/
theorem Typist.Sound.not_misjudges_iff {s : Typist} (h : s.Sound) (a : TypistAction) :
    ¬ s.Misjudges width a ↔ s.Timely width a := by
  cases a with
  | keys bytes => exact iff_of_true not_false trivial
  | datagram diff rttMs processed =>
      unfold Misjudges Timely
      dsimp only
      rw [not_and]
      refine imp_congr_right fun hprocesses => ?_
      rw [not_exists]
      refine forall_congr' fun m => ?_
      rw [not_and]
      refine imp_congr_right fun hm => ?_
      have hdue : m.1.epochRequired ≤ diff.epoch := by
        have hmarked : m ∈ s.marked := by
          unfold culled at hm
          split at hm
          · exact (List.not_mem_nil hm).elim
          · exact hm
        refine h.due_of_processes hprocesses m.1 ?_
        rw [← s.map_fst_marked]
        exact List.mem_map_of_mem hmarked
      unfold Fails
      rw [and_iff_right hdue, not_and_or, Nat.not_lt, not_ne_iff]

variable (width)

/-- **When no prediction is misjudged.** In no step of a run does `cull` take a prediction for
incorrect because of a diff from before its keystroke, exactly when all diffs are timely. -/
theorem never_misjudged_iff (mode : PredictDisplayMode) (cols rows : ℕ)
    (scrollbackAvailable : Bool) (actions : List TypistAction) :
    (Typist.life width).Along (fun s a => ¬ s.Misjudges width a)
        (.new mode cols rows scrollbackAvailable) actions ↔
      (Typist.life width).Along (Typist.Timely width)
        (.new mode cols rows scrollbackAvailable) actions := by
  have hstep : ∀ {ok : Typist → TypistAction → Prop} (s a s'), s.Sound → ok s a →
      (Typist.life width).step s a = some s' → s'.Sound := by
    rintro ok s a _ hsound - ⟨⟩
    exact hsound.step a
  have hnew := Typist.sound_new mode cols rows scrollbackAvailable
  constructor
  · exact (Typist.life width).along_mono Typist.Sound hstep
      (fun s a hsound => (hsound.not_misjudges_iff a).mp) hnew
  · exact (Typist.life width).along_mono Typist.Sound hstep
      (fun s a hsound => (hsound.not_misjudges_iff a).mpr) hnew

end Misjudged

/-- Output on the second row, from before the server saw a key. -/
def outputElsewhere : TypistAction :=
  .datagram ⟨1, 2, 2, ⟨0, 0⟩, false, [⟨1, 0, .none, none, none, ['x']⟩]⟩ 100 0

/-- The echo of the key, where it was predicted. -/
def echoOfKey : TypistAction :=
  .datagram ⟨2, 2, 2, ⟨0, 1⟩, false, [⟨0, 0, .none, none, none, ['a']⟩]⟩ 100 1

/-- **Output elsewhere discards a prediction.** The key is displayed at once. A diff for another row
that was under way removes it, and the echo of the key comes with the next diff. -/
theorem output_elsewhere_misjudges :
    ∃ s s' s'', (Typist.life narrow).run (.new .always 2 2 false) [.keys [0x61]] = some s ∧
      (Typist.life narrow).step s outputElsewhere = some s' ∧
      (Typist.life narrow).step s' echoOfKey = some s'' ∧
      s.client.predictor.cellAt 0 0 = some ⟨'a', .none, none, none, false⟩ ∧
      s'.client.pump.screen.confirmed[0]? = s.client.pump.screen.confirmed[0]? ∧
      (s''.client.pump.screen.confirmedCell 0 0).ch = 'a' ∧
      s.Misjudges narrow outputElsewhere ∧ s'.client.predictor.pending = [] := by
  refine ⟨_, _, _, rfl, rfl, rfl, by decide, by decide, by decide, ?_, by decide⟩
  exact ⟨by decide, _, List.mem_singleton_self _, by decide, by decide⟩

end Nosh.Client
