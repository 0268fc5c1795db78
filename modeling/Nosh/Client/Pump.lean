import Nosh.Client.Screen
import Nosh.Lib.Machine
import Nosh.Proto.Message

/-!
# The client pump: datagrams, scrollback view, epoch acks

The arms of `run_pump` in `nosh-client/src/main.rs` that touch the confirmed
framebuffer, the scrollback view or the epoch acks: the datagram arm, the server
`Resize` arm, the scrollback page arm and the paging part of the stdin arm.
Rendering and speculative echo read this state and do not change it; they are
added to it in `Nosh.Client.NoEcho` and `Nosh.Client.Display`.

`ClientEpoch` promises that an ack for epoch `e` means "I have applied the
`StateDiff` of epoch `e`".  The datagram arm acks every diff that passes its
epoch gate, also one the scrollback view hides or one `ClientScreen::apply`
rejects for its dimensions.

## Main results

* `applies_iff` — when the datagram arm really applies a diff.
* `acked_applied_iff` — **in a run of the pump every ack is backed by an applied
  diff exactly when every diff that passes the gate also passes the view and the
  dimension check.**
* `inRange_iff` — **the screen keeps dimensions that a terminal may have exactly
  when every `Resize` frame that passes the rate limit asks for such dimensions.**
-/

namespace Nosh.Client

open Nosh.Lib Nosh.Proto

/-- `ScrollbackView`. -/
inductive ScrollbackView
  | live
  | active (lines : List ScrollbackLine) (offset : ℕ) (pendingRequest : Bool)
      (epochAtSnapshot totalAvailable : ℕ)
  deriving DecidableEq, Repr

/-- The view is `Active` and its snapshot is newer than `epoch`: a datagram of
that epoch is acked but not displayed. -/
def ScrollbackView.Hides : ScrollbackView → ℕ → Prop
  | .live, _ => False
  | .active _ _ _ epochAtSnapshot _, epoch => epoch < epochAtSnapshot

instance (view : ScrollbackView) (epoch : ℕ) : Decidable (view.Hides epoch) :=
  match view with
  | .live => inferInstanceAs (Decidable False)
  | .active _ _ _ _ _ => inferInstanceAs (Decidable (_ < _))

/-- The part of `run_pump`'s state the modelled arms read and write. -/
structure ClientPump where
  screen : ClientScreen
  view : ScrollbackView
  wasAltScreen : Bool
  /-- The scrollback channel was accepted and its drain task runs. -/
  scrollbackAvailable : Bool
  deriving DecidableEq, Repr

/-- The pump right after `run_pump` was entered. -/
def ClientPump.new (cols rows : ℕ) (scrollbackAvailable : Bool) : ClientPump where
  screen := ClientScreen.new cols rows
  view := .live
  wasAltScreen := false
  scrollbackAvailable := scrollbackAvailable

/-- `CsiResult`: what the paging filter found in one read of stdin. -/
structure CsiResult where
  shiftPageup : Bool
  shiftPagedown : Bool
  nonPagingRemainder : List UInt8
  deriving DecidableEq, Repr

/-- The fields of a `ScrollbackRequest` the pump chooses. -/
structure PageRequest where
  fromLine : ℕ
  count : ℕ
  deriving DecidableEq, Repr

namespace ClientPump

section Datagram

variable (width : Char → Option ℕ)
variable {pump : ClientPump} {diff : StateDiff}

/-- The part of the datagram arm behind the gates. -/
def applyDiff (pump : ClientPump) (diff : StateDiff) : ClientPump :=
  { pump with screen := pump.screen.apply width diff, wasAltScreen := diff.altScreen }

/-- The datagram arm on a decoded `StateDiff`: the new state and the epoch ack it
sends. -/
def recvDatagram (pump : ClientPump) (diff : StateDiff) : ClientPump × Option ℕ :=
  if pump.screen.lastAppliedEpoch < diff.epoch then
    match pump.view with
    | .active _ _ _ epochAtSnapshot _ =>
        if diff.epoch < epochAtSnapshot then (pump, some diff.epoch)
        else (applyDiff width { pump with view := .live } diff, some diff.epoch)
    | .live => (applyDiff width pump diff, some diff.epoch)
  else (pump, none)

/-- The datagram arm executes `ClientScreen::apply` on the diff, and `apply`
accepts it. -/
def Applies (pump : ClientPump) (diff : StateDiff) : Prop :=
  pump.screen.lastAppliedEpoch < diff.epoch ∧ ¬ pump.view.Hides diff.epoch ∧
    pump.screen.Accepts diff

instance (pump : ClientPump) (diff : StateDiff) : Decidable (pump.Applies diff) :=
  inferInstanceAs (Decidable (_ ∧ _ ∧ _))

theorem applies_iff :
    pump.Applies diff ↔
      pump.screen.lastAppliedEpoch < diff.epoch ∧ ¬ pump.view.Hides diff.epoch ∧
        DimsInRange diff.cols diff.rows := by
  unfold Applies ClientScreen.Accepts
  constructor
  · rintro ⟨hgate, hview, -, -, hdims⟩
    exact ⟨hgate, hview, hdims⟩
  · rintro ⟨hgate, hview, hdims⟩
    exact ⟨hgate, hview, by omega, hgate.le, hdims⟩

/-- A diff that does not pass the gate is dropped without an ack. -/
theorem recvDatagram_stale (h : ¬ pump.screen.lastAppliedEpoch < diff.epoch) :
    pump.recvDatagram width diff = (pump, none) := by
  rw [recvDatagram, if_neg h]

/-- Every diff that passes the gate is acked, and the screen is the one `apply`
leaves unless the view hides the diff. -/
theorem recvDatagram_fresh (h : pump.screen.lastAppliedEpoch < diff.epoch) :
    (pump.recvDatagram width diff).2 = some diff.epoch ∧
      (pump.recvDatagram width diff).1.screen =
        if pump.view.Hides diff.epoch then pump.screen else pump.screen.apply width diff := by
  rw [recvDatagram, if_pos h]
  cases hview : pump.view with
  | live => simp [ScrollbackView.Hides, applyDiff]
  | active lines offset pending epochAtSnapshot total =>
      by_cases hhide : diff.epoch < epochAtSnapshot
      · simp [ScrollbackView.Hides, hhide]
      · simp [ScrollbackView.Hides, hhide, applyDiff]

/-- The epoch of the screen after the datagram arm: that of the diff if it was
applied, else unchanged. -/
theorem recvDatagram_lastAppliedEpoch (pump : ClientPump) (diff : StateDiff) :
    (pump.recvDatagram width diff).1.screen.lastAppliedEpoch =
      if pump.Applies diff then diff.epoch else pump.screen.lastAppliedEpoch := by
  by_cases hgate : pump.screen.lastAppliedEpoch < diff.epoch
  · rw [(recvDatagram_fresh width hgate).2]
    by_cases hview : pump.view.Hides diff.epoch
    · rw [if_pos hview, if_neg fun h => h.2.1 hview]
    · rw [if_neg hview]
      by_cases hacc : pump.screen.Accepts diff
      · rw [if_pos ⟨hgate, hview, hacc⟩, ClientScreen.apply_of_accepts width hacc]
      · rw [if_neg fun h => hacc h.2.2, ClientScreen.apply_of_not_accepts width hacc]
  · rw [recvDatagram_stale width hgate, if_neg fun h => hgate h.1]

end Datagram

/-! ## The other arms -/

/-- The server `Resize` arm; `limited` says that the frame came within
`MIN_RESIZE_INTERVAL_MS` of the last one. -/
def serverResize (pump : ClientPump) (cols rows : ℕ) (limited : Bool) : ClientPump :=
  if limited then pump else { pump with screen := pump.screen.resize cols rows }

/-- The scrollback page arm: older lines go in front of the held ones; in `Live`
the page is dropped. -/
def recvPage (pump : ClientPump) (newLines : List ScrollbackLine) (newTotal newEpoch : ℕ) :
    ClientPump :=
  match pump.view with
  | .active lines offset _ _ _ =>
      { pump with view := .active (newLines ++ lines) offset false newEpoch newTotal }
  | .live => pump

/-- Shift-PageUp: enter the scrollback view, or scroll it and prefetch. -/
def shiftPageup (pump : ClientPump) : ClientPump × Option PageRequest :=
  match pump.view with
  | .live =>
      if pump.scrollbackAvailable then
        ({ pump with view := .active [] 0 true pump.screen.lastAppliedEpoch 0 }, some ⟨0, 256⟩)
      else (pump, none)
  | .active lines offset pendingRequest epochAtSnapshot totalAvailable =>
      let newOffset := offset + pump.screen.rows
      if pendingRequest = false ∧ lines.length < totalAvailable then
        ({ pump with view := .active lines newOffset true epochAtSnapshot totalAvailable },
          some ⟨lines.length, 256⟩)
      else
        ({ pump with
            view := .active lines newOffset pendingRequest epochAtSnapshot totalAvailable }, none)

/-- Shift-PageDown: leave the view at the live boundary, else scroll down. -/
def shiftPagedown (pump : ClientPump) : ClientPump :=
  match pump.view with
  | .active lines offset pendingRequest epochAtSnapshot totalAvailable =>
      if offset ≤ pump.screen.rows then { pump with view := .live }
      else
        { pump with
          view := .active lines (offset - pump.screen.rows) pendingRequest epochAtSnapshot
            totalAvailable }
  | .live => pump

/-- The paging part of the stdin arm, in the order of the source: page up, page
down, then any other byte snaps the view back to `Live`. -/
def stdin (pump : ClientPump) (csi : CsiResult) : ClientPump × Option PageRequest :=
  let up := if csi.shiftPageup then pump.shiftPageup else (pump, none)
  let down := if csi.shiftPagedown then up.1.shiftPagedown else up.1
  (if csi.nonPagingRemainder.isEmpty then down else { down with view := .live }, up.2)

variable (pump : ClientPump)

theorem serverResize_lastAppliedEpoch (cols rows : ℕ) (limited : Bool) :
    (pump.serverResize cols rows limited).screen.lastAppliedEpoch =
      pump.screen.lastAppliedEpoch := by
  unfold serverResize
  split <;> rfl

theorem recvPage_screen (lines : List ScrollbackLine) (total epoch : ℕ) :
    (pump.recvPage lines total epoch).screen = pump.screen := by
  unfold recvPage
  split <;> rfl

/-! The paging keys change the view and nothing else. -/

theorem shiftPageup_frame : pump.shiftPageup.1 = { pump with view := pump.shiftPageup.1.view } := by
  unfold shiftPageup
  split
  · split <;> rfl
  · dsimp only
    split <;> rfl

theorem shiftPagedown_frame :
    pump.shiftPagedown = { pump with view := pump.shiftPagedown.view } := by
  unfold shiftPagedown
  split
  · split <;> rfl
  · rfl

theorem stdin_frame (csi : CsiResult) :
    (pump.stdin csi).1 = { pump with view := (pump.stdin csi).1.view } := by
  have hup : (if csi.shiftPageup then pump.shiftPageup else (pump, none)).1 =
      { pump with
        view := (if csi.shiftPageup then pump.shiftPageup else (pump, none)).1.view } := by
    split
    · exact pump.shiftPageup_frame
    · rfl
  unfold stdin
  dsimp only
  rw [hup]
  split
  · split
    · exact shiftPagedown_frame _
    · rfl
  · split
    · rw [shiftPagedown_frame]
    · rfl

theorem shiftPageup_screen : pump.shiftPageup.1.screen = pump.screen := by
  rw [shiftPageup_frame]

theorem shiftPagedown_screen : pump.shiftPagedown.screen = pump.screen := by
  rw [shiftPagedown_frame]

theorem stdin_screen (csi : CsiResult) : (pump.stdin csi).1.screen = pump.screen := by
  rw [stdin_frame]

end ClientPump

/-! ## Runs of the pump and the acks they send -/

/-- What can reach the pump. -/
inductive ClientEvent
  | datagram (diff : StateDiff)
  | serverResize (cols rows : ℕ) (limited : Bool)
  | page (lines : List ScrollbackLine) (total epoch : ℕ)
  | stdin (csi : CsiResult)

/-- One iteration of `run_pump`, with the ack it sends. -/
def ClientPump.step (width : Char → Option ℕ) (pump : ClientPump) :
    ClientEvent → ClientPump × Option ℕ
  | .datagram diff => pump.recvDatagram width diff
  | .serverResize cols rows limited => (pump.serverResize cols rows limited, none)
  | .page lines total epoch => (pump.recvPage lines total epoch, none)
  | .stdin csi => ((pump.stdin csi).1, none)

/-- The pump together with the history of its acks and of the epochs it applied:
`applied` grows when an iteration changes `last_applied_epoch`. -/
structure AckTrace where
  pump : ClientPump
  applied : List ℕ
  acked : List ℕ
  deriving DecidableEq, Repr

/-- The trace of a pump that has just started. -/
def AckTrace.start (pump : ClientPump) : AckTrace := ⟨pump, [], []⟩

/-- Record one iteration. -/
def AckTrace.step (width : Char → Option ℕ) (w : AckTrace) (ev : ClientEvent) : AckTrace :=
  let out := w.pump.step width ev
  { pump := out.1
    applied :=
      if out.1.screen.lastAppliedEpoch = w.pump.screen.lastAppliedEpoch then w.applied
      else w.applied ++ [out.1.screen.lastAppliedEpoch]
    acked := w.acked ++ out.2.toList }

/-- The pump as a machine over its events; every event is always possible. -/
def ackMachine (width : Char → Option ℕ) : Machine AckTrace ClientEvent :=
  ⟨fun w ev => some (w.step width ev)⟩

/-- A diff that passes the epoch gate is neither hidden by the view nor out of
range for `apply`. -/
def AckTrace.Applicable (w : AckTrace) : ClientEvent → Prop
  | .datagram diff =>
      w.pump.screen.lastAppliedEpoch < diff.epoch →
        ¬ w.pump.view.Hides diff.epoch ∧ DimsInRange diff.cols diff.rows
  | _ => True

instance (w : AckTrace) (ev : ClientEvent) : Decidable (w.Applicable ev) :=
  match ev with
  | .datagram _ => inferInstanceAs (Decidable (_ → _ ∧ _))
  | .serverResize _ _ _ | .page _ _ _ | .stdin _ => inferInstanceAs (Decidable True)

/-- Every epoch acked so far was applied. -/
def AckTrace.Sound (w : AckTrace) : Prop := ∀ e ∈ w.acked, e ∈ w.applied

instance (w : AckTrace) : Decidable w.Sound :=
  inferInstanceAs (Decidable (∀ e ∈ w.acked, e ∈ w.applied))

/-- Applied epochs never exceed the epoch of the screen. -/
def AckTrace.Bounded (w : AckTrace) : Prop :=
  ∀ e ∈ w.applied, e ≤ w.pump.screen.lastAppliedEpoch

/-- The arms other than the datagram arm neither ack nor change the epoch. -/
theorem AckTrace.step_quiet (width : Char → Option ℕ) (w : AckTrace) {ev : ClientEvent}
    (hack : (w.pump.step width ev).2 = none)
    (hepoch : (w.pump.step width ev).1.screen.lastAppliedEpoch =
      w.pump.screen.lastAppliedEpoch) :
    (w.step width ev).applied = w.applied ∧ (w.step width ev).acked = w.acked ∧
      (w.step width ev).pump.screen.lastAppliedEpoch = w.pump.screen.lastAppliedEpoch := by
  refine ⟨?_, ?_, hepoch⟩
  · simp only [AckTrace.step, hepoch, if_true]
  · simp only [AckTrace.step, hack, Option.toList_none, List.append_nil]

/-- One iteration keeps the bound, and keeps soundness exactly when a diff that
passes the gate is applicable. -/
theorem AckTrace.step_sound_iff (width : Char → Option ℕ) {w : AckTrace} (ev : ClientEvent)
    (hb : w.Bounded) (hs : w.Sound) :
    (w.step width ev).Bounded ∧ ((w.step width ev).Sound ↔ w.Applicable ev) := by
  have hquiet : (w.pump.step width ev).2 = none →
      (w.pump.step width ev).1.screen.lastAppliedEpoch = w.pump.screen.lastAppliedEpoch →
      (w.step width ev).Bounded ∧ (w.step width ev).Sound := by
    intro hack hepoch
    obtain ⟨happlied, hacked, hlast⟩ := w.step_quiet width hack hepoch
    constructor
    · intro e he
      rw [happlied] at he
      rw [hlast]
      exact hb e he
    · intro e he
      rw [hacked] at he
      rw [happlied]
      exact hs e he
  cases ev with
  | serverResize cols rows limited =>
      have h := hquiet rfl (w.pump.serverResize_lastAppliedEpoch cols rows limited)
      exact ⟨h.1, fun _ => trivial, fun _ => h.2⟩
  | page lines total epoch =>
      have h := hquiet rfl (congrArg _ (w.pump.recvPage_screen lines total epoch))
      exact ⟨h.1, fun _ => trivial, fun _ => h.2⟩
  | stdin csi =>
      have h := hquiet rfl (congrArg _ (w.pump.stdin_screen csi))
      exact ⟨h.1, fun _ => trivial, fun _ => h.2⟩
  | datagram diff =>
      by_cases hgate : w.pump.screen.lastAppliedEpoch < diff.epoch
      · have hack : (w.step width (.datagram diff)).acked = w.acked ++ [diff.epoch] := by
          simp only [AckTrace.step, ClientPump.step,
            (ClientPump.recvDatagram_fresh width hgate).1, Option.toList_some]
        have hlast := w.pump.recvDatagram_lastAppliedEpoch width diff
        by_cases happ : w.pump.Applies diff
        · rw [if_pos happ] at hlast
          have happlied : (w.step width (.datagram diff)).applied = w.applied ++ [diff.epoch] := by
            simp only [AckTrace.step, ClientPump.step, hlast]
            rw [if_neg (by omega)]
          refine ⟨fun e he => ?_, fun _ _ => ?_, fun _ e he => ?_⟩
          · rw [happlied, List.mem_append, List.mem_singleton] at he
            simp only [AckTrace.step, ClientPump.step, hlast]
            rcases he with he | rfl
            · exact le_trans (hb e he) hgate.le
            · exact le_rfl
          · exact (ClientPump.applies_iff.mp happ).2
          · rw [hack, List.mem_append] at he
            rw [happlied, List.mem_append]
            exact he.imp (hs e) id
        · rw [if_neg happ] at hlast
          have happlied : (w.step width (.datagram diff)).applied = w.applied := by
            simp only [AckTrace.step, ClientPump.step, hlast, if_true]
          refine ⟨fun e he => ?_, fun hsound => ?_, fun hok => ?_⟩
          · rw [happlied] at he
            simp only [AckTrace.step, ClientPump.step, hlast]
            exact hb e he
          · -- the ack is for an epoch above everything ever applied
            have hmem := hsound diff.epoch (by rw [hack]; simp)
            rw [happlied] at hmem
            exact absurd (hb _ hmem) (by omega)
          · exact absurd (ClientPump.applies_iff.mpr ⟨hgate, hok hgate⟩) happ
      · have hrecv := ClientPump.recvDatagram_stale width hgate
        have h := hquiet (congrArg Prod.snd hrecv)
          (congrArg (fun out => out.1.screen.lastAppliedEpoch) hrecv)
        exact ⟨h.1, fun _ hlt => absurd hlt hgate, fun _ => h.2⟩

/-- **Ack soundness, exactly.**  In a run of the pump every ack sent so far is, at
every moment, for an epoch that was applied, if and only if each diff that passes
the epoch gate is neither hidden by the scrollback view nor rejected for its
dimensions. -/
theorem acked_applied_iff (width : Char → Option ℕ) (cols rows : ℕ) (available : Bool)
    (evs : List ClientEvent) :
    (∀ pre t, pre <+: evs →
        (ackMachine width).run (.start (.new cols rows available)) pre = some t → t.Sound) ↔
      (ackMachine width).Along AckTrace.Applicable (.start (.new cols rows available)) evs := by
  rw [← (ackMachine width).forall_visits_iff]
  refine (ackMachine width).forall_visits_iff_along AckTrace.Bounded AckTrace.Sound ?_ ?_ ?_ ?_ evs
  · intro w ev w' hb hs hw'
    cases hw'
    exact w.step_sound_iff width ev hb hs
  · intro w ev _ _ h
    cases h
  · intro e he
    cases he
  · intro e he
    cases he

/-- A diff for a 600-column terminal, which the server allows, and a diff that
arrives while a newer scrollback page is shown are both acked and not applied. -/
theorem rejected_and_hidden_diffs_acked :
    (((ackMachine fun _ => some 1).run (.start (.new 80 24 true))
        [.datagram ⟨1, 600, 24, ⟨0, 0⟩, false, []⟩]).map
      fun w => (w.acked, w.applied)) = some ([1], []) ∧
    (((ackMachine fun _ => some 1).run (.start (.new 4 2 true))
        [.datagram ⟨1, 4, 2, ⟨0, 0⟩, false, []⟩, .stdin ⟨true, false, []⟩, .page [] 0 3,
          .datagram ⟨2, 4, 2, ⟨0, 0⟩, false, []⟩]).map
      fun w => (w.acked, w.applied)) = some ([1, 2], [1]) := by
  decide

/-! ## The dimensions of the screen -/

/-- The pump as a machine over its events, without the acks. -/
def pumpMachine (width : Char → Option ℕ) : Machine ClientPump ClientEvent :=
  ⟨fun pump ev => some (pump.step width ev).1⟩

/-- The screen has dimensions in `1..=MAX_TERMINAL_COLS` by `1..=MAX_TERMINAL_ROWS`. -/
def ClientPump.InRange (pump : ClientPump) : Prop :=
  DimsInRange pump.screen.cols pump.screen.rows

/-- A `Resize` frame that the rate limit lets pass asks for such dimensions. -/
def ClientEvent.ResizeInRange : ClientEvent → Prop
  | .serverResize cols rows limited => limited = false → DimsInRange cols rows
  | _ => True

instance (ev : ClientEvent) : Decidable ev.ResizeInRange :=
  match ev with
  | .serverResize _ _ _ => inferInstanceAs (Decidable (_ → _))
  | .datagram _ | .page _ _ _ | .stdin _ => inferInstanceAs (Decidable True)

/-- A diff is checked before it resizes the screen. -/
theorem ClientScreen.apply_inRange (width : Char → Option ℕ) {screen : ClientScreen}
    (h : DimsInRange screen.cols screen.rows) (diff : StateDiff) :
    DimsInRange (screen.apply width diff).cols (screen.apply width diff).rows := by
  by_cases hacc : screen.Accepts diff
  · rw [ClientScreen.apply_of_accepts width hacc]
    simpa using hacc.2.2
  · rw [ClientScreen.apply_of_not_accepts width hacc]
    exact h

theorem ClientPump.recvDatagram_inRange (width : Char → Option ℕ) {pump : ClientPump}
    (h : pump.InRange) (diff : StateDiff) : (pump.recvDatagram width diff).1.InRange := by
  unfold InRange
  by_cases hgate : pump.screen.lastAppliedEpoch < diff.epoch
  · rw [(recvDatagram_fresh width hgate).2]
    split
    · exact h
    · exact ClientScreen.apply_inRange width h diff
  · rw [recvDatagram_stale width hgate]
    exact h

/-- One iteration keeps the screen in range exactly when a `Resize` frame that it obeys is in
range: `ClientScreen::resize` checks nothing. -/
theorem ClientPump.step_inRange_iff (width : Char → Option ℕ) {pump : ClientPump}
    (h : pump.InRange) (ev : ClientEvent) : (pump.step width ev).1.InRange ↔ ev.ResizeInRange := by
  cases ev with
  | datagram diff => exact iff_of_true (recvDatagram_inRange width h diff) trivial
  | serverResize cols rows limited =>
      cases limited with
      | true =>
          refine iff_of_true h ?_
          rintro ⟨⟩
      | false => exact ⟨fun h _ => h, fun h => h rfl⟩
  | page lines total epoch =>
      refine iff_of_true ?_ trivial
      unfold InRange
      rw [step, recvPage_screen]
      exact h
  | stdin csi =>
      refine iff_of_true ?_ trivial
      unfold InRange
      rw [step, stdin_screen]
      exact h

/-- **Client dimensions, exactly.**  From local dimensions in range, the screen is in range in
every state of a run if and only if every `Resize` frame that the rate limit lets pass is. -/
theorem inRange_iff (width : Char → Option ℕ) {cols rows : ℕ} (hlocal : DimsInRange cols rows)
    (available : Bool) (evs : List ClientEvent) :
    (∀ t, (pumpMachine width).Visits (.new cols rows available) evs t → t.InRange) ↔
      (pumpMachine width).Along (fun _ ev => ev.ResizeInRange) (.new cols rows available) evs := by
  have hstart : (ClientPump.new cols rows available).InRange := hlocal
  refine (pumpMachine width).forall_visits_iff_along (fun _ => True) ClientPump.InRange ?_ ?_
    trivial hstart evs
  · intro pump ev pump' _ hpump hstep
    cases hstep
    exact ⟨trivial, ClientPump.step_inRange_iff width hpump ev⟩
  · intro pump ev _ _ hstep
    cases hstep

/-- A diff of another size and a rate-limited frame of absurd size, from a terminal of 80 by
24. -/
theorem inRange_iff_limited :
    (∀ t, (pumpMachine fun _ => some 1).Visits (.new 80 24 true)
        [.datagram ⟨1, 4, 2, ⟨0, 0⟩, false, []⟩, .serverResize 65535 0 true] t → t.InRange) ↔
      (pumpMachine fun _ => some 1).Along (fun _ ev => ev.ResizeInRange) (.new 80 24 true)
        [.datagram ⟨1, 4, 2, ⟨0, 0⟩, false, []⟩, .serverResize 65535 0 true] :=
  inRange_iff (fun _ => some 1) (by decide) true _

/-- One `Resize` frame of a hostile server takes the screen out of range. -/
theorem resize_frame_out_of_range :
    ∃ t, (pumpMachine fun _ => some 1).Visits (.new 80 24 true)
      [.serverResize 65535 0 false] t ∧ ¬ t.InRange :=
  ⟨(ClientPump.new 80 24 true).serverResize 65535 0 false, ⟨_, List.prefix_rfl, rfl⟩,
    fun h => h (Or.inr (Or.inl rfl))⟩

end Nosh.Client
