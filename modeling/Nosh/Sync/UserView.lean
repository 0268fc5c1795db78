import Nosh.Client.Fidelity
import Nosh.Sync.GridConvergence

/-!
# What the user sees

The two ends of a session have been looked at apart. On the channel the confirmed grid of the client
converges to the grid of the server; at the client, the terminal shows the grid that was painted
last. Here both run together: the pump of the server, the datagrams and acks in flight, and the pump
of the client, which predicts and paints. Keys, the banner for a lost connection and datagrams come
in any order. The terminal is an interpreter of the bytes that the client writes.

## Main Results

* `terminal_shows_server` — **at every moment the terminal shows the confirmed grid under the banner
  and the predictions of that moment; and when the client has caught up, the confirmed grid is that
  of the server.**
-/

namespace Nosh.Sync

open Nosh.Lib Nosh.Proto Nosh.Client Nosh.Server

/-! ## Both ends -/

/-- The channel and the display. Both have the pump of the client; `Viewing.same` says that it is
one pump. -/
structure UserView where
  channel : Channel
  client : Display

/-- A step of the channel, with the clocks that the client reads when a datagram is delivered, or
one of the client alone. -/
inductive ViewAction
  | channel (a : Action) (rttMs : ℕ) (elapsed : ℕ → ℕ)
  | client (event : DisplayEvent)

/-- Both ends at the start, of the same size. -/
def UserView.start (snap : Snapshot) (mode : PredictDisplayMode) : UserView :=
  ⟨.start snap snap.cols snap.rows, .start mode snap.cols snap.rows false⟩

section Machine

variable (serializedSize : StateDiff → ℕ) (width : Char → Option ℕ)

/-- One step. What the channel delivers goes to the display, and no other datagram does. -/
def UserView.step (v : UserView) : ViewAction → Option UserView
  | .channel a rttMs elapsed =>
      (v.channel.step serializedSize width a).map fun c => ⟨c,
        match a, v.channel.toClient with
        | .deliver, d :: _ => v.client.datagram width d rttMs elapsed
        | _, _ => v.client⟩
  | .client (.datagram ..) => none
  | .client event => ((display width).step v.client event).map fun client => ⟨v.channel, client⟩

/-- Both ends as a machine. -/
def userView : Machine UserView ViewAction := ⟨UserView.step serializedSize width⟩

/-- The hypotheses of convergence, and no way into the scrollback. -/
def UserView.Plain (v : UserView) : ViewAction → Prop
  | .channel a _ _ => NarrowOutput width v.channel a ∧ Unreverted v.channel a
  | .client event =>
      event.OneColumn width ∧ event.SameSize v.channel.snap.cols v.channel.snap.rows ∧
        event.StaysLive

end Machine

/-! ## What is painted -/

/-- The banner and the predictions over a grid. -/
def overlaid (s : Display) (grid : Grid Cell) (elapsed : ℕ → ℕ) : Grid Cell :=
  overlayCells (overlayCells grid fun row col => s.loss.cellAt (elapsed col) row col)
    s.predictor.cellAt

/-- The last paint was of the present screen, banner and predictions. -/
def Rendered (s : Display) : Prop := ∃ elapsed, s.physical = s.desired elapsed

theorem overlayCells_none (grid : Grid Cell) {cellAt : ℕ → ℕ → Option Cell}
    (h : ∀ row col, cellAt row col = none) : overlayCells grid cellAt = grid := by
  have hsame : ∀ {α : Type} (l : List α), (l.mapIdx fun _ x => x) = l := fun l =>
    List.ext_getElem (List.length_mapIdx) fun i hi hi' => List.getElem_mapIdx
  unfold overlayCells
  simp only [h, Option.getD_none, hsame]

theorem rendered_start (mode : PredictDisplayMode) (cols rows : ℕ) (available : Bool) :
    Rendered (.start mode cols rows available) := by
  refine ⟨fun _ => 0, ?_⟩
  have hpredictor : ∀ row col, (PredictionOverlay.new mode cols rows).cellAt row col = none := by
    intro row col
    unfold PredictionOverlay.cellAt
    split <;> rfl
  show makeGrid cols rows = overlayCells (overlayCells (makeGrid cols rows) _)
    (PredictionOverlay.new mode cols rows).cellAt
  rw [overlayCells_none _ hpredictor]
  exact (overlayCells_none _ fun _ _ => rfl).symm

section Painted

variable {width : Char → Option ℕ} {cols rows : ℕ} {screen : Vt.Screen cols rows} {s s' : Display}

/-- A render with the predictor paints what is desired. -/
theorem rendered_renderWithPredictor {elapsed : ℕ → ℕ}
    (h : (s.predictorPaint elapsed).Sized width cols rows) :
    Rendered (s.renderWithPredictor elapsed) :=
  ⟨elapsed, commit_eq h.2.2.1 h.1.physical⟩

/-- The pump of the client after an event of the live view: only datagrams change it. -/
def pumpAfter (width : Char → Option ℕ) (pump : ClientPump) : DisplayEvent → ClientPump
  | .datagram diff _ _ => (pump.recvDatagram width diff).1
  | _ => pump

/-- **The live view is painted at once**: whatever changes the screen, the banner or the predictions
also paints them. -/
theorem Rendered.step (hwidth : ∀ ch, isControl ch = true → width ch = none)
    {event : DisplayEvent} (h : Rendered s) (hsync : InSync width screen s)
    (hone : event.OneColumn width) (hsame : event.SameSize cols rows) (hstays : event.StaysLive)
    (hstep : (display width).step s event = some s') :
    Rendered s' ∧ s'.pump = pumpAfter width s.pump event := by
  cases event with
  | datagram diff rttMs elapsed =>
      cases hstep
      unfold Display.datagram
      by_cases hpaints :
          s.pump.screen.lastAppliedEpoch < diff.epoch ∧ ¬ s.pump.view.Hides diff.epoch
      · rw [if_pos hpaints]
        exact ⟨rendered_renderWithPredictor
          ((hsync.sized.applied hwidth hone hsame).predictorPaint hwidth elapsed), rfl⟩
      · -- an old datagram leaves the predictor alone, too
        have hstale : ¬ s.pump.screen.lastAppliedEpoch < diff.epoch := by
          intro hfresh
          refine hpaints ⟨hfresh, ?_⟩
          rw [hsync.live]
          exact id
        have hnext : s.toPredictingPump.recvDatagram width diff rttMs = s.toPredictingPump := by
          unfold PredictingPump.recvDatagram
          rw [if_neg hpaints, ClientPump.recvDatagram_stale width hstale]
        rw [if_neg hpaints, hnext]
        refine ⟨h, ?_⟩
        rw [pumpAfter, ClientPump.recvDatagram_stale width hstale]
  | serverResize cols' rows' limited =>
      have hlimited : limited = true := hstays
      cases hstep
      rw [Display.serverResize, if_pos hlimited]
      exact ⟨h, rfl⟩
  | page lines total epoch =>
      have hrecv : s.pump.recvPage lines total epoch = s.pump := by
        rw [ClientPump.recvPage, hsync.live]
      have hview : s.renderScrollback = s := by
        unfold Display.renderScrollback
        rw [hsync.live]
      cases hstep
      rw [Display.page, hrecv, hview]
      exact ⟨h, rfl⟩
  | stdin csi forward elapsed =>
      cases hstep
      rcases hsync.stdin hstays forward elapsed with ⟨-, hnone⟩ | ⟨-, hkeys⟩
      · rw [hnone]
        exact ⟨h, rfl⟩
      · rw [hkeys]
        refine ⟨rendered_renderWithPredictor
          ((hsync.sized.recvKeys forward).predictorPaint hwidth elapsed), ?_⟩
        show { s.pump with view := .live } = s.pump
        rw [← hsync.live]
  | silence elapsed =>
      obtain ⟨-, ⟨⟩⟩ := Option.ite_none_left_eq_some.mp hstep
      exact ⟨rendered_renderWithPredictor (hsync.sized.showLoss.predictorPaint hwidth elapsed), rfl⟩
  | lossTick elapsed =>
      obtain ⟨-, ⟨⟩⟩ := Option.ite_none_right_eq_some.mp hstep
      exact ⟨rendered_renderWithPredictor (hsync.sized.predictorPaint hwidth elapsed), rfl⟩

end Painted

/-! ## What is in flight -/

/-- Cells of a narrow snapshot make runs of one-column characters. -/
theorem oneColumn_of_cells {width : Char → Option ℕ} {snap : Snapshot}
    (hnarrow : snap.Narrow width) {runs : List DiffRun}
    (hcells : ∀ w ∈ runCells runs, snap.cells.cellAt w.1.1 w.1.2 = some w.2) :
    ∀ run ∈ runs, ∀ ch ∈ run.chars, width ch = some 1 := by
  -- any other character may just as well be a wide one
  let strict : Char → Option ℕ := fun ch => if width ch = some 1 then some 1 else some 2
  have hstrict : snap.Narrow strict := fun row hrow cell hcell =>
    (hnarrow row hrow cell hcell).imp_right fun hone => if_pos hone
  intro run hrun ch hch
  by_contra hne
  exact narrowRun_of_cells hstrict hcells run hrun ch hch (if_neg hne)

/-- A datagram that the display takes as it is. -/
def Fits (width : Char → Option ℕ) (cols rows : ℕ) (d : StateDiff) : Prop :=
  (d.cols = cols ∧ d.rows = rows) ∧ ∀ run ∈ d.runs, ∀ ch ∈ run.chars, width ch = some 1

/-! ## Both ends together -/

/-- The invariant of both ends, on a terminal of the size of the session. -/
structure Viewing (width : Char → Option ℕ) {cols rows : ℕ} (screen : Vt.Screen cols rows)
    (v : UserView) : Prop where
  converging : Converging width cols rows v.channel
  fits : ∀ d ∈ v.channel.toClient, Fits width cols rows d
  sync : InSync width screen v.client
  rendered : Rendered v.client
  same : v.channel.client = v.client.pump

namespace Viewing

variable {serializedSize : StateDiff → ℕ} {width : Char → Option ℕ} {cols rows : ℕ}
  {screen : Vt.Screen cols rows} {v v' : UserView} {a : ViewAction}

theorem start {snap : Snapshot} (hwf : snap.WellFormed) (hnarrow : snap.Narrow width)
    (mode : PredictDisplayMode) (screen : Vt.Screen snap.cols snap.rows) :
    Viewing width screen (.start snap mode) where
  converging := converging_start hwf hnarrow snap.cols snap.rows
  fits := fun _ hd => (List.not_mem_nil hd).elim
  sync := ⟨.start mode snap.cols snap.rows false, rfl, shows_start screen mode false⟩
  rendered := rendered_start mode snap.cols snap.rows false
  same := rfl

/-- The datagram of a tick is cut from the snapshot. -/
theorem fits_payload (h : Viewing width screen v) {cap : ℕ} {payload : StateDiff}
    (hlen : (v.channel.pump.allRuns v.channel.snap).length ≤ maxRuns)
    (henc : encodeDatagram serializedSize (v.channel.pump.tickDiff v.channel.snap) cap =
      some (.ok (payload, []))) : Fits width cols rows payload := by
  have hconv := h.converging
  have hhead := heads_of_encode henc
  have hmem := mem_payload_iff hconv.wf hconv.narrow hconv.pending hlen henc
  exact ⟨⟨hhead.cols.trans hconv.dims.1, hhead.rows.trans hconv.dims.2⟩,
    oneColumn_of_cells hconv.narrow fun w hw => ((hmem w).mp hw).1⟩

variable (hwidth : ∀ ch, isControl ch = true → width ch = none) (hdims : DimsInRange cols rows)

include hwidth hdims

/-- An event of the display. -/
theorem event (h : Viewing width screen v) (event : DisplayEvent) (hone : event.OneColumn width)
    (hsame : event.SameSize cols rows) (hstays : event.StaysLive) {client : Display}
    (hstep : (display width).step v.client event = some client) :
    InSync width screen client ∧ Rendered client ∧
      pumpAfter width v.channel.client event = client.pump := by
  have hsmall : cols < 65536 ∧ rows < 65536 := by
    unfold DimsInRange maxTerminalCols maxTerminalRows at hdims
    omega
  obtain ⟨hrendered, hpump⟩ := h.rendered.step hwidth h.sync hone hsame hstays hstep
  rw [h.same]
  exact ⟨(h.sync.step hwidth hsmall.1 hsmall.2 hone hsame hstays).2 _ hstep, hrendered, hpump.symm⟩

/-- Every plain step keeps the invariant. -/
theorem step (h : Viewing width screen v) (hplain : v.Plain width a)
    (hstep : v.step serializedSize width a = some v') : Viewing width screen v' := by
  cases a with
  | channel b rttMs elapsed =>
      obtain ⟨c, hchannel, rfl⟩ := Option.map_eq_some_iff.mp hstep
      have hconv := h.converging.step hdims hplain.1 hplain.2 hchannel
      cases b with
      | output snap =>
          cases hchannel
          exact ⟨hconv, h.fits, h.sync, h.rendered, h.same⟩
      | tick cap =>
          rcases step_tick_cases hchannel with ⟨-, rfl⟩ | ⟨-, hlen, payload, henc, rfl⟩
          · exact ⟨hconv, h.fits, h.sync, h.rendered, h.same⟩
          · have hfits := List.forall_mem_singleton.mpr (h.fits_payload hlen henc)
            exact ⟨hconv, List.forall_mem_append.mpr ⟨h.fits, hfits⟩, h.sync, h.rendered, h.same⟩
      | deliver =>
          obtain ⟨d, rest, hq, rfl⟩ := step_deliver_cases hchannel
          have hfits := h.fits
          rw [hq, List.forall_mem_cons] at hfits
          obtain ⟨hsync, hrendered, hpump⟩ :=
            h.event hwidth hdims (.datagram d rttMs elapsed) hfits.1.2 hfits.1.1 trivial rfl
          rw [hq]
          exact ⟨hconv, hfits.2, hsync, hrendered, hpump⟩
      | deliverAck =>
          obtain ⟨e, rest, -, rfl⟩ := step_deliverAck_cases hchannel
          exact ⟨hconv, h.fits, h.sync, h.rendered, h.same⟩
  | client event =>
      obtain ⟨hone, hsize, hstays⟩ := hplain
      rw [h.converging.dims.1, h.converging.dims.2] at hsize
      cases event with
      | datagram diff rttMs elapsed => cases hstep
      | _ =>
          rw [UserView.step] at hstep
          · obtain ⟨client, hdisplay, rfl⟩ := Option.map_eq_some_iff.mp hstep
            obtain ⟨hsync, hrendered, hpump⟩ := h.event hwidth hdims _ hone hsize hstays hdisplay
            exact ⟨h.converging, h.fits, hsync, hrendered, hpump⟩
          · rintro _ _ _ ⟨⟩

end Viewing

/-- **What the user sees.** Take any run of server, lossless channel and client in which the output
has one-column characters, no epoch starts on a reverted cell and the scrollback is not entered. At
its end the terminal of the user, which has executed every byte that the client wrote, shows the
confirmed grid under the banner and the predictions. If the client has reached the epoch of the
server, and the server has shown no other grid since, that confirmed grid is the server's. -/
theorem terminal_shows_server {serializedSize : StateDiff → ℕ} {width : Char → Option ℕ}
    (hwidth : ∀ ch, isControl ch = true → width ch = none)
    {snap : Snapshot} (hwf : snap.WellFormed) (hnarrow : snap.Narrow width)
    (hdims : DimsInRange snap.cols snap.rows) {mode : PredictDisplayMode}
    (screen : Vt.Screen snap.cols snap.rows) {as : List ViewAction} {v : UserView}
    (hplain : (userView serializedSize width).Along (UserView.Plain width) (.start snap mode) as)
    (hrun : (userView serializedSize width).run (.start snap mode) as = some v) :
    ∃ elapsed,
      (v.client.shown screen).grid =
          looks (overlaid v.client v.client.pump.screen.confirmed elapsed) ∧
        ∀ s, v.channel.produced = some s → v.channel.snap.cells = s.cells →
          v.client.pump.screen.lastAppliedEpoch = v.channel.pump.currentEpoch →
            (v.client.shown screen).grid =
              looks (overlaid v.client v.channel.snap.cells elapsed) := by
  have h := (userView serializedSize width).invariant_along (Viewing width screen)
    (fun _ _ _ h hok hstep => h.step hwidth hdims hok hstep) (.start hwf hnarrow mode screen)
    hplain hrun
  obtain ⟨elapsed, hphysical⟩ := h.rendered
  have hshown : (v.client.shown screen).grid =
      looks (overlaid v.client v.client.pump.screen.confirmed elapsed) := by
    rw [h.sync.shows, hphysical]
    rfl
  refine ⟨elapsed, hshown, fun s hs hunchanged hcaught => ?_⟩
  rw [← h.same] at hcaught
  obtain ⟨hcells, hconf, -, -⟩ := h.converging.content s hs
  rw [h.converging.toDraining.client_eq hcaught, h.same] at hconf
  rw [hshown, hconf, hunchanged, hcells]

/-- A screen of three columns and two rows. -/
def promptScreen : Snapshot where
  cols := 3
  rows := 2
  cursor := ⟨1, 2⟩
  altScreen := false
  cells := ["ls ".toList, "$  ".toList].map (·.map fun ch => ⟨ch, .none, none, none, false⟩)

/-- The screen is sent and shown, and the user types a key. -/
def typedAt : List ViewAction :=
  [.channel (.tick 1200) 20 fun _ => 0, .channel .deliver 20 fun _ => 0, .client plainKey]

theorem terminal_shows_server_typedAt :
    ∃ v, (userView StateDiff.postcardSize oneColumn).run (.start promptScreen .always) typedAt =
        some v ∧
      ∃ elapsed, (v.client.shown (blankScreen 3 2)).grid =
        looks (overlaid v.client promptScreen.cells elapsed) := by
  have hwidth : ∀ ch, isControl ch = true → oneColumn ch = none := fun _ hch => if_pos hch
  have hend : ((userView StateDiff.postcardSize oneColumn).run (.start promptScreen .always)
      typedAt).map (fun v => (v.channel.produced, v.channel.snap,
        v.client.pump.screen.lastAppliedEpoch, v.channel.pump.currentEpoch)) =
      some (some promptScreen, promptScreen, 1, 1) := by
    decide +kernel
  obtain ⟨v, hrun, hv⟩ := Option.map_eq_some_iff.mp hend
  simp only [Prod.mk.injEq] at hv
  obtain ⟨hproduced, hsnap, hclient, hserver⟩ := hv
  have hplain : (userView StateDiff.postcardSize oneColumn).Along (UserView.Plain oneColumn)
      (.start promptScreen .always) typedAt :=
    ⟨⟨trivial, by decide⟩, ⟨trivial, trivial⟩, ⟨trivial, trivial, rfl⟩, trivial⟩
  obtain ⟨elapsed, -, hshown⟩ := terminal_shows_server hwidth (by decide) (by decide) (by decide)
    (blankScreen 3 2) hplain hrun
  refine ⟨v, hrun, elapsed, ?_⟩
  rw [← hsnap]
  exact hshown promptScreen hproduced (by rw [hsnap]) (hclient.trans hserver.symm)

end Nosh.Sync
