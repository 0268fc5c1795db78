import Nosh.Server.Store
import Nosh.Server.Terminal
import Nosh.Sync.Lossless

/-!
# Cursor and alternate-screen convergence of the lossless channel

Cursor position and alternate-screen flag travel in the header of a `StateDiff`,
but whether a tick sends, and whether it sends under a **new** epoch, is decided by
cells alone.  Output that moves the cursor or toggles the screen without leaving a
different grid is either not sent at all, because the client has acked these
cells, or sent under the old epoch, which the client drops.

## Main results

* `Following.step` — the store, the acks and the drained client stay consistent.
* `cursor_converges` — **if output never returns to the grid of the current epoch
  with another cursor or flag, then in every quiescent state client and server
  agree on both.**
* `cursor_only_output_diverges` — one cursor-left, and one entry of the alternate
  screen, that never reach the client.
-/

namespace Nosh.Sync

open Nosh.Lib Nosh.Proto Nosh.Client Nosh.Server

section

variable (serializedSize : StateDiff → ℕ) (width : Char → Option ℕ)
variable {c : Channel}

/-- Nothing is in flight, and a further tick sends nothing the client would apply. -/
def Quiescent (c : Channel) (cap : ℕ) : Prop :=
  c.toClient = [] ∧ c.toServer = [] ∧
    ∃ c' ∈ c.step serializedSize width (.tick cap), ∀ d ∈ c'.toClient, ¬ c.client.Applies d

instance (c : Channel) (cap : ℕ) : Decidable (Quiescent serializedSize width c cap) :=
  inferInstanceAs (Decidable (_ ∧ _ ∧ _))

/-- Output leaves a terminal whose grid has the stated dimensions. -/
def TerminalOutput (_ : Channel) : Action → Prop
  | .output snap => snap.WellFormed
  | _ => True

instance (c : Channel) (a : Action) : Decidable (TerminalOutput c a) :=
  match a with
  | .output snap => inferInstanceAs (Decidable snap.WellFormed)
  | .tick _ | .deliver | .deliverAck => inferInstanceAs (Decidable True)

/-- Output leaves a terminal the client can show, and does not leave the grid of the
current epoch with another cursor or another alternate-screen flag. -/
def CursorFollows (c : Channel) : Action → Prop
  | .output snap =>
      DimsInRange snap.cols snap.rows ∧
        ∀ s ∈ c.produced, snap.cells = s.cells →
          snap.cursor = s.cursor ∧ snap.altScreen = s.altScreen
  | _ => True

instance (c : Channel) (a : Action) : Decidable (CursorFollows c a) :=
  match a with
  | .output _ => inferInstanceAs (Decidable (_ ∧ ∀ s ∈ c.produced, _ → _ ∧ _))
  | .tick _ | .deliver | .deliverAck => inferInstanceAs (Decidable True)

/-- The consistency of the server's acks with its snapshot store. -/
structure Acked (p : PumpState) : Prop extends StoreInv p where
  acked_le : p.lastAckedEpoch ≤ p.currentEpoch
  /-- Until it is acked, the current epoch is in the store. -/
  newest : p.lastAckedEpoch < p.currentEpoch →
    ∃ entry ∈ p.epochSnapshots, entry.1 = p.currentEpoch
  caught_up : p.currentEpoch ≠ 0 → p.lastAckedEpoch = p.currentEpoch →
    p.lastAckedSnapshot = p.lastSentSnapshot
  unstarted : p.currentEpoch = 0 → p.lastAckedSnapshot = [] ∧ p.lastSentSnapshot = []

theorem acked_new : Acked .new where
  toStoreInv := storeInv_new
  acked_le := le_rfl
  newest := by simp [PumpState.new]
  caught_up := fun h => absurd rfl h
  unstarted := fun _ => ⟨rfl, rfl⟩

/-- A tick that sends keeps acks and store consistent. -/
theorem Acked.afterTick {p : PumpState} (h : Acked p) (snap : Snapshot)
    (leftover : List DiffRun) : Acked (p.afterTick snap leftover) := by
  have hself := self_mem_storeSnapshot p.epochSnapshots (p.tickEpoch snap) snap.cells
  have hle := h.acked_le
  by_cases hadv : p.Advances snap
  · have hepoch : p.tickEpoch snap = p.currentEpoch + 1 := if_pos hadv
    refine ⟨h.toStoreInv.afterTick snap leftover, ?_, fun _ => ⟨_, hself, rfl⟩, ?_, ?_⟩
    · change p.lastAckedEpoch ≤ p.tickEpoch snap
      omega
    · intro _ hacked
      change p.lastAckedEpoch = p.tickEpoch snap at hacked
      omega
    · intro hzero
      change p.tickEpoch snap = 0 at hzero
      omega
  · have hepoch : p.tickEpoch snap = p.currentEpoch := if_neg hadv
    have hcells := PumpState.cells_eq_of_not_advances hadv
    refine ⟨h.toStoreInv.afterTick snap leftover, ?_, fun _ => ⟨_, hself, rfl⟩, ?_, ?_⟩
    · change p.lastAckedEpoch ≤ p.tickEpoch snap
      omega
    · change p.tickEpoch snap ≠ 0 → p.lastAckedEpoch = p.tickEpoch snap →
        p.lastAckedSnapshot = snap.cells
      rw [hepoch, hcells]
      exact h.caught_up
    · change p.tickEpoch snap = 0 → p.lastAckedSnapshot = [] ∧ snap.cells = []
      rw [hepoch, hcells]
      exact h.unstarted

/-- An ack of an epoch that was sent keeps acks and store consistent. -/
theorem Acked.recvAck {p : PumpState} (h : Acked p) {e : ℕ} (he : e ≤ p.currentEpoch) :
    Acked (p.recvAck e) := by
  have hinv := h.toStoreInv.recvAck e
  rcases p.recvAck_cases e with ⟨-, heq⟩ | ⟨hnew, entry, hmem, hentry, heq⟩ | ⟨hnew, hnone, heq⟩
  · rw [heq]
    exact h
  · have hnewest := h.newest (by omega)
    rw [heq] at hinv ⊢
    refine ⟨hinv, he, ?_, ?_, ?_⟩
    · intro hlt
      obtain ⟨newest, hin, hcur⟩ := hnewest
      refine ⟨newest, List.mem_filter.mpr ⟨hin, ?_⟩, hcur⟩
      change e < p.currentEpoch at hlt
      simpa [hcur] using hlt
    · intro _ hcur
      exact h.store_current entry hmem (hentry.trans hcur)
    · intro hzero
      change p.currentEpoch = 0 at hzero
      omega
  · have hnewest := h.newest (by omega)
    have hlt : e < p.currentEpoch := by
      obtain ⟨newest, hin, hcur⟩ := hnewest
      have hne := hnone newest hin
      omega
    rw [heq] at hinv ⊢
    refine ⟨hinv, he, fun _ => hnewest, ?_, ?_⟩
    · intro _ hcur
      change e = p.currentEpoch at hcur
      omega
    · intro hzero
      change p.currentEpoch = 0 at hzero
      omega

/-- The invariant of the cursor argument. -/
structure Following (c : Channel) : Prop extends Draining width c, Acked c.pump where
  wf : c.snap.WellFormed
  dims : DimsInRange c.snap.cols c.snap.rows
  pending : c.pump.pendingDeferred = []
  acks : ∀ e ∈ c.toServer, e ≤ c.pump.currentEpoch
  started : c.pump.currentEpoch ≠ 0 → c.produced.isSome
  /-- The drained client has the cursor and the flag of the current epoch, and so has
  the server while it shows that epoch's grid. -/
  seen : ∀ s, c.produced = some s →
    s.cells = c.pump.lastSentSnapshot ∧
      (c.drained width).screen.confirmedCursor = s.cursor ∧
      (c.drained width).wasAltScreen = s.altScreen ∧
      (c.snap.cells = s.cells → c.snap.cursor = s.cursor ∧ c.snap.altScreen = s.altScreen)

variable {serializedSize width}

theorem following_start {snap : Snapshot} (hwf : snap.WellFormed)
    (hdims : DimsInRange snap.cols snap.rows) (cols rows : ℕ) :
    Following width (.start snap cols rows) where
  toDraining := draining_start snap cols rows
  toAcked := acked_new
  wf := hwf
  dims := hdims
  pending := rfl
  acks := by simp [Channel.start]
  started := fun h => absurd rfl h
  seen := by simp [Channel.start]

section

variable (h : Following width c)

include h

theorem Following.send {payload : StateDiff} (hhead : c.pump.Heads c.snap payload) :
    Following width (c.afterSend payload) := by
  have hdrain := h.toDraining.tick hhead h.dims
  have hstored := h.toAcked.afterTick c.snap []
  have hacks : ∀ e ∈ c.toServer, e ≤ c.pump.tickEpoch c.snap := fun e he =>
    le_trans (h.acks e he) (c.pump.currentEpoch_le_tickEpoch c.snap)
  by_cases hadv : c.pump.Advances c.snap
  · obtain ⟨-, hprod⟩ := afterSend_of_advances hadv payload
    refine ⟨hdrain, hstored, h.wf, h.dims, rfl, hacks, ?_, ?_⟩
    · intro _
      rw [hprod]
      rfl
    · intro s hs
      rw [hprod, Option.some.injEq] at hs
      subst hs
      rw [h.toDraining.drained_next hhead hadv h.dims]
      exact ⟨rfl, rfl, rfl, fun _ => ⟨rfl, rfl⟩⟩
  · obtain ⟨hepoch, hprod⟩ := afterSend_of_not_advances hadv payload
    refine ⟨hdrain, hstored, h.wf, h.dims, rfl, hacks, ?_, ?_⟩
    · rw [hprod, hepoch]
      exact h.started
    · intro s hs
      rw [hprod] at hs
      obtain ⟨hcells, hrest⟩ := h.seen s hs
      rw [h.toDraining.drained_same hhead hadv]
      refine ⟨?_, hrest⟩
      exact hcells.trans (PumpState.cells_eq_of_not_advances hadv).symm

theorem Following.deliver {d : StateDiff} {rest : List StateDiff} (hq : c.toClient = d :: rest) :
    Following width (c.afterDeliver width d rest) where
  toDraining := h.toDraining.deliver hq
  toAcked := h.toAcked
  wf := h.wf
  dims := h.dims
  pending := h.pending
  acks := by
    intro e he
    change e ∈ c.toServer ++ (c.client.recvDatagram width d).2.toList at he
    rw [List.mem_append] at he
    rcases he with he | he
    · exact h.acks e he
    · have hd : d.epoch ≤ c.pump.currentEpoch :=
        h.queued d (by rw [hq]; exact List.mem_cons_self)
      by_cases hgate : c.client.screen.lastAppliedEpoch < d.epoch
      · rw [(ClientPump.recvDatagram_fresh width hgate).1] at he
        simp only [Option.toList_some, List.mem_singleton] at he
        rw [he]
        exact hd
      · rw [ClientPump.recvDatagram_stale width hgate] at he
        cases he
  started := h.started
  seen := by
    rw [drained_afterDeliver hq]
    exact h.seen

theorem Following.ack {e : ℕ} {rest : List ℕ} (hq : c.toServer = e :: rest) :
    Following width { c with toServer := rest, pump := c.pump.recvAck e } := by
  obtain ⟨hepoch, hsent, hpend⟩ := c.pump.recvAck_frame e
  have hacks : ∀ e' ∈ c.toServer, e' ≤ c.pump.currentEpoch := h.acks
  rw [hq, List.forall_mem_cons] at hacks
  refine ⟨h.toDraining.ack e rest, h.toAcked.recvAck hacks.1, h.wf, h.dims,
    hpend.trans h.pending, ?_, ?_, ?_⟩
  · rw [hepoch]
    exact hacks.2
  · rw [hepoch]
    exact h.started
  · rw [hsent]
    exact h.seen

/-- Every step whose output follows the cursor keeps the invariant. -/
theorem Following.step {c' : Channel} {a : Action} (hterm : TerminalOutput c a)
    (hfollows : CursorFollows c a) (hstep : c.step serializedSize width a = some c') :
    Following width c' := by
  cases a with
  | output snap =>
      cases hstep
      exact { h with
        wf := hterm
        dims := hfollows.1
        seen := fun s hs =>
          ⟨(h.seen s hs).1, (h.seen s hs).2.1, (h.seen s hs).2.2.1, hfollows.2 s hs⟩ }
  | tick cap =>
      rcases step_tick_cases hstep with ⟨-, rfl⟩ | ⟨-, -, payload, henc, rfl⟩
      · exact { h with
          pending := rfl
          toAcked := { h.toAcked with } }
      · exact h.send (heads_of_encode henc)
  | deliver =>
      obtain ⟨d, rest, hq, rfl⟩ := step_deliver_cases hstep
      exact h.deliver hq
  | deliverAck =>
      obtain ⟨e, rest, hq, rfl⟩ := step_deliverAck_cases hstep
      exact h.ack hq

/-- A terminal the client can show has at least one row. -/
theorem Following.cells_ne_nil : c.snap.cells ≠ [] := by
  intro hnil
  have hrows : c.snap.rows = 0 := by
    rw [← h.wf.1.1, hnil]
    rfl
  exact h.dims (Or.inr (Or.inl hrows))

/-- In a quiescent state the server shows the grid of the current epoch. -/
theorem Following.shows_sent {cap : ℕ} (hquiet : Quiescent serializedSize width c cap) :
    c.pump.currentEpoch ≠ 0 ∧ c.snap.cells = c.pump.lastSentSnapshot := by
  obtain ⟨hempty, -, c', hstep, hdrop⟩ := hquiet
  have hclient : c.drained width = c.client := drained_of_empty hempty
  have hne := h.cells_ne_nil
  rcases step_tick_cases hstep with ⟨⟨hcells, hacked⟩, -⟩ | ⟨-, -, payload, henc, rfl⟩
  · have hzero : c.pump.currentEpoch ≠ 0 := by
      intro hzero
      exact hne (hcells.trans (h.unstarted hzero).1)
    exact ⟨hzero, hcells.trans (h.caught_up hzero (le_antisymm h.acked_le hacked))⟩
  · have hhead := heads_of_encode henc
    have hsame : ¬ c.pump.Advances c.snap := by
      intro hadv
      refine hdrop payload (by simp [Channel.afterSend]) (ClientPump.applies_iff.mpr ⟨?_, ?_, ?_⟩)
      · have hepoch : payload.epoch = c.pump.currentEpoch + 1 :=
          hhead.epoch.trans (if_pos hadv)
        rw [← hclient, h.epoch, hepoch]
        exact Nat.lt_succ_self _
      · have hlive := h.live
        rw [hclient] at hlive
        rw [hlive]
        exact id
      · rw [hhead.cols, hhead.rows]
        exact h.dims
    have hsent := PumpState.cells_eq_of_not_advances hsame
    refine ⟨?_, hsent⟩
    intro hzero
    exact hne (hsent.trans (h.unstarted hzero).2)

end

/-- **Cursor convergence.**  Take any run of the lossless channel whose output leaves
terminals the client can show and never returns to the grid of the current epoch
with another cursor or alternate-screen flag.  In every quiescent state it reaches,
the client's confirmed cursor is the server's and the last flag the client saw is
the server's. -/
theorem cursor_converges {snap : Snapshot} (hwf : snap.WellFormed)
    (hdims : DimsInRange snap.cols snap.rows) (clientCols clientRows : ℕ) {as : List Action}
    {c : Channel} {cap : ℕ}
    (hterm : (channel serializedSize width).Along TerminalOutput
      (.start snap clientCols clientRows) as)
    (hfollows : (channel serializedSize width).Along CursorFollows
      (.start snap clientCols clientRows) as)
    (hrun : (channel serializedSize width).run (.start snap clientCols clientRows) as = some c)
    (hquiet : Quiescent serializedSize width c cap) :
    c.client.screen.confirmedCursor = c.snap.cursor ∧
      c.client.wasAltScreen = c.snap.altScreen := by
  have hinv : Following width c :=
    (channel serializedSize width).invariant_along _
      (fun c a c' hc ha hs => Following.step hc ha.1 ha.2 hs)
      (following_start hwf hdims clientCols clientRows)
      ((channel serializedSize width).along_and.mpr ⟨hterm, hfollows⟩) hrun
  obtain ⟨hzero, hsent⟩ := hinv.shows_sent hquiet
  obtain ⟨s, hs⟩ := Option.isSome_iff_exists.mp (hinv.started hzero)
  obtain ⟨hcells, hcursor, halt, hserver⟩ := hinv.seen s hs
  rw [drained_of_empty hquiet.1] at hcursor halt
  obtain ⟨hcursor', halt'⟩ := hserver (hsent.trans hcells.symm)
  exact ⟨hcursor.trans hcursor'.symm, halt.trans halt'.symm⟩

end

/-- A four by two terminal after the dispatches, or blank if one of them panics. -/
def shown (ds : List Dispatch) : TerminalState :=
  ((TerminalState.new 4 2).feed (fun _ => some 1) ds).getD (.new 4 2)

/-- Two printed characters, each sent, delivered and acked. -/
def typingRun : List Action :=
  [.tick 1200, .deliver, .deliverAck, .output (shown [.print 'a', .print 'b']).snapshot,
    .tick 1200, .deliver, .deliverAck]

/-- The channel after `typingRun`. -/
def typed : Channel :=
  ((channel StateDiff.postcardSize fun _ => some 1).run
    (.start (shown [.print 'a']).snapshot 4 2) typingRun).getD
    (.start (shown [.print 'a']).snapshot 4 2)

theorem cursor_converges_typed :
    typed.client.screen.confirmedCursor = typed.snap.cursor ∧
      typed.client.wasAltScreen = typed.snap.altScreen ∧ typed.snap.cursor = ⟨0, 2⟩ := by
  have hrun : (channel StateDiff.postcardSize fun _ => some 1).run
      (.start (shown [.print 'a']).snapshot 4 2) typingRun = some typed := by
    decide
  have hquiet : Quiescent StateDiff.postcardSize (fun _ => some 1) typed 1200 := by
    decide
  have h := cursor_converges (by decide) (by decide) 4 2 (by decide) (by decide) hrun hquiet
  exact ⟨h.1, h.2, by decide⟩

/-- **Cursor-only output diverges.**  After `a` is sent, delivered and acked, a
cursor-left is never sent, and the client keeps the cursor behind the `a`.  On a
blank screen the same happens to the alternate-screen flag. -/
theorem cursor_only_output_diverges :
    (∃ c ∈ (channel StateDiff.postcardSize fun _ => some 1).run
        (.start (shown [.print 'a']).snapshot 4 2)
        [.tick 1200, .deliver, .deliverAck,
          .output (shown [.print 'a', .csi [] [] 'D']).snapshot],
      Quiescent StateDiff.postcardSize (fun _ => some 1) c 1200 ∧
        c.client.screen.confirmedCursor = ⟨0, 1⟩ ∧ c.snap.cursor = ⟨0, 0⟩) ∧
    (∃ c ∈ (channel StateDiff.postcardSize fun _ => some 1).run (.start (shown []).snapshot 4 2)
        [.tick 1200, .deliver, .deliverAck,
          .output (shown [.csi [(1049, [])] [0x3F] 'h']).snapshot],
      Quiescent StateDiff.postcardSize (fun _ => some 1) c 1200 ∧
        c.client.wasAltScreen = false ∧ c.snap.altScreen = true) := by
  decide

end Nosh.Sync
