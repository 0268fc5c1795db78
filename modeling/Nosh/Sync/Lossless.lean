import Nosh.Client.Pump
import Nosh.Lib.Machine
import Nosh.Server.Store

/-!
# The datagram channel over lossless queues

The server pump and the client pump joined by two FIFO queues, `StateDiff`
datagrams down and epoch acks up, with diffs that fit one datagram.  The
scheduler interleaves PTY output, diff ticks, datagram deliveries and ack
deliveries freely.

A diff is computed against the last **acked** snapshot and applied on top of
whatever the client applied **last**.  While an ack is outstanding these are
different grids: a cell that was sent and then returned to its acked value is in
no later diff.

The argument of this module is about the client that has drained the queue,
`Channel.drained`: delivering a datagram does not change it, an ack does not
touch it, and a tick acts on it at once.

## Main results

* `step_tick_cases`, `step_deliver_cases`, `step_deliverAck_cases` — what one step
  can do.
* `Draining.tick`, `Draining.deliver`, `Draining.ack` — **the drained client is
  always at the current epoch**: what a delivery does to the client has happened
  to the drained client when the datagram was sent.
-/

namespace Nosh.Sync

open Nosh.Lib Nosh.Proto Nosh.Client Nosh.Server

/-- The two pumps and what is in flight between them. -/
structure Channel where
  /-- The server terminal, as a tick would read it. -/
  snap : Snapshot
  pump : PumpState
  toClient : List StateDiff
  toServer : List ℕ
  client : ClientPump
  /-- History: what the tick that started the current epoch read. -/
  produced : Option Snapshot
  deriving DecidableEq

/-- Two fresh pumps, a client of its own size, and empty queues. -/
def Channel.start (snap : Snapshot) (cols rows : ℕ) : Channel where
  snap := snap
  pump := .new
  toClient := []
  toServer := []
  client := .new cols rows false
  produced := none

/-- The steps of the channel. -/
inductive Action
  | output (snap : Snapshot)
  | tick (cap : ℕ)
  | deliver
  | deliverAck

section Machine

variable (serializedSize : StateDiff → ℕ) (width : Char → Option ℕ)
variable {c c' : Channel} {payload : StateDiff}

/-- One step.  A tick is refused when its diff does not fit one datagram. -/
def Channel.step (c : Channel) : Action → Option Channel
  | .output snap => some { c with snap := snap }
  | .tick cap =>
      if minCap ≤ cap ∧ (c.pump.Idle c.snap ∨ fitsOne serializedSize c.pump c.snap cap = true) then
        (tick serializedSize c.pump c.snap (Conn.ideal cap)).map fun out =>
          { c with
            pump := out.pump
            toClient := c.toClient ++ out.sent
            produced :=
              if out.pump.currentEpoch = c.pump.currentEpoch then c.produced else some c.snap }
      else none
  | .deliver =>
      match c.toClient with
      | [] => none
      | d :: rest =>
          let out := c.client.recvDatagram width d
          some { c with
            toClient := rest
            client := out.1
            toServer := c.toServer ++ out.2.toList }
  | .deliverAck =>
      match c.toServer with
      | [] => none
      | e :: rest => some { c with toServer := rest, pump := c.pump.recvAck e }

/-- The state after a tick that sent `payload`. -/
def Channel.afterSend (c : Channel) (payload : StateDiff) : Channel :=
  { c with
    pump := c.pump.afterTick c.snap []
    toClient := c.toClient ++ [payload]
    produced := if c.pump.Advances c.snap then some c.snap else c.produced }

/-- The state after the datagram `d` at the head of the queue was delivered. -/
def Channel.afterDeliver (c : Channel) (d : StateDiff) (rest : List StateDiff) : Channel :=
  { c with
    toClient := rest
    client := (c.client.recvDatagram width d).1
    toServer := c.toServer ++ (c.client.recvDatagram width d).2.toList }

/-- The channel as a machine. -/
def channel : Machine Channel Action := ⟨Channel.step serializedSize width⟩

/-- The client after everything in flight has been delivered. -/
def recvAll (client : ClientPump) (ds : List StateDiff) : ClientPump :=
  ds.foldl (fun client d => (client.recvDatagram width d).1) client

/-- The client once the queue is drained. -/
def Channel.drained (c : Channel) : ClientPump := recvAll width c.client c.toClient

variable {serializedSize width}

theorem recvAll_concat (client : ClientPump) (ds : List StateDiff) (d : StateDiff) :
    recvAll width client (ds ++ [d]) = ((recvAll width client ds).recvDatagram width d).1 := by
  rw [recvAll, List.foldl_append]
  rfl

/-- Datagrams that are not newer than the screen change nothing. -/
theorem recvAll_stale {client : ClientPump} {ds : List StateDiff}
    (h : ∀ d ∈ ds, d.epoch ≤ client.screen.lastAppliedEpoch) :
    recvAll width client ds = client := by
  induction ds with
  | nil => rfl
  | cons d ds ih =>
      rw [List.forall_mem_cons] at h
      rw [recvAll, List.foldl_cons, ClientPump.recvDatagram_stale width (by omega)]
      exact ih h.2

/-! ## The cases of a step -/

/-- A tick of the channel is idle, or it sends its whole diff as one datagram. -/
theorem step_tick_cases {cap : ℕ} (h : c.step serializedSize width (.tick cap) = some c') :
    (c.pump.Idle c.snap ∧ c' = { c with pump := { c.pump with pendingDeferred := [] } }) ∨
      (¬ c.pump.Idle c.snap ∧ (c.pump.allRuns c.snap).length ≤ maxRuns ∧ ∃ payload,
        encodeDatagram serializedSize (c.pump.tickDiff c.snap) cap = some (.ok (payload, [])) ∧
        c' = c.afterSend payload) := by
  rw [Channel.step] at h
  split at h
  · next hguard =>
      obtain ⟨hcap, hfit⟩ := hguard
      by_cases hidle : c.pump.Idle c.snap
      · rw [tick_ideal_idle hcap hidle, Option.map_some] at h
        cases h
        exact Or.inl ⟨hidle, by simp⟩
      · have hfit' := hfit.resolve_left hidle
        obtain ⟨hlen, payload, henc⟩ := fitsOne_spec hfit'
        rw [tick_ideal_fits hcap hidle henc, Option.map_some] at h
        cases h
        refine Or.inr ⟨hidle, hlen, payload, henc, ?_⟩
        have hprod : (if (c.pump.afterTick c.snap []).currentEpoch = c.pump.currentEpoch then
            c.produced else some c.snap) =
            if c.pump.Advances c.snap then some c.snap else c.produced := by
          simp only [PumpState.afterTick, PumpState.tickEpoch]
          by_cases hadv : c.pump.Advances c.snap <;> simp [hadv]
        simp only [hprod, Channel.afterSend]
  · cases h

theorem step_deliver_cases (h : c.step serializedSize width .deliver = some c') :
    ∃ d rest, c.toClient = d :: rest ∧ c' = c.afterDeliver width d rest := by
  rw [Channel.step] at h
  split at h
  · cases h
  · next d rest hq =>
      cases h
      exact ⟨d, rest, hq, rfl⟩

theorem step_deliverAck_cases (h : c.step serializedSize width .deliverAck = some c') :
    ∃ e rest, c.toServer = e :: rest ∧
      c' = { c with toServer := rest, pump := c.pump.recvAck e } := by
  rw [Channel.step] at h
  split at h
  · cases h
  · next e rest hq =>
      cases h
      exact ⟨e, rest, hq, rfl⟩

/-- A tick that starts an epoch makes it from the present grid. -/
theorem afterSend_of_advances (hadv : c.pump.Advances c.snap) (payload : StateDiff) :
    (c.afterSend payload).pump.currentEpoch = c.pump.currentEpoch + 1 ∧
      (c.afterSend payload).produced = some c.snap :=
  ⟨if_pos hadv, if_pos hadv⟩

/-- Any other tick that sends leaves the epoch and its grid as they are. -/
theorem afterSend_of_not_advances (hadv : ¬ c.pump.Advances c.snap) (payload : StateDiff) :
    (c.afterSend payload).pump.currentEpoch = c.pump.currentEpoch ∧
      (c.afterSend payload).produced = c.produced :=
  ⟨if_neg hadv, if_neg hadv⟩

/-! ## The drained client -/

/-- What holds of the drained client in every run: it is live, at the current epoch,
and nothing in flight is newer. -/
structure Draining (width : Char → Option ℕ) (c : Channel) : Prop where
  queued : ∀ d ∈ c.toClient, d.epoch ≤ c.pump.currentEpoch
  live : (c.drained width).view = .live
  epoch : (c.drained width).screen.lastAppliedEpoch = c.pump.currentEpoch

theorem draining_start (snap : Snapshot) (cols rows : ℕ) :
    Draining width (.start snap cols rows) where
  queued := by simp [Channel.start]
  live := rfl
  epoch := rfl

/-- A client that has reached the current epoch is the drained client. -/
theorem Draining.client_eq (h : Draining width c)
    (hcur : c.client.screen.lastAppliedEpoch = c.pump.currentEpoch) :
    c.drained width = c.client := by
  refine recvAll_stale fun d hd => ?_
  rw [hcur]
  exact h.queued d hd

/-- With nothing in flight the client is the drained client. -/
theorem drained_of_empty (hempty : c.toClient = []) : c.drained width = c.client := by
  unfold Channel.drained
  rw [hempty]
  rfl

theorem drained_afterDeliver {d : StateDiff} {rest : List StateDiff} (hq : c.toClient = d :: rest) :
    (c.afterDeliver width d rest).drained width = c.drained width := by
  unfold Channel.drained
  rw [hq]
  rfl

theorem drained_afterSend (c : Channel) (payload : StateDiff) :
    (c.afterSend payload).drained width =
      ((c.drained width).recvDatagram width payload).1 :=
  recvAll_concat c.client c.toClient payload

variable (h : Draining width c)

include h

theorem Draining.deliver {d : StateDiff} {rest : List StateDiff} (hq : c.toClient = d :: rest) :
    Draining width (c.afterDeliver width d rest) where
  queued := by
    intro d' hd'
    refine h.queued d' ?_
    rw [hq]
    exact List.mem_cons_of_mem d hd'
  live := by
    rw [drained_afterDeliver hq]
    exact h.live
  epoch := by
    rw [drained_afterDeliver hq]
    exact h.epoch

theorem Draining.ack (e : ℕ) (rest : List ℕ) :
    Draining width { c with toServer := rest, pump := c.pump.recvAck e } where
  queued := by
    intro d hd
    rw [(c.pump.recvAck_frame e).1]
    exact h.queued d hd
  live := h.live
  epoch := by
    rw [(c.pump.recvAck_frame e).1]
    exact h.epoch

variable (hhead : c.pump.Heads c.snap payload)

include hhead

/-- A tick that does not start an epoch leaves the drained client alone: the datagram
will be dropped as not newer. -/
theorem Draining.drained_same (hadv : ¬ c.pump.Advances c.snap) :
    (c.afterSend payload).drained width = c.drained width := by
  have hepoch : payload.epoch = c.pump.currentEpoch := hhead.epoch.trans (if_neg hadv)
  rw [drained_afterSend, ClientPump.recvDatagram_stale width (by rw [h.epoch, hepoch]; omega)]

/-- A tick that starts an epoch acts on the drained client at once. -/
theorem Draining.drained_next (hadv : c.pump.Advances c.snap)
    (hdims : DimsInRange c.snap.cols c.snap.rows) :
    (c.afterSend payload).drained width =
      { c.drained width with
        screen :=
          { (c.drained width).screen.fitTo c.snap.cols c.snap.rows with
            confirmed := applyRuns width
              ((c.drained width).screen.fitTo c.snap.cols c.snap.rows).confirmed payload.runs
            confirmedCursor := c.snap.cursor
            lastAppliedEpoch := c.pump.currentEpoch + 1 }
        wasAltScreen := c.snap.altScreen } := by
  have hepoch : payload.epoch = c.pump.currentEpoch + 1 := hhead.epoch.trans (if_pos hadv)
  have hgate : (c.drained width).screen.lastAppliedEpoch < payload.epoch := by
    rw [h.epoch, hepoch]
    exact Nat.lt_succ_self _
  have hacc : (c.drained width).screen.Accepts payload := by
    refine ⟨by omega, hgate.le, ?_⟩
    rw [hhead.cols, hhead.rows]
    exact hdims
  rw [drained_afterSend, ClientPump.recvDatagram, if_pos hgate]
  simp only [h.live, ClientPump.applyDiff, ClientScreen.apply_of_accepts width hacc, hepoch,
    hhead.cols, hhead.rows, hhead.cursor, hhead.altScreen]

/-- A tick keeps the drained client at the current epoch. -/
theorem Draining.tick (hdims : DimsInRange c.snap.cols c.snap.rows) :
    Draining width (c.afterSend payload) := by
  have hle := c.pump.currentEpoch_le_tickEpoch c.snap
  refine ⟨?_, ?_, ?_⟩
  · intro d hd
    change d.epoch ≤ c.pump.tickEpoch c.snap
    change d ∈ c.toClient ++ [payload] at hd
    rw [List.mem_append, List.mem_singleton] at hd
    rcases hd with hd | rfl
    · exact le_trans (h.queued d hd) hle
    · exact hhead.epoch.le
  · by_cases hadv : c.pump.Advances c.snap
    · rw [h.drained_next hhead hadv hdims]
      exact h.live
    · rw [h.drained_same hhead hadv]
      exact h.live
  · by_cases hadv : c.pump.Advances c.snap
    · rw [h.drained_next hhead hadv hdims]
      exact (if_pos hadv).symm
    · rw [h.drained_same hhead hadv, h.epoch]
      exact (if_neg hadv).symm

end Machine

end Nosh.Sync
