import Nosh.Client.Pump
import Nosh.Server.Freshness

/-!
# The datagrams of one burst at the client

All datagrams of a tick share its epoch.  `ClientScreen::apply` lets an equal epoch
through, on purpose: every datagram of a burst must be applied.  The datagram arm
of the pump in front of it asks for a strictly newer epoch.  The two guards
disagree, so the first arrival of a burst closes the gate for the rest.

## Main results

* `burst_applied_iff` — **of the datagrams of one tick, in any order, at most the
  first arrival is applied.**
* `burst_second_dropped` — two datagrams in order: the second is dropped with the
  cells it carries.
-/

namespace Nosh.Sync

open Nosh.Lib Nosh.Proto Nosh.Client Nosh.Server

section

variable (width : Char → Option ℕ)

/-- The datagram arm applies every one of the arriving datagrams. -/
def AllApplied : ClientPump → List StateDiff → Prop
  | _, [] => True
  | client, d :: ds => client.Applies d ∧ AllApplied (client.recvDatagram width d).1 ds

instance decidableAllApplied : ∀ (client : ClientPump) (ds : List StateDiff),
    Decidable (AllApplied width client ds)
  | _, [] => isTrue trivial
  | client, d :: ds =>
      have := decidableAllApplied (client.recvDatagram width d).1 ds
      inferInstanceAs (Decidable (client.Applies d ∧ _))

variable {width}

/-- A live client applies a datagram exactly when it is newer and in range. -/
theorem applies_live_iff {client : ClientPump} (hlive : client.view = .live) {d : StateDiff} :
    client.Applies d ↔
      client.screen.lastAppliedEpoch < d.epoch ∧ DimsInRange d.cols d.rows := by
  rw [ClientPump.applies_iff, hlive]
  constructor
  · rintro ⟨hgate, -, hdims⟩
    exact ⟨hgate, hdims⟩
  · rintro ⟨hgate, hdims⟩
    exact ⟨hgate, id, hdims⟩

/-- Once a datagram of an epoch was applied, no other of that epoch is. -/
theorem not_applies_of_same_epoch {client : ClientPump} {d d' : StateDiff}
    (happ : client.Applies d) (hsame : d'.epoch = d.epoch) :
    ¬ (client.recvDatagram width d).1.Applies d' := by
  intro happ'
  have hgate := happ'.1
  rw [ClientPump.recvDatagram_lastAppliedEpoch, if_pos happ, hsame] at hgate
  exact lt_irrefl _ hgate

/-- **Bursts at the gate.**  Take any tick, any arrival order of any part of the
datagrams it sent, and a live client.  The pump
applies all arrivals exactly when there is none, or when there is one, it is newer
than what the client has applied, and its dimensions are in range. -/
theorem burst_applied_iff (width : Char → Option ℕ) {serializedSize : StateDiff → ℕ}
    {p : PumpState} {snap : Snapshot} {conn : Conn} {out : Tick}
    (htick : tick serializedSize p snap conn = some out)
    {client : ClientPump} (hlive : client.view = .live)
    {arrivals : List StateDiff} (harr : arrivals.Subperm out.sent) :
    AllApplied width client arrivals ↔
      arrivals = [] ∨
        (arrivals.length = 1 ∧ client.screen.lastAppliedEpoch < p.tickEpoch snap ∧
          DimsInRange snap.cols snap.rows) := by
  have hhead : ∀ d ∈ arrivals, p.Heads snap d :=
    fun d hd => tick_sent_header htick d (harr.subset hd)
  cases arrivals with
  | nil => simp [AllApplied]
  | cons d rest =>
      have hd := hhead d List.mem_cons_self
      have hfirst : client.Applies d ↔ client.screen.lastAppliedEpoch < p.tickEpoch snap ∧
          DimsInRange snap.cols snap.rows := by
        rw [applies_live_iff hlive, hd.epoch, hd.cols, hd.rows]
      cases rest with
      | nil => simp [AllApplied, hfirst]
      | cons d' rest =>
          have hd' := hhead d' (by simp)
          constructor
          · rintro ⟨happ, happ', -⟩
            exact absurd happ' (not_applies_of_same_epoch happ (hd'.epoch.trans hd.epoch.symm))
          · rintro (hnil | ⟨hone, -⟩)
            · cases hnil
            · simp at hone

end

/-- The burst of a row too long for one datagram. -/
def longBurst : Tick :=
  (tick StateDiff.postcardSize .new (longRow '𝐀') (.ideal 1200)).getD ⟨.new, [], false⟩

theorem burst_applied_single :
    (longBurst.sent.take 1).length = 1 ∧
      AllApplied (fun _ => some 1) (.new 310 1 false) (longBurst.sent.take 1) := by
  have htick : tick StateDiff.postcardSize .new (longRow '𝐀') (.ideal 1200) = some longBurst := by
    decide +kernel
  have hlive : (ClientPump.new 310 1 false).view = .live := rfl
  have hone : (longBurst.sent.take 1).length = 1 := by
    decide +kernel
  have hnew : (ClientPump.new 310 1 false).screen.lastAppliedEpoch <
      PumpState.new.tickEpoch (longRow '𝐀') := by
    decide +kernel
  have hdims : DimsInRange (longRow '𝐀').cols (longRow '𝐀').rows := by
    decide
  have hsub : (longBurst.sent.take 1).Subperm longBurst.sent :=
    (List.take_sublist 1 longBurst.sent).subperm
  refine ⟨hone, ?_⟩
  rw [burst_applied_iff (fun _ => some 1) htick hlive hsub]
  exact Or.inr ⟨hone, hnew, hdims⟩

/-- **The second datagram of a burst is dropped.**  The row needs two datagrams; both
arrive, in order, at a fresh live client, and the one that carries the last column
is not applied. -/
theorem burst_second_dropped :
    tick StateDiff.postcardSize .new (longRow '𝐀') (.ideal 1200) = some longBurst ∧
      (longBurst.sent.map fun d => decide (((0, 309), plainCell '𝐀') ∈ runCells d.runs)) =
        [false, true] ∧
      ¬ AllApplied (fun _ => some 1) (.new 310 1 false) longBurst.sent := by
  decide +kernel

end Nosh.Sync
