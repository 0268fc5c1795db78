import Nosh.Client.Pump
import Nosh.Lib.Machine
import Nosh.Server.Freshness
import Nosh.Sync.GridConvergence

/-!
# The datagram channel with loss, delay and reordering

The real channel: datagrams and acks are delivered in any order or never, a tick
may send a burst, a burst may be cut off, and the client may be in its scrollback
view.  The server takes an ack of epoch `e` as word that the client has all of the
snapshot stored for `e`, and diffs against that snapshot from then on.

One ack is sent for an epoch, after the first of its datagrams.  So the ack tells
the truth about the snapshot only when that one datagram carried everything the
client lacked.

## Main results

* `Backed.step` — in runs where every diff fits one datagram and every diff that
  passes the client's gate is applied, **each cell of the baseline, and of every
  stored snapshot whose epoch was applied, was given by an applied run.**
* `installed_baseline_backed` — the ack step that installs a baseline.
* `burst_ack_overtakes` — with two datagrams and the second lost, the ack of the
  first installs cells the client never received.
-/

namespace Nosh.Sync

open Nosh.Lib Nosh.Proto Nosh.Client Nosh.Server

/-- The two pumps and everything in flight; what is never delivered is lost. -/
structure Lossy where
  snap : Snapshot
  pump : PumpState
  flying : List StateDiff
  acks : List ℕ
  client : ClientPump
  /-- History: the diffs the client received and applied. -/
  applied : List StateDiff
  deriving DecidableEq

/-- Two fresh pumps and nothing in flight. -/
def Lossy.start (snap : Snapshot) (client : ClientPump) : Lossy := ⟨snap, .new, [], [], client, []⟩

/-- The steps: deliveries name the position of what arrives. -/
inductive LossyAction
  | output (snap : Snapshot)
  | tick (conn : Conn)
  | deliver (i : ℕ)
  | deliverAck (i : ℕ)
  /-- Any other event of the client pump: a page, a keystroke, a `Resize` frame. -/
  | client (ev : ClientEvent)

section

variable (serializedSize : StateDiff → ℕ) (width : Char → Option ℕ)
variable {applied : List StateDiff} {g : Grid Cell} {d : StateDiff} {c : Lossy} {i : ℕ}

/-- The state after the datagram `d`, in flight at position `i`, has arrived. -/
def Lossy.receive (c : Lossy) (i : ℕ) (d : StateDiff) : Lossy :=
  { c with
    flying := c.flying.eraseIdx i
    acks := c.acks ++ (c.client.recvDatagram width d).2.toList
    client := (c.client.recvDatagram width d).1
    applied := if c.client.Applies d then c.applied ++ [d] else c.applied }

/-- One step; a tick on which the transport is lost ends the session, and datagrams
reach the client only from the network. -/
def Lossy.step (c : Lossy) : LossyAction → Option Lossy
  | .output snap => some { c with snap := snap }
  | .tick conn =>
      (tick serializedSize c.pump c.snap conn).bind fun out =>
        if out.transportLost then none
        else some { c with pump := out.pump, flying := c.flying ++ out.sent }
  | .deliver i => c.flying[i]?.map fun d => c.receive width i d
  | .deliverAck i =>
      c.acks[i]?.map fun e => { c with acks := c.acks.eraseIdx i, pump := c.pump.recvAck e }
  | .client (.datagram _) => none
  | .client ev => some { c with client := (c.client.step width ev).1 }

/-- The lossy channel as a machine. -/
def lossy : Machine Lossy LossyAction := ⟨Lossy.step serializedSize width⟩

/-- What a step must respect for acks to be backed: output is narrow, a tick's diff
fits one datagram, and a diff that passes the client's epoch gate is applied. -/
def Lossy.Backing (c : Lossy) : LossyAction → Prop
  | .output snap => snap.WellFormed ∧ snap.Narrow width
  | .tick conn => ∀ cap ∈ conn.maxDatagramSize, ¬ c.pump.Idle c.snap →
      fitsOne serializedSize c.pump c.snap cap = true
  | .deliver i => ∀ d ∈ c.flying[i]?, c.client.screen.lastAppliedEpoch < d.epoch →
      c.client.Applies d
  | _ => True

instance (c : Lossy) (a : LossyAction) : Decidable (c.Backing serializedSize width a) :=
  match a with
  | .output _ => inferInstanceAs (Decidable (_ ∧ _))
  | .tick conn => inferInstanceAs (Decidable (∀ cap ∈ conn.maxDatagramSize, _ → _))
  | .deliver i => inferInstanceAs (Decidable (∀ d ∈ c.flying[i]?, _ → _))
  | .deliverAck _ | .client _ => inferInstanceAs (Decidable True)

/-- Some applied run gave the cell that value. -/
def GivenCell (applied : List StateDiff) (r col : ℕ) (x : Cell) : Prop :=
  ∃ d ∈ applied, ((r, col), x) ∈ runCells d.runs

instance (applied : List StateDiff) (r col : ℕ) (x : Cell) :
    Decidable (GivenCell applied r col x) :=
  inferInstanceAs (Decidable (∃ d ∈ applied, _))

/-- Every cell of the grid was given by an applied run. -/
def Given (applied : List StateDiff) (g : Grid Cell) : Prop :=
  ∀ r col x, g.cellAt r col = some x → GivenCell applied r col x

/-- The datagram carries every cell of the grid that no applied run has given. -/
def Completes (applied : List StateDiff) (d : StateDiff) (g : Grid Cell) : Prop :=
  ∀ r col x, g.cellAt r col = some x →
    ((r, col), x) ∈ runCells d.runs ∨ GivenCell applied r col x

/-- The grid stands for `epoch`: datagrams of that epoch complete it, and once one of
them was applied it is given. -/
structure Tracks (c : Lossy) (epoch : ℕ) (g : Grid Cell) : Prop where
  completes : ∀ d ∈ c.flying, d.epoch = epoch → Completes c.applied d g
  given : (∃ d ∈ c.applied, d.epoch = epoch) → Given c.applied g

/-- The invariant of backed runs. -/
structure Backed (c : Lossy) : Prop extends StoreInv c.pump where
  wf : c.snap.WellFormed
  narrow : c.snap.Narrow width
  pending : c.pump.pendingDeferred = []
  flying_le : ∀ d ∈ c.flying, d.epoch ≤ c.pump.currentEpoch
  applied_le : ∀ d ∈ c.applied, d.epoch ≤ c.pump.currentEpoch
  acked : ∀ e ∈ c.acks, ∃ d ∈ c.applied, d.epoch = e
  baseline : Given c.applied c.pump.lastAckedSnapshot
  stored : ∀ entry ∈ c.pump.epochSnapshots, Tracks c entry.1 entry.2
  current : Tracks c c.pump.currentEpoch c.pump.lastSentSnapshot

variable {serializedSize width}

/-! ## Given cells only grow -/

theorem GivenCell.append {r col : ℕ} {x : Cell} (h : GivenCell applied r col x)
    (more : List StateDiff) : GivenCell (applied ++ more) r col x := by
  obtain ⟨d, hd, hmem⟩ := h
  exact ⟨d, List.mem_append_left _ hd, hmem⟩

theorem Given.append (h : Given applied g) (more : List StateDiff) : Given (applied ++ more) g :=
  fun r col x hx => (h r col x hx).append more

theorem Completes.append (h : Completes applied d g) (more : List StateDiff) :
    Completes (applied ++ more) d g :=
  fun r col x hx => (h r col x hx).imp id fun hgiven => hgiven.append more

/-- Applying a datagram that completes a grid gives the grid. -/
theorem Completes.given (h : Completes applied d g) : Given (applied ++ [d]) g := by
  intro r col x hx
  rcases h r col x hx with hmem | hgiven
  · exact ⟨d, by simp, hmem⟩
  · exact hgiven.append [d]

/-! ## The steps -/

theorem backed_start {snap : Snapshot} (hwf : snap.WellFormed) (hnarrow : snap.Narrow width)
    (client : ClientPump) : Backed width (.start snap client) where
  toStoreInv := storeInv_new
  wf := hwf
  narrow := hnarrow
  pending := rfl
  flying_le := by simp [Lossy.start]
  applied_le := by simp [Lossy.start]
  acked := by simp [Lossy.start]
  baseline := by
    intro r col x hx
    simp [Lossy.start, PumpState.new, Grid.cellAt] at hx
  stored := by simp [Lossy.start, PumpState.new]
  current := by
    refine ⟨by simp [Lossy.start], ?_⟩
    rintro ⟨d, hd, -⟩
    cases hd

/-- The datagram of a tick completes the grid it was made from: what it leaves out is in
the acked baseline, which was given. -/
theorem Backed.payload_completes (h : Backed width c) {cap : ℕ} {payload : StateDiff}
    (hlen : (c.pump.allRuns c.snap).length ≤ maxRuns)
    (henc : encodeDatagram serializedSize (c.pump.tickDiff c.snap) cap =
      some (.ok (payload, []))) : Completes c.applied payload c.snap.cells := by
  intro r col x hx
  by_cases hacked : c.pump.lastAckedSnapshot.cellAt r col = some x
  · exact Or.inr (h.baseline r col x hacked)
  · exact Or.inl ((mem_payload_iff h.wf h.narrow h.pending hlen henc _).mpr ⟨hx, hacked⟩)

/-- What a tick that sends does to the grids tracked so far, and to its own. -/
theorem Backed.tracks_afterTick (h : Backed width c) {sent : List StateDiff} {payload : StateDiff}
    (hhead : c.pump.Heads c.snap payload) (hcomp : Completes c.applied payload c.snap.cells)
    (hsent : sent ⊆ [payload]) (pump : PumpState) :
    (∀ entry ∈ c.pump.epochSnapshots,
        Tracks { c with pump := pump, flying := c.flying ++ sent } entry.1 entry.2) ∧
      Tracks { c with pump := pump, flying := c.flying ++ sent } (c.pump.tickEpoch c.snap)
        c.snap.cells := by
  have hmem : ∀ d ∈ c.flying ++ sent, d ∈ c.flying ∨ d = payload := by
    intro d hd
    rcases List.mem_append.mp hd with hd | hd
    · exact Or.inl hd
    · exact Or.inr (List.mem_singleton.mp (hsent hd))
  refine ⟨fun entry hentry => ⟨?_, (h.stored entry hentry).given⟩, ?_, ?_⟩
  · intro d hd hepoch
    rcases hmem d hd with hd | rfl
    · exact (h.stored entry hentry).completes d hd hepoch
    · -- a stored grid of the tick's epoch is the grid the tick read
      rw [hhead.epoch] at hepoch
      obtain ⟨hcur, hcells⟩ :=
        PumpState.eq_current_of_eq_tickEpoch (h.store_le entry hentry) hepoch.symm
      rw [h.store_current entry hentry hcur, ← hcells]
      exact hcomp
  · intro d hd hepoch
    rcases hmem d hd with hd | rfl
    · obtain ⟨hcur, hcells⟩ := PumpState.eq_current_of_eq_tickEpoch (h.flying_le d hd) hepoch
      rw [hcells]
      exact h.current.completes d hd hcur
    · exact hcomp
  · rintro ⟨d, hd, hepoch⟩
    obtain ⟨hcur, hcells⟩ := PumpState.eq_current_of_eq_tickEpoch (h.applied_le d hd) hepoch
    rw [hcells]
    exact h.current.given ⟨d, hd, hcur⟩

theorem Backed.tick (h : Backed width c) {conn : Conn} {out : Tick}
    (hfits : c.Backing serializedSize width (.tick conn))
    (htick : tick serializedSize c.pump c.snap conn = some out) :
    Backed width { c with pump := out.pump, flying := c.flying ++ out.sent } := by
  rcases tick_fits_cases htick hfits with
    rfl | ⟨-, rfl⟩ | ⟨hlen, cap, payload, henc, hsent, hpump⟩
  · simpa using h
  · have hquiet : Backed width { c with pump := { c.pump with pendingDeferred := [] } } :=
      { h with
        pending := rfl
        stored := fun entry hentry => { h.stored entry hentry with }
        current := { h.current with }
        toStoreInv := { h.toStoreInv with } }
    simpa using hquiet
  · have hhead := heads_of_encode henc
    have hcomp := h.payload_completes hlen henc
    obtain ⟨hstored, hcurrent⟩ := h.tracks_afterTick hhead hcomp hsent out.pump
    have hle := c.pump.currentEpoch_le_tickEpoch c.snap
    rw [hpump] at hstored hcurrent ⊢
    refine ⟨h.toStoreInv.afterTick c.snap [], h.wf, h.narrow, rfl, ?_, ?_, h.acked, h.baseline,
      ?_, hcurrent⟩
    · intro d hd
      change d.epoch ≤ c.pump.tickEpoch c.snap
      rcases List.mem_append.mp hd with hd | hd
      · exact le_trans (h.flying_le d hd) hle
      · rw [List.mem_singleton.mp (hsent hd)]
        exact hhead.epoch.le
    · intro d hd
      exact le_trans (h.applied_le d hd) hle
    · intro entry hentry
      rcases mem_storeSnapshot hentry with hold | rfl
      · exact hstored entry hold
      · exact hcurrent

/-- A tracked grid stays tracked when datagrams in flight disappear. -/
theorem Tracks.lose {c' : Lossy} {epoch : ℕ} (h : Tracks c epoch g)
    (happlied : c'.applied = c.applied) (hflying : c'.flying ⊆ c.flying) : Tracks c' epoch g := by
  constructor
  · intro d hd hepoch
    rw [happlied]
    exact h.completes d (hflying hd) hepoch
  · rw [happlied]
    exact h.given

/-- The tracked grids after a datagram was applied. -/
theorem Tracks.receive {epoch : ℕ} (h : Tracks c epoch g) (hd : d ∈ c.flying)
    (happ : c.client.Applies d) : Tracks (c.receive width i d) epoch g := by
  have happlied : (c.receive width i d).applied = c.applied ++ [d] := if_pos happ
  refine ⟨?_, ?_⟩
  · intro d' hd' hepoch
    rw [happlied]
    exact (h.completes d' (List.mem_of_mem_eraseIdx hd') hepoch).append [d]
  · rw [happlied]
    rintro ⟨d', hd', hepoch⟩
    rcases List.mem_append.mp hd' with hd' | hd'
    · exact (h.given ⟨d', hd', hepoch⟩).append [d]
    · rw [List.mem_singleton] at hd'
      subst hd'
      exact (h.completes d' hd hepoch).given

theorem Backed.deliver (h : Backed width c) (hi : c.flying[i]? = some d)
    (hgated : c.client.screen.lastAppliedEpoch < d.epoch → c.client.Applies d) :
    Backed width (c.receive width i d) := by
  have hd : d ∈ c.flying := List.mem_of_getElem? hi
  have hsub : (c.receive width i d).flying ⊆ c.flying :=
    fun d' hd' => List.mem_of_mem_eraseIdx hd'
  by_cases hgate : c.client.screen.lastAppliedEpoch < d.epoch
  · have happ := hgated hgate
    have happlied : (c.receive width i d).applied = c.applied ++ [d] := if_pos happ
    have hacks : (c.receive width i d).acks = c.acks ++ [d.epoch] := by
      simp only [Lossy.receive, (ClientPump.recvDatagram_fresh width hgate).1,
        Option.toList_some]
    refine ⟨h.toStoreInv, h.wf, h.narrow, h.pending, fun d' hd' => h.flying_le d' (hsub hd'),
      ?_, ?_, ?_, fun entry hentry => (h.stored entry hentry).receive hd happ,
      h.current.receive hd happ⟩
    · intro d' hd'
      rw [happlied, List.mem_append, List.mem_singleton] at hd'
      rcases hd' with hd' | rfl
      · exact h.applied_le d' hd'
      · exact h.flying_le d' hd
    · intro e he
      rw [hacks, List.mem_append, List.mem_singleton] at he
      rw [happlied]
      rcases he with he | rfl
      · obtain ⟨d', hd', hepoch⟩ := h.acked e he
        exact ⟨d', List.mem_append_left _ hd', hepoch⟩
      · exact ⟨d, by simp, rfl⟩
    · rw [happlied]
      exact h.baseline.append [d]
  · -- a stale datagram is dropped without an ack
    have hstale := ClientPump.recvDatagram_stale width hgate
    have happlied : (c.receive width i d).applied = c.applied := if_neg fun happ => hgate happ.1
    have hacks : (c.receive width i d).acks = c.acks := by
      simp [Lossy.receive, hstale]
    refine ⟨h.toStoreInv, h.wf, h.narrow, h.pending, fun d' hd' => h.flying_le d' (hsub hd'),
      ?_, ?_, ?_, fun entry hentry => (h.stored entry hentry).lose happlied hsub,
      h.current.lose happlied hsub⟩
    · rw [happlied]
      exact h.applied_le
    · rw [hacks, happlied]
      exact h.acked
    · rw [happlied]
      exact h.baseline

theorem Backed.ack (h : Backed width c) {e : ℕ} (hi : c.acks[i]? = some e) :
    Backed width { c with acks := c.acks.eraseIdx i, pump := c.pump.recvAck e } := by
  have he := h.acked e (List.mem_of_getElem? hi)
  have hacked : ∀ e' ∈ c.acks.eraseIdx i, ∃ d ∈ c.applied, d.epoch = e' :=
    fun e' he' => h.acked e' (List.mem_of_mem_eraseIdx he')
  have hinv := h.toStoreInv.recvAck e
  rcases c.pump.recvAck_cases e with ⟨-, heq⟩ | ⟨-, entry, hmem, hentry, heq⟩ | ⟨-, -, heq⟩
  · rw [heq]
    exact { h with
      acked := hacked
      stored := fun entry hentry => { h.stored entry hentry with }
      current := { h.current with } }
  · rw [heq] at hinv ⊢
    refine ⟨hinv, h.wf, h.narrow, h.pending, h.flying_le, h.applied_le, hacked, ?_, ?_,
      { h.current with }⟩
    · -- the epoch of the entry was applied, so its grid was given
      rw [← hentry] at he
      exact (h.stored entry hmem).given he
    · intro entry' hentry'
      exact { h.stored entry' (List.mem_of_mem_filter hentry') with }
  · rw [heq] at hinv ⊢
    exact ⟨hinv, h.wf, h.narrow, h.pending, h.flying_le, h.applied_le, hacked, h.baseline,
      fun entry hentry => { h.stored entry hentry with }, { h.current with }⟩

/-- Every backing step keeps the invariant. -/
theorem Backed.step {c' : Lossy} {a : LossyAction} (h : Backed width c)
    (hok : c.Backing serializedSize width a) (hstep : c.step serializedSize width a = some c') :
    Backed width c' := by
  cases a with
  | output snap =>
      cases hstep
      exact { h with
        wf := hok.1
        narrow := hok.2
        stored := fun entry hentry => { h.stored entry hentry with }
        current := { h.current with } }
  | tick conn =>
      obtain ⟨out, htick, hc'⟩ := Option.bind_eq_some_iff.mp hstep
      split at hc'
      · cases hc'
      · cases hc'
        exact h.tick hok htick
  | deliver i =>
      obtain ⟨d, hi, rfl⟩ := Option.map_eq_some_iff.mp hstep
      exact h.deliver hi (hok d hi)
  | deliverAck i =>
      obtain ⟨e, hi, rfl⟩ := Option.map_eq_some_iff.mp hstep
      exact h.ack hi
  | client ev =>
      have hclient : ∀ client, Backed width { c with client := client } := fun client =>
        { h with
          stored := fun entry hentry => { h.stored entry hentry with }
          current := { h.current with } }
      cases ev with
      | datagram d => cases hstep
      | serverResize cols rows limited =>
          cases hstep
          exact hclient _
      | page lines total epoch =>
          cases hstep
          exact hclient _
      | stdin csi =>
          cases hstep
          exact hclient _

/-- **Baseline soundness.**  Take any run of the lossy channel, from a narrow terminal
and any client, whose steps are backing ones.  When an ack arrives, every cell in
which the new baseline differs from the previous one was given that value by a run
the client had received and applied. -/
theorem installed_baseline_backed {snap : Snapshot} (hwf : snap.WellFormed)
    (hnarrow : snap.Narrow width) (client : ClientPump) {as : List LossyAction} {c c' : Lossy}
    {i : ℕ}
    (hok : (lossy serializedSize width).Along (Lossy.Backing serializedSize width)
      (.start snap client) as)
    (hrun : (lossy serializedSize width).run (.start snap client) as = some c)
    (hack : c.step serializedSize width (.deliverAck i) = some c') :
    ∀ r col x, c'.pump.lastAckedSnapshot.cellAt r col = some x →
      c.pump.lastAckedSnapshot.cellAt r col ≠ some x → GivenCell c.applied r col x := by
  have hinv : Backed width c :=
    (lossy serializedSize width).invariant_along _
      (fun c a c' hc ha hs => Backed.step hc ha hs) (backed_start hwf hnarrow client) hok hrun
  have hbacking : c.Backing serializedSize width (.deliverAck i) := trivial
  have hinv' : Backed width c' := hinv.step hbacking hack
  obtain ⟨e, -, rfl⟩ := Option.map_eq_some_iff.mp hack
  intro r col x hx _
  exact hinv'.baseline r col x hx

end

/-- Two epochs of one cell; the first is acked, the second is applied. -/
def secondApplied : Lossy :=
  ((lossy StateDiff.postcardSize fun _ => some 1).run (.start (oneCell 'a') (.new 1 1 false))
    [.tick (.ideal 1200), .deliver 0, .deliverAck 0, .output (oneCell 'b'), .tick (.ideal 1200),
      .deliver 0]).getD (.start (oneCell 'a') (.new 1 1 false))

/-- The ack of the second epoch arrives. -/
def secondAcked : Lossy :=
  (secondApplied.step StateDiff.postcardSize (fun _ => some 1) (.deliverAck 0)).getD secondApplied

theorem installed_baseline_backed_second :
    secondApplied.pump.lastAckedSnapshot = (oneCell 'a').cells ∧
      secondAcked.pump.lastAckedSnapshot = (oneCell 'b').cells ∧
      ∀ r col x, secondAcked.pump.lastAckedSnapshot.cellAt r col = some x →
        secondApplied.pump.lastAckedSnapshot.cellAt r col ≠ some x →
          GivenCell secondApplied.applied r col x := by
  have hrun : (lossy StateDiff.postcardSize fun _ => some 1).run
      (.start (oneCell 'a') (.new 1 1 false))
      [.tick (.ideal 1200), .deliver 0, .deliverAck 0, .output (oneCell 'b'),
        .tick (.ideal 1200), .deliver 0] = some secondApplied := by
    decide
  have hack : secondApplied.step StateDiff.postcardSize (fun _ => some 1) (.deliverAck 0) =
      some secondAcked := by
    decide
  refine ⟨by decide, by decide, ?_⟩
  exact installed_baseline_backed (by decide) (by decide) _ (by decide) hrun hack

/-- **The ack of a burst overtakes its datagrams.**  A full row needs two datagrams, of
which the second is lost.  The ack of the first installs the whole row as the
baseline, the last column included, which no applied run carried. -/
theorem burst_ack_overtakes :
    ∃ c ∈ (lossy StateDiff.postcardSize fun _ => some 1).run
        (.start (longRow '𝐀') (.new 310 1 false)) [.tick (.ideal 1200), .deliver 0],
      ∃ c' ∈ c.step StateDiff.postcardSize (fun _ => some 1) (.deliverAck 0),
        c'.pump.lastAckedSnapshot.cellAt 0 309 = some (plainCell '𝐀') ∧
        c.pump.lastAckedSnapshot.cellAt 0 309 ≠ some (plainCell '𝐀') ∧
        ¬ GivenCell c.applied 0 309 (plainCell '𝐀') := by
  decide +kernel

end Nosh.Sync
