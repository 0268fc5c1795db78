import Nosh.Server.Diff

/-!
# The server pump: diff tick, burst, epoch acks

`build_state_diff`, `send_burst`, the diff-tick arm and the epoch-ack arm of
`nosh-server/src/server.rs`; `run_session` and `run_reattach_session` have the
same two arms.

What a tick reads from `TerminalState` under its lock is a `Snapshot`.  What the
transport does during a tick is a `Conn`: the datagram size limit, the free
buffer space and the outcome of each send.

## Main results

* `tick_cases` — a tick is skipped, or it sends under `tickEpoch`, stores the
  snapshot and makes it the last sent one.
* `tick_sent_header` — all datagrams of a tick share the header of its diff.
* `tick_cells` — what a tick sends and what it carries over are cells of the
  carried-over runs and of the fresh diff.
-/

namespace Nosh.Server

open Nosh.Lib Nosh.Proto

/-- What `build_state_diff` reads from `TerminalState`. -/
structure Snapshot where
  cols : ℕ
  rows : ℕ
  cursor : CursorPos
  altScreen : Bool
  cells : Grid Cell
  deriving DecidableEq, Repr

/-- A terminal of one cell that shows `ch`. -/
def oneCell (ch : Char) : Snapshot where
  cols := 1
  rows := 1
  cursor := ⟨0, 0⟩
  altScreen := false
  cells := [[⟨ch, .none, none, none, false⟩]]

/-- The grid is as large as the dimensions say, and these are `u16`s. -/
def Snapshot.WellFormed (snap : Snapshot) : Prop :=
  snap.cells.HasShape snap.rows snap.cols ∧ snap.cols ≤ u16Max

instance (snap : Snapshot) : Decidable snap.WellFormed :=
  inferInstanceAs (Decidable (_ ∧ _))

/-- The grid holds width-1 characters only. -/
def Snapshot.Narrow (width : Char → Option ℕ) (snap : Snapshot) : Prop :=
  ∀ row ∈ snap.cells, ∀ c ∈ row, c.wide = false ∧ width c.ch = some 1

instance (width : Char → Option ℕ) (snap : Snapshot) : Decidable (snap.Narrow width) :=
  inferInstanceAs (Decidable (∀ row ∈ snap.cells, ∀ c ∈ row, c.wide = false ∧ width c.ch = some 1))

theorem Snapshot.Narrow.plain {width : Char → Option ℕ} {snap : Snapshot}
    (h : snap.Narrow width) : PlainGrid snap.cells :=
  fun row hrow c hc => (h row hrow c hc).1

/-- The datagram state of the pump. -/
structure PumpState where
  currentEpoch : ℕ
  lastAckedEpoch : ℕ
  lastAckedSnapshot : Grid Cell
  lastSentSnapshot : Grid Cell
  pendingDeferred : List DiffRun
  /-- `epoch_snapshots`, oldest first. -/
  epochSnapshots : List (ℕ × Grid Cell)
  deriving DecidableEq, Repr

/-- The pump before its first tick. -/
def PumpState.new : PumpState := ⟨0, 0, [], [], [], []⟩

/-- `EPOCH_SNAPSHOT_CAP`. -/
def epochSnapshotCap : ℕ := 16

/-- `BURST_CAP`. -/
def burstCap : ℕ := 64

/-- `SendDatagramError`. -/
inductive SendDatagramError
  | tooLarge
  | unsupportedByPeer
  | disabled
  | connectionLost
  deriving DecidableEq, Repr

/-- The behaviour of the transport during one tick.  `bufferSpace n` and
`sendResult n` are what it answers after, and for, the `n`-th send of the tick;
`sendResult n = none` is success. -/
structure Conn where
  maxDatagramSize : Option ℕ
  bufferSpace : ℕ → ℕ
  sendResult : ℕ → Option SendDatagramError

/-- A transport on which every send succeeds and whose buffer never fills. -/
def Conn.ideal (cap : ℕ) : Conn := ⟨some cap, fun _ => cap, fun _ => none⟩

/-- `DiffTickResult`; the payload is the diff it carries, and the geometry is that
of the payload's header. -/
structure DiffTickResult where
  payload : StateDiff
  sentCells : Grid Cell
  epoch : ℕ
  deferred : List DiffRun
  cols : ℕ
  rows : ℕ
  cursor : CursorPos
  altScreen : Bool
  deriving DecidableEq, Repr

/-- The header of the burst datagrams: the tick's epoch and geometry. -/
def DiffTickResult.header (result : DiffTickResult) : StateDiff where
  epoch := result.epoch
  cols := result.cols
  rows := result.rows
  cursor := result.cursor
  altScreen := result.altScreen
  runs := []

namespace PumpState

/-- The tick has nothing to do: grid unchanged and client caught up. -/
def Idle (p : PumpState) (snap : Snapshot) : Prop :=
  snap.cells = p.lastAckedSnapshot ∧ p.currentEpoch ≤ p.lastAckedEpoch

instance (p : PumpState) (snap : Snapshot) : Decidable (p.Idle snap) :=
  inferInstanceAs (Decidable (_ ∧ _))

/-- The tick starts a new epoch: the grid is not the last sent one, or runs were
carried over. -/
def Advances (p : PumpState) (snap : Snapshot) : Prop :=
  snap.cells ≠ p.lastSentSnapshot ∨ p.pendingDeferred ≠ []

instance (p : PumpState) (snap : Snapshot) : Decidable (p.Advances snap) :=
  inferInstanceAs (Decidable (_ ∨ _))

/-- The epoch a tick sends under. -/
def tickEpoch (p : PumpState) (snap : Snapshot) : ℕ :=
  if p.Advances snap then p.currentEpoch + 1 else p.currentEpoch

/-- All runs a tick wants to send, carried-over ones first. -/
def allRuns (p : PumpState) (snap : Snapshot) : List DiffRun :=
  p.pendingDeferred ++ computeDiffRuns snap.cells p.lastAckedSnapshot

/-- The diff a tick encodes; the run list is truncated from the end. -/
def tickDiff (p : PumpState) (snap : Snapshot) : StateDiff where
  epoch := p.tickEpoch snap
  cols := snap.cols
  rows := snap.rows
  cursor := snap.cursor
  altScreen := snap.altScreen
  runs := (p.allRuns snap).take maxRuns

/-- `push_back` on the snapshot store and `pop_front` beyond its cap. -/
def storeSnapshot (store : List (ℕ × Grid Cell)) (epoch : ℕ) (cells : Grid Cell) :
    List (ℕ × Grid Cell) :=
  let store := store ++ [(epoch, cells)]
  if epochSnapshotCap < store.length then store.tail else store

end PumpState

section Tick

variable (serializedSize : StateDiff → ℕ)

/-- `build_state_diff`: the new value of `current_epoch` and the result, if any.
The outer `none` is a panic of `encode_datagram`. -/
def buildStateDiff (p : PumpState) (snap : Snapshot) (cap : ℕ) :
    Option (ℕ × Option DiffTickResult) :=
  if cap < minCap then some (p.currentEpoch, none)
  else if p.Idle snap then some (p.currentEpoch, none)
  else
    match encodeDatagram serializedSize (p.tickDiff snap) cap with
    | none => none
    | some (.error _) => some (p.tickEpoch snap, none)
    | some (.ok (payload, deferred)) =>
        some (p.tickEpoch snap, some
          { payload := payload
            sentCells := snap.cells
            epoch := p.tickEpoch snap
            deferred := deferred
            cols := snap.cols
            rows := snap.rows
            cursor := snap.cursor
            altScreen := snap.altScreen })

/-- What a burst leaves behind: the datagrams handed to the network, the leftover
runs, and whether the transport was lost. -/
structure Burst where
  sent : List StateDiff
  leftover : List DiffRun
  transportLost : Bool
  deriving DecidableEq, Repr

/-- The burst loop with `budget` iterations left before `BURST_CAP` and `count`
sends behind it. -/
def burstLoop (conn : Conn) (header : StateDiff) (cap : ℕ) :
    ℕ → ℕ → List DiffRun → Option Burst
  | 0, _, deferred => some ⟨[], deferred, false⟩
  | budget + 1, count, deferred =>
      if deferred.isEmpty ∨ conn.bufferSpace count < cap then some ⟨[], deferred, false⟩
      else
        match encodeDatagram serializedSize { header with runs := deferred } cap with
        | none => none
        | some (.error _) => some ⟨[], [], false⟩
        | some (.ok (payload, next)) =>
            match conn.sendResult count with
            | none =>
                (burstLoop conn header cap budget (count + 1) next).map fun out =>
                  { out with sent := payload :: out.sent }
            | some .tooLarge => burstLoop conn header cap budget (count + 1) next
            | some .unsupportedByPeer | some .disabled | some .connectionLost =>
                some ⟨[], next, true⟩

/-- `send_burst`. -/
def sendBurst (conn : Conn) (result : DiffTickResult) (cap : ℕ) : Option Burst :=
  match conn.sendResult 0 with
  | some .tooLarge => some ⟨[], result.deferred, false⟩
  | some .unsupportedByPeer | some .disabled | some .connectionLost =>
      some ⟨[], result.deferred, true⟩
  | none =>
      -- the first datagram counts towards the cap
      (burstLoop serializedSize conn result.header cap (burstCap - 1) 1 result.deferred).map
        fun out => { out with sent := result.payload :: out.sent }

/-- The outcome of the diff-tick arm. -/
structure Tick where
  pump : PumpState
  sent : List StateDiff
  transportLost : Bool
  deriving DecidableEq, Repr

/-- The pump state after a tick that sent. -/
def PumpState.afterTick (p : PumpState) (snap : Snapshot) (leftover : List DiffRun) : PumpState :=
  { p with
    currentEpoch := p.tickEpoch snap
    lastSentSnapshot := snap.cells
    pendingDeferred := leftover
    epochSnapshots := PumpState.storeSnapshot p.epochSnapshots (p.tickEpoch snap) snap.cells }

/-- The diff-tick arm.  The carried-over runs are taken out of the state before
`build_state_diff`, so a skipped tick loses them. -/
def tick (p : PumpState) (snap : Snapshot) (conn : Conn) : Option Tick :=
  match conn.maxDatagramSize with
  | none => some ⟨p, [], false⟩
  | some cap =>
      if cap < minCap then some ⟨p, [], false⟩
      else
        match buildStateDiff serializedSize p snap cap with
        | none => none
        | some (epoch, none) =>
            some ⟨{ p with currentEpoch := epoch, pendingDeferred := [] }, [], false⟩
        | some (epoch, some result) =>
            (sendBurst serializedSize conn result cap).map fun out =>
              { pump :=
                  { p with
                    currentEpoch := epoch
                    lastSentSnapshot := result.sentCells
                    pendingDeferred := out.leftover
                    epochSnapshots :=
                      PumpState.storeSnapshot p.epochSnapshots result.epoch result.sentCells }
                sent := out.sent
                transportLost := out.transportLost }

/-- The epoch-ack arm: only a newer ack counts, and its snapshot, if still stored,
becomes the baseline.  The entry removed at its position is dropped by the
`retain` that follows as well. -/
def PumpState.recvAck (p : PumpState) (acked : ℕ) : PumpState :=
  if p.lastAckedEpoch < acked then
    match p.epochSnapshots.find? fun entry => entry.1 = acked with
    | some entry =>
        { p with
          lastAckedEpoch := acked
          lastAckedSnapshot := entry.2
          epochSnapshots := p.epochSnapshots.filter fun entry => acked < entry.1 }
    | none => { p with lastAckedEpoch := acked }
  else p

/-- The diff of a tick fits one datagram: nothing truncated, nothing deferred. -/
def fitsOne (p : PumpState) (snap : Snapshot) (cap : ℕ) : Bool :=
  decide ((p.allRuns snap).length ≤ maxRuns) &&
    match encodeDatagram serializedSize (p.tickDiff snap) cap with
    | some (.ok (_, [])) => true
    | _ => false

/-! ## What a tick can do -/

variable {serializedSize}

variable {cap budget count : ℕ} {p : PumpState} {snap : Snapshot} {conn : Conn} {out : Tick}
    {deferred : List DiffRun} {payload : StateDiff}

/-- Above `MIN_CAP` the encoder does not fail. -/
theorem encodeDatagram_ok {diff : StateDiff} {r : Except ProtoError (StateDiff × List DiffRun)}
    (hcap : ¬ cap < minCap) (h : encodeDatagram serializedSize diff cap = some r) :
    ∃ payload deferred, r = .ok (payload, deferred) := by
  unfold encodeDatagram at h
  rw [if_neg hcap] at h
  dsimp only at h
  split at h
  · cases h
    exact ⟨_, _, rfl⟩
  · cases h

/-- The result a tick hands to `send_burst`. -/
def PumpState.tickResult (p : PumpState) (snap : Snapshot) (payload : StateDiff)
    (deferred : List DiffRun) : DiffTickResult where
  payload := payload
  sentCells := snap.cells
  epoch := p.tickEpoch snap
  deferred := deferred
  cols := snap.cols
  rows := snap.rows
  cursor := snap.cursor
  altScreen := snap.altScreen

/-- **The cases of a tick.**  Without datagrams nothing happens; an idle pump drops
its carried-over runs; else the diff is encoded and sent as a burst. -/
theorem tick_cases (h : tick serializedSize p snap conn = some out) :
    out = ⟨p, [], false⟩ ∨
      (p.Idle snap ∧ out = ⟨{ p with pendingDeferred := [] }, [], false⟩) ∨
      (¬ p.Idle snap ∧ ∃ cap payload deferred leftover, conn.maxDatagramSize = some cap ∧
        encodeDatagram serializedSize (p.tickDiff snap) cap = some (.ok (payload, deferred)) ∧
        sendBurst serializedSize conn (p.tickResult snap payload deferred) cap =
          some ⟨out.sent, leftover, out.transportLost⟩ ∧
        out.pump = p.afterTick snap leftover) := by
  unfold tick at h
  split at h
  · cases h
    exact Or.inl rfl
  · next cap hmax =>
      split at h
      · cases h
        exact Or.inl rfl
      · next hcap =>
          refine Or.inr ?_
          unfold buildStateDiff at h
          rw [if_neg hcap] at h
          by_cases hidle : p.Idle snap
          · rw [if_pos hidle] at h
            cases h
            exact Or.inl ⟨hidle, rfl⟩
          · refine Or.inr ⟨hidle, ?_⟩
            rw [if_neg hidle] at h
            cases henc : encodeDatagram serializedSize (p.tickDiff snap) cap with
            | none => simp [henc] at h
            | some r =>
                obtain ⟨payload, deferred, rfl⟩ := encodeDatagram_ok hcap henc
                simp only [henc, Option.map_eq_some_iff] at h
                obtain ⟨burst, hburst, rfl⟩ := h
                exact ⟨cap, payload, deferred, burst.leftover, hmax, henc, hburst, rfl⟩

/-- A burst stops at a failed first send, or continues with the loop. -/
theorem sendBurst_cases {result : DiffTickResult} {out : Burst}
    (h : sendBurst serializedSize conn result cap = some out) :
    (out.sent = [] ∧ out.leftover = result.deferred) ∨
      ∃ rest, burstLoop serializedSize conn result.header cap (burstCap - 1) 1 result.deferred =
          some rest ∧
        out = { rest with sent := result.payload :: rest.sent } := by
  unfold sendBurst at h
  split at h
  case h_5 =>
    rw [Option.map_eq_some_iff] at h
    obtain ⟨rest, hrest, rfl⟩ := h
    exact Or.inr ⟨rest, hrest, rfl⟩
  all_goals
    cases h
    exact Or.inl ⟨rfl, rfl⟩

/-- The cases of one iteration of the burst loop: it stops, it skips an oversized
datagram, or it sends one. -/
theorem burstLoop_succ_cases {header : StateDiff} {out : Burst}
    (h : burstLoop serializedSize conn header cap (budget + 1) count deferred = some out) :
    (out.sent = [] ∧ (out.leftover = deferred ∨ out.leftover = [] ∨
        ∃ payload, encodeDatagram serializedSize { header with runs := deferred } cap =
          some (.ok (payload, out.leftover)))) ∨
      ∃ payload next rest,
        encodeDatagram serializedSize { header with runs := deferred } cap =
          some (.ok (payload, next)) ∧
        burstLoop serializedSize conn header cap budget (count + 1) next = some rest ∧
        (out = rest ∨ out = { rest with sent := payload :: rest.sent }) := by
  rw [burstLoop] at h
  split at h
  · cases h
    exact Or.inl ⟨rfl, Or.inl rfl⟩
  · split at h
    · cases h
    · cases h
      exact Or.inl ⟨rfl, Or.inr (Or.inl rfl)⟩
    · next payload next henc =>
        split at h
        · rw [Option.map_eq_some_iff] at h
          obtain ⟨rest, hrest, rfl⟩ := h
          exact Or.inr ⟨payload, next, rest, henc, hrest, Or.inr rfl⟩
        · exact Or.inr ⟨payload, next, out, henc, h, Or.inl rfl⟩
        all_goals
          cases h
          exact Or.inl ⟨rfl, Or.inr (Or.inr ⟨payload, henc⟩)⟩

theorem fitsOne_spec (h : fitsOne serializedSize p snap cap = true) :
    (p.allRuns snap).length ≤ maxRuns ∧ ∃ payload,
      encodeDatagram serializedSize (p.tickDiff snap) cap = some (.ok (payload, [])) := by
  rw [fitsOne, Bool.and_eq_true, decide_eq_true_eq] at h
  obtain ⟨hlen, hfit⟩ := h
  refine ⟨hlen, ?_⟩
  split at hfit
  · next payload henc => exact ⟨payload, henc⟩
  · cases hfit

theorem burstLoop_nil (conn : Conn) (header : StateDiff) (cap budget count : ℕ) :
    burstLoop serializedSize conn header cap budget count [] = some ⟨[], [], false⟩ := by
  cases budget with
  | zero => rfl
  | succ budget =>
      rw [burstLoop, if_pos]
      exact Or.inl rfl

/-- A tick whose diff fits one datagram leaves nothing over and sends that datagram
or, when the first send fails, nothing. -/
theorem tick_fits_cases (h : tick serializedSize p snap conn = some out)
    (hfits : ∀ cap, conn.maxDatagramSize = some cap → ¬ p.Idle snap →
      fitsOne serializedSize p snap cap = true) :
    out = ⟨p, [], false⟩ ∨
      (p.Idle snap ∧ out = ⟨{ p with pendingDeferred := [] }, [], false⟩) ∨
      ((p.allRuns snap).length ≤ maxRuns ∧ ∃ cap payload,
        encodeDatagram serializedSize (p.tickDiff snap) cap = some (.ok (payload, [])) ∧
        out.sent ⊆ [payload] ∧ out.pump = p.afterTick snap []) := by
  rcases tick_cases h with
    rfl | hidle | ⟨hidle, cap, payload, deferred, leftover, hmax, henc, hburst, hp⟩
  · exact Or.inl rfl
  · exact Or.inr (Or.inl hidle)
  · obtain ⟨hlen, payload', henc'⟩ := fitsOne_spec (hfits cap hmax hidle)
    rw [henc'] at henc
    cases henc
    refine Or.inr (Or.inr ⟨hlen, cap, payload, henc', ?_⟩)
    rcases sendBurst_cases hburst with ⟨hnil, hleft⟩ | ⟨rest, hrest, heq⟩
    · have hleft' : leftover = [] := hleft
      have hnil' : out.sent = [] := hnil
      rw [hnil', hp, hleft']
      exact ⟨List.nil_subset _, rfl⟩
    · have hrest' : rest = ⟨[], [], false⟩ :=
        Option.some.inj (hrest.symm.trans (burstLoop_nil ..))
      subst hrest'
      have hsent : out.sent = [payload] := congrArg Burst.sent heq
      have hleft : leftover = [] := congrArg Burst.leftover heq
      rw [hsent, hp, hleft]
      exact ⟨List.Subset.refl _, rfl⟩

/-- On an ideal transport an idle tick only drops the carried-over runs. -/
theorem tick_ideal_idle (hcap : minCap ≤ cap) (hidle : p.Idle snap) :
    tick serializedSize p snap (Conn.ideal cap) =
      some ⟨{ p with pendingDeferred := [] }, [], false⟩ := by
  have hcap' : ¬ cap < minCap := by omega
  simp only [tick, Conn.ideal, buildStateDiff, if_neg hcap', if_pos hidle]

/-- On an ideal transport a diff that fits one datagram is sent as that datagram. -/
theorem tick_ideal_fits (hcap : minCap ≤ cap) (hidle : ¬ p.Idle snap)
    (henc : encodeDatagram serializedSize (p.tickDiff snap) cap = some (.ok (payload, []))) :
    tick serializedSize p snap (Conn.ideal cap) =
      some ⟨p.afterTick snap [], [payload], false⟩ := by
  have hcap' : ¬ cap < minCap := by omega
  simp only [tick, Conn.ideal, buildStateDiff, if_neg hcap', if_neg hidle, henc, sendBurst,
    burstLoop_nil, Option.map_some]
  rfl

/-! ## Headers -/

theorem burstLoop_header {header : StateDiff} {out : Burst}
    (h : burstLoop serializedSize conn header cap budget count deferred = some out) :
    ∀ d ∈ out.sent, d = { header with runs := d.runs } := by
  induction budget generalizing count deferred out with
  | zero =>
      cases h
      simp
  | succ budget ih =>
      rcases burstLoop_succ_cases h with ⟨hnil, -⟩ | ⟨payload, next, rest, henc, hrest, rfl | rfl⟩
      · simp [hnil]
      · exact ih hrest
      · rw [List.forall_mem_cons]
        have hpayload := encodeDatagram_header henc
        exact ⟨hpayload, ih hrest⟩

/-- The datagram has the header of the tick that reads `snap`. -/
structure PumpState.Heads (p : PumpState) (snap : Snapshot) (d : StateDiff) : Prop where
  epoch : d.epoch = p.tickEpoch snap
  cols : d.cols = snap.cols
  rows : d.rows = snap.rows
  cursor : d.cursor = snap.cursor
  altScreen : d.altScreen = snap.altScreen

theorem heads_of_encode
    (h : encodeDatagram serializedSize (p.tickDiff snap) cap = some (.ok (payload, deferred))) :
    p.Heads snap payload := by
  rw [encodeDatagram_header h]
  exact ⟨rfl, rfl, rfl, rfl, rfl⟩

/-- Every datagram of a tick has the tick's header: its epoch, geometry and flags. -/
theorem tick_sent_header (h : tick serializedSize p snap conn = some out) :
    ∀ d ∈ out.sent, p.Heads snap d := by
  rcases tick_cases h with
    rfl | ⟨-, rfl⟩ | ⟨-, cap, payload, deferred, leftover, -, henc, hburst, -⟩
  · simp
  · simp
  · rcases sendBurst_cases hburst with ⟨hnil, -⟩ | ⟨rest, hrest, heq⟩
    · dsimp only at hnil
      simp [hnil]
    · have hsent : out.sent = payload :: rest.sent := congrArg Burst.sent heq
      rw [hsent, List.forall_mem_cons]
      refine ⟨heads_of_encode henc, fun d hd => ?_⟩
      rw [burstLoop_header hrest d hd]
      exact ⟨rfl, rfl, rfl, rfl, rfl⟩

/-! ## Cells -/

/-- Every cell of `runs` is a cell of `source`, and the runs stay bounded. -/
def CarriesFrom (source runs : List DiffRun) : Prop :=
  runCells runs ⊆ runCells source ∧ ∀ r ∈ runs, r.Bounded

/-- What `encode_datagram` keeps and what it defers come from the runs of the diff. -/
theorem encodeDatagram_carries {diff : StateDiff}
    (h : encodeDatagram serializedSize diff cap = some (.ok (payload, deferred)))
    (hb : ∀ r ∈ diff.runs, r.Bounded) :
    runCells payload.runs ⊆ runCells diff.runs ∧ CarriesFrom diff.runs deferred := by
  obtain ⟨hperm, hbound⟩ := encodeDatagram_perm h hb
  have hsub := hperm.subset
  exact ⟨fun w hw => hsub (List.mem_append_left _ hw),
    fun w hw => hsub (List.mem_append_right _ hw), hbound⟩

theorem burstLoop_carries {header : StateDiff} {out : Burst}
    (h : burstLoop serializedSize conn header cap budget count deferred = some out)
    (hb : ∀ r ∈ deferred, r.Bounded) :
    (∀ d ∈ out.sent, runCells d.runs ⊆ runCells deferred) ∧
      CarriesFrom deferred out.leftover := by
  induction budget generalizing count deferred out with
  | zero =>
      cases h
      exact ⟨by simp, fun _ hw => hw, hb⟩
  | succ budget ih =>
      rcases burstLoop_succ_cases h with
        ⟨hnil, heq | heq | ⟨payload, henc⟩⟩ | ⟨payload, next, rest, henc, hrest, hout⟩
      · rw [hnil, heq]
        exact ⟨by simp, fun _ hw => hw, hb⟩
      · rw [hnil, heq]
        exact ⟨by simp, by simp, by simp⟩
      · rw [hnil]
        exact ⟨by simp, (encodeDatagram_carries henc hb).2⟩
      · obtain ⟨hpayload, hnext, hbnext⟩ := encodeDatagram_carries henc hb
        obtain ⟨hsent, hleft, hbleft⟩ := ih hrest hbnext
        have hsent' : ∀ d ∈ rest.sent, runCells d.runs ⊆ runCells deferred :=
          fun d hd => List.Subset.trans (hsent d hd) hnext
        have hleft' : runCells rest.leftover ⊆ runCells deferred := List.Subset.trans hleft hnext
        rcases hout with rfl | rfl
        · exact ⟨hsent', hleft', hbleft⟩
        · rw [List.forall_mem_cons]
          exact ⟨⟨hpayload, hsent'⟩, hleft', hbleft⟩

/-- **What a tick carries.**  Sent and carried-over cells all come from the runs
the tick set out to send. -/
theorem tick_cells (h : tick serializedSize p snap conn = some out)
    (hb : ∀ r ∈ p.allRuns snap, r.Bounded) :
    (∀ d ∈ out.sent, runCells d.runs ⊆ runCells (p.allRuns snap)) ∧
      CarriesFrom (p.allRuns snap) out.pump.pendingDeferred := by
  have hpending : CarriesFrom (p.allRuns snap) p.pendingDeferred := by
    refine ⟨?_, fun r hr => hb r (List.mem_append_left _ hr)⟩
    unfold PumpState.allRuns
    rw [runCells_append]
    exact List.subset_append_left _ _
  rcases tick_cases h with
    rfl | ⟨-, rfl⟩ | ⟨-, cap, payload, deferred, leftover, -, henc, hburst, hp⟩
  · exact ⟨by simp, hpending⟩
  · exact ⟨by simp, by simp [CarriesFrom]⟩
  · have htake : (p.tickDiff snap).runs ⊆ p.allRuns snap := List.take_subset _ _
    have hcells : runCells (p.tickDiff snap).runs ⊆ runCells (p.allRuns snap) := by
      intro w hw
      obtain ⟨run, hrun, hw⟩ := mem_runCells.mp hw
      exact mem_runCells.mpr ⟨run, htake hrun, hw⟩
    obtain ⟨hpayload, hdef, hbdef⟩ :=
      encodeDatagram_carries henc fun r hr => hb r (htake hr)
    have hdef' : runCells deferred ⊆ runCells (p.allRuns snap) := List.Subset.trans hdef hcells
    have hp' : out.pump.pendingDeferred = leftover := by rw [hp]; rfl
    rw [hp']
    rcases sendBurst_cases hburst with ⟨hnil, hleft⟩ | ⟨rest, hrest, heq⟩
    · dsimp only at hnil hleft
      rw [hnil, hleft]
      exact ⟨by simp, hdef', hbdef⟩
    · have hsent : out.sent = payload :: rest.sent := congrArg Burst.sent heq
      have hleft : leftover = rest.leftover := congrArg Burst.leftover heq
      obtain ⟨hrsent, hrleft, hrb⟩ := burstLoop_carries hrest hbdef
      rw [hsent, hleft, List.forall_mem_cons]
      refine ⟨⟨List.Subset.trans hpayload hcells, fun d hd => ?_⟩, ?_, hrb⟩
      · exact List.Subset.trans (hrsent d hd) hdef'
      · exact List.Subset.trans hrleft hdef'

/-- A well-formed snapshot gives bounded fresh runs. -/
theorem fresh_bounded (hwf : snap.WellFormed) (baseline : Grid Cell) :
    ∀ r ∈ computeDiffRuns snap.cells baseline, r.Bounded := by
  refine computeDiffRuns_bounded fun row hrow => ?_
  rw [hwf.1.2 row hrow]
  exact hwf.2

/-- **A diff in one datagram.**  If nothing was carried over, truncated or
deferred, the datagram carries exactly the cells that differ from the acked
baseline. -/
theorem mem_payload_iff {width : Char → Option ℕ} (hwf : snap.WellFormed)
    (hnarrow : snap.Narrow width) (hpending : p.pendingDeferred = [])
    (hlen : (p.allRuns snap).length ≤ maxRuns)
    (henc : encodeDatagram serializedSize (p.tickDiff snap) cap = some (.ok (payload, [])))
    (w : (ℕ × ℕ) × Cell) :
    w ∈ runCells payload.runs ↔
      snap.cells.cellAt w.1.1 w.1.2 = some w.2 ∧
        p.lastAckedSnapshot.cellAt w.1.1 w.1.2 ≠ some w.2 := by
  have hruns : (p.tickDiff snap).runs = computeDiffRuns snap.cells p.lastAckedSnapshot := by
    have hall : (p.tickDiff snap).runs = p.allRuns snap := List.take_of_length_le hlen
    rw [hall, PumpState.allRuns, hpending, List.nil_append]
  have hperm := (encodeDatagram_perm henc (by
    rw [hruns]
    exact fresh_bounded hwf _)).1
  rw [runCells_nil, List.append_nil, hruns] at hperm
  rw [hperm.mem_iff, mem_computeDiffRuns hnarrow.plain]

end Tick

end Nosh.Server
