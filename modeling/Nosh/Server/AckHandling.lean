import Nosh.Lib.Machine
import Nosh.Proto.Payload
import Nosh.Server.Store

/-!
# Epoch acks from an arbitrary client

The epoch-ack arm of both session pumps on arbitrary datagrams: whatever does not decode is
ignored, an old epoch is ignored, and any newer one moves `last_acked_epoch`, whether or not the
pump has ever sent it. The comments call the arm self-correcting. A single ack for an epoch in the
future ends that: every later ack is then an old one.

## Main Definitions

* `AckedPump` — the pump with the history of what was sent, acked and installed
* `AckedPump.SelfCorrecting` — the acked epoch is not ahead, the baseline only gets newer, and the
  next genuine ack installs its snapshot
* `AckedPump.AcksSent` — the datagram is no ack for an epoch in the future

## Main Results

* `StoreTracked.recvAck`, `StoreTracked.afterTick` — while no ack is ahead, the store holds every
  epoch from its oldest to the current one, and all of it is newer than the baseline.
* `selfCorrecting_iff` — **the pump is self-correcting throughout a run exactly when no ack of the
  run names an epoch that has not begun**.
-/

namespace Nosh.Server

open Lib Proto

variable {store : List (ℕ × Grid Cell)} {acked epoch : ℕ} {a : ℕ × Grid Cell} {p : PumpState}
    {cells : Grid Cell}

/-! ## The store while no ack is ahead -/

/-- What ties the acked epoch and the baseline to the store. -/
structure StoreTracked (p : PumpState) : Prop extends StoreInv p where
  le : p.lastAckedEpoch ≤ p.currentEpoch
  sorted : p.epochSnapshots.Pairwise fun a b => a.1 ≤ b.1
  /-- The copies of an epoch are of one grid. -/
  same : ∀ a ∈ p.epochSnapshots, ∀ b ∈ p.epochSnapshots, a.1 = b.1 → a.2 = b.2
  /-- No epoch is missing between an entry and the current epoch. -/
  filled : ∀ a ∈ p.epochSnapshots, ∀ epoch, a.1 ≤ epoch → epoch ≤ p.currentEpoch →
    ∃ b ∈ p.epochSnapshots, b.1 = epoch
  newest : p.lastAckedEpoch < p.currentEpoch → ∃ a ∈ p.epochSnapshots, a.1 = p.currentEpoch
  level : p.lastAckedEpoch = p.currentEpoch → p.lastAckedSnapshot = p.lastSentSnapshot
  above : ∀ a ∈ p.epochSnapshots,
    p.lastAckedEpoch < a.1 ∨ (p.lastAckedEpoch = a.1 ∧ a.2 = p.lastAckedSnapshot)

theorem storeTracked_new : StoreTracked .new where
  toStoreInv := storeInv_new
  le := le_rfl
  sorted := List.Pairwise.nil
  same := fun _ h => (List.not_mem_nil h).elim
  filled := fun _ h => (List.not_mem_nil h).elim
  newest := fun h => absurd h (lt_irrefl _)
  level := fun _ => rfl
  above := fun _ h => (List.not_mem_nil h).elim

theorem mem_filter_newer (ha : a ∈ store) (hnewer : acked < a.1) :
    a ∈ store.filter fun entry => acked < entry.1 :=
  List.mem_filter.mpr ⟨ha, decide_eq_true hnewer⟩

theorem newer_of_mem_filter (ha : a ∈ store.filter fun entry => acked < entry.1) : acked < a.1 :=
  of_decide_eq_true (List.mem_filter.mp ha).2

/-- An ack for an epoch that has begun. -/
theorem StoreTracked.recvAck (h : StoreTracked p) (hbegun : acked ≤ p.currentEpoch) :
    StoreTracked (p.recvAck acked) := by
  have hinv := h.toStoreInv.recvAck acked
  rcases p.recvAck_cases acked with ⟨-, heq⟩ | ⟨hnew, entry, hentry, rfl, heq⟩ | ⟨hnew, hgone, heq⟩
  · rw [heq]
    exact h
  · -- the snapshot is stored: it and everything older leave the store
    have hold : ∀ a ∈ p.epochSnapshots.filter fun other => entry.1 < other.1,
        a ∈ p.epochSnapshots := fun a ha => List.mem_of_mem_filter ha
    rw [heq] at hinv ⊢
    refine ⟨hinv, hbegun, h.sorted.sublist List.filter_sublist, ?_, ?_, ?_, ?_, ?_⟩
    · exact fun a ha b hb => h.same a (hold a ha) b (hold b hb)
    · intro a ha epoch hle hcur
      obtain ⟨b, hb, rfl⟩ := h.filled a (hold a ha) epoch hle hcur
      exact ⟨b, mem_filter_newer hb (lt_of_lt_of_le (newer_of_mem_filter ha) hle), rfl⟩
    · intro hbehind
      obtain ⟨a, ha, hcur⟩ := h.newest (lt_trans hnew hbehind)
      refine ⟨a, mem_filter_newer ha ?_, hcur⟩
      rw [hcur]
      exact hbehind
    · exact fun hcur => h.store_current entry hentry hcur
    · exact fun a ha => Or.inl (newer_of_mem_filter ha)
  · -- the snapshot is gone, and with it everything older
    rw [heq] at hinv ⊢
    refine ⟨hinv, hbegun, h.sorted, h.same, h.filled, ?_, ?_, ?_⟩
    · exact fun hbehind => h.newest (lt_trans hnew hbehind)
    · intro hcur
      change acked = p.currentEpoch at hcur
      subst hcur
      obtain ⟨a, ha, hcur⟩ := h.newest hnew
      exact absurd hcur (hgone a ha)
    · intro a ha
      refine Or.inl (Nat.lt_of_not_le fun hle => ?_)
      obtain ⟨b, hb, hacked⟩ := h.filled a ha acked hle hbegun
      exact hgone b hb hacked

theorem sorted_storeSnapshot (hsorted : store.Pairwise fun a b => a.1 ≤ b.1)
    (hle : ∀ a ∈ store, a.1 ≤ epoch) :
    (PumpState.storeSnapshot store epoch cells).Pairwise fun a b => a.1 ≤ b.1 := by
  have hboth : (store ++ [(epoch, cells)]).Pairwise fun a b => a.1 ≤ b.1 := by
    rw [List.pairwise_append]
    refine ⟨hsorted, List.pairwise_singleton _ _, ?_⟩
    intro a ha b hb
    rw [List.mem_singleton.mp hb]
    exact hle a ha
  unfold PumpState.storeSnapshot
  dsimp only
  split
  · exact hboth.sublist (List.tail_sublist _)
  · exact hboth

/-- An entry leaves the full store only as its oldest one. -/
theorem mem_storeSnapshot_or_oldest (hsorted : store.Pairwise fun a b => a.1 ≤ b.1)
    (ha : a ∈ store) : a ∈ PumpState.storeSnapshot store epoch cells ∨ ∀ b ∈ store, a.1 ≤ b.1 := by
  unfold PumpState.storeSnapshot
  dsimp only
  split
  · cases store with
    | nil => exact (List.not_mem_nil ha).elim
    | cons oldest rest =>
        rcases List.mem_cons.mp ha with rfl | hrest
        · right
          intro b hb
          rcases List.mem_cons.mp hb with rfl | hb
          · exact le_rfl
          · exact (List.pairwise_cons.mp hsorted).1 b hb
        · exact Or.inl (List.mem_append_left _ hrest)
  · exact Or.inl (List.mem_append_left _ ha)

/-- A tick that stores its snapshot. -/
theorem StoreTracked.afterTick (h : StoreTracked p) (snap : Snapshot) (leftover : List DiffRun) :
    StoreTracked (p.afterTick snap leftover) := by
  have hepoch := p.currentEpoch_le_tickEpoch snap
  have hbelow : ∀ a ∈ p.epochSnapshots, a.1 ≤ p.tickEpoch snap :=
    fun a ha => le_trans (h.store_le a ha) hepoch
  -- an old entry of the tick's epoch holds the grid that the tick reads
  have hcopy : ∀ a ∈ p.epochSnapshots, a.1 = p.tickEpoch snap → a.2 = snap.cells := by
    intro a ha hsame
    obtain ⟨hcur, hcells⟩ := PumpState.eq_current_of_eq_tickEpoch (h.store_le a ha) hsame
    rw [hcells]
    exact h.store_current a ha hcur
  have hlevel : p.lastAckedEpoch = p.tickEpoch snap → p.lastAckedSnapshot = snap.cells := by
    intro hsame
    obtain ⟨hcur, hcells⟩ := PumpState.eq_current_of_eq_tickEpoch h.le hsame
    rw [hcells]
    exact h.level hcur
  refine ⟨h.toStoreInv.afterTick snap leftover, le_trans h.le hepoch,
    sorted_storeSnapshot h.sorted hbelow, ?_, ?_, ?_, hlevel, ?_⟩
  · intro a ha b hb hsame
    rcases mem_storeSnapshot ha with ha | rfl <;> rcases mem_storeSnapshot hb with hb | rfl
    · exact h.same a ha b hb hsame
    · exact hcopy a ha hsame
    · exact (hcopy b hb hsame.symm).symm
    · rfl
  · intro a ha epoch hle hcur
    change epoch ≤ p.tickEpoch snap at hcur
    rcases Nat.eq_or_lt_of_le hcur with rfl | hlt
    · exact ⟨_, self_mem_storeSnapshot _ _ _, rfl⟩
    · rcases mem_storeSnapshot ha with hold | rfl
      · have hbegun : epoch ≤ p.currentEpoch := by
          have hnext : p.tickEpoch snap ≤ p.currentEpoch + 1 := by
            unfold PumpState.tickEpoch
            split
            · exact le_rfl
            · exact Nat.le_succ _
          omega
        obtain ⟨b, hb, rfl⟩ := h.filled a hold epoch hle hbegun
        rcases mem_storeSnapshot_or_oldest h.sorted hb with hkept | holdest
        · exact ⟨b, hkept, rfl⟩
        · -- the evicted entry was no older than the one at hand
          exact ⟨a, ha, le_antisymm hle (holdest a hold)⟩
      · exact absurd hle (Nat.not_le.mpr hlt)
  · exact fun _ => ⟨_, self_mem_storeSnapshot _ _ _, rfl⟩
  · intro a ha
    rcases mem_storeSnapshot ha with hold | rfl
    · exact h.above a hold
    · rcases Nat.eq_or_lt_of_le (le_trans h.le hepoch) with hsame | hlt
      · exact Or.inr ⟨hsame, (hlevel hsame).symm⟩
      · exact Or.inl hlt

/-- Under the invariant the ack of a stored epoch makes its snapshot the baseline. -/
theorem StoreTracked.installs (h : StoreTracked p) (hstored : (epoch, cells) ∈ p.epochSnapshots) :
    (p.recvAck epoch).lastAckedSnapshot = cells := by
  rcases p.recvAck_cases epoch with ⟨hold, heq⟩ | ⟨-, entry, hentry, hepoch, heq⟩ |
    ⟨-, hgone, -⟩
  · rw [heq]
    rcases h.above _ hstored with hnew | ⟨-, hcells⟩
    · exact absurd hnew hold
    · exact hcells.symm
  · rw [heq]
    exact h.same entry hentry _ hstored hepoch
  · exact absurd rfl (hgone _ hstored)

/-! ## Runs -/

/-- The pump and its history. -/
structure AckedPump where
  pump : PumpState
  /-- The epochs of the datagrams handed to the transport. -/
  sent : List ℕ
  /-- The acked epochs that had been sent. -/
  acked : List ℕ
  /-- The epochs whose snapshot became the baseline, in this order. -/
  baselines : List ℕ
  deriving DecidableEq

/-- A tick that reads a snapshot, or a datagram from the client. -/
inductive AckEvent
  | tick (snap : Snapshot) (conn : Conn)
  | datagram (bytes : List UInt8)

namespace AckedPump

variable {s : AckedPump}

/-- A pump before its first tick. -/
def new : AckedPump := ⟨.new, [], [], []⟩

/-- The ack replaces the baseline. -/
def Installs (s : AckedPump) (acked : ℕ) : Prop :=
  s.pump.lastAckedEpoch < acked ∧ ∃ entry ∈ s.pump.epochSnapshots, entry.1 = acked

instance (s : AckedPump) (acked : ℕ) : Decidable (s.Installs acked) :=
  inferInstanceAs (Decidable (_ ∧ ∃ entry ∈ s.pump.epochSnapshots, entry.1 = acked))

/-- An ack that decoded. -/
def recvAck (s : AckedPump) (acked : ℕ) : AckedPump where
  pump := s.pump.recvAck acked
  sent := s.sent
  acked := if acked ∈ s.sent then s.acked ++ [acked] else s.acked
  baselines := if s.Installs acked then s.baselines ++ [acked] else s.baselines

/-- The epoch-ack arm. -/
def recvDatagram (s : AckedPump) (bytes : List UInt8) : AckedPump :=
  match decodeEpochAck bytes with
  | .ok acked => s.recvAck acked.toNat
  | .error _ => s

section

variable (serializedSize : StateDiff → ℕ)

/-- One event; a tick on which the transport is lost ends the session. -/
def step (s : AckedPump) : AckEvent → Option AckedPump
  | .tick snap conn =>
      (tick serializedSize s.pump snap conn).bind fun out =>
        if out.transportLost then none
        else some { s with pump := out.pump, sent := s.sent ++ out.sent.map StateDiff.epoch }
  | .datagram bytes => some (s.recvDatagram bytes)

/-- The life of a pump. -/
def life : Machine AckedPump AckEvent := ⟨step serializedSize⟩

end

/-- `last_acked_epoch` is not ahead of `current_epoch`; the baseline was only ever replaced by the
snapshot of a newer epoch; and the ack of an epoch that was sent, is newer than every genuinely
acked one and still has its snapshot makes that snapshot the baseline. -/
structure SelfCorrecting (s : AckedPump) : Prop where
  le : s.pump.lastAckedEpoch ≤ s.pump.currentEpoch
  newer : s.baselines.Pairwise (· < ·)
  installs : ∀ (epoch : UInt64) (cells : Grid Cell), epoch.toNat ∈ s.sent →
    (∀ acked ∈ s.acked, acked < epoch.toNat) → (epoch.toNat, cells) ∈ s.pump.epochSnapshots →
    (s.recvDatagram (encodeEpochAck epoch)).pump.lastAckedSnapshot = cells

/-- What was decoded is no ack for an epoch that has not begun. -/
def Begun (s : AckedPump) : Except ProtoError UInt64 → Prop
  | .ok acked => acked.toNat ≤ s.pump.currentEpoch
  | .error _ => True

instance (s : AckedPump) (decoded : Except ProtoError UInt64) : Decidable (s.Begun decoded) :=
  match decoded with
  | .ok _ => inferInstanceAs (Decidable (_ ≤ _))
  | .error _ => instDecidableTrue

/-- The event is no ack for an epoch that has not begun. -/
def AcksSent (s : AckedPump) : AckEvent → Prop
  | .tick _ _ => True
  | .datagram bytes => s.Begun (decodeEpochAck bytes)

instance (s : AckedPump) (ev : AckEvent) : Decidable (s.AcksSent ev) :=
  match ev with
  | .tick _ _ => instDecidableTrue
  | .datagram bytes => inferInstanceAs (Decidable (s.Begun (decodeEpochAck bytes)))

/-- What holds in every run: the history of baselines, and the store while no ack is ahead. -/
structure Recorded (s : AckedPump) : Prop where
  newer : s.baselines.Pairwise (· < ·)
  baselines_le : ∀ epoch ∈ s.baselines, epoch ≤ s.pump.lastAckedEpoch
  tracked : s.pump.lastAckedEpoch ≤ s.pump.currentEpoch → StoreTracked s.pump

theorem recorded_new : new.Recorded where
  newer := List.Pairwise.nil
  baselines_le := fun _ h => (List.not_mem_nil h).elim
  tracked := fun _ => storeTracked_new

theorem Recorded.selfCorrecting (h : s.Recorded)
    (hle : s.pump.lastAckedEpoch ≤ s.pump.currentEpoch) : s.SelfCorrecting where
  le := hle
  newer := h.newer
  installs := by
    intro epoch cells _ _ hstored
    rw [recvDatagram, decodeEpochAck_encodeEpochAck]
    exact (h.tracked hle).installs hstored

/-- The acked epoch never moves back, and an ack that installs moves it. -/
theorem lastAckedEpoch_recvAck (p : PumpState) (acked : ℕ) :
    (p.recvAck acked).lastAckedEpoch = max p.lastAckedEpoch acked := by
  rcases p.recvAck_cases acked with ⟨hold, heq⟩ | ⟨hnew, entry, -, -, heq⟩ | ⟨hnew, -, heq⟩
  · rw [heq]
    exact (Nat.max_eq_left (Nat.le_of_not_lt hold)).symm
  · rw [heq]
    exact (Nat.max_eq_right hnew.le).symm
  · rw [heq]
    exact (Nat.max_eq_right hnew.le).symm

theorem Recorded.recvAck (h : s.Recorded) (hle : s.pump.lastAckedEpoch ≤ s.pump.currentEpoch)
    (acked : ℕ) : (s.recvAck acked).Recorded := by
  have hlast : (s.recvAck acked).pump.lastAckedEpoch = max s.pump.lastAckedEpoch acked :=
    lastAckedEpoch_recvAck s.pump acked
  refine ⟨?_, ?_, ?_⟩
  · dsimp only [AckedPump.recvAck]
    split
    · next hinstalls =>
        rw [List.pairwise_append]
        refine ⟨h.newer, List.pairwise_singleton _ _, ?_⟩
        intro old hold new hnew
        rw [List.mem_singleton.mp hnew]
        exact lt_of_le_of_lt (h.baselines_le old hold) hinstalls.1
    · exact h.newer
  · rw [hlast]
    intro epoch hepoch
    dsimp only [AckedPump.recvAck] at hepoch
    split at hepoch
    · rcases List.mem_append.mp hepoch with hold | hnew
      · exact le_trans (h.baselines_le epoch hold) (Nat.le_max_left _ _)
      · rw [List.mem_singleton.mp hnew]
        exact Nat.le_max_right _ _
    · exact le_trans (h.baselines_le epoch hepoch) (Nat.le_max_left _ _)
  · rw [hlast]
    intro hnext
    have hcur : (s.recvAck acked).pump.currentEpoch = s.pump.currentEpoch :=
      (s.pump.recvAck_frame acked).1
    rw [hcur] at hnext
    exact (h.tracked hle).recvAck (le_trans (Nat.le_max_right _ _) hnext)

theorem Recorded.tick {serializedSize : StateDiff → ℕ} {snap : Snapshot} {conn : Conn} {out : Tick}
    (h : s.Recorded) (hle : s.pump.lastAckedEpoch ≤ s.pump.currentEpoch)
    (htick : Server.tick serializedSize s.pump snap conn = some out) (sent : List ℕ) :
    ({ s with pump := out.pump, sent := sent } : AckedPump).Recorded ∧
      out.pump.lastAckedEpoch ≤ out.pump.currentEpoch := by
  rcases tick_cases htick with rfl | ⟨-, rfl⟩ | ⟨-, cap, payload, deferred, leftover, -, -, -, hp⟩
  · exact ⟨{ h with }, hle⟩
  · refine ⟨⟨h.newer, h.baselines_le, fun _ => ?_⟩, hle⟩
    exact { h.tracked hle with }
  · have htracked := (h.tracked hle).afterTick snap leftover
    rw [← hp] at htracked
    refine ⟨⟨h.newer, ?_, fun _ => htracked⟩, htracked.le⟩
    change ∀ epoch ∈ s.baselines, epoch ≤ out.pump.lastAckedEpoch
    rw [hp]
    exact h.baselines_le

/-- An ack puts the acked epoch ahead exactly when it names an epoch that has not begun. -/
theorem recvDatagram_le_iff (hle : s.pump.lastAckedEpoch ≤ s.pump.currentEpoch)
    (bytes : List UInt8) :
    (s.recvDatagram bytes).pump.lastAckedEpoch ≤ (s.recvDatagram bytes).pump.currentEpoch ↔
      s.AcksSent (.datagram bytes) := by
  change _ ↔ s.Begun (decodeEpochAck bytes)
  unfold recvDatagram
  cases decodeEpochAck bytes with
  | ok acked =>
      change (s.pump.recvAck acked.toNat).lastAckedEpoch ≤
        (s.pump.recvAck acked.toNat).currentEpoch ↔ acked.toNat ≤ s.pump.currentEpoch
      rw [lastAckedEpoch_recvAck, (s.pump.recvAck_frame acked.toNat).1, Nat.max_le]
      exact and_iff_right hle
  | error err => exact iff_of_true hle trivial

/-- **Self-correction.** In every run of a pump, whatever datagrams the client sends: the pump is
self-correcting in every state exactly when no datagram of the run is an ack for an epoch that has
not begun. -/
theorem selfCorrecting_iff (serializedSize : StateDiff → ℕ) (events : List AckEvent) :
    (∀ s, (life serializedSize).Visits new events s → s.SelfCorrecting) ↔
      (life serializedSize).Along AcksSent new events := by
  refine (life serializedSize).forall_visits_iff_along Recorded SelfCorrecting ?_ ?_ recorded_new
    (recorded_new.selfCorrecting le_rfl) events
  · intro s ev s' hrec hgood hstep
    cases ev with
    | tick snap conn =>
        obtain ⟨out, htick, hs'⟩ := Option.bind_eq_some_iff.mp hstep
        split at hs'
        · cases hs'
        · cases hs'
          obtain ⟨hrec', hle'⟩ := hrec.tick hgood.le htick (s.sent ++ out.sent.map StateDiff.epoch)
          exact ⟨hrec', iff_of_true (hrec'.selfCorrecting hle') trivial⟩
    | datagram bytes =>
        cases hstep
        have hrec' : (s.recvDatagram bytes).Recorded := by
          unfold recvDatagram
          split
          · exact hrec.recvAck hgood.le _
          · exact hrec
        refine ⟨hrec', ?_⟩
        rw [← recvDatagram_le_iff hgood.le]
        exact ⟨fun h => h.le, fun h => hrec'.selfCorrecting h⟩
  · intro s ev _ _ hrefused
    cases ev with
    | tick snap conn => trivial
    | datagram bytes => cases hrefused

/-- Two epochs; a stale, a malformed, a misrouted and a repeated ack. -/
theorem selfCorrecting_noise :
    ∀ s, (life StateDiff.postcardSize).Visits new
        [.tick (oneCell 'a') (.ideal 1200), .datagram [], .datagram [0x01, 0x09],
          .tick (oneCell 'b') (.ideal 1200), .datagram (encodeEpochAck 2),
          .datagram (encodeEpochAck 1), .datagram (encodeEpochAck 2)] s → s.SelfCorrecting :=
  (selfCorrecting_iff StateDiff.postcardSize _).mpr (by decide)

/-- **An ack from the future.** After it the acked epoch is ahead, and the genuine ack of epoch 1,
whose snapshot is stored, does not replace the empty baseline. -/
theorem future_ack_blocks :
    ∃ s ∈ (life StateDiff.postcardSize).run new
        [.tick (oneCell 'a') (.ideal 1200), .datagram (encodeEpochAck 0xFFFFFFFFFFFFFFFF)],
      s.pump.currentEpoch < s.pump.lastAckedEpoch ∧ 1 ∈ s.sent ∧ s.acked = [] ∧
        (1, (oneCell 'a').cells) ∈ s.pump.epochSnapshots ∧
        (s.recvDatagram (encodeEpochAck 1)).pump.lastAckedSnapshot = [] := by
  decide

end AckedPump

end Nosh.Server
