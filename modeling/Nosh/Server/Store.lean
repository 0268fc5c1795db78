import Nosh.Server.Pump

/-!
# Epochs and the snapshot store

The bookkeeping of the server pump between ticks and acks: which grid is stored
under which epoch.  `epoch_snapshots` may hold an epoch several times, because a
tick that does not start an epoch stores its snapshot again; these are copies of
one grid.

## Main results

* `recvAck_cases` — the three things an ack can do.
* `StoreInv.afterTick`, `StoreInv.recvAck` — **stored epochs never run ahead, and
  every entry of the current epoch is the last sent grid**, whatever acks arrive.
-/

namespace Nosh.Server

open Nosh.Lib Nosh.Proto

namespace PumpState

/-- A tick that does not start an epoch reads the last sent grid. -/
theorem cells_eq_of_not_advances {p : PumpState} {snap : Snapshot} (h : ¬ p.Advances snap) :
    snap.cells = p.lastSentSnapshot := by
  by_contra hne
  exact h (Or.inl hne)

theorem currentEpoch_le_tickEpoch (p : PumpState) (snap : Snapshot) :
    p.currentEpoch ≤ p.tickEpoch snap := by
  unfold tickEpoch
  split
  · exact Nat.le_succ _
  · exact le_rfl

/-- Only a tick that repeats the current epoch meets something of its own epoch, and such
a tick reads the last sent grid. -/
theorem eq_current_of_eq_tickEpoch {p : PumpState} {snap : Snapshot} {epoch : ℕ}
    (hle : epoch ≤ p.currentEpoch) (htick : epoch = p.tickEpoch snap) :
    epoch = p.currentEpoch ∧ snap.cells = p.lastSentSnapshot := by
  by_cases hadv : p.Advances snap
  · have hnext : p.tickEpoch snap = p.currentEpoch + 1 := if_pos hadv
    omega
  · exact ⟨htick.trans (if_neg hadv), cells_eq_of_not_advances hadv⟩

/-- **The cases of an ack.**  It is old; it installs a stored snapshot; or its
snapshot is gone and only the acked epoch moves. -/
theorem recvAck_cases (p : PumpState) (acked : ℕ) :
    (¬ p.lastAckedEpoch < acked ∧ p.recvAck acked = p) ∨
      (p.lastAckedEpoch < acked ∧ ∃ entry ∈ p.epochSnapshots, entry.1 = acked ∧
        p.recvAck acked =
          { p with
            lastAckedEpoch := acked
            lastAckedSnapshot := entry.2
            epochSnapshots := p.epochSnapshots.filter fun entry => acked < entry.1 }) ∨
      (p.lastAckedEpoch < acked ∧ (∀ entry ∈ p.epochSnapshots, entry.1 ≠ acked) ∧
        p.recvAck acked = { p with lastAckedEpoch := acked }) := by
  unfold recvAck
  by_cases hnew : p.lastAckedEpoch < acked
  · rw [if_pos hnew]
    cases hfind : p.epochSnapshots.find? fun entry => entry.1 = acked with
    | some entry =>
        have hentry : entry.1 = acked := by simpa using List.find?_some hfind
        exact Or.inr (Or.inl ⟨hnew, entry, List.mem_of_find?_eq_some hfind, hentry, rfl⟩)
    | none =>
        refine Or.inr (Or.inr ⟨hnew, ?_, rfl⟩)
        intro entry hentry
        simpa using List.find?_eq_none.mp hfind entry hentry
  · rw [if_neg hnew]
    exact Or.inl ⟨hnew, rfl⟩

/-- The parts of the pump an ack does not touch. -/
theorem recvAck_frame (p : PumpState) (acked : ℕ) :
    (p.recvAck acked).currentEpoch = p.currentEpoch ∧
      (p.recvAck acked).lastSentSnapshot = p.lastSentSnapshot ∧
      (p.recvAck acked).pendingDeferred = p.pendingDeferred := by
  rcases p.recvAck_cases acked with ⟨-, heq⟩ | ⟨-, entry, -, -, heq⟩ | ⟨-, -, heq⟩
  all_goals
    rw [heq]
    exact ⟨rfl, rfl, rfl⟩

end PumpState

/-! ## The store -/

theorem mem_storeSnapshot {store : List (ℕ × Grid Cell)} {epoch : ℕ} {cells : Grid Cell}
    {entry : ℕ × Grid Cell} (h : entry ∈ PumpState.storeSnapshot store epoch cells) :
    entry ∈ store ∨ entry = (epoch, cells) := by
  unfold PumpState.storeSnapshot at h
  have hmem : entry ∈ store ++ [(epoch, cells)] := by
    dsimp only at h
    split at h
    · exact List.mem_of_mem_tail h
    · exact h
  rwa [List.mem_append, List.mem_singleton] at hmem

/-- The entry pushed last survives the eviction of the oldest one. -/
theorem self_mem_storeSnapshot (store : List (ℕ × Grid Cell)) (epoch : ℕ) (cells : Grid Cell) :
    (epoch, cells) ∈ PumpState.storeSnapshot store epoch cells := by
  unfold PumpState.storeSnapshot
  dsimp only
  split
  · next hlong =>
      cases store with
      | nil => simp [epochSnapshotCap] at hlong
      | cons entry store => simp
  · simp

/-- What holds of the store whatever acks arrive. -/
structure StoreInv (p : PumpState) : Prop where
  store_le : ∀ entry ∈ p.epochSnapshots, entry.1 ≤ p.currentEpoch
  /-- Entries of the current epoch hold the last sent grid. -/
  store_current : ∀ entry ∈ p.epochSnapshots,
    entry.1 = p.currentEpoch → entry.2 = p.lastSentSnapshot

theorem storeInv_new : StoreInv .new where
  store_le := by simp [PumpState.new]
  store_current := by simp [PumpState.new]

theorem StoreInv.afterTick {p : PumpState} (h : StoreInv p) (snap : Snapshot)
    (leftover : List DiffRun) : StoreInv (p.afterTick snap leftover) where
  store_le := by
    intro entry hentry
    change entry.1 ≤ p.tickEpoch snap
    rcases mem_storeSnapshot hentry with hold | rfl
    · exact le_trans (h.store_le entry hold) (p.currentEpoch_le_tickEpoch snap)
    · exact le_rfl
  store_current := by
    intro entry hentry hcur
    change entry.1 = p.tickEpoch snap at hcur
    change entry.2 = snap.cells
    rcases mem_storeSnapshot hentry with hold | rfl
    · -- an older entry does not have a new epoch
      obtain ⟨hold', hcells⟩ :=
        PumpState.eq_current_of_eq_tickEpoch (h.store_le entry hold) hcur
      rw [hcells]
      exact h.store_current entry hold hold'
    · rfl

theorem StoreInv.recvAck {p : PumpState} (h : StoreInv p) (acked : ℕ) :
    StoreInv (p.recvAck acked) := by
  rcases p.recvAck_cases acked with ⟨-, heq⟩ | ⟨-, entry, -, -, heq⟩ | ⟨-, -, heq⟩
  · rw [heq]
    exact h
  · rw [heq]
    refine ⟨?_, ?_⟩
    · intro entry' hentry'
      exact h.store_le entry' (List.mem_of_mem_filter hentry')
    · intro entry' hentry'
      exact h.store_current entry' (List.mem_of_mem_filter hentry')
  · rw [heq]
    exact { h with }

end Nosh.Server
