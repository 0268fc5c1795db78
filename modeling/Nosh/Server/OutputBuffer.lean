import Nosh.Lib.Consecutive

/-!
# The replay ring

`SequencedOutputBuffer` of `nosh-server/src/registry.rs`: output chunks numbered in
the order they are pushed, kept until they are acked or the byte budget evicts the
oldest.

`Retains` is the invariant every operation keeps: the retained numbers are
consecutive and end at `next_seq`.  `replayFrom_spec` says what a resume point then
gets.
-/

namespace Nosh.Server

open Nosh.Lib

/-- A numbered output chunk. -/
abbrev Chunk := ℕ × List UInt8

/-- `SequencedOutputBuffer`. -/
structure SequencedOutputBuffer where
  nextSeq : ℕ
  ring : List Chunk
  totalBytes : ℕ
  maxBytes : ℕ
  lowestRetainedSeq : ℕ
  truncated : Bool
  deriving DecidableEq

namespace SequencedOutputBuffer

variable {b : SequencedOutputBuffer} {lo : ℕ}

/-- `SequencedOutputBuffer::new`. -/
def new (maxBytes : ℕ) : SequencedOutputBuffer := ⟨0, [], 0, maxBytes, 0, false⟩

/-- The eviction loop of `push`: drop the oldest chunk while the budget is exceeded and
more than one chunk is left, so the newest always survives.  `ring` is the ring
still to look at. -/
def evict (b : SequencedOutputBuffer) : List Chunk → SequencedOutputBuffer
  | old :: front :: rest =>
      if b.maxBytes < b.totalBytes then
        evict { b with
          ring := front :: rest
          totalBytes := b.totalBytes - old.2.length
          truncated := true
          lowestRetainedSeq := front.1 } (front :: rest)
      else b
  | _ => b

/-- `push`. -/
def push (b : SequencedOutputBuffer) (chunk : List UInt8) : SequencedOutputBuffer :=
  let pushed : SequencedOutputBuffer := { b with
    nextSeq := b.nextSeq + 1
    ring := b.ring ++ [(b.nextSeq, chunk)]
    totalBytes := b.totalBytes + chunk.length }
  pushed.evict pushed.ring

/-- `replay_from`: the retained chunks from `lastAckedSeq` on, the number of the first
one, and whether the resume point was below the ring. -/
def replayFrom (b : SequencedOutputBuffer) (lastAckedSeq : ℕ) : List Chunk × ℕ × Bool :=
  match b.ring with
  | [] => ([], lastAckedSeq, false)
  | front :: _ =>
      (b.ring.filter (lastAckedSeq ≤ ·.1),
        if lastAckedSeq < front.1 then front.1 else lastAckedSeq,
        decide (lastAckedSeq < front.1))

/-- The loop of `trim_acked` over the ring still to look at. -/
def trimLoop (b : SequencedOutputBuffer) (ackedSeq : ℕ) : List Chunk → SequencedOutputBuffer
  | front :: rest =>
      if front.1 < ackedSeq then
        trimLoop { b with ring := rest, totalBytes := b.totalBytes - front.2.length } ackedSeq rest
      else b
  | [] => b

/-- `trim_acked`. -/
def trimAcked (b : SequencedOutputBuffer) (ackedSeq : ℕ) : SequencedOutputBuffer :=
  b.trimLoop ackedSeq b.ring

/-- The ring holds the chunks from `lo` to the newest. -/
def Retains (b : SequencedOutputBuffer) (lo : ℕ) : Prop :=
  Consecutive lo (b.ring.map Prod.fst) b.nextSeq

theorem retains_new (maxBytes : ℕ) : (new maxBytes).Retains 0 := rfl

/-- Eviction drops chunks at the front and keeps the newest. -/
theorem evict_spec {ring : List Chunk} (hring : b.ring = ring) (hne : ring ≠ [])
    (h : b.Retains lo) :
    (b.evict ring).nextSeq = b.nextSeq ∧ (b.evict ring).ring ≠ [] ∧
      ∃ lo', (b.evict ring).Retains lo' := by
  induction ring generalizing b lo with
  | nil => exact absurd rfl hne
  | cons old rest ih =>
      cases rest with
      | nil =>
          rw [evict]
          · exact ⟨rfl, hring ▸ hne, lo, h⟩
          · intro old' front rest' heq
            cases heq
      | cons front rest =>
          rw [evict]
          split
          · have hretains : Consecutive (lo + 1) ((front :: rest).map Prod.fst) b.nextSeq := by
              rw [Retains, hring] at h
              exact h.2
            exact ih rfl (by simp) hretains
          · exact ⟨rfl, hring ▸ hne, lo, h⟩

/-- After a push the newest chunk is retained under the next number. -/
theorem push_spec (h : b.Retains lo) (chunk : List UInt8) :
    (b.push chunk).nextSeq = b.nextSeq + 1 ∧ (b.push chunk).ring ≠ [] ∧
      ∃ lo', (b.push chunk).Retains lo' := by
  have hpushed :
      Consecutive lo ((b.ring ++ [(b.nextSeq, chunk)]).map Prod.fst) (b.nextSeq + 1) := by
    rw [List.map_append]
    exact h.concat
  exact evict_spec rfl (by simp) hpushed

/-- Trimming drops only acked chunks; it empties the ring only if all were acked. -/
theorem trimLoop_spec {ring : List Chunk} (hring : b.ring = ring) (h : b.Retains lo)
    (ackedSeq : ℕ) :
    (b.trimLoop ackedSeq ring).nextSeq = b.nextSeq ∧
      (∃ lo', (b.trimLoop ackedSeq ring).Retains lo') ∧
      ((b.trimLoop ackedSeq ring).ring = [] → b.ring = [] ∨ b.nextSeq ≤ ackedSeq) := by
  induction ring generalizing b lo with
  | nil => exact ⟨rfl, ⟨lo, h⟩, fun _ => Or.inl hring⟩
  | cons front rest ih =>
      rw [trimLoop]
      split
      · rename_i hacked
        have hretains : Retains { b with
            ring := rest, totalBytes := b.totalBytes - front.2.length } (lo + 1) := by
          rw [Retains, hring] at h
          exact h.2
        obtain ⟨hnext, hkeeps, hempty⟩ := ih (by rfl) hretains
        refine ⟨hnext, hkeeps, fun hnil => Or.inr ?_⟩
        rcases hempty hnil with hrest | hle
        · -- the front was the newest chunk
          have hrest : rest = [] := hrest
          subst hrest
          rw [Retains, hring] at h
          obtain ⟨hfront, hlast⟩ := h
          have hlast : lo + 1 = b.nextSeq := hlast
          have hfront : front.1 = lo := hfront
          omega
        · exact hle
      · refine ⟨rfl, ⟨lo, h⟩, fun hnil => ?_⟩
        rw [hring] at hnil
        cases hnil

/-- **Resuming.**  A resume point that is not ahead of the ring, and that is not behind an
empty one, gets consecutive chunks up to the newest.  They start at the resume point
or, if that was lost, further on with the truncation reported. -/
theorem replayFrom_spec {want : ℕ} (h : b.Retains lo) (hwant : want ≤ b.nextSeq)
    (hempty : b.ring = [] → b.nextSeq ≤ want) :
    Consecutive (b.replayFrom want).2.1 ((b.replayFrom want).1.map Prod.fst) b.nextSeq ∧
      want ≤ (b.replayFrom want).2.1 ∧
      (want < (b.replayFrom want).2.1 → (b.replayFrom want).2.2 = true) := by
  cases hring : b.ring with
  | nil =>
      have hall : want = b.nextSeq := le_antisymm hwant (hempty hring)
      rw [replayFrom, hring]
      exact ⟨hall, le_refl want, fun hlt => absurd hlt (lt_irrefl want)⟩
  | cons front rest =>
      have hfront : front.1 = lo := by
        rw [Retains, hring] at h
        exact h.1
      have hmap : (b.ring.filter (want ≤ ·.1)).map Prod.fst =
          (b.ring.map Prod.fst).filter (want ≤ ·) := by
        rw [List.filter_map]
        rfl
      have hreplay : b.replayFrom want = (b.ring.filter (want ≤ ·.1),
          if want < front.1 then front.1 else want, decide (want < front.1)) := by
        rw [replayFrom, hring]
      have hstart : (if want < front.1 then front.1 else want) = max lo want := by
        rw [hfront]
        split <;> omega
      rw [hreplay]
      dsimp only
      rw [hstart, hmap]
      refine ⟨h.filter_le hwant, le_max_right lo want, fun hlt => ?_⟩
      rw [decide_eq_true_iff, hfront]
      omega

end SequencedOutputBuffer

end Nosh.Server
