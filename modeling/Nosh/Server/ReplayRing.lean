import Mathlib.Algebra.Order.Ring.Nat
import Mathlib.Algebra.BigOperators.Group.List.Basic
import Mathlib.Data.List.Induction
import Nosh.Server.OutputBuffer

/-!
# The replay ring over whole histories

`SequencedOutputBuffer` under any sequence of `push` and `trim_acked` calls, with the history kept
beside it: every chunk that was pushed, and every acknowledgement together with the number of
chunks there were when it came.

## Main Definitions

* `RingHistory` — the ring with its history
* `RingHistory.Covered` — a chunk that was acknowledged after it had been pushed
* `RingHistory.Sound` — what the ring holds of its history

## Main Results

* `run_sound` — every sequence of calls keeps the ring sound.
* `replay_correct` — **what a replay returns, and that a loss is reported.**
-/

namespace Nosh.Server

open Nosh.Lib

namespace SequencedOutputBuffer

variable {ring : List Chunk}

/-- The bytes of chunks. -/
def chunkBytes (ring : List Chunk) : ℕ := (ring.map fun chunk => chunk.2.length).sum

theorem chunkBytes_le_of_suffix {ring' : List Chunk} (h : ring' <:+ ring) :
    chunkBytes ring' ≤ chunkBytes ring := by
  obtain ⟨dropped, rfl⟩ := h
  rw [chunkBytes, chunkBytes, List.map_append, List.sum_append]
  exact Nat.le_add_left _ _

/-- Eviction drops chunks at the front until the budget is met or one chunk is left. -/
theorem evict_budget {b : SequencedOutputBuffer} (hring : b.ring = ring)
    (htotal : b.totalBytes = chunkBytes ring) :
    (b.evict ring).ring <:+ ring ∧ (b.evict ring).totalBytes = chunkBytes (b.evict ring).ring ∧
      (b.evict ring).maxBytes = b.maxBytes ∧
        ((b.evict ring).totalBytes ≤ b.maxBytes ∨ (b.evict ring).ring.length ≤ 1) := by
  induction ring generalizing b with
  | nil =>
      rw [evict]
      · rw [hring]
        exact ⟨List.suffix_refl _, htotal, rfl, Or.inr (Nat.zero_le _)⟩
      · rintro old front rest ⟨⟩
  | cons old rest ih =>
      cases rest with
      | nil =>
          rw [evict]
          · rw [hring]
            exact ⟨List.suffix_refl _, htotal, rfl, Or.inr le_rfl⟩
          · rintro old' front rest' ⟨⟩
      | cons front rest =>
          rw [evict]
          split
          · rename_i hover
            have hrest : b.totalBytes - old.2.length = chunkBytes (front :: rest) := by
              rw [htotal]
              exact Nat.add_sub_cancel_left _ _
            obtain ⟨hsuffix, hbytes, hmax, hbudget⟩ := ih (b := { b with
              ring := front :: rest
              totalBytes := b.totalBytes - old.2.length
              truncated := true
              lowestRetainedSeq := front.1 }) rfl hrest
            exact ⟨hsuffix.trans (List.suffix_cons _ _), hbytes, hmax, hbudget⟩
          · rename_i hfits
            rw [hring]
            exact ⟨List.suffix_refl _, htotal, rfl, Or.inl (Nat.le_of_not_lt hfits)⟩

/-- Trimming drops chunks at the front. -/
theorem trimLoop_bytes {b : SequencedOutputBuffer} (hring : b.ring = ring)
    (htotal : b.totalBytes = chunkBytes ring) (ackedSeq : ℕ) :
    (b.trimLoop ackedSeq ring).ring <:+ ring ∧
      (b.trimLoop ackedSeq ring).totalBytes = chunkBytes (b.trimLoop ackedSeq ring).ring ∧
        (b.trimLoop ackedSeq ring).maxBytes = b.maxBytes := by
  induction ring generalizing b with
  | nil =>
      rw [trimLoop, hring]
      exact ⟨List.suffix_refl _, htotal, rfl⟩
  | cons front rest ih =>
      rw [trimLoop]
      split
      · have hrest : b.totalBytes - front.2.length = chunkBytes rest := by
          rw [htotal]
          exact Nat.add_sub_cancel_left _ _
        obtain ⟨hsuffix, hbytes, hmax⟩ := ih (b := { b with
          ring := rest, totalBytes := b.totalBytes - front.2.length }) rfl hrest
        exact ⟨hsuffix.trans (List.suffix_cons _ _), hbytes, hmax⟩
      · rw [hring]
        exact ⟨List.suffix_refl _, htotal, rfl⟩

end SequencedOutputBuffer

/-! ## Histories -/

/-- A call that changes the ring. -/
inductive RingCall
  | push (chunk : List UInt8)
  | trimAcked (ackedSeq : ℕ)
  deriving DecidableEq

/-- The ring with its history. -/
structure RingHistory where
  buffer : SequencedOutputBuffer
  /-- The chunks that were pushed; their positions are their numbers. -/
  pushed : List (List UInt8)
  /-- For every `trim_acked`, how many chunks had been pushed, and its argument. -/
  trims : List (ℕ × ℕ)

namespace RingHistory

variable {h : RingHistory} {maxBytes : ℕ}

/-- One call. -/
def call (h : RingHistory) : RingCall → RingHistory
  | .push chunk => ⟨h.buffer.push chunk, h.pushed ++ [chunk], h.trims⟩
  | .trimAcked ackedSeq =>
      ⟨h.buffer.trimAcked ackedSeq, h.pushed, h.trims ++ [(h.pushed.length, ackedSeq)]⟩

/-- A sequence of calls from an empty ring. -/
def run (maxBytes : ℕ) (calls : List RingCall) : RingHistory :=
  calls.foldl call ⟨.new maxBytes, [], []⟩

/-- A `trim_acked` after the push of the chunk covered it. -/
def Covered (h : RingHistory) (seq : ℕ) : Prop := ∃ trim ∈ h.trims, seq < trim.1 ∧ seq < trim.2

/-- What the ring holds of its history. -/
structure Sound (h : RingHistory) (maxBytes : ℕ) : Prop where
  next : h.buffer.nextSeq = h.pushed.length
  retains : ∃ lo, h.buffer.Retains lo
  bytes : ∀ chunk ∈ h.buffer.ring, h.pushed[chunk.1]? = some chunk.2
  total : h.buffer.totalBytes = SequencedOutputBuffer.chunkBytes h.buffer.ring
  limit : h.buffer.maxBytes = maxBytes
  budget : h.buffer.totalBytes ≤ maxBytes ∨ h.buffer.ring.length = 1
  /-- An empty ring has lost nothing. -/
  covered : h.buffer.ring = [] → ∀ seq < h.pushed.length, h.Covered seq

theorem sound_new (maxBytes : ℕ) : Sound ⟨.new maxBytes, [], []⟩ maxBytes where
  next := rfl
  retains := ⟨0, SequencedOutputBuffer.retains_new maxBytes⟩
  bytes := by rintro chunk ⟨⟩
  total := rfl
  limit := rfl
  budget := Or.inl (Nat.zero_le _)
  covered := by
    rintro - seq hseq
    exact absurd hseq (Nat.not_lt_zero _)

theorem Sound.push (hs : h.Sound maxBytes) (chunk : List UInt8) :
    (h.call (.push chunk)).Sound maxBytes := by
  obtain ⟨lo, hlo⟩ := hs.retains
  obtain ⟨hnext, hne, hretains⟩ := SequencedOutputBuffer.push_spec hlo chunk
  have htotal : h.buffer.totalBytes + chunk.length =
      SequencedOutputBuffer.chunkBytes (h.buffer.ring ++ [(h.buffer.nextSeq, chunk)]) := by
    rw [SequencedOutputBuffer.chunkBytes, List.map_append, List.sum_append, hs.total]
    rfl
  obtain ⟨hsuffix, hbytes, hmax, hbudget⟩ := SequencedOutputBuffer.evict_budget
    (b := { h.buffer with
      nextSeq := h.buffer.nextSeq + 1
      ring := h.buffer.ring ++ [(h.buffer.nextSeq, chunk)]
      totalBytes := h.buffer.totalBytes + chunk.length }) rfl htotal
  refine ⟨?_, hretains, ?_, hbytes, hmax.trans hs.limit, ?_, fun hnil => absurd hnil hne⟩
  · change (h.buffer.push chunk).nextSeq = (h.pushed ++ [chunk]).length
    rw [hnext, hs.next, List.length_append, List.length_singleton]
  · intro retained hretained
    change (h.pushed ++ [chunk])[retained.1]? = some retained.2
    rcases List.mem_append.mp (hsuffix.subset hretained) with hold | hnew
    · have hget := hs.bytes retained hold
      rw [List.getElem?_append_left (List.getElem?_eq_some_iff.mp hget).1]
      exact hget
    · rw [List.mem_singleton.mp hnew, hs.next]
      exact List.getElem?_concat_length
  · rcases hbudget with hfits | hone
    · exact Or.inl (hfits.trans_eq hs.limit)
    · exact Or.inr (le_antisymm hone (List.length_pos_iff.mpr hne))

theorem Sound.trimAcked (hs : h.Sound maxBytes) (ackedSeq : ℕ) :
    (h.call (.trimAcked ackedSeq)).Sound maxBytes := by
  obtain ⟨lo, hlo⟩ := hs.retains
  obtain ⟨hnext, hretains, hempty⟩ := SequencedOutputBuffer.trimLoop_spec rfl hlo ackedSeq
  obtain ⟨hsuffix, hbytes, hmax⟩ := SequencedOutputBuffer.trimLoop_bytes rfl hs.total ackedSeq
  refine ⟨hnext.trans hs.next, hretains, ?_, hbytes, hmax.trans hs.limit, ?_, ?_⟩
  · exact fun retained hretained => hs.bytes retained (hsuffix.subset hretained)
  · rcases hs.budget with hfits | hone
    · have hless := SequencedOutputBuffer.chunkBytes_le_of_suffix hsuffix
      rw [← hbytes, ← hs.total] at hless
      exact Or.inl (hless.trans hfits)
    · -- one chunk was left, and it is still there or the ring is empty
      have hlength := hsuffix.length_le
      rcases Nat.lt_or_ge 0 (h.buffer.trimLoop ackedSeq h.buffer.ring).ring.length with hpos | hnone
      · exact Or.inr (le_antisymm (hlength.trans_eq hone) hpos)
      · have hnil := List.length_eq_zero_iff.mp (Nat.le_zero.mp hnone)
        rw [hnil] at hbytes
        exact Or.inl (hbytes.trans_le (Nat.zero_le _))
  · intro hnil seq hseq
    rcases hempty hnil with hnone | hall
    · obtain ⟨trim, htrim, hcovers⟩ := hs.covered hnone seq hseq
      exact ⟨trim, List.mem_append_left _ htrim, hcovers⟩
    · have hseq : seq < h.pushed.length := hseq
      rw [hs.next] at hall
      exact ⟨_, List.mem_append_right _ (List.mem_singleton_self _), hseq, hseq.trans_le hall⟩

/-- **Every sequence of calls keeps the ring sound.** -/
theorem run_sound (maxBytes : ℕ) (calls : List RingCall) : (run maxBytes calls).Sound maxBytes := by
  induction calls using List.reverseRecOn with
  | nil => exact sound_new maxBytes
  | append_singleton calls c ih =>
      rw [run, List.foldl_append]
      cases c with
      | push chunk => exact ih.push chunk
      | trimAcked ackedSeq => exact ih.trimAcked ackedSeq

/-! ## Replaying -/

/-- A replay returns the retained chunks from the resume point on. -/
theorem replayFrom_chunks (b : SequencedOutputBuffer) (want : ℕ) :
    (b.replayFrom want).1 = b.ring.filter (want ≤ ·.1) := by
  unfold SequencedOutputBuffer.replayFrom
  split
  · rename_i hring
    rw [hring]
    rfl
  · rfl

/-- A pushed chunk that no acknowledgement covered is replayed, or the loss is reported. -/
theorem Sound.reported (hs : h.Sound maxBytes) {want seq : ℕ} {chunk : List UInt8}
    (hpushed : h.pushed[seq]? = some chunk) (hwant : want ≤ seq) (hlost : ¬ h.Covered seq)
    (hmissing : (seq, chunk) ∉ (h.buffer.replayFrom want).1) :
    (h.buffer.replayFrom want).2.2 = true ∧
      (h.buffer.replayFrom want).1.head?.map Prod.fst = some (h.buffer.replayFrom want).2.1 := by
  obtain ⟨hseq, -⟩ := List.getElem?_eq_some_iff.mp hpushed
  obtain ⟨lo, hlo⟩ := hs.retains
  rw [replayFrom_chunks] at hmissing
  have hbelow : seq < lo := by
    by_contra hge
    have hmem := hlo.mem_iff.mpr ⟨Nat.le_of_not_lt hge, hseq.trans_eq hs.next.symm⟩
    obtain ⟨⟨n, bytes⟩, hchunk, rfl⟩ := List.mem_map.mp hmem
    have hsame := hs.bytes _ hchunk
    rw [hpushed] at hsame
    cases hsame
    exact hmissing (List.mem_filter.mpr ⟨hchunk, decide_eq_true hwant⟩)
  cases hring : h.buffer.ring with
  | nil => exact absurd (hs.covered hring seq hseq) hlost
  | cons front rest =>
      rw [SequencedOutputBuffer.Retains, hring] at hlo
      have hfront : want < front.1 := by
        have hlow : front.1 = lo := hlo.1
        omega
      unfold SequencedOutputBuffer.replayFrom
      rw [hring]
      dsimp only
      rw [List.filter_cons_of_pos (p := fun chunk : Chunk => decide (want ≤ chunk.1))
        (decide_eq_true hfront.le), if_pos hfront]
      exact ⟨decide_eq_true hfront, rfl⟩

/-- **The replay ring.** After any sequence of calls the retained numbers are consecutive up to the
newest, the byte count is right and within the budget unless one chunk is left, a replay returns the
retained chunks from the resume point on with the bytes that were pushed, and the loss of a chunk
that was not acknowledged is reported. -/
theorem replay_correct (maxBytes : ℕ) (calls : List RingCall) :
    let h := run maxBytes calls
    h.buffer.nextSeq = h.pushed.length ∧
      (∃ lo, Consecutive lo (h.buffer.ring.map Prod.fst) h.buffer.nextSeq) ∧
      h.buffer.totalBytes = (h.buffer.ring.map fun chunk => chunk.2.length).sum ∧
        (h.buffer.totalBytes ≤ maxBytes ∨ h.buffer.ring.length = 1) ∧
          ∀ want,
            (h.buffer.replayFrom want).1 = h.buffer.ring.filter (want ≤ ·.1) ∧
              ((h.buffer.replayFrom want).1.map Prod.fst).Pairwise (· < ·) ∧
              (∀ chunk ∈ (h.buffer.replayFrom want).1, h.pushed[chunk.1]? = some chunk.2) ∧
              ∀ seq chunk, h.pushed[seq]? = some chunk → want ≤ seq → ¬ h.Covered seq →
                (seq, chunk) ∉ (h.buffer.replayFrom want).1 →
                  (h.buffer.replayFrom want).2.2 = true ∧
                    (h.buffer.replayFrom want).1.head?.map Prod.fst =
                      some (h.buffer.replayFrom want).2.1 := by
  intro h
  have hs : h.Sound maxBytes := run_sound maxBytes calls
  obtain ⟨lo, hlo⟩ := hs.retains
  refine ⟨hs.next, ⟨lo, hlo⟩, hs.total, hs.budget, ?_⟩
  intro want
  refine ⟨replayFrom_chunks h.buffer want, ?_, ?_, ?_⟩
  · rw [replayFrom_chunks]
    exact hlo.pairwise.sublist (List.filter_sublist.map Prod.fst)
  · intro chunk hchunk
    rw [replayFrom_chunks] at hchunk
    exact hs.bytes chunk (List.mem_of_mem_filter hchunk)
  · intro seq chunk hpushed hwant hlost hmissing
    exact hs.reported hpushed hwant hlost hmissing

example : (run 3 [.push [1, 2], .push [3, 4], .trimAcked 0]).buffer.replayFrom 0 =
    ([(1, [3, 4])], 1, true) := by
  decide

end RingHistory

end Nosh.Server
