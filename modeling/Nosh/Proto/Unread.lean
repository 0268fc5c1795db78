import Nosh.Proto.Framing

/-!
# What a stream has still to give

The messages of a stream that its reader has not passed yet, counted in bytes: a dropped read
takes the bytes it had away from the message they belong to.

## Main Definitions

* `Stream.unread` — the messages that lie whole before the reader
* `Intact` — the reader is aligned with the frames and runs

## Main Results

* `Intact.send`, `Intact.take` — an intact stream stays intact as long as no read is dropped
  after its first byte, and gives the messages in the order they were written.
-/

namespace Nosh.Proto

variable {c : Stream}

/-- The messages whose frames lie whole in the last `left` bytes. -/
def wholeWithin (left : ℕ) : List Message → List Message
  | [] => []
  | msg :: msgs =>
      if (frames (msg :: msgs)).length ≤ left then msg :: msgs else wholeWithin left msgs

/-- The messages of which no byte is lost: what the pending read has taken, what has arrived and
what is under way. -/
def Stream.unread (c : Stream) : List Message :=
  wholeWithin (c.reader.taken + c.inbox.length + c.net.length) c.written

/-- A write that succeeds. -/
def Stream.send (c : Stream) (msg : Message) : Option Stream :=
  match encode msg with
  | .ok frame => some { c with net := c.net ++ frame, written := c.written ++ [msg] }
  | .error _ => none

/-- The reader is aligned with the frames, and neither end has given up. -/
structure Intact (c : Stream) : Prop where
  aligned : Aligned c
  live : ∀ err, c.reader ≠ .failed err
  opened : c.finished = false

theorem intact_start : Intact .start := ⟨aligned_start, by rintro err ⟨⟩, rfl⟩

theorem wholeWithin_append (msgs rest : List Message) :
    wholeWithin (frames rest).length (msgs ++ rest) = rest := by
  induction msgs with
  | nil =>
      cases rest with
      | nil => rfl
      | cons msg msgs => exact if_pos (le_refl _)
  | cons msg msgs ih =>
      rw [List.cons_append, wholeWithin, if_neg, ih]
      have hpos := msg.frame_pos
      rw [frames_cons, frames_append, List.length_append, List.length_append]
      omega

theorem ReadState.after_cases (taken : List UInt8) :
    after taken = .header taken ∨ ∃ len buf, after taken = .body len buf := by
  unfold after
  split
  · exact Or.inl rfl
  · exact Or.inr ⟨_, _, rfl⟩

theorem ReadState.taken_after (bytes : List UInt8) : (after bytes).taken = bytes.length := by
  unfold after
  split
  · rfl
  · rw [taken, List.length_drop]
    omega

/-- The messages written are those read and those unread. -/
theorem Intact.written (h : Intact c) : c.written = c.got ++ c.unread := by
  obtain ⟨rest, hwritten, ⟨err, hfailed⟩ | ⟨taken, hafter, hbytes, -⟩⟩ := h.aligned.unread
  · exact absurd hfailed (h.live err)
  · have hleft : c.reader.taken + c.inbox.length + c.net.length = (frames rest).length := by
      rw [hafter, ReadState.taken_after, hbytes]
      simp only [List.length_append, Nat.add_assoc]
    rw [Stream.unread, hleft, hwritten, wholeWithin_append]

/-- A message is written. -/
theorem Intact.send {c' : Stream} (h : Intact c) {msg : Message} (hsend : c.send msg = some c') :
    Intact c' ∧ c'.unread = c.unread ++ [msg] := by
  rw [Stream.send] at hsend
  split at hsend
  · rename_i frame henc
    cases hsend
    have hintact : Intact { c with net := c.net ++ frame, written := c.written ++ [msg] } :=
      ⟨h.aligned.write henc, h.live, h.opened⟩
    refine ⟨hintact, List.append_cancel_left (?_ : c.got ++ _ = c.got ++ _)⟩
    rw [← List.append_assoc, ← h.written]
    exact hintact.written.symm
  · cases hsend

/-- An aligned read does not fail. -/
theorem Intact.feed_live (h : Intact c) {b : UInt8} {inbox : List UInt8}
    (hinbox : c.inbox = b :: inbox) (err : ProtoError) : (c.reader.feed b).1 ≠ .failed err := by
  obtain ⟨rest, hwritten, ⟨err, hfailed⟩ | ⟨taken, hafter, hbytes, hinside⟩⟩ := h.aligned.unread
  · exact absurd hfailed (h.live err)
  · rw [hinbox, List.cons_append] at hbytes
    obtain ⟨msg, msgs, tail, rfl, hframe, -⟩ := frames_eq_append_cons hbytes hinside
    have henc : encode msg = .ok msg.frame := h.aligned.encodes msg (by rw [hwritten]; simp)
    rw [hafter, ReadState.feed_frame henc hframe]
    split
    · exact nofun
    · obtain heq | ⟨len, buf, heq⟩ := ReadState.after_cases (taken ++ [b]) <;> rw [heq] <;>
        exact nofun

theorem Intact.arrive {c c' : Stream} (h : Intact c) {n : ℕ}
    (hstep : c.step (.arrive n) = some c') : Intact c' ∧ c'.unread = c.unread := by
  have haligned : Aligned c' := h.aligned.step (a := .arrive n) trivial hstep
  cases hstep
  have hintact : Intact { c with net := c.net.drop n, inbox := c.inbox ++ c.net.take n } :=
    ⟨haligned, h.live, h.opened⟩
  exact ⟨hintact, List.append_cancel_left (hintact.written.symm.trans h.written)⟩

/-- **Reading an intact stream.**  A message that a read gives is the first of the unread. -/
theorem Intact.take {c c' : Stream} (h : Intact c) (hstep : c.step .take = some c') :
    Intact c' ∧ (c'.got.drop c.got.length = [] ∧ c'.unread = c.unread ∨
      ∃ msg, c'.got.drop c.got.length = [msg] ∧ c.unread = msg :: c'.unread) := by
  have haligned : Aligned c' := h.aligned.step (a := .take) trivial hstep
  cases Stream.step_effect hstep with
  | wait => exact ⟨h, Or.inl ⟨List.drop_length, rfl⟩⟩
  | ended hfinished =>
      rw [h.opened] at hfinished
      cases hfinished
  | take _ hinbox =>
      have hintact : Intact _ := ⟨haligned, h.feed_live hinbox, h.opened⟩
      have hsplit := h.written.symm.trans hintact.written
      refine ⟨hintact, ?_⟩
      dsimp only at hsplit ⊢
      rw [List.append_assoc] at hsplit
      have hunread := List.append_cancel_left hsplit
      rw [List.drop_left]
      cases hmsg : (c.reader.feed _).2 with
      | none =>
          rw [hmsg] at hunread
          exact Or.inl ⟨rfl, hunread.symm⟩
      | some msg =>
          rw [hmsg] at hunread
          exact Or.inr ⟨msg, rfl, hunread⟩

/-- A read that has taken no byte is dropped without a trace. -/
theorem Stream.cancel_idle (hidle : c.reader = .header []) : c.step .cancel = some c := by
  unfold Stream.step
  dsimp only
  rw [hidle]
  dsimp only
  rw [← hidle]

end Nosh.Proto
