import Nosh.Lib.Machine
import Nosh.Proto.Codec

/-!
# Reading frames under cancellation

`read_message_ns` of `nosh-proto/src/transport_trait.rs` in the `select!` loops of
both pumps.  The future keeps what it has read of a frame, the length buffer and
then the partial body, in its own locals; the bytes themselves are gone from the
stream.  When another arm of the loop is ready first, the future is dropped with
them, and the next call starts at a byte in the middle of a frame.

## Main results

* `ReadState.feed_frame` — byte by byte, a frame is read back as its message.
* `Aligned.step` — the reader stays aligned with the frames as long as no read is
  dropped after it has taken a byte.
* `got_isPrefix_written` — **in such runs the messages read are a prefix of the
  messages written.**
* `cancelled_read_invents` — one dropped read turns terminal output into a
  `ReattachErr` that nobody sent.
* `codec_roundTrip` — **messages that encode are read back from the concatenation of
  their frames**, and oversized ones are refused on both sides.
* `Accounted.step` — dropped reads or not, the messages read have no more bytes than
  the messages written.
-/

namespace Nosh.Proto

open Nosh.Lib

/-- A `read_message_ns` future: filling the length buffer, filling the body, or
returned with an error, which ends the pump. -/
inductive ReadState
  | header (lenBuf : List UInt8)
  | body (len : ℕ) (buf : List UInt8)
  | failed (err : ProtoError)
  deriving DecidableEq

/-- The body is complete: decode it.  After a message the loop starts a new read. -/
def ReadState.finish (body : List UInt8) : ReadState × Option Message :=
  match decode body with
  | .ok msg => (.header [], some msg)
  | .error err => (.failed err, none)

/-- The pending `read_exact` takes one byte, and the future runs on to its next await
point. -/
def ReadState.feed : ReadState → UInt8 → ReadState × Option Message
  | .header lenBuf, b =>
      if (lenBuf ++ [b]).length < 4 then (.header (lenBuf ++ [b]), none)
      else
        let len := fromBeBytes (lenBuf ++ [b])
        if maxFrameLen < len then (.failed (.frameTooLarge len), none)
        else if len = 0 then ReadState.finish []
        else (.body len [], none)
  | .body len buf, b =>
      if (buf ++ [b]).length < len then (.body len (buf ++ [b]), none)
      else ReadState.finish (buf ++ [b])
  | .failed err, _ => (.failed err, none)

/-- One direction of a reliable stream and the loop that reads it. -/
structure Stream where
  /-- Bytes written and not yet arrived. -/
  net : List UInt8
  /-- Bytes arrived and not yet taken. -/
  inbox : List UInt8
  reader : ReadState
  /-- The writer has finished the stream. -/
  finished : Bool
  /-- History: the messages written. -/
  written : List Message
  /-- History: the messages the loop obtained. -/
  got : List Message
  deriving DecidableEq

/-- An open stream with nothing written. -/
def Stream.start : Stream := ⟨[], [], .header [], false, [], []⟩

/-- The steps of writer, network and reader. -/
inductive StreamAction
  | write (msg : Message)
  | finish
  /-- The next `n` bytes arrive. -/
  | arrive (n : ℕ)
  /-- The pending read is polled and takes one byte, or learns that there is none. -/
  | take
  /-- Another arm of the `select!` is ready: the pending read is dropped. -/
  | cancel

/-- One step.  A message that does not encode writes no byte; after a read error the
loop is over. -/
def Stream.step (c : Stream) : StreamAction → Option Stream
  | .write msg =>
      if c.finished then none
      else match encode msg with
        | .ok frame => some { c with net := c.net ++ frame, written := c.written ++ [msg] }
        | .error _ => some c
  | .finish => some { c with finished := true }
  | .arrive n => some { c with net := c.net.drop n, inbox := c.inbox ++ c.net.take n }
  | .take =>
      match c.reader, c.inbox with
      | .failed _, _ => none
      | _, [] =>
          if c.finished ∧ c.net = [] then some { c with reader := .failed .io } else some c
      | reader, b :: inbox =>
          some { c with
            inbox := inbox
            reader := (reader.feed b).1
            got := c.got ++ (reader.feed b).2.toList }
  | .cancel =>
      match c.reader with
      | .failed _ => none
      | _ => some { c with reader := .header [] }

/-- The stream as a machine. -/
def stream : Machine Stream StreamAction := ⟨Stream.step⟩

/-- A read is dropped only before it has taken a byte. -/
def Stream.DropsNothing (c : Stream) : StreamAction → Prop
  | .cancel => c.reader = .header []
  | _ => True

instance (c : Stream) (a : StreamAction) : Decidable (c.DropsNothing a) :=
  match a with
  | .cancel => inferInstanceAs (Decidable (_ = _))
  | .write _ | .finish | .arrive _ | .take => inferInstanceAs (Decidable True)

/-! ## One frame -/

/-- The frame of a message. -/
def Message.frame (msg : Message) : List UInt8 := toBeBytes msg.body.length ++ msg.body

/-- The frames of messages, one after the other. -/
def frames (msgs : List Message) : List UInt8 := msgs.flatMap Message.frame

@[simp] theorem frames_nil : frames [] = [] := rfl

@[simp] theorem frames_cons (msg : Message) (msgs : List Message) :
    frames (msg :: msgs) = msg.frame ++ frames msgs := rfl

theorem frames_append (msgs msgs' : List Message) :
    frames (msgs ++ msgs') = frames msgs ++ frames msgs' := List.flatMap_append

theorem Message.frame_pos (msg : Message) : 0 < msg.frame.length := by
  rw [Message.frame, List.length_append, length_toBeBytes]
  omega

/-- The future that has taken `taken` of a frame. -/
def ReadState.after (taken : List UInt8) : ReadState :=
  if taken.length < 4 then .header taken
  else .body (fromBeBytes (taken.take 4)) (taken.drop 4)

variable {msg : Message} {rest : List UInt8} {c c' : Stream} {a : StreamAction}

/-- **Reading a frame.**  A future that has taken a part of a frame takes its next
byte: it gives the message if that was the last one, and else has taken one more. -/
theorem ReadState.feed_frame {frame taken : List UInt8} {b : UInt8} (henc : encode msg = .ok frame)
    (hframe : frame = taken ++ b :: rest) :
    (ReadState.after taken).feed b =
      if rest = [] then (.header [], some msg) else (.after (taken ++ [b]), none) := by
  obtain ⟨hparts, hfit, hlen, hdecode⟩ := encode_ok henc
  have hfinish : ReadState.finish msg.body = (.header [], some msg) := by
    rw [ReadState.finish, hdecode]
  rw [hparts] at hframe
  have htotal := congrArg List.length hframe
  simp only [List.length_append, length_toBeBytes, List.length_cons] at htotal
  by_cases hprefix : (taken ++ [b]).length < 4
  · -- still inside the length buffer
    have htaken : taken.length < 4 := by
      simp only [List.length_append, List.length_singleton] at hprefix
      omega
    have hrest : rest ≠ [] := by
      rintro rfl
      simp only [List.length_append, List.length_singleton, List.length_nil] at hprefix htotal
      omega
    rw [if_neg hrest, ReadState.after, if_pos htaken, ReadState.feed, if_pos hprefix,
      ReadState.after, if_pos hprefix]
  · by_cases htaken : taken.length < 4
    · -- the byte completes the length buffer
      have hfull : (taken ++ [b]).length = 4 := by
        simp only [List.length_append, List.length_singleton] at hprefix ⊢
        omega
      have hsplit : toBeBytes msg.body.length = taken ++ [b] ∧ msg.body = rest := by
        refine List.append_inj ?_ (by rw [length_toBeBytes, hfull])
        rw [hframe, List.append_assoc, List.singleton_append]
      obtain ⟨hbuf, hbody⟩ := hsplit
      rw [ReadState.after, if_pos htaken, ReadState.feed, if_neg hprefix, ← hbuf, hlen]
      dsimp only
      rw [if_neg (Nat.not_lt.mpr hfit)]
      by_cases hempty : msg.body.length = 0
      · have hnil : msg.body = [] := List.length_eq_zero_iff.mp hempty
        rw [if_pos hempty, if_pos (hbody.symm.trans hnil), ← hfinish, hnil]
      · have hrest : rest ≠ [] := by
          rw [← hbody]
          exact List.ne_nil_of_length_pos (Nat.pos_of_ne_zero hempty)
        have hafter : ReadState.after (toBeBytes msg.body.length) = .body msg.body.length [] := by
          rw [ReadState.after, if_neg (by simp), List.take_of_length_le (by simp), hlen,
            List.drop_of_length_le (by simp)]
        rw [if_neg hempty, if_neg hrest, hafter]
    · -- inside the body
      have hsplit : toBeBytes msg.body.length = taken.take 4 ∧
          msg.body = taken.drop 4 ++ b :: rest := by
        refine List.append_inj ?_ (by rw [length_toBeBytes, List.length_take]; omega)
        rw [hframe, ← List.append_assoc, List.take_append_drop]
      obtain ⟨hbuf, hbody⟩ := hsplit
      have hbodyLen := congrArg List.length hbody
      simp only [List.length_append, List.length_cons] at hbodyLen
      rw [ReadState.after, if_neg htaken, ← hbuf, hlen, ReadState.feed]
      by_cases hrest : rest = []
      · subst hrest
        rw [if_pos rfl, if_neg, ← hbody, hfinish]
        simp only [List.length_append, List.length_singleton]
        simp only [List.length_nil] at hbodyLen
        omega
      · have hpos := List.length_pos_iff.mpr hrest
        have htake : (taken ++ [b]).take 4 = toBeBytes msg.body.length := by
          rw [List.take_append_of_le_length (by omega), hbuf]
        have hdrop : (taken ++ [b]).drop 4 = taken.drop 4 ++ [b] :=
          List.drop_append_of_le_length (by omega)
        rw [if_neg hrest, if_pos, ReadState.after, if_neg hprefix, htake, hlen, hdrop]
        simp only [List.length_append, List.length_singleton]
        omega

/-! ## What a step does -/

/-- What the actions find and leave. -/
inductive Stream.Effect (c : Stream) : StreamAction → Stream → Prop
  | write {msg : Message} (henc : encode msg = .ok msg.frame) :
      Effect c (.write msg) { c with net := c.net ++ msg.frame, written := c.written ++ [msg] }
  | refuse {msg : Message} {err : ProtoError} (henc : encode msg = .error err) :
      Effect c (.write msg) c
  | finish : Effect c .finish { c with finished := true }
  | arrive (n : ℕ) :
      Effect c (.arrive n) { c with net := c.net.drop n, inbox := c.inbox ++ c.net.take n }
  /-- There is no byte to take yet. -/
  | wait : Effect c .take c
  /-- There is no byte to take any more. -/
  | ended (hfinished : c.finished = true) : Effect c .take { c with reader := .failed .io }
  | take {b : UInt8} {inbox : List UInt8} (hlive : ∀ err, c.reader ≠ .failed err)
      (hinbox : c.inbox = b :: inbox) :
      Effect c .take { c with
        inbox := inbox
        reader := (c.reader.feed b).1
        got := c.got ++ (c.reader.feed b).2.toList }
  | cancel : Effect c .cancel { c with reader := .header [] }

/-- Every step is one of these. -/
theorem Stream.step_effect (hstep : c.step a = some c') : c.Effect a c' := by
  cases a with
  | write msg =>
      rw [Stream.step] at hstep
      split at hstep
      · cases hstep
      · cases henc : encode msg with
        | error err =>
            rw [henc] at hstep
            cases hstep
            exact .refuse henc
        | ok frame =>
            rw [(encode_ok henc).1] at henc
            rw [henc] at hstep
            cases hstep
            exact .write henc
  | finish =>
      cases hstep
      exact .finish
  | arrive n =>
      cases hstep
      exact .arrive n
  | take =>
      rw [Stream.step] at hstep
      split at hstep
      · cases hstep
      · split at hstep
        · rename_i hended
          cases hstep
          exact .ended hended.1
        · cases hstep
          exact .wait
      · rename_i b inbox hinbox hlive
        cases hstep
        exact .take hlive hinbox
  | cancel =>
      rw [Stream.step] at hstep
      split at hstep
      · cases hstep
      · cases hstep
        exact .cancel

theorem Stream.step_write (henc : encode msg = .ok msg.frame)
    (hstep : c.step (.write msg) = some c') :
    c' = { c with net := c.net ++ msg.frame, written := c.written ++ [msg] } := by
  cases Stream.step_effect hstep with
  | write _ => rfl
  | refuse herr =>
      rw [henc] at herr
      cases herr

/-! ## Aligned readers -/

/-- The reader is aligned: what it has taken, what has arrived and what is under way
are together the frames of the messages it has not given yet, and it is inside the
first of them.  A reader that has failed gives nothing more. -/
structure Aligned (c : Stream) : Prop where
  encodes : ∀ msg ∈ c.written, encode msg = .ok msg.frame
  unread : ∃ rest, c.written = c.got ++ rest ∧
    ((∃ err, c.reader = .failed err) ∨
      ∃ taken, c.reader = .after taken ∧ frames rest = taken ++ (c.inbox ++ c.net) ∧
        ∀ msg ∈ rest.head?, taken.length < msg.frame.length)

theorem aligned_start : Aligned .start :=
  ⟨by simp [Stream.start], [], rfl, Or.inr ⟨[], rfl, rfl, by simp⟩⟩

/-- The first unread frame, when there is a byte to take. -/
theorem frames_eq_append_cons {rest : List Message} {taken more : List UInt8} {b : UInt8}
    (h : frames rest = taken ++ b :: more)
    (hinside : ∀ msg ∈ rest.head?, taken.length < msg.frame.length) :
    ∃ msg msgs tail, rest = msg :: msgs ∧ msg.frame = taken ++ b :: tail ∧
      more = tail ++ frames msgs := by
  cases rest with
  | nil =>
      have hlen := congrArg List.length h
      simp at hlen
  | cons msg msgs =>
      have hlt : taken.length < msg.frame.length := hinside msg rfl
      rw [frames_cons, List.append_eq_append_iff] at h
      rcases h with ⟨extra, htaken, -⟩ | ⟨extra, hframe, hmore⟩
      · -- the frame would end inside what was taken
        have hlen := congrArg List.length htaken
        rw [List.length_append] at hlen
        omega
      · cases extra with
        | nil =>
            have hlen := congrArg List.length hframe
            simp only [List.append_nil] at hlen
            omega
        | cons b' tail =>
            obtain ⟨rfl, rfl⟩ := List.cons.inj hmore
            exact ⟨msg, msgs, tail, rfl, hframe, rfl⟩

theorem Aligned.write {c : Stream} (h : Aligned c) {msg : Message} {frame : List UInt8}
    (henc : encode msg = .ok frame) :
    Aligned { c with net := c.net ++ frame, written := c.written ++ [msg] } := by
  have hframe : frame = msg.frame := (encode_ok henc).1
  subst hframe
  obtain ⟨rest, hwritten, hreader⟩ := h.unread
  refine ⟨?_, rest ++ [msg], ?_, ?_⟩
  · intro m hm
    rcases List.mem_append.mp hm with hm | hm
    · exact h.encodes m hm
    · rw [List.mem_singleton.mp hm]
      exact henc
  · change c.written ++ [msg] = c.got ++ (rest ++ [msg])
    rw [hwritten, List.append_assoc]
  · rcases hreader with hfailed | ⟨taken, hafter, hbytes, hinside⟩
    · exact Or.inl hfailed
    · refine Or.inr ⟨taken, hafter, ?_, ?_⟩
      · change _ = taken ++ (c.inbox ++ (c.net ++ msg.frame))
        rw [frames_append, hbytes, frames_cons, frames_nil, List.append_nil]
        simp only [List.append_assoc]
      · intro m hm
        cases rest with
        | nil =>
            have hnil : taken = [] := (List.append_eq_nil_iff.mp hbytes.symm).1
            rw [hnil]
            exact m.frame_pos
        | cons first others => exact hinside m hm

theorem Aligned.take {c : Stream} (h : Aligned c) {b : UInt8} {inbox : List UInt8}
    (hlive : ∀ err, c.reader ≠ .failed err) (hinbox : c.inbox = b :: inbox) :
    Aligned { c with
      inbox := inbox
      reader := (c.reader.feed b).1
      got := c.got ++ (c.reader.feed b).2.toList } := by
  obtain ⟨rest, hwritten, ⟨err, hfailed⟩ | ⟨taken, hafter, hbytes, hinside⟩⟩ := h.unread
  · exact absurd hfailed (hlive err)
  · rw [hinbox, List.cons_append] at hbytes
    obtain ⟨msg, msgs, tail, rfl, hframe, hmore⟩ := frames_eq_append_cons hbytes hinside
    have henc : encode msg = .ok msg.frame := h.encodes msg (by rw [hwritten]; simp)
    rw [hafter, ReadState.feed_frame henc hframe]
    refine ⟨h.encodes, ?_⟩
    by_cases htail : tail = []
    · -- the frame is complete and its message is given
      subst htail
      rw [if_pos rfl]
      refine ⟨msgs, ?_, Or.inr ⟨[], rfl, ?_, fun m _ => m.frame_pos⟩⟩
      · rw [hwritten, Option.toList_some, List.append_assoc, List.singleton_append]
      · change frames msgs = inbox ++ c.net
        rw [hmore, List.nil_append]
    · rw [if_neg htail]
      refine ⟨msg :: msgs, ?_, Or.inr ⟨taken ++ [b], rfl, ?_, ?_⟩⟩
      · rw [hwritten, Option.toList_none, List.append_nil]
      · change _ = (taken ++ [b]) ++ (inbox ++ c.net)
        rw [hbytes, List.append_assoc, List.singleton_append]
      · intro m hm
        obtain rfl : msg = m := by simpa using hm
        have hpos := List.length_pos_iff.mpr htail
        rw [hframe]
        simp only [List.length_append, List.length_cons, List.length_nil]
        omega

/-- Every step keeps the reader aligned, if no read is dropped after its first byte. -/
theorem Aligned.step (h : Aligned c) (hok : c.DropsNothing a) (hstep : c.step a = some c') :
    Aligned c' := by
  cases Stream.step_effect hstep with
  | write henc => exact h.write henc
  | refuse _ => exact h
  | finish => exact { h with }
  | arrive n =>
      obtain ⟨rest, hwritten, hreader⟩ := h.unread
      refine ⟨h.encodes, rest, hwritten, ?_⟩
      rcases hreader with hfailed | ⟨taken, hafter, hbytes, hinside⟩
      · exact Or.inl hfailed
      · refine Or.inr ⟨taken, hafter, ?_, hinside⟩
        change _ = taken ++ ((c.inbox ++ c.net.take n) ++ c.net.drop n)
        rw [List.append_assoc, List.take_append_drop, hbytes]
  | wait => exact h
  | ended =>
      obtain ⟨rest, hwritten, -⟩ := h.unread
      exact ⟨h.encodes, rest, hwritten, Or.inl ⟨_, rfl⟩⟩
  | take hlive hinbox => exact h.take hlive hinbox
  | cancel =>
      -- the dropped read is as good as new
      have hsame : { c with reader := .header [] } = c := by
        rw [← hok]
      rw [hsame]
      exact h

/-- **Framing.**  In every run in which a pending read is dropped only before it has
taken a byte, whatever the fragmentation, the messages read are a prefix of the
messages written. -/
theorem got_isPrefix_written {as : List StreamAction} {c : Stream}
    (hok : stream.Along Stream.DropsNothing .start as) (hrun : stream.run .start as = some c) :
    c.got <+: c.written := by
  have hinv : Aligned c :=
    stream.invariant_along _ (fun c a c' hc ha hs => Aligned.step hc ha hs) aligned_start hok hrun
  obtain ⟨rest, hwritten, -⟩ := hinv.unread
  exact ⟨rest, hwritten.symm⟩

/-- A read that is dropped before its first byte, and a frame that arrives in two
pieces. -/
def patientRun : List StreamAction :=
  [.write (.ack 3), .cancel, .arrive 5, .take, .take, .take, .take, .take, .arrive 1, .take]

/-- The stream after `patientRun`. -/
def patient : Stream := (stream.run .start patientRun).getD .start

theorem got_isPrefix_written_patient :
    patient.got = [.ack 3] ∧ patient.got <+: patient.written := by
  have hrun : stream.run .start patientRun = some patient := by
    decide
  exact ⟨by decide, got_isPrefix_written (by decide) hrun⟩

/-- Terminal output of five bytes; the read is dropped after six bytes of the frame,
the length, the variant index and the count. -/
def cancelledRun : List StreamAction :=
  [.write (.ptyData [0, 0, 0, 1, 7]), .arrive 6, .take, .take, .take, .take, .take, .take,
    .cancel, .arrive 5, .take, .take, .take, .take, .take]

/-- **A dropped read invents a message.**  The next read takes the output for a frame
and obtains a `ReattachErr`. -/
theorem cancelled_read_invents :
    ∃ c ∈ stream.run .start cancelledRun,
      c.written = [.ptyData [0, 0, 0, 1, 7]] ∧ c.got = [.reattachErr] ∧ ¬ c.got <+: c.written := by
  decide

/-! ## Bytes under cancellation -/

/-- The bytes that the future has taken. -/
def ReadState.taken : ReadState → ℕ
  | .header lenBuf => lenBuf.length
  | .body _ buf => 4 + buf.length
  | .failed _ => 0

/-- The buffers are not full, and the body has an admitted length. -/
def ReadState.Within : ReadState → Prop
  | .header lenBuf => lenBuf.length < 4
  | .body len buf => buf.length < len ∧ len ≤ maxFrameLen
  | .failed _ => True

theorem ReadState.within_header_nil : (ReadState.header []).Within := Nat.zero_lt_succ 3

/-- A complete body gives a message of at most its length. -/
theorem ReadState.finish_accounted {body : List UInt8} (hfit : body.length ≤ maxFrameLen) :
    (ReadState.finish body).1.Within ∧
      (∀ msg ∈ (ReadState.finish body).2, msg.body.length ≤ maxFrameLen) ∧
      (ReadState.finish body).1.taken + (frames (ReadState.finish body).2.toList).length ≤
        4 + body.length := by
  cases hdecode : decode body with
  | error err =>
      rw [ReadState.finish, hdecode]
      exact ⟨trivial, by rintro msg ⟨⟩, Nat.zero_le _⟩
  | ok msg =>
      have hle := decode_length_le hdecode
      rw [ReadState.finish, hdecode]
      refine ⟨ReadState.within_header_nil, ?_, ?_⟩
      · rintro msg ⟨⟩
        exact hle.trans hfit
      · simp only [ReadState.taken, Option.toList_some, frames_cons, frames_nil, List.append_nil,
          Message.frame, List.length_append, length_toBeBytes, List.length_nil]
        omega

/-- A byte taken pays for a byte of the future or of its message. -/
theorem ReadState.feed_accounted {reader : ReadState} (h : reader.Within) (b : UInt8) :
    (reader.feed b).1.Within ∧ (∀ msg ∈ (reader.feed b).2, msg.body.length ≤ maxFrameLen) ∧
      (reader.feed b).1.taken + (frames (reader.feed b).2.toList).length ≤ reader.taken + 1 := by
  cases reader with
  | failed err => exact ⟨trivial, by rintro msg ⟨⟩, Nat.zero_le _⟩
  | header lenBuf =>
      have hshort : lenBuf.length < 4 := h
      dsimp only [ReadState.feed]
      split
      · rename_i hmore
        refine ⟨hmore, by rintro msg ⟨⟩, ?_⟩
        simp [ReadState.taken]
      · rename_i hfull
        have hfour : lenBuf.length + 1 = 4 := by
          rw [List.length_append, List.length_singleton] at hfull
          omega
        split
        · exact ⟨trivial, by rintro msg ⟨⟩, Nat.zero_le _⟩
        · rename_i hadmitted
          split
          · have hfinish := @ReadState.finish_accounted [] (Nat.zero_le maxFrameLen)
            refine ⟨hfinish.1, hfinish.2.1, hfinish.2.2.trans ?_⟩
            rw [ReadState.taken, hfour, List.length_nil]
          · rename_i hnonempty
            have hlen := Nat.le_of_not_lt hadmitted
            refine ⟨⟨Nat.pos_of_ne_zero hnonempty, hlen⟩, by rintro msg ⟨⟩, ?_⟩
            simp only [ReadState.taken, List.length_nil, Option.toList_none, frames_nil, hfour]
            omega
  | body len buf =>
      obtain ⟨hbuf, hfit⟩ : buf.length < len ∧ len ≤ maxFrameLen := h
      dsimp only [ReadState.feed]
      split
      · rename_i hmore
        refine ⟨⟨hmore, hfit⟩, by rintro msg ⟨⟩, ?_⟩
        simp only [ReadState.taken, List.length_append, List.length_singleton, Option.toList_none,
          frames_nil, List.length_nil]
        omega
      · have hlen : (buf ++ [b]).length = buf.length + 1 := List.length_append
        have hfinish := ReadState.finish_accounted (hlen.trans_le (hbuf.trans_le hfit))
        refine ⟨hfinish.1, hfinish.2.1, hfinish.2.2.trans ?_⟩
        rw [ReadState.taken, hlen]
        omega

/-- What was read, what the future has taken and what is still to be taken was written; a
dropped read leaves bytes that are none of these. -/
structure Accounted (c : Stream) : Prop where
  within : c.reader.Within
  fits : ∀ msg ∈ c.got, msg.body.length ≤ maxFrameLen
  bytes : (frames c.got).length + c.reader.taken + c.inbox.length + c.net.length ≤
    (frames c.written).length

theorem accounted_start : Accounted .start :=
  ⟨ReadState.within_header_nil, fun _ h => (List.not_mem_nil h).elim, by decide⟩

theorem Accounted.step (h : Accounted c) (hstep : c.step a = some c') : Accounted c' := by
  have hbytes := h.bytes
  cases Stream.step_effect hstep with
  | write henc =>
      refine ⟨h.within, h.fits, ?_⟩
      simp only [frames_append, frames_cons, frames_nil, List.append_nil, List.length_append]
      omega
  | refuse _ => exact h
  | finish => exact { h with }
  | arrive n =>
      refine ⟨h.within, h.fits, ?_⟩
      simp only [List.length_append, List.length_take, List.length_drop]
      omega
  | wait => exact h
  | ended =>
      refine ⟨trivial, h.fits, ?_⟩
      simp only [ReadState.taken]
      omega
  | @take b inbox _ hinbox =>
      obtain ⟨hwithin, hfits, hfeed⟩ := ReadState.feed_accounted h.within b
      refine ⟨hwithin, ?_, ?_⟩
      · intro msg hmsg
        rcases List.mem_append.mp hmsg with hold | hnew
        · exact h.fits msg hold
        · exact hfits msg (Option.mem_toList.mp hnew)
      · rw [hinbox, List.length_cons] at hbytes
        simp only [frames_append, List.length_append]
        omega
  | cancel =>
      refine ⟨ReadState.within_header_nil, h.fits, ?_⟩
      simp only [ReadState.taken, List.length_nil]
      omega

/-! ## Whole streams -/

/-- The loop that reads one message after the other takes a list of bytes. -/
def ReadState.feedAll : ReadState → List UInt8 → ReadState × List Message
  | reader, [] => (reader, [])
  | reader, b :: bytes =>
      let rest := ((reader.feed b).1).feedAll bytes
      (rest.1, (reader.feed b).2.toList ++ rest.2)

theorem ReadState.feedAll_append (reader : ReadState) (bytes more : List UInt8) :
    reader.feedAll (bytes ++ more) =
      (((reader.feedAll bytes).1.feedAll more).1,
        (reader.feedAll bytes).2 ++ ((reader.feedAll bytes).1.feedAll more).2) := by
  induction bytes generalizing reader with
  | nil => rfl
  | cons b bytes ih => simp only [List.cons_append, feedAll, ih, List.append_assoc]

/-- The rest of a frame gives its message. -/
theorem ReadState.feedAll_after {frame taken : List UInt8} (henc : encode msg = .ok frame)
    (hframe : frame = taken ++ rest) (hrest : rest ≠ []) :
    (ReadState.after taken).feedAll rest = (.header [], [msg]) := by
  induction rest generalizing taken with
  | nil => exact absurd rfl hrest
  | cons b rest ih =>
      rw [feedAll, feed_frame henc hframe]
      by_cases hlast : rest = []
      · subst hlast
        rfl
      · rw [if_neg hlast]
        have hmore : frame = (taken ++ [b]) ++ rest := by
          rw [hframe, List.append_assoc, List.singleton_append]
        simp only [ih hmore hlast, Option.toList_none, List.nil_append]

theorem ReadState.feedAll_frame {frame : List UInt8} (henc : encode msg = .ok frame) :
    (ReadState.header []).feedAll frame = (.header [], [msg]) := by
  have hpos := msg.frame_pos
  rw [Message.frame, ← (encode_ok henc).1] at hpos
  exact feedAll_after henc (List.nil_append frame).symm (List.ne_nil_of_length_pos hpos)

/-- **Round trip of a stream.** -/
theorem ReadState.feedAll_encode {msgs : List Message} {encoded : List (List UInt8)}
    (henc : msgs.mapM encode = .ok encoded) :
    (ReadState.header []).feedAll encoded.flatten = (.header [], msgs) := by
  induction msgs generalizing encoded with
  | nil =>
      cases henc
      rfl
  | cons msg msgs ih =>
      rw [List.mapM_cons] at henc
      cases hmsg : encode msg with
      | error err =>
          rw [hmsg] at henc
          cases henc
      | ok frame =>
          cases hmsgs : msgs.mapM encode with
          | error err =>
              rw [hmsg, hmsgs] at henc
              cases henc
          | ok encoded =>
              rw [hmsg, hmsgs] at henc
              cases henc
              rw [List.flatten_cons, feedAll_append, feedAll_frame hmsg, ih hmsgs]
              rfl

theorem encode_of_le (h : msg.body.length ≤ maxFrameLen) :
    encode msg = .ok msg.frame := if_neg (Nat.not_lt.mpr h)

theorem mapM_encode_of_le {msgs : List Message} (h : ∀ msg ∈ msgs, msg.body.length ≤ maxFrameLen) :
    msgs.mapM encode = .ok (msgs.map Message.frame) := by
  induction msgs with
  | nil => rfl
  | cons msg msgs ih =>
      rw [List.mapM_cons, encode_of_le (h msg List.mem_cons_self),
        ih fun m hm => h m (List.mem_cons_of_mem msg hm)]
      rfl

/-- Taking bytes that do not fill the length buffer. -/
theorem Stream.run_takes_header {lenBuf more : List UInt8} (hreader : c.reader = .header lenBuf)
    (hinbox : c.inbox = more ++ rest) (hshort : (lenBuf ++ more).length < 4) :
    stream.run c (List.replicate more.length .take) =
      some { c with inbox := rest, reader := .header (lenBuf ++ more) } := by
  induction more generalizing c lenBuf with
  | nil =>
      obtain ⟨net, inbox, reader, finished, written, got⟩ := c
      dsimp only at hreader hinbox
      subst hreader hinbox
      rw [List.append_nil]
      rfl
  | cons b more ih =>
      rw [List.append_cons] at hshort ⊢
      have hone : (lenBuf ++ [b]).length < 4 := by
        rw [List.length_append] at hshort
        omega
      have hstep : stream.step c .take =
          some { c with inbox := more ++ rest, reader := .header (lenBuf ++ [b]) } := by
        change c.step .take = _
        rw [Stream.step, hreader, hinbox]
        simp only [List.cons_append, ReadState.feed, if_pos hone, Option.toList_none,
          List.append_nil]
      rw [List.length_cons, List.replicate_succ, Machine.run_cons, hstep]
      exact ih rfl rfl hshort

section

variable {lenBuf : List UInt8} (hreader : c.reader = .header [])
  (hinbox : c.inbox = lenBuf ++ rest) (hfour : lenBuf.length = 4)

include hreader hinbox hfour

/-- The reader takes the bytes of a length prefix one by one. -/
theorem Stream.run_takes_length {k : ℕ} (hk : k < 4) :
    stream.run c (List.replicate k .take) =
      some { c with inbox := lenBuf.drop k ++ rest, reader := .header (lenBuf.take k) } := by
  have htake : (lenBuf.take k).length = k := by
    rw [List.length_take]
    omega
  have hsplit : c.inbox = lenBuf.take k ++ (lenBuf.drop k ++ rest) := by
    rw [← List.append_assoc, List.take_append_drop, hinbox]
  have hshort : ([] ++ lenBuf.take k).length < 4 := by
    rw [List.nil_append, htake]
    exact hk
  have hrun := Stream.run_takes_header hreader hsplit hshort
  rwa [htake, List.nil_append] at hrun

/-- **An oversized length prefix.**  With its fourth byte the read has failed, and it never had
a body. -/
theorem Stream.run_takes_oversized (hlen : maxFrameLen < fromBeBytes lenBuf) :
    stream.run c (List.replicate 4 .take) =
      some { c with
        inbox := rest
        reader := .failed (.frameTooLarge (fromBeBytes lenBuf)) } := by
  have hlast : ∃ b, lenBuf.drop 3 = [b] :=
    List.length_eq_one_iff.mp (by rw [List.length_drop, hfour])
  obtain ⟨b, hb⟩ := hlast
  have hbuf : lenBuf.take 3 ++ [b] = lenBuf := by
    rw [← hb, List.take_append_drop]
  rw [show 4 = 3 + 1 from rfl, List.replicate_succ', Machine.run_append,
    run_takes_length hreader hinbox hfour (by decide)]
  rw [Option.bind_some, Machine.run_singleton, hb]
  simp only [stream, Stream.step, List.singleton_append, ReadState.feed, hbuf, hfour,
    Nat.lt_irrefl, if_false, if_pos hlen, Option.toList_none, List.append_nil]

end

/-- **The stream codec.**  A list of messages whose bodies fit encodes, and is read back
from the concatenation of its frames with nothing left over; a larger message does not
encode; and a length prefix above `MAX_FRAME_LEN` ends the reading while the reader is
still in front of the body. -/
theorem codec_roundTrip :
    (∀ msgs : List Message, (∀ msg ∈ msgs, msg.body.length ≤ maxFrameLen) →
        ∃ encoded, msgs.mapM encode = .ok encoded ∧
          (ReadState.header []).feedAll encoded.flatten = (.header [], msgs)) ∧
      (∀ msg : Message, maxFrameLen < msg.body.length →
        encode msg = .error (.frameTooLarge msg.body.length)) ∧
      ∀ (c : Stream) (lenBuf rest : List UInt8), c.reader = .header [] →
        c.inbox = lenBuf ++ rest → lenBuf.length = 4 → maxFrameLen < fromBeBytes lenBuf →
        (∀ k < 4, stream.run c (List.replicate k .take) =
            some { c with inbox := lenBuf.drop k ++ rest, reader := .header (lenBuf.take k) }) ∧
          stream.run c (List.replicate 4 .take) =
            some { c with
              inbox := rest
              reader := .failed (.frameTooLarge (fromBeBytes lenBuf)) } ∧
          stream.run c (List.replicate 5 .take) = none := by
  refine ⟨?_, ?_, ?_⟩
  · intro msgs hfit
    have henc := mapM_encode_of_le hfit
    exact ⟨_, henc, ReadState.feedAll_encode henc⟩
  · intro msg hlong
    exact if_pos hlong
  · intro c lenBuf rest hreader hinbox hfour hlen
    have hwhole := Stream.run_takes_oversized hreader hinbox hfour hlen
    refine ⟨fun _ hk => Stream.run_takes_length hreader hinbox hfour hk, hwhole, ?_⟩
    -- a failed read takes nothing of what follows
    rw [show 5 = 4 + 1 from rfl, List.replicate_succ', Machine.run_append, hwhole]
    rfl

theorem codec_roundTrip_pair :
    ∃ encoded, [Message.ack 300, .ptyData [0x68, 0x69]].mapM encode = .ok encoded ∧
      (ReadState.header []).feedAll encoded.flatten =
        (.header [], [.ack 300, .ptyData [0x68, 0x69]]) :=
  codec_roundTrip.1 _ (by decide)

end Nosh.Proto
