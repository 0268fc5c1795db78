import Nosh.Lib.Machine
import Nosh.Proto.Unread
import Nosh.Server.OutputBuffer

/-!
# Output accounting across reattach

The client resumes a session by the number of output chunks it has applied.  The
number is not on the wire: `highest_applied` is set from the reattach reply and goes
up by one with each `PtyData` frame the pump reads.  It is right only if every
`PtyData` frame of the stream is read by the pump.

The model has both ends: the server's ring, its pump and its reattach handler, the
client's phases from the first frame of a stream to its pump, and the connection
between them, which each end can lose without the other.  Both pumps read the bytes of
their streams with `read_message_ns` in a `select!` loop, which drops the pending read
when another arm is ready.

## Main results

* `Accounted.step` — one step keeps the unread output in front of `highest_applied`.
* `output_counted_once` — **as long as no `PtyData` is read before the reply to
  `ChannelOpen` and no read is dropped after its first byte, `highest_applied` is the
  number of the next unread chunk**, chunks are counted once, and only a truncated
  reattach skips any.
* `early_output_uncounted` — output that arrives before that reply is dropped
  without being counted.
-/

namespace Nosh.Reattach

open Nosh.Lib Nosh.Proto Nosh.Server

/-- What the server does for the slot. -/
inductive ServerPhase
  | orphaned
  /-- `run_reattach_session` after `ReattachOk`, with the chunks still to replay. -/
  | replaying (chunks : List Chunk)
  | pumping
  /-- No task serves the slot, and it is not orphaned: the shell has exited, the client
  has closed the session, or the task was dropped. -/
  | ended
  deriving DecidableEq

/-- Where the client is. -/
inductive ClientPhase
  /-- `open_session_with_token`. -/
  | awaitOpened
  /-- `await_reattach_reply`. -/
  | awaitReply
  /-- `await_channel_accept`, called by `run_pump` before its loop. -/
  | awaitAccept
  | pump
  | disconnected
  /-- Without a token: the session cannot be resumed. -/
  | gone
  deriving DecidableEq

/-- `run_pump` or what it calls reads the stream. -/
def ClientPhase.Attached (phase : ClientPhase) : Prop := phase = .awaitAccept ∨ phase = .pump

instance (phase : ClientPhase) : Decidable phase.Attached :=
  inferInstanceAs (Decidable (_ ∨ _))

/-- A `ReattachOk` the client received, with the resume point it had asked for. -/
structure Attachment where
  requested : ℕ
  replayingFrom : ℕ
  truncated : Bool
  deriving DecidableEq

/-- One slot and the client that owns it. -/
structure Session where
  buffer : SequencedOutputBuffer
  server : ServerPhase
  /-- The server's attachment is on the client's present connection. -/
  linked : Bool
  /-- The stream to the server's attachment. -/
  up : Stream
  /-- The stream to the client on its present connection. -/
  down : Stream
  /-- The `Reattach` of the present connection, until the server has read it. -/
  request : Option ℕ
  /-- The `Reattach` frames of connections the client has given up. -/
  stale : List ℕ
  client : ClientPhase
  highestApplied : ℕ
  /-- History: the number after the last chunk written to the present connection. -/
  streamNext : ℕ
  /-- History: the chunks the pump counted. -/
  counted : List ℕ
  /-- History: the reattach replies the client read. -/
  attachments : List Attachment
  deriving DecidableEq

/-- The stream on which `SessionOpened` is written. -/
def openedStream (token : ByteArr 16) : Stream :=
  { Stream.start with
    net := (Message.sessionOpened token).frame
    written := [.sessionOpened token] }

/-- A fresh session: the slot is registered and `SessionOpened` is sent. -/
def Session.start (maxBytes : ℕ) (token : ByteArr 16) : Session where
  buffer := .new maxBytes
  server := .pumping
  linked := true
  up := .start
  down := openedStream token
  request := none
  stale := []
  client := .awaitOpened
  highestApplied := 0
  streamNext := 0
  counted := []
  attachments := []

/-- `MAX_PTYDATA_FRAME_BYTES`: 1 MiB. -/
def maxPtyDataFrameBytes : ℕ := 1024 * 1024

/-- The steps; `sent` tells whether the write of the step succeeded. -/
inductive SessionAction
  /-- The pump takes a chunk, pushes it and writes it. -/
  | output (chunk : List UInt8) (sent : Bool)
  /-- The pump writes a frame of the terminal or of a channel, or the end of the shell. -/
  | control (msg : Message)
  /-- The next chunk is replayed or, after the last, the PTY is reclaimed. -/
  | replay (sent : Bool)
  /-- The next `n` bytes of the client arrive. -/
  | upBytes (n : ℕ)
  /-- The pump takes a byte; `accepted` is its answer to a `ChannelOpen`. -/
  | serve (accepted : Bool)
  /-- Another arm of the server's pump is ready. -/
  | cancelServe
  /-- The server handles the `Reattach` of the present connection. -/
  | reattach (authorized sent : Bool) (token : ByteArr 16)
  /-- The server handles a `Reattach` of a connection that the client has given up. -/
  | reattachStale (i : ℕ) (authorized sent : Bool)
  | serverLost
  | serverEnd
  /-- The next `n` bytes of the server arrive. -/
  | downBytes (n : ℕ)
  /-- The client takes a byte. -/
  | read
  /-- Another arm of the client's pump is ready. -/
  | cancelRead
  | sendAck
  /-- The client's pump writes input, a size or a frame of the scrollback channel. -/
  | sendFrame (msg : Message)
  | connect
  | clientLost

/-- Output. -/
def isPtyData : Message → Bool
  | .ptyData _ => true
  | _ => false

/-- The frames that the server's pump writes besides output and channel replies. -/
def ofServerPump : Message → Bool
  | .terminalControl _ | .channelClose _ | .channelCredit _ _ | .sessionClose _ _ => true
  | _ => false

/-- The frames that the client's pump writes besides its acks. -/
def ofClientPump : Message → Bool
  | .ptyData _ | .resize _ _ | .scrollbackCredit _ _ | .channelClose _ => true
  | _ => false

/-- The number of output chunks among messages. -/
def dataCount (msgs : List Message) : ℕ := msgs.countP isPtyData

namespace Session

/-- The number of the next chunk the client has not read: what is unread was written
last. -/
def nextUnread (s : Session) : ℕ := s.streamNext - dataCount s.down.unread

/-- The server's attachment ends in `registry.orphan`. -/
def orphan (s : Session) : Session :=
  { s with server := .orphaned, linked := false, up := .start }

/-- Write a frame to the attachment; it goes nowhere if the client has left. -/
def send (s : Session) (msg : Message) : Option Session :=
  if s.linked then (s.down.send msg).map fun down => { s with down := down } else some s

/-- Write a `PtyData` frame to the attachment. -/
def sendData (s : Session) (chunk : Chunk) : Option Session :=
  if s.linked then
    (s.down.send (.ptyData chunk.2)).map fun down =>
      { s with down := down, streamNext := chunk.1 + 1 }
  else some s

/-- The client sends a frame to the attachment. -/
def clientSend (s : Session) (msg : Message) : Session :=
  if s.linked then { s with up := (s.up.send msg).getD s.up } else s

/-- The client gives the connection up. -/
def leave (s : Session) (phase : ClientPhase) : Session :=
  { s with
    client := phase
    linked := false
    down := .start
    request := none
    stale := s.stale ++ s.request.toList }

/-- `run_pump` opens the scrollback channel with the first even id. -/
def openScrollback (s : Session) : Session := s.clientSend (.channelOpen 2 .scrollback)

/-- `open_session_with_token`. -/
def readOpened (s : Session) : Message → Session
  | .sessionOpened _ => openScrollback { s with client := .awaitAccept, highestApplied := 0 }
  | _ => s.leave .gone

/-- `await_reattach_reply` and what `reattach_session` makes of it. -/
def readReply (s : Session) : Message → Session
  | .reattachOk _ replayingFromSeq truncated =>
      openScrollback { s with
        client := .awaitAccept
        highestApplied := replayingFromSeq.toNat
        attachments := s.attachments ++
          [⟨s.highestApplied, replayingFromSeq.toNat, truncated⟩] }
  | .reattachErr => s.leave .gone
  | _ => s.leave .disconnected

/-- `await_channel_accept`. -/
def readAccept (s : Session) : Message → Session
  -- passed over while waiting for the reply
  | .ptyData _ | .sessionOpened _ | .terminalControl _ | .ack _ => s
  -- the reply; any other frame fails the channel open, which is not fatal
  | _ => { s with client := .pump }

/-- The frame arm of the loop of `run_pump`; `seq` is the number of the chunk. -/
def readPump (s : Session) (seq : ℕ) : Message → Session
  | .ptyData data =>
      if maxPtyDataFrameBytes < data.length then s.leave .disconnected
      else { s with highestApplied := s.highestApplied + 1, counted := s.counted ++ [seq] }
  | .sessionClose _ _ => s.leave .gone
  | _ => s

/-- The client has read a message. -/
def readMessage (seq : ℕ) (s : Session) (msg : Message) : Session :=
  match s.client with
  | .awaitOpened => s.readOpened msg
  | .awaitReply => s.readReply msg
  | .awaitAccept => s.readAccept msg
  | .pump => s.readPump seq msg
  | .disconnected | .gone => s

/-- The client's read has failed.  In `await_channel_accept` that is not fatal either: the
pump goes on with a new read. -/
def readFailed (s : Session) : Session :=
  match s.client with
  | .awaitOpened => s.leave .gone
  | .awaitAccept => { s with client := .pump, down := { s.down with reader := .header [] } }
  | _ => s.leave .disconnected

/-- The read of the client, after the stream has moved. -/
def clientRead (s : Session) (down : Stream) : Session :=
  match down.reader with
  | .failed _ => readFailed { s with down := down }
  | _ =>
      (down.got.drop s.down.got.length).foldl (readMessage s.nextUnread) { s with down := down }

/-- The server's pump has read a message.  A frame that is out of place ends the session,
which is the step `serverEnd`. -/
def serveMessage (accepted : Bool) (s : Session) : Message → Session
  | .channelOpen id _ =>
      if id.toNat % 2 = 1 then s
      else (s.send (if accepted then .channelAccept id else .channelReject id)).getD s
  | .ack seq => { s with buffer := s.buffer.trimAcked seq.toNat }
  | _ => s

/-- The read of the server's pump, after the stream has moved. -/
def serveRead (accepted : Bool) (s : Session) (up : Stream) : Session :=
  match up.reader with
  | .failed _ => s.orphan
  | _ => (up.got.drop s.up.got.length).foldl (serveMessage accepted) { s with up := up }

/-- One step of server, client or connection. -/
def step (s : Session) : SessionAction → Option Session
  | .output chunk sent =>
      -- the numbers are `u64`: the run is over before they overflow
      if s.server = .pumping ∧ s.buffer.nextSeq + 1 < 2 ^ 64 then
        let pushed := { s with buffer := s.buffer.push chunk }
        if sent then pushed.sendData (s.buffer.nextSeq, chunk) else some pushed.orphan
      else none
  | .control msg => if s.server = .pumping ∧ ofServerPump msg then s.send msg else none
  | .replay sent =>
      match s.server with
      | .replaying (chunk :: rest) =>
          if sent then sendData { s with server := .replaying rest } chunk else some s.orphan
      | .replaying [] => some (if sent then { s with server := .pumping } else s.orphan)
      | _ => none
  | .upBytes n => (s.up.step (.arrive n)).map fun up => { s with up := up }
  | .serve accepted =>
      if s.server = .pumping then (s.up.step .take).map (s.serveRead accepted) else none
  | .cancelServe =>
      if s.server = .pumping then (s.up.step .cancel).map fun up => { s with up := up } else none
  | .reattach authorized sent token =>
      s.request.bind fun want =>
        if authorized ∧ s.server = .orphaned then
          if sent then
            (s.down.send (.reattachOk token (UInt64.ofNat (s.buffer.replayFrom want).2.1)
                (s.buffer.replayFrom want).2.2)).map fun down =>
              { s with
                request := none
                server := .replaying (s.buffer.replayFrom want).1
                linked := true
                up := .start
                down := down
                streamNext := (s.buffer.replayFrom want).2.1 }
          else some { s with request := none }
        else (s.down.send .reattachErr).map fun down => { s with request := none, down := down }
  | .reattachStale i authorized sent =>
      s.stale[i]?.map fun want =>
        if (authorized ∧ sent) ∧ s.server = .orphaned then
          { s with
            stale := s.stale.eraseIdx i
            server := .replaying (s.buffer.replayFrom want).1 }
        else { s with stale := s.stale.eraseIdx i }
  | .serverLost =>
      if s.server = .orphaned ∨ s.server = .ended then none else some s.orphan
  | .serverEnd => some { s with server := .ended, linked := false, up := .start }
  | .downBytes n => (s.down.step (.arrive n)).map fun down => { s with down := down }
  | .read =>
      match s.client with
      | .disconnected | .gone => none
      | _ => (s.down.step .take).map s.clientRead
  | .cancelRead =>
      if s.client = .pump then (s.down.step .cancel).map fun down => { s with down := down }
      else none
  | .sendAck =>
      if s.client = .pump then some (s.clientSend (.ack (UInt64.ofNat s.highestApplied)))
      else none
  | .sendFrame msg =>
      if s.client = .pump ∧ ofClientPump msg then some (s.clientSend msg) else none
  | .connect =>
      if s.client = .disconnected then
        some { s with client := .awaitReply, request := some s.highestApplied, down := .start }
      else none
  | .clientLost =>
      match s.client with
      | .disconnected | .gone => none
      | .awaitOpened => some (s.leave .gone)
      | _ => some (s.leave .disconnected)

/-- The client reads no `PtyData` while it waits for the reply to `ChannelOpen`, and the
pumps drop no read after its first byte. -/
def Orderly (s : Session) : SessionAction → Prop
  | .read => s.client = .awaitAccept → ∀ msg ∈ s.down.unread.head?, isPtyData msg = false
  | .cancelRead => s.down.reader = .header []
  | .cancelServe => s.up.reader = .header []
  | _ => True

instance (s : Session) (a : SessionAction) : Decidable (s.Orderly a) :=
  match a with
  | .read => inferInstanceAs (Decidable (_ → _))
  | .cancelRead | .cancelServe => inferInstanceAs (Decidable (_ = _))
  | .output _ _ | .control _ | .replay _ | .upBytes _ | .serve _ | .reattach _ _ _
  | .reattachStale _ _ _ | .serverLost | .serverEnd | .downBytes _ | .sendAck | .sendFrame _
  | .connect | .clientLost => inferInstanceAs (Decidable True)

end Session

/-- The session as a machine. -/
def session : Machine Session SessionAction := ⟨Session.step⟩

/-! ## The invariant -/

/-- The server goes on writing where the stream of the present connection ends. -/
def Session.Feeds (s : Session) : Prop :=
  match s.server with
  | .orphaned | .ended => False
  | .replaying chunks => Consecutive s.streamNext (chunks.map Prod.fst) s.buffer.nextSeq
  | .pumping => s.streamNext = s.buffer.nextSeq

/-- The stream of the present connection starts at the chunk `first`: the client will
count from there once it has read the frames before the output. -/
def Resumes (client : ClientPhase) (unread : List Message) (highestApplied first : ℕ) : Prop :=
  match client with
  | .awaitOpened =>
      ∃ token rest, unread = .sessionOpened token :: rest ∧ highestApplied = 0 ∧ first = 0
  | .awaitReply => ∃ token seq truncated rest, unread = .reattachOk token seq truncated :: rest ∧
      seq.toNat = first ∧ highestApplied ≤ first ∧ (highestApplied < first → truncated = true)
  | .awaitAccept | .pump => first = highestApplied
  | .disconnected | .gone => False

/-- No output is under way to the client, and none will be on its present connection. -/
def Waiting (client : ClientPhase) (unread : List Message) : Prop :=
  client = .disconnected ∨ client = .gone ∨
    (client = .awaitReply ∧ (unread = [] ∨ unread = [.reattachErr]))

/-- The invariant of orderly runs. -/
structure Accounted (s : Session) : Prop where
  ring : ∃ lo, s.buffer.Retains lo
  numbers : s.buffer.nextSeq < 2 ^ 64
  applied_le : s.highestApplied ≤ s.buffer.nextSeq
  /-- The ring is empty only when everything was applied. -/
  ring_empty : s.buffer.ring = [] → s.buffer.nextSeq ≤ s.highestApplied
  up : Intact s.up
  acks_le : ∀ seq, .ack seq ∈ s.up.unread → seq.toNat ≤ s.highestApplied
  down : Intact s.down
  stream_le : s.streamNext ≤ s.buffer.nextSeq
  feeds : s.linked = true → s.Feeds
  request : ∀ want ∈ s.request, s.client = .awaitReply ∧ s.linked = false ∧
    s.down.unread = [] ∧ want = s.highestApplied
  position : (s.linked = false ∧ Waiting s.client s.down.unread) ∨
    ∃ first, Resumes s.client s.down.unread s.highestApplied first ∧
      first + dataCount s.down.unread = s.streamNext
  counted_lt : ∀ seq ∈ s.counted, seq < s.highestApplied
  counted_sorted : s.counted.Pairwise (· < ·)
  covered : ∀ seq < s.highestApplied, seq ∈ s.counted ∨
    ∃ att ∈ s.attachments, att.truncated = true ∧ att.requested ≤ seq ∧ seq < att.replayingFrom

theorem dataCount_append (msgs more : List Message) :
    dataCount (msgs ++ more) = dataCount msgs + dataCount more := List.countP_append

variable {msg : Message} {s s' : Session} {up down : Stream} {sent : Bool}

theorem dataCount_cons_of_not (h : isPtyData msg = false) (rest : List Message) :
    dataCount (msg :: rest) = dataCount rest :=
  List.countP_cons_of_neg (Bool.eq_false_iff.mp h)

theorem dataCount_ptyData (data : List UInt8) (rest : List Message) :
    dataCount (.ptyData data :: rest) = dataCount rest + 1 := List.countP_cons_of_pos rfl

/-- More frames at the end do not change where a stream starts. -/
theorem Resumes.append {client : ClientPhase} {unread : List Message} {highestApplied first : ℕ}
    (h : Resumes client unread highestApplied first) (more : List Message) :
    Resumes client (unread ++ more) highestApplied first := by
  cases client with
  | awaitOpened =>
      obtain ⟨token, rest, rfl, hrest⟩ := h
      exact ⟨token, rest ++ more, rfl, hrest⟩
  | awaitReply =>
      obtain ⟨token, seq, truncated, rest, rfl, hrest⟩ := h
      exact ⟨token, seq, truncated, rest ++ more, rfl, hrest⟩
  | awaitAccept => exact h
  | pump => exact h
  | disconnected => exact h
  | gone => exact h

/-- On a linked connection the stream has a start. -/
theorem Accounted.linked_position (h : Accounted s) (hlinked : s.linked = true) :
    ∃ first, Resumes s.client s.down.unread s.highestApplied first ∧
      first + dataCount s.down.unread = s.streamNext := by
  rcases h.position with ⟨hno, -⟩ | hpos
  · rw [hlinked] at hno
    cases hno
  · exact hpos

/-- A `Reattach` is outstanding only while its reply is awaited on a connection that has
no attachment and nothing under way. -/
theorem Accounted.request_eq_none (h : Accounted s)
    (hno : s.client = .awaitReply → s.down.unread = [] → s.linked = true) : s.request = none := by
  rw [Option.eq_none_iff_forall_ne_some]
  intro want hwant
  obtain ⟨hclient, hlinked, hnil, -⟩ := h.request want hwant
  rw [hno hclient hnil] at hlinked
  cases hlinked

/-- `SessionOpened` is written in full. -/
theorem send_sessionOpened (token : ByteArr 16) :
    Stream.start.send (.sessionOpened token) = some (openedStream token) := by
  have hlen : (Message.sessionOpened token).body.length = 17 := by
    change (variant 4 ++ token.1).length = 17
    rw [List.length_append, token.2]
    rfl
  have henc : encode (.sessionOpened token) = .ok (Message.sessionOpened token).frame :=
    encode_of_le (hlen.trans_le (by decide))
  rw [Stream.send, henc]
  rfl

theorem accounted_start (maxBytes : ℕ) (token : ByteArr 16) :
    Accounted (.start maxBytes token) := by
  obtain ⟨hintact, hunread⟩ := intact_start.send (send_sessionOpened token)
  exact {
    ring := ⟨0, SequencedOutputBuffer.retains_new maxBytes⟩
    numbers := Nat.two_pow_pos 64
    applied_le := le_refl 0
    ring_empty := fun _ => le_refl 0
    up := intact_start
    acks_le := fun _ hack => (List.not_mem_nil hack).elim
    down := hintact
    stream_le := le_refl 0
    feeds := fun _ => rfl
    request := nofun
    position := Or.inr ⟨0, ⟨token, [], hunread, rfl, rfl⟩, congrArg (0 + dataCount ·) hunread⟩
    counted_lt := nofun
    counted_sorted := List.Pairwise.nil
    covered := nofun }

/-! ## The server's steps -/

section

variable (h : Accounted s)

include h

/-- Without the link the server may do what it likes with the attachment. -/
theorem Accounted.unlinked (server : ServerPhase) (hup : Intact up)
    (hacks : ∀ seq, .ack seq ∈ up.unread → seq.toNat ≤ s.highestApplied) :
    Accounted { s with server := server, linked := false, up := up } :=
  { h with
    up := hup
    acks_le := hacks
    feeds := fun hlinked => by cases hlinked
    request := fun want hwant => ⟨(h.request want hwant).1, rfl, (h.request want hwant).2.2⟩
    position := h.position.imp (fun hwait => ⟨rfl, hwait.2⟩) id }

/-- The attachment ends. -/
theorem Accounted.detached (server : ServerPhase) :
    Accounted { s with server := server, linked := false, up := .start } :=
  h.unlinked server intact_start fun _ hack => (List.not_mem_nil hack).elim

/-- A change of the server's phase that no linked client sees. -/
theorem Accounted.withServer (hlinked : s.linked = false) (server : ServerPhase) :
    Accounted { s with server := server } := by
  have hsame : { s with server := server } =
      { s with server := server, linked := false, up := s.up } := by
    rw [← hlinked]
  rw [hsame]
  exact h.unlinked server h.up h.acks_le

/-- A frame that carries no output. -/
theorem Accounted.send (hmsg : isPtyData msg = false) (hs : s.send msg = some s') :
    Accounted s' := by
  rw [Session.send] at hs
  split at hs
  · rename_i hlinked
    obtain ⟨down, hsend, rfl⟩ := Option.map_eq_some_iff.mp hs
    obtain ⟨hintact, hunread⟩ := h.down.send hsend
    obtain ⟨first, hresumes, hcount⟩ := h.linked_position hlinked
    refine { h with
      down := hintact
      feeds := h.feeds
      request := by simp [h.request_eq_none fun _ _ => hlinked]
      position := Or.inr ⟨first, ?_, ?_⟩ }
    · rw [hunread]
      exact hresumes.append [msg]
    · rw [hunread, dataCount_append, dataCount_cons_of_not hmsg]
      exact hcount
  · cases hs
    exact h

/-- The next chunk goes out on a linked connection. -/
theorem Accounted.sendData (hlinked : s.linked = true) (buffer : SequencedOutputBuffer)
    (server : ServerPhase) (chunk : Chunk) (hring : ∃ lo, buffer.Retains lo)
    (hnumbers : buffer.nextSeq < 2 ^ 64) (hnext : s.buffer.nextSeq ≤ buffer.nextSeq)
    (hempty : buffer.ring = [] → buffer.nextSeq ≤ s.highestApplied)
    (hchunk : chunk.1 = s.streamNext) (hle : chunk.1 + 1 ≤ buffer.nextSeq) (hfeeds : Session.Feeds
      { s with buffer := buffer, server := server, streamNext := chunk.1 + 1 })
    (hs : Session.sendData { s with buffer := buffer, server := server } chunk = some s') :
    Accounted s' := by
  rw [Session.sendData, if_pos hlinked] at hs
  obtain ⟨down, hsend, rfl⟩ := Option.map_eq_some_iff.mp hs
  obtain ⟨hintact, hunread⟩ := h.down.send hsend
  obtain ⟨first, hresumes, hcount⟩ := h.linked_position hlinked
  refine { h with
    ring := hring
    numbers := hnumbers
    applied_le := le_trans h.applied_le hnext
    ring_empty := hempty
    down := hintact
    stream_le := hle
    feeds := fun _ => hfeeds
    request := by simp [h.request_eq_none fun _ _ => hlinked]
    position := Or.inr ⟨first, ?_, ?_⟩ }
  · rw [hunread]
    exact hresumes.append _
  · rw [hunread, dataCount_append, dataCount_ptyData, hchunk, ← hcount]
    rfl

theorem Accounted.push (hlinked : s.linked = false) (hroom : s.buffer.nextSeq + 1 < 2 ^ 64)
    (chunk : List UInt8) : Accounted { s with buffer := s.buffer.push chunk } := by
  obtain ⟨lo, hlo⟩ := h.ring
  obtain ⟨hnext, hne, hring⟩ := SequencedOutputBuffer.push_spec hlo chunk
  have happlied := h.applied_le
  have hstream := h.stream_le
  refine { h with
    ring := hring
    numbers := ?_
    applied_le := ?_
    ring_empty := fun hnil => absurd hnil hne
    stream_le := ?_
    feeds := fun hlinked' => by
      rw [hlinked] at hlinked'
      cases hlinked' } <;> dsimp only <;> omega

theorem Accounted.trim {seq : ℕ} (hseq : seq ≤ s.highestApplied) :
    Accounted { s with buffer := s.buffer.trimAcked seq } := by
  obtain ⟨lo, hlo⟩ := h.ring
  obtain ⟨hnext, hring, hempty⟩ := SequencedOutputBuffer.trimLoop_spec rfl hlo seq
  have hnext : (s.buffer.trimAcked seq).nextSeq = s.buffer.nextSeq := hnext
  refine { h with
    ring := hring
    numbers := hnext ▸ h.numbers
    applied_le := hnext ▸ h.applied_le
    ring_empty := fun hnil => ?_
    stream_le := hnext ▸ h.stream_le
    feeds := fun hlinked => ?_ }
  · rw [hnext]
    rcases hempty hnil with hnil | hle
    · exact h.ring_empty hnil
    · exact le_trans hle hseq
  · have hfeeds := h.feeds hlinked
    unfold Session.Feeds at hfeeds ⊢
    rw [hnext]
    exact hfeeds

/-- The reply to a `Reattach` starts a stream at the resume point, or further on with the
truncation reported. -/
theorem Accounted.reattach {want : ℕ} (hwant : s.request = some want) {token : ByteArr 16}
    (hsend : s.down.send (.reattachOk token (UInt64.ofNat (s.buffer.replayFrom want).2.1)
      (s.buffer.replayFrom want).2.2) = some down) :
    Accounted { s with
      request := none
      server := .replaying (s.buffer.replayFrom want).1
      linked := true
      up := .start
      down := down
      streamNext := (s.buffer.replayFrom want).2.1 } := by
  obtain ⟨lo, hlo⟩ := h.ring
  obtain ⟨hclient, -, hnil, rfl⟩ := h.request want hwant
  obtain ⟨hchunks, hfrom, htruncated⟩ :=
    SequencedOutputBuffer.replayFrom_spec hlo h.applied_le h.ring_empty
  obtain ⟨hintact, hunread⟩ := h.down.send hsend
  rw [hnil, List.nil_append] at hunread
  have hseq : (s.buffer.replayFrom s.highestApplied).2.1 < UInt64.size :=
    lt_of_le_of_lt hchunks.le h.numbers
  refine { h with
    up := intact_start
    acks_le := fun _ hack => (List.not_mem_nil hack).elim
    down := hintact
    stream_le := hchunks.le
    feeds := fun _ => hchunks
    request := nofun
    position := Or.inr ⟨(s.buffer.replayFrom s.highestApplied).2.1, ?_, ?_⟩ }
  · show Resumes s.client down.unread _ _
    rw [hclient, hunread]
    exact ⟨_, _, _, [], rfl, UInt64.toNat_ofNat_of_lt' hseq, hfrom, htruncated⟩
  · rw [hunread]
    rfl

/-- A `Reattach` that starts no stream: the write failed, or the reply is an error. -/
theorem Accounted.refuse {want : ℕ} (hwant : s.request = some want) (hintact : Intact down)
    (hreply : down.unread = [] ∨ down.unread = [.reattachErr]) :
    Accounted { s with request := none, down := down } := by
  obtain ⟨hclient, hlinked, -, -⟩ := h.request want hwant
  exact { h with
    down := hintact
    feeds := h.feeds
    request := nofun
    position := Or.inl ⟨hlinked, Or.inr (Or.inr ⟨hclient, hreply⟩)⟩ }

/-- The server's pump has read the next message of the client. -/
theorem Accounted.serveMessage (hintact : Intact up) (hunread : s.up.unread = msg :: up.unread)
    (accepted : Bool) : Accounted (Session.serveMessage accepted { s with up := up } msg) := by
  have hmoved : Accounted { s with up := up } := { h with
    up := hintact
    acks_le := fun seq hack =>
      h.acks_le seq (by rw [hunread]; exact List.mem_cons_of_mem _ hack)
    feeds := h.feeds }
  unfold Session.serveMessage
  split
  · split
    · exact hmoved
    · cases hs : Session.send { s with up := up } _ with
      | none => exact hmoved
      | some s' => exact hmoved.send (by split <;> rfl) hs
  · rename_i seq
    exact hmoved.trim (h.acks_le seq (by rw [hunread]; exact List.mem_cons_self))
  · exact hmoved

/-! ## The client's steps -/

/-- The client gives up its connection. -/
theorem Accounted.leave {phase : ClientPhase} (hphase : phase = .disconnected ∨ phase = .gone) :
    Accounted (s.leave phase) :=
  { h with
    down := intact_start
    feeds := fun hlinked => by cases hlinked
    request := nofun
    position := Or.inl ⟨rfl, hphase.imp id Or.inl⟩ }

/-- A frame from the client. -/
theorem Accounted.clientSend (hmsg : ∀ seq, msg = .ack seq → seq.toNat ≤ s.highestApplied) :
    Accounted (s.clientSend msg) := by
  rw [Session.clientSend]
  split
  · cases hsend : s.up.send msg with
    | none => exact h
    | some up =>
        obtain ⟨hintact, hunread⟩ := h.up.send hsend
        refine { h with
          up := hintact
          acks_le := fun seq hack => ?_
          feeds := h.feeds }
        rw [Option.getD_some, hunread] at hack
        rcases List.mem_append.mp hack with hack | hack
        · exact h.acks_le seq hack
        · exact hmsg seq (List.mem_singleton.mp hack).symm
  · exact h

/-- The client starts to read a stream at `first`; what lies between the chunks it has
counted and `first` was truncated. -/
theorem Accounted.attach {first : ℕ} {attachments : List Attachment}
    (hle : s.highestApplied ≤ first) (hintact : Intact down)
    (hcount : first + dataCount down.unread = s.streamNext) (hrequest : s.request = none)
    (hatt : s.attachments ⊆ attachments) (hskipped : s.highestApplied < first →
      ∃ att ∈ attachments, att.truncated = true ∧ att.requested = s.highestApplied ∧
        att.replayingFrom = first) :
    Accounted (Session.openScrollback { s with
      client := .awaitAccept
      highestApplied := first
      attachments := attachments
      down := down }) := by
  refine Accounted.clientSend ?_ (fun seq hseq => by cases hseq)
  refine { h with
    applied_le := le_trans (le_trans (Nat.le_add_right _ _) hcount.le) h.stream_le
    ring_empty := fun hnil => le_trans (h.ring_empty hnil) hle
    acks_le := fun seq hseq => le_trans (h.acks_le seq hseq) hle
    down := hintact
    feeds := h.feeds
    request := by simp [hrequest]
    position := Or.inr ⟨first, rfl, hcount⟩
    counted_lt := fun seq hseq => lt_of_lt_of_le (h.counted_lt seq hseq) hle
    covered := fun seq hseq => ?_ }
  by_cases hold : seq < s.highestApplied
  · exact (h.covered seq hold).imp id fun ⟨att, hmem, hatt'⟩ => ⟨att, hatt hmem, hatt'⟩
  · obtain ⟨att, hmem, htruncated, hrequested, hfrom⟩ :=
      hskipped (lt_of_le_of_lt (Nat.le_of_not_lt hold) hseq)
    exact Or.inr ⟨att, hmem, htruncated, hrequested ▸ Nat.le_of_not_lt hold, hfrom ▸ hseq⟩

/-- An attached client has a stream that starts at the chunk it counts next. -/
theorem Accounted.attached (hattached : s.client.Attached) :
    s.highestApplied + dataCount s.down.unread = s.streamNext ∧ s.request = none := by
  have hrequest : s.request = none := h.request_eq_none fun hreply => by
    rw [hreply] at hattached
    simp [ClientPhase.Attached] at hattached
  refine ⟨?_, hrequest⟩
  rcases h.position with ⟨-, hwait⟩ | ⟨first, hresumes, hcount⟩
  · rcases hattached with hphase | hphase <;> rw [hphase] at hwait <;> simp [Waiting] at hwait
  · rcases hattached with hphase | hphase <;> rw [hphase] at hresumes <;>
      · obtain rfl : first = s.highestApplied := hresumes
        exact hcount

/-- An attached client has read what carries no output. -/
theorem Accounted.passOver (hattached : s.client.Attached) (hintact : Intact down)
    (hcount : dataCount down.unread = dataCount s.down.unread) {phase : ClientPhase}
    (hphase : phase.Attached) : Accounted { s with client := phase, down := down } := by
  obtain ⟨hstart, hrequest⟩ := h.attached hattached
  refine { h with
    down := hintact
    feeds := h.feeds
    request := by simp [hrequest]
    position := Or.inr ⟨s.highestApplied, ?_, hcount ▸ hstart⟩ }
  rcases hphase with rfl | rfl <;> rfl

/-- The pump counts a chunk. -/
theorem Accounted.count (hpump : s.client = .pump) (hintact : Intact down) {data : List UInt8}
    (hunread : s.down.unread = .ptyData data :: down.unread) :
    Accounted { s with
      highestApplied := s.highestApplied + 1
      counted := s.counted ++ [s.nextUnread]
      down := down } := by
  obtain ⟨hstart, hrequest⟩ := h.attached (Or.inr hpump)
  have hnext : s.nextUnread = s.highestApplied := by
    rw [Session.nextUnread]
    omega
  rw [hunread, dataCount_ptyData] at hstart
  have hstream := h.stream_le
  refine { h with
    applied_le := by dsimp only; omega
    ring_empty := fun hnil => Nat.le_succ_of_le (h.ring_empty hnil)
    acks_le := fun seq hseq => Nat.le_succ_of_le (h.acks_le seq hseq)
    down := hintact
    feeds := h.feeds
    request := by simp [hrequest]
    position := Or.inr ⟨s.highestApplied + 1, ?_, by dsimp only; omega⟩
    counted_lt := fun seq hseq => ?_
    counted_sorted := ?_
    covered := fun seq hseq => ?_ }
  · show Resumes s.client down.unread (s.highestApplied + 1) (s.highestApplied + 1)
    rw [hpump]
    rfl
  · rw [hnext] at hseq
    rcases List.mem_append.mp hseq with hseq | hseq
    · exact Nat.lt_succ_of_lt (h.counted_lt seq hseq)
    · rw [List.mem_singleton.mp hseq]
      exact Nat.lt_succ_self _
  · rw [hnext, List.pairwise_append]
    refine ⟨h.counted_sorted, List.pairwise_singleton _ _, fun seq hseq last hlast => ?_⟩
    rw [List.mem_singleton.mp hlast]
    exact h.counted_lt seq hseq
  · rcases Nat.lt_succ_iff_lt_or_eq.mp hseq with hseq | rfl
    · exact (h.covered seq hseq).imp (List.mem_append_left _) id
    · exact Or.inl (by simp [hnext])

section

variable (hintact : Intact down) (hunread : s.down.unread = msg :: down.unread)

include hintact hunread

theorem Accounted.readOpened (hclient : s.client = .awaitOpened) :
    Accounted (Session.readOpened { s with down := down } msg) := by
  have hrequest : s.request = none := h.request_eq_none fun hreply => by
    rw [hclient] at hreply
    cases hreply
  have hposition := h.position
  rw [hclient, hunread] at hposition
  rcases hposition with ⟨-, hwait⟩ | ⟨first, ⟨token, rest, hrest, hzero, rfl⟩, hcount⟩
  · simp [Waiting] at hwait
  · obtain ⟨rfl, -⟩ := List.cons.inj hrest
    rw [dataCount_cons_of_not rfl] at hcount
    exact h.attach (le_of_eq hzero) hintact hcount hrequest (List.Subset.refl _)
      (fun hlt => absurd hlt (Nat.not_lt_zero _))

theorem Accounted.readReply (hclient : s.client = .awaitReply) :
    Accounted (Session.readReply { s with down := down } msg) := by
  have hrequest : s.request = none := h.request_eq_none fun _ hnil => by
    rw [hunread] at hnil
    cases hnil
  have hposition := h.position
  rw [hclient, hunread] at hposition
  rcases hposition with ⟨-, hwait⟩ | ⟨first, ⟨token, seq, truncated, rest, hrest, rfl, hle, htr⟩,
    hcount⟩
  · -- the only frame of a stream that was never started is the error reply
    obtain ⟨rfl, -⟩ : msg = .reattachErr ∧ down.unread = [] := by
      simpa [Waiting] using hwait
    exact h.leave (Or.inr rfl)
  · obtain ⟨rfl, -⟩ := List.cons.inj hrest
    rw [dataCount_cons_of_not rfl] at hcount
    exact h.attach hle hintact hcount hrequest (List.subset_append_left _ _)
      (fun hlt => ⟨_, List.mem_append_right _ (List.mem_singleton.mpr rfl), htr hlt, rfl, rfl⟩)

theorem Accounted.readAccept (hclient : s.client = .awaitAccept)
    (hmsg : isPtyData msg = false) :
    Accounted (Session.readAccept { s with down := down } msg) := by
  have hattached : s.client.Attached := Or.inl hclient
  have hcount : dataCount down.unread = dataCount s.down.unread := by
    rw [hunread, dataCount_cons_of_not hmsg]
  unfold Session.readAccept
  split
  · cases hmsg
  all_goals first
    | exact h.passOver hattached hintact hcount hattached
    | exact h.passOver hattached hintact hcount (Or.inr rfl)

theorem Accounted.readPump (hclient : s.client = .pump) :
    Accounted (Session.readPump { s with down := down } s.nextUnread msg) := by
  have hattached : s.client.Attached := Or.inr hclient
  cases hmsg : isPtyData msg with
  | true =>
      obtain ⟨data, rfl⟩ : ∃ data, msg = .ptyData data := by
        cases msg with
        | ptyData data => exact ⟨data, rfl⟩
        | _ => cases hmsg
      rw [Session.readPump]
      split
      · exact h.leave (Or.inl rfl)
      · exact h.count hclient hintact hunread
  | false =>
      have hcount : dataCount down.unread = dataCount s.down.unread := by
        rw [hunread, dataCount_cons_of_not hmsg]
      unfold Session.readPump
      split
      · cases hmsg
      · exact h.leave (Or.inr rfl)
      · exact h.passOver hattached hintact hcount hattached

/-- Every message the client reads keeps the account, if the channel reply comes first. -/
theorem Accounted.readMessage (hfirst : s.client = .awaitAccept → isPtyData msg = false)
    (hlive : s.client ≠ .disconnected ∧ s.client ≠ .gone) :
    Accounted (Session.readMessage s.nextUnread { s with down := down } msg) := by
  unfold Session.readMessage
  split <;> rename_i hclient
  · exact h.readOpened hintact hunread hclient
  · exact h.readReply hintact hunread hclient
  · exact h.readAccept hintact hunread hclient (hfirst hclient)
  · exact h.readPump hintact hunread hclient
  · exact absurd hclient hlive.1
  · exact absurd hclient hlive.2

end

/-- The bytes of the stream move, and no message is read. -/
theorem Accounted.withDown (hintact : Intact down) (hunread : down.unread = s.down.unread) :
    Accounted { s with down := down } :=
  { h with
    down := hintact
    feeds := h.feeds
    request := by rw [hunread]; exact h.request
    position := by rw [hunread]; exact h.position }

theorem Accounted.withUp (hintact : Intact up) (hunread : up.unread = s.up.unread) :
    Accounted { s with up := up } :=
  { h with
    up := hintact
    acks_le := by rw [hunread]; exact h.acks_le
    feeds := h.feeds }

/-! ## Every step -/

/-- The pump takes a chunk. -/
theorem Accounted.output {chunk : List UInt8} (hs : s.step (.output chunk sent) = some s') :
    Accounted s' := by
  rw [Session.step] at hs
  split at hs
  · rename_i hready
    obtain ⟨hserver, hroom⟩ := hready
    dsimp only at hs
    split at hs
    · by_cases hlinked : s.linked = true
      · obtain ⟨lo, hlo⟩ := h.ring
        obtain ⟨hnext, hne, hring⟩ := SequencedOutputBuffer.push_spec hlo chunk
        have hfeeds := h.feeds hlinked
        rw [Session.Feeds, hserver] at hfeeds
        refine h.sendData hlinked _ s.server _ hring (by omega) (by omega)
          (fun hnil => absurd hnil hne) hfeeds.symm hnext.symm.le ?_ hs
        rw [Session.Feeds, hserver]
        exact hnext.symm
      · rw [Session.sendData, if_neg hlinked] at hs
        cases hs
        exact h.push (Bool.eq_false_iff.mpr hlinked) hroom chunk
    · cases hs
      exact (h.detached .orphaned).push rfl hroom chunk
  · cases hs

/-- A chunk is replayed, or the pump starts. -/
theorem Accounted.replay (hs : s.step (.replay sent) = some s') : Accounted s' := by
  rw [Session.step] at hs
  split at hs
  · rename_i chunk rest hserver
    split at hs
    · by_cases hlinked : s.linked = true
      · have hfeeds := h.feeds hlinked
        rw [Session.Feeds, hserver] at hfeeds
        obtain ⟨hseq, hrest⟩ := hfeeds
        have hseq : chunk.1 = s.streamNext := hseq
        refine h.sendData hlinked s.buffer (.replaying rest) chunk h.ring h.numbers (le_refl _)
          h.ring_empty hseq ?_ ?_ hs
        · rw [hseq]
          exact hrest.le
        · rw [Session.Feeds, hseq]
          exact hrest
      · rw [Session.sendData, if_neg hlinked] at hs
        cases hs
        exact h.withServer (Bool.eq_false_iff.mpr hlinked) _
    · cases hs
      exact h.detached .orphaned
  · rename_i hserver
    cases hs
    split
    · refine { h with feeds := fun hlinked => ?_ }
      have hfeeds := h.feeds hlinked
      rw [Session.Feeds, hserver] at hfeeds
      exact hfeeds
    · exact h.detached .orphaned
  · cases hs

/-- The pump takes a byte. -/
theorem Accounted.serve {accepted : Bool} (hs : s.step (.serve accepted) = some s') :
    Accounted s' := by
  rw [Session.step] at hs
  split at hs
  · obtain ⟨up, htake, rfl⟩ := Option.map_eq_some_iff.mp hs
    obtain ⟨hintact, hread⟩ := h.up.take htake
    rw [Session.serveRead]
    split
    · exact h.detached .orphaned
    · obtain ⟨hnew, hunread⟩ | ⟨msg, hnew, hunread⟩ := hread <;> rw [hnew]
      · exact h.withUp hintact hunread
      · exact h.serveMessage hintact hunread accepted
  · cases hs

/-- The server handles a `Reattach`. -/
theorem Accounted.handleReattach {authorized : Bool} {token : ByteArr 16}
    (hs : s.step (.reattach authorized sent token) = some s') : Accounted s' := by
  obtain ⟨want, hwant, hs⟩ := Option.bind_eq_some_iff.mp hs
  obtain ⟨-, -, hnil, -⟩ := h.request want hwant
  split at hs
  · split at hs
    · obtain ⟨down, hsend, rfl⟩ := Option.map_eq_some_iff.mp hs
      exact h.reattach hwant hsend
    · cases hs
      exact h.refuse hwant h.down (Or.inl hnil)
  · obtain ⟨down, hsend, rfl⟩ := Option.map_eq_some_iff.mp hs
    obtain ⟨hintact, hunread⟩ := h.down.send hsend
    rw [hnil] at hunread
    exact h.refuse hwant hintact (Or.inr hunread)

/-- The client takes a byte. -/
theorem Accounted.read (hok : s.Orderly .read) (hs : s.step .read = some s') : Accounted s' := by
  have hlive : (s.client ≠ .disconnected ∧ s.client ≠ .gone) ∧
      (s.down.step .take).map s.clientRead = some s' := by
    rw [Session.step] at hs
    split at hs
    · cases hs
    · cases hs
    · rename_i hdisconnected hgone
      exact ⟨⟨hdisconnected, hgone⟩, hs⟩
  obtain ⟨down, htake, rfl⟩ := Option.map_eq_some_iff.mp hlive.2
  obtain ⟨hintact, hread⟩ := h.down.take htake
  rw [Session.clientRead]
  split
  · rename_i err hfailed
    exact absurd hfailed (hintact.live err)
  · obtain ⟨hnew, hunread⟩ | ⟨msg, hnew, hunread⟩ := hread <;> rw [hnew]
    · exact h.withDown hintact hunread
    · exact h.readMessage hintact hunread
        (fun hclient => hok hclient msg (by rw [hunread]; rfl)) hlive.1

/-- Every orderly step keeps the account. -/
theorem Accounted.step {a : SessionAction} (hok : s.Orderly a) (hs : s.step a = some s') :
    Accounted s' := by
  cases a with
  | output chunk sent => exact h.output hs
  | control msg =>
      rw [Session.step] at hs
      split at hs
      · rename_i hready
        refine h.send ?_ hs
        cases msg with
        | ptyData data => cases hready.2
        | _ => rfl
      · cases hs
  | replay sent => exact h.replay hs
  | upBytes n =>
      dsimp only [Session.step] at hs
      obtain ⟨up, harrive, rfl⟩ := Option.map_eq_some_iff.mp hs
      obtain ⟨hintact, hunread⟩ := h.up.arrive harrive
      exact h.withUp hintact hunread
  | serve accepted => exact h.serve hs
  | cancelServe =>
      rw [Session.step, Stream.cancel_idle hok] at hs
      split at hs
      · cases hs
        exact h
      · cases hs
  | reattach authorized sent token => exact h.handleReattach hs
  | reattachStale i authorized sent =>
      obtain ⟨want, -, rfl⟩ := Option.map_eq_some_iff.mp hs
      have hstale : Accounted { s with stale := s.stale.eraseIdx i } := { h with
        feeds := h.feeds }
      split
      · rename_i haccepted
        have hunlinked : s.linked = false := by
          rw [Bool.eq_false_iff]
          intro hlinked
          have hfeeds := h.feeds hlinked
          rw [Session.Feeds, haccepted.2] at hfeeds
          exact hfeeds
        exact hstale.withServer hunlinked _
      · exact hstale
  | serverLost =>
      rw [Session.step] at hs
      split at hs
      · cases hs
      · cases hs
        exact h.detached .orphaned
  | serverEnd =>
      cases hs
      exact h.detached .ended
  | downBytes n =>
      dsimp only [Session.step] at hs
      obtain ⟨down, harrive, rfl⟩ := Option.map_eq_some_iff.mp hs
      obtain ⟨hintact, hunread⟩ := h.down.arrive harrive
      exact h.withDown hintact hunread
  | read => exact h.read hok hs
  | cancelRead =>
      rw [Session.step, Stream.cancel_idle hok] at hs
      split at hs
      · cases hs
        exact h
      · cases hs
  | sendAck =>
      rw [Session.step] at hs
      split at hs
      · cases hs
        refine h.clientSend fun seq hseq => ?_
        cases hseq
        rw [UInt64.toNat_ofNat']
        exact Nat.mod_le _ _
      · cases hs
  | sendFrame msg =>
      rw [Session.step] at hs
      split at hs
      · rename_i hready
        cases hs
        refine h.clientSend fun seq hseq => ?_
        subst hseq
        cases hready.2
      · cases hs
  | connect =>
      rw [Session.step] at hs
      split at hs
      · rename_i hclient
        cases hs
        have hunlinked : s.linked = false := by
          rcases h.position with ⟨hunlinked, -⟩ | ⟨first, hresumes, -⟩
          · exact hunlinked
          · rw [hclient] at hresumes
            exact hresumes.elim
        exact { h with
          down := intact_start
          feeds := h.feeds
          request := fun want hwant => ⟨rfl, hunlinked, rfl, (Option.some.inj hwant).symm⟩
          position := Or.inl ⟨hunlinked, Or.inr (Or.inr ⟨rfl, Or.inl rfl⟩)⟩ }
      · cases hs
  | clientLost =>
      rw [Session.step] at hs
      split at hs
      · cases hs
      · cases hs
      · cases hs
        exact h.leave (Or.inr rfl)
      · cases hs
        exact h.leave (Or.inl rfl)

end

/-- **Output accounting.**  Take any run of a session, with any output, losses at either
end, reattaches and acks, in which the client reads no output while it waits for the
reply to `ChannelOpen` and the pumps drop no read after its first byte.  Whenever the
client is attached, `highest_applied` is the number of the next chunk it has not read.
No chunk is ever counted twice, and a chunk below `highest_applied` that was not
counted was skipped by an attachment whose `ReattachOk` said `truncated`. -/
theorem output_counted_once {maxBytes : ℕ} {token : ByteArr 16} {as : List SessionAction}
    {s : Session} (hok : session.Along Session.Orderly (.start maxBytes token) as)
    (hrun : session.run (.start maxBytes token) as = some s) :
    (s.client.Attached → s.highestApplied = s.nextUnread) ∧
      s.counted.Pairwise (· < ·) ∧ (∀ seq ∈ s.counted, seq < s.highestApplied) ∧
      ∀ seq < s.highestApplied, seq ∈ s.counted ∨
        ∃ att ∈ s.attachments, att.truncated = true ∧ att.requested ≤ seq ∧
          seq < att.replayingFrom := by
  have hinv : Accounted s :=
    session.invariant_along _ (fun s a s' hs ha hstep => Accounted.step hs ha hstep)
      (accounted_start maxBytes token) hok hrun
  refine ⟨fun hattached => ?_, hinv.counted_sorted, hinv.counted_lt, hinv.covered⟩
  have hstart := (hinv.attached hattached).1
  rw [Session.nextUnread]
  omega

/-- The token of the runs below. -/
def zeroToken : ByteArr 16 := .replicate 16 0

/-- The next `n` bytes arrive at the client, which reads them. -/
def readBytes (n : ℕ) : List SessionAction := .downBytes n :: List.replicate n .read

/-- The next `n` bytes arrive at the server, which reads them. -/
def serveBytes (n : ℕ) : List SessionAction := .upBytes n :: List.replicate n (.serve true)

/-- The client reads the first frame of `n` bytes, opens the scrollback channel and reads
the reply. -/
def attachRun (n : ℕ) : List SessionAction := readBytes n ++ serveBytes 7 ++ readBytes 6

/-- A chunk is counted and acked, both ends lose the connection, and the session goes on
after a reattach with nothing to replay. -/
def resumingRun : List SessionAction :=
  attachRun 21 ++ [.output [1] true, .cancelRead] ++ readBytes 7 ++ [.sendAck, .cancelServe] ++
    serveBytes 6 ++ [.clientLost, .serverLost, .connect, .reattach true true zeroToken,
      .replay true] ++ attachRun 23 ++ [.output [2] true] ++ readBytes 7

/-- The session after `resumingRun`. -/
def resumed : Session :=
  (session.run (.start 65536 zeroToken) resumingRun).getD (.start 65536 zeroToken)

theorem output_counted_once_resumed :
    resumed.highestApplied = 2 ∧ resumed.counted = [0, 1] ∧
      (resumed.client.Attached → resumed.highestApplied = resumed.nextUnread) ∧
      resumed.counted.Pairwise (· < ·) ∧
      (∀ seq ∈ resumed.counted, seq < resumed.highestApplied) ∧
      ∀ seq < resumed.highestApplied, seq ∈ resumed.counted ∨
        ∃ att ∈ resumed.attachments, att.truncated = true ∧ att.requested ≤ seq ∧
          seq < att.replayingFrom := by
  have hrun : session.run (.start 65536 zeroToken) resumingRun = some resumed := by
    decide +kernel
  exact ⟨by decide +kernel, by decide +kernel, output_counted_once (by decide +kernel) hrun⟩

/-- A chunk is written while the client loses the connection, and is replayed when the
client comes back.  The replay precedes the reply to `ChannelOpen`. -/
def replayingRun : List SessionAction :=
  attachRun 21 ++ [.output [1] true, .clientLost, .serverLost, .connect,
    .reattach true true zeroToken, .replay true, .replay true] ++ readBytes 23 ++ readBytes 7

/-- **Replayed output is not counted.**  The client has read chunk 0 and still expects
it; nothing was truncated. -/
theorem early_output_uncounted :
    ∃ s ∈ session.run (.start 65536 zeroToken) replayingRun,
      s.client.Attached ∧ s.highestApplied = 0 ∧ s.nextUnread = 1 ∧ s.counted = [] ∧
        s.attachments = [⟨0, 0, false⟩] := by
  decide +kernel

end Nosh.Reattach
