import Mathlib.Algebra.Order.BigOperators.Group.List
import Mathlib.Algebra.Order.Ring.Nat
import Nosh.Proto.Unread
import Nosh.Scrollback.Page

/-!
# Flow control of the scrollback channel

The sender task of the server may have `INITIAL_CREDIT` bytes of pages under way. The drain task
of the client counts the bytes of the pages it has read, and returns them as a `ScrollbackCredit`
once there are `CREDIT_REPLENISH_CHUNK` of them. A credit goes through the client pump, the
control stream and the server pump to the event queue of the sender.

Requests and pages travel as bytes on the two directions of the channel's stream, each read by
`read_message_ns` in a `select!` loop; the `Stream` of `Nosh.Proto.Framing` models one direction.
When the drain task takes a request from its queue, or the sender a credit, the read that is
pending in the same loop is dropped.

The bytes of the window are conserved: they are with the sender, on their way in pages, counted by
the drain task, or on their way back in credits. When nothing is on its way, the sender has all of
the window except for less than one chunk. That is enough for a page of `largestPage` bytes and not
for every larger one. The largest page of 256 lines takes more than the whole window.

## Main Definitions

* `Flow.step` — the terminal, the sender task, the drain task and the two pumps
* `Flow.Effect` — what each action finds and leaves
* `Flow.Stalled` — the sender waits for credit, and neither task will bring it
* `Flow.Paced` — pages are at most `largestPage` bytes, and no page is partly read when the drain
  task takes a request

## Main Results

* `Conserved.step` — conservation of the window.
* `Conserved.not_stalled` — the sender does not wait when nothing is on its way.
* `run_wide_page` — it does for the first page of a terminal of 1000 columns.
-/

namespace Nosh.Scrollback

open Lib Lib.Postcard Proto Server

/-- `INITIAL_CREDIT`: 256 KiB. -/
def initialCredit : ℕ := 256 * 1024

/-- `CREDIT_REPLENISH_CHUNK`: 128 KiB. -/
def creditReplenishChunk : ℕ := 128 * 1024

/-- The largest page for which the sender has credit whenever nothing is on its way. -/
def largestPage : ℕ := initialCredit - creditReplenishChunk + 1

/-- `u64::MAX`, where `saturating_add` on the credit stops. -/
def u64Max : ℕ := 2 ^ 64 - 1

/-- The sender task of the server, the drain task of the client, and what is between them. -/
structure Flow where
  history : TerminalHistory
  /-- The stream of the channel has reached the sender task. -/
  bound : Bool
  /-- The sender task runs. -/
  serving : Bool
  /-- `remaining_credit`. -/
  remaining : ℕ
  /-- The request that the sender has read and not yet answered: first line and count. -/
  request : Option (UInt64 × UInt32)
  /-- The page that the sender has encoded and not yet written. -/
  waiting : Option Message
  /-- The requests on the channel's stream. -/
  requests : Stream
  /-- The pages on the channel's stream. -/
  pages : Stream
  /-- The drain task runs. -/
  draining : Bool
  /-- `drained_since_replenish`. -/
  drained : ℕ
  /-- The credit that the drain task is about to send. -/
  replenish : Option ℕ
  /-- The requests of the client pump, on their way to the drain task. -/
  requestQueue : List Message
  /-- The credits on their way to the client pump. -/
  control : List ℕ
  /-- The credits that the client pump has written to the control stream and the server pump has
  not read. -/
  creditFrames : List ℕ
  /-- The credits in the event queue of the sender. -/
  events : List ℕ

/-- What the parties do. -/
inductive FlowAction
  /-- Output or a resize reaches the terminal. -/
  | terminal (ev : TerminalEvent)
  /-- The server pump hands the stream to the sender task. -/
  | bind
  /-- The client pump asks for 256 lines. -/
  | ask (fromLine : UInt64)
  /-- The drain task takes a request from its queue and writes it. -/
  | sendRequest
  /-- Bytes of requests arrive. -/
  | requestBytes (n : ℕ)
  /-- The sender takes a byte of a request. -/
  | senderTake
  /-- The sender reads the page and encodes it. -/
  | answer (epoch : UInt64)
  /-- The sender writes the page. -/
  | write
  /-- The sender takes a credit from its event queue. -/
  | senderCredit
  /-- The sender has waited 30 s for credit. -/
  | timeout
  /-- The sender is told to close, or one of its streams fails. -/
  | close
  /-- Bytes of pages arrive. -/
  | pageBytes (n : ℕ)
  /-- The drain task takes a byte of a page. -/
  | drainTake
  /-- The client pump is gone, or the stream of the drain task fails. -/
  | stopDrain
  /-- The drain task puts its credit on the control queue. -/
  | putCredit
  /-- The client pump forwards a credit. -/
  | forward
  /-- The server pump hands a credit to the sender's event queue. -/
  | route

namespace Flow

variable {s s' : Flow} {channelId : UInt32} {width : Char → Option ℕ} {pages : Stream}

/-- The channel right after it was accepted. -/
def new (cols rows : ℕ) : Flow where
  history := .new cols rows
  bound := false
  serving := true
  remaining := initialCredit
  request := none
  waiting := none
  requests := .start
  pages := .start
  draining := true
  drained := 0
  replenish := none
  requestQueue := []
  control := []
  creditFrames := []
  events := []

/-- The sender leaves its loop and finishes the stream. -/
def stopServing (s : Flow) : Flow :=
  { s with serving := false, request := none, waiting := none,
           pages := { s.pages with finished := true } }

/-- The bytes that the drain task counts for a message: those of its frame, or the largest frame
if it does not encode. -/
def wireBytes (msg : Message) : ℕ :=
  match encode msg with
  | .ok frame => frame.length
  | .error _ => maxFrameLen + 4

/-- The drain task has a message: its bytes are counted, and a full chunk is returned. -/
def count (s : Flow) (msg : Message) : Flow :=
  let drained := s.drained + wireBytes msg
  if creditReplenishChunk ≤ drained then { s with drained := 0, replenish := some drained }
  else { s with drained := drained }

/-- The drain task leaves its loop; what it has counted is returned first. -/
def stopDraining (s : Flow) : Flow :=
  { s with draining := false, drained := 0,
           replenish := if 0 < s.drained then some s.drained else none }

/-- The read of the drain task, after the stream has moved. -/
def drainRead (s : Flow) (pages : Stream) : Flow :=
  let s' := { s with pages := pages }
  match pages.reader with
  | .failed _ => s'.stopDraining
  | _ => (pages.got.drop s.pages.got.length).foldl count s'

/-- The read of the sender, after the stream has moved. A request for another channel and any
other message are ignored. -/
def senderRead (channelId : UInt32) (s : Flow) (requests : Stream) : Flow :=
  let s' := { s with requests := requests }
  match requests.reader, requests.got.drop s.requests.got.length with
  | .failed _, _ => s'.stopServing
  | _, .scrollbackRequest id fromLine count :: _ =>
      if id = channelId then { s' with request := some (fromLine, count) } else s'
  | _, _ => s'

/-- The page that answers a request. -/
def page (channelId : UInt32) (s : Flow) (epoch : UInt64) (request : UInt64 × UInt32) : Message :=
  .scrollbackPage channelId request.1
    (UInt64.ofNat (s.history.terminal.scrollbackLines request.1.toNat
      (min request.2.toNat maxPageSize)).2)
    epoch (pageLines s.history.terminal request.1.toNat request.2.toNat)

section

variable (channelId : UInt32) (width : Char → Option ℕ)

/-- One action. The sender is in its loop, has a request to answer, or waits with an encoded page;
the drain task is in its loop, or waits with a credit. -/
def step (s : Flow) : FlowAction → Option Flow
  | .terminal ev => (s.history.step width ev).map fun h => { s with history := h }
  | .bind => if s.bound then none else some { s with bound := true }
  | .ask fromLine =>
      if s.requestQueue.length < 16 then
        some { s with
          requestQueue := s.requestQueue ++ [.scrollbackRequest channelId fromLine 256] }
      else some s
  | .sendRequest =>
      if s.draining ∧ s.replenish = none then
        match s.requestQueue with
        | [] => none
        | msg :: rest =>
            (s.pages.step .cancel).bind fun pages =>
              (s.requests.step (.write msg)).map fun requests =>
                { s with requestQueue := rest, pages := pages, requests := requests }
      else none
  | .requestBytes n =>
      (s.requests.step (.arrive n)).map fun requests => { s with requests := requests }
  | .senderTake =>
      if s.serving ∧ s.bound ∧ s.request = none ∧ s.waiting = none ∧ s.remaining ≠ 0 then
        (s.requests.step .take).map (s.senderRead channelId)
      else none
  | .answer epoch =>
      if s.serving then
        s.request.map fun request =>
          match encode (s.page channelId epoch request) with
          | .ok _ => { s with request := none, waiting := some (s.page channelId epoch request) }
          | .error _ => s.stopServing
      else none
  | .write =>
      if s.serving then
        s.waiting.bind fun msg =>
          if msg.frame.length ≤ s.remaining then
            (s.pages.step (.write msg)).map fun pages =>
              { s with
                waiting := none
                pages := pages
                remaining := s.remaining - msg.frame.length }
          else none
      else none
  | .senderCredit =>
      if s.serving ∧ s.request = none ∧ ∀ msg ∈ s.waiting, s.remaining < msg.frame.length then
        match s.events with
        | [] => none
        | bytes :: rest =>
            if s.bound then
              -- only the loop with credit has a read pending
              let requests :=
                if s.waiting = none ∧ s.remaining ≠ 0 then
                  (s.requests.step .cancel).getD s.requests
                else s.requests
              some { s with
                events := rest
                remaining := min (s.remaining + bytes) u64Max
                requests := requests }
            else some { s with events := rest }
      else none
  | .timeout =>
      if s.serving then
        s.waiting.bind fun msg =>
          if s.remaining < msg.frame.length then some s.stopServing else none
      else none
  | .close => if s.serving then some s.stopServing else none
  | .pageBytes n => (s.pages.step (.arrive n)).map fun pages => { s with pages := pages }
  | .drainTake =>
      if s.draining ∧ s.replenish = none then (s.pages.step .take).map s.drainRead else none
  | .stopDrain => if s.draining then some s.stopDraining else none
  | .putCredit =>
      if s.control.length < 16 then
        s.replenish.map fun bytes =>
          { s with replenish := none, control := s.control ++ [bytes] }
      else none
  | .forward =>
      match s.control with
      | [] => none
      | bytes :: rest =>
          some { s with control := rest, creditFrames := s.creditFrames ++ [bytes] }
  | .route =>
      match s.creditFrames with
      | [] => none
      | bytes :: rest =>
          -- `try_send`: a full queue drops the credit
          some { s with
            creditFrames := rest
            events := if s.events.length < 64 then s.events ++ [bytes] else s.events }

/-- The life of a scrollback channel. -/
def life : Machine Flow FlowAction := ⟨step channelId width⟩

end

/-- The sender waits for credit for an encoded page. No byte of a page and, the control stream
apart, no credit is on its way, and the drain task has not counted a full chunk. -/
structure Stalled (s : Flow) : Prop where
  serving : s.serving = true
  draining : s.draining = true
  waiting : ∃ msg, s.waiting = some msg ∧ s.remaining < msg.frame.length
  pages : s.pages.net = [] ∧ s.pages.inbox = []
  credits : s.replenish = none ∧ s.control = [] ∧ s.events = []
  drained : s.drained < creditReplenishChunk

/-- The drain task takes a request only while no page is partly read, and pages have at most
`largestPage` bytes. -/
def Paced (channelId : UInt32) (s : Flow) : FlowAction → Prop
  | .sendRequest => s.pages.reader = .header []
  | .answer epoch => ∀ request ∈ s.request,
      (s.page channelId epoch request).frame.length ≤ largestPage
  | _ => True

instance (channelId : UInt32) (s : Flow) (a : FlowAction) : Decidable (s.Paced channelId a) :=
  match a with
  | .sendRequest => inferInstanceAs (Decidable (_ = _))
  -- not by enumeration: a request is a pair of machine integers
  | .answer epoch => decidable_of_iff
      (s.request.all (fun request =>
        decide ((s.page channelId epoch request).frame.length ≤ largestPage)) = true)
      ((Option.all_eq_true _ _).trans
        (forall₂_congr fun _ _ => decide_eq_true_iff))
  | .terminal _ | .bind | .ask _ | .requestBytes _ | .senderTake | .write | .senderCredit
  | .timeout | .close | .pageBytes _ | .drainTake | .stopDrain | .putCredit | .forward
  | .route => instDecidableTrue

/-! ## Conservation of the window -/

/-- The credits on their way, the oldest first. -/
def credits (s : Flow) : List ℕ :=
  s.events ++ (s.creditFrames ++ (s.control ++ s.replenish.toList))

/-- What holds while both tasks run. The pages are read in step with the frames; the bytes of the
window are with the sender, unread, counted or on their way back. -/
structure Conserved (s : Flow) : Prop where
  aligned : Aligned s.pages
  reading : ∀ err, s.pages.reader ≠ .failed err
  balance : s.remaining + (frames s.pages.written).length + s.drained + s.credits.sum =
    initialCredit + (frames s.pages.got).length
  chunks : ∀ bytes ∈ s.credits, creditReplenishChunk ≤ bytes
  drained : s.drained < creditReplenishChunk
  waiting : ∀ msg ∈ s.waiting, encode msg = .ok msg.frame ∧ msg.frame.length ≤ largestPage
  /-- Before the stream is bound nothing has moved. -/
  unbound : s.bound = false → s.remaining = initialCredit ∧ s.request = none ∧ s.waiting = none

theorem conserved_new (cols rows : ℕ) : (new cols rows).Conserved where
  aligned := aligned_start
  reading := by
    rintro err ⟨⟩
  balance := rfl
  chunks := fun _ h => (List.not_mem_nil h).elim
  drained := show 0 < creditReplenishChunk by decide
  waiting := by
    rintro msg ⟨⟩
  unbound := fun _ => ⟨rfl, rfl, rfl⟩

/-- What is read was written. -/
theorem Conserved.got_le (h : s.Conserved) :
    (frames s.pages.got).length ≤ (frames s.pages.written).length := by
  obtain ⟨rest, hwritten, -⟩ := h.aligned.unread
  rw [hwritten, frames_append, List.length_append]
  omega

/-- The credit of the sender and the credits on their way are part of the window. -/
theorem Conserved.window (h : s.Conserved) :
    s.remaining + s.drained + s.credits.sum ≤ initialCredit := by
  have hbalance := h.balance
  have hgot := h.got_le
  omega

/-- Few credits are on their way at any time. -/
theorem Conserved.credits_length (h : s.Conserved) : s.credits.length ≤ 2 := by
  have hsum := List.card_nsmul_le_sum s.credits creditReplenishChunk h.chunks
  have hwindow := h.window
  rw [nsmul_eq_mul, Nat.cast_id] at hsum
  simp only [initialCredit, creditReplenishChunk] at hsum hwindow
  omega

/-- **Nothing on its way, nothing to wait for.** When all pages are read and all credits have
arrived, the sender has credit for any page it may have encoded. -/
theorem Conserved.not_stalled (h : s.Conserved) (hframes : s.creditFrames = []) : ¬ s.Stalled := by
  intro hw
  obtain ⟨msg, hmsg, hshort⟩ := hw.waiting
  have hsize := (h.waiting msg hmsg).2
  have hall : s.pages.written = s.pages.got := by
    obtain ⟨rest, hwritten, ⟨err, hfailed⟩ | ⟨taken, -, hbytes, hinside⟩⟩ := h.aligned.unread
    · exact absurd hfailed (h.reading err)
    · rw [hw.pages.1, hw.pages.2, List.append_nil, List.append_nil] at hbytes
      cases rest with
      | nil => rw [hwritten, List.append_nil]
      | cons first others =>
          have hlt := hinside first rfl
          have hlen := congrArg List.length hbytes
          rw [frames_cons, List.length_append] at hlen
          omega
  have hcredits : s.credits = [] := by
    obtain ⟨hreplenish, hcontrol, hevents⟩ := hw.credits
    unfold credits
    rw [hreplenish, hcontrol, hframes, hevents]
    rfl
  have hbalance := h.balance
  have hdrained := h.drained
  rw [hall, hcredits, List.sum_nil] at hbalance
  simp only [largestPage, initialCredit, creditReplenishChunk] at hsize hbalance hdrained
  omega

/-! ## What a step does -/

/-- What the actions find and leave. -/
inductive Effect (channelId : UInt32) (s : Flow) : FlowAction → Flow → Prop
  /-- Only the terminal and the requests move. -/
  | aside {a : FlowAction} (history : TerminalHistory) (requests : Stream)
      (requestQueue : List Message) :
      Effect channelId s a
        { s with history := history, requests := requests, requestQueue := requestQueue }
  | bind : Effect channelId s .bind { s with bound := true }
  | sendRequest {pages : Stream} (hcancel : s.pages.step .cancel = some pages)
      (requests : Stream) (requestQueue : List Message) :
      Effect channelId s .sendRequest
        { s with requestQueue := requestQueue, pages := pages, requests := requests }
  | senderTake (hbound : s.bound = true) (requests : Stream)
      (request : Option (UInt64 × UInt32)) :
      Effect channelId s .senderTake { s with requests := requests, request := request }
  | answer {epoch : UInt64} {request : UInt64 × UInt32} (hrequest : s.request = some request)
      (henc : encode (s.page channelId epoch request) =
        .ok (s.page channelId epoch request).frame) :
      Effect channelId s (.answer epoch)
        { s with request := none, waiting := some (s.page channelId epoch request) }
  /-- The sender leaves its loop: a read or an encoding has failed, or it gives up. -/
  | stopServing {a : FlowAction} (requests : Stream) :
      Effect channelId s a (Flow.stopServing { s with requests := requests })
  | write {msg : Message} {pages : Stream} (hwaiting : s.waiting = some msg)
      (hcredit : msg.frame.length ≤ s.remaining)
      (hwrite : s.pages.step (.write msg) = some pages) :
      Effect channelId s .write
        { s with
          waiting := none
          pages := pages
          remaining := s.remaining - msg.frame.length }
  | senderCredit {bytes : ℕ} {rest : List ℕ} (hevents : s.events = bytes :: rest)
      (hbound : s.bound = true) (requests : Stream) :
      Effect channelId s .senderCredit
        { s with
          events := rest
          remaining := min (s.remaining + bytes) u64Max
          requests := requests }
  /-- A credit that comes before the stream is bound is dropped. -/
  | dropCredit {bytes : ℕ} {rest : List ℕ} (hevents : s.events = bytes :: rest)
      (hunbound : ¬ s.bound = true) :
      Effect channelId s .senderCredit { s with events := rest }
  | pageBytes {n : ℕ} {pages : Stream} (harrive : s.pages.step (.arrive n) = some pages) :
      Effect channelId s (.pageBytes n) { s with pages := pages }
  | drainTake {pages : Stream} (hreplenish : s.replenish = none)
      (htake : s.pages.step .take = some pages) :
      Effect channelId s .drainTake (s.drainRead pages)
  | stopDrain : Effect channelId s .stopDrain s.stopDraining
  | putCredit {bytes : ℕ} (hreplenish : s.replenish = some bytes) :
      Effect channelId s .putCredit
        { s with replenish := none, control := s.control ++ [bytes] }
  | forward {bytes : ℕ} {rest : List ℕ} (hcontrol : s.control = bytes :: rest) :
      Effect channelId s .forward
        { s with control := rest, creditFrames := s.creditFrames ++ [bytes] }
  | route {bytes : ℕ} {rest : List ℕ} (hframes : s.creditFrames = bytes :: rest) :
      Effect channelId s .route
        { s with
          creditFrames := rest
          events := if s.events.length < 64 then s.events ++ [bytes] else s.events }

/-- The sender writes the page that it has credit for. -/
theorem step_write (hs : s.step channelId width .write = some s') :
    ∃ msg pages, s.waiting = some msg ∧ msg.frame.length ≤ s.remaining ∧
      s.pages.step (.write msg) = some pages ∧
      s' = { s with
        waiting := none
        pages := pages
        remaining := s.remaining - msg.frame.length } := by
  dsimp only [Flow.step] at hs
  split at hs
  · obtain ⟨msg, hwaiting, hs⟩ := Option.bind_eq_some_iff.mp hs
    split at hs
    · rename_i hcredit
      obtain ⟨pages, hpages, rfl⟩ := Option.map_eq_some_iff.mp hs
      exact ⟨msg, pages, hwaiting, hcredit, hpages, rfl⟩
    · cases hs
  · cases hs

/-- The read of the sender. A failed one ends it; else it may have a request. -/
theorem senderRead_effect (hbound : s.bound = true) (requests : Stream) :
    Effect channelId s .senderTake (s.senderRead channelId requests) := by
  unfold senderRead
  dsimp only
  split
  · exact .stopServing requests
  · split
    · exact .senderTake hbound requests _
    · exact .senderTake hbound requests _
  · exact .senderTake hbound requests _

/-- **Every step is one of these.** -/
theorem step_effect {a : FlowAction} (hs : s.step channelId width a = some s') :
    Effect channelId s a s' := by
  cases a with
  | terminal ev =>
      obtain ⟨history, -, rfl⟩ := Option.map_eq_some_iff.mp hs
      exact .aside history s.requests s.requestQueue
  | bind =>
      dsimp only [Flow.step] at hs
      split at hs
      · cases hs
      · cases hs
        exact .bind
  | ask fromLine =>
      dsimp only [Flow.step] at hs
      split at hs
      · cases hs
        exact .aside s.history s.requests _
      · cases hs
        exact .aside s.history s.requests s.requestQueue
  | sendRequest =>
      dsimp only [Flow.step] at hs
      split at hs
      · split at hs
        · cases hs
        · obtain ⟨pages, hcancel, hs⟩ := Option.bind_eq_some_iff.mp hs
          obtain ⟨requests, -, rfl⟩ := Option.map_eq_some_iff.mp hs
          exact .sendRequest hcancel requests _
      · cases hs
  | requestBytes n =>
      dsimp only [Flow.step] at hs
      obtain ⟨requests, -, rfl⟩ := Option.map_eq_some_iff.mp hs
      exact .aside s.history requests s.requestQueue
  | senderTake =>
      dsimp only [Flow.step] at hs
      split at hs
      · rename_i hready
        obtain ⟨requests, -, rfl⟩ := Option.map_eq_some_iff.mp hs
        exact senderRead_effect hready.2.1 requests
      · cases hs
  | answer epoch =>
      dsimp only [Flow.step] at hs
      split at hs
      · obtain ⟨request, hrequest, rfl⟩ := Option.map_eq_some_iff.mp hs
        split
        · rename_i frame henc
          rw [(encode_ok henc).1] at henc
          exact .answer hrequest henc
        · exact .stopServing s.requests
      · cases hs
  | write =>
      obtain ⟨msg, pages, hwaiting, hcredit, hwrite, rfl⟩ := step_write hs
      exact .write hwaiting hcredit hwrite
  | senderCredit =>
      dsimp only [Flow.step] at hs
      split at hs
      · split at hs
        · cases hs
        · rename_i bytes rest hevents
          split at hs
          · rename_i hbound
            cases hs
            exact .senderCredit hevents hbound _
          · rename_i hunbound
            cases hs
            exact .dropCredit hevents hunbound
      · cases hs
  | timeout =>
      dsimp only [Flow.step] at hs
      split at hs
      · obtain ⟨msg, -, hs⟩ := Option.bind_eq_some_iff.mp hs
        split at hs
        · cases hs
          exact .stopServing s.requests
        · cases hs
      · cases hs
  | close =>
      dsimp only [Flow.step] at hs
      split at hs
      · cases hs
        exact .stopServing s.requests
      · cases hs
  | pageBytes n =>
      dsimp only [Flow.step] at hs
      obtain ⟨pages, harrive, rfl⟩ := Option.map_eq_some_iff.mp hs
      exact .pageBytes harrive
  | drainTake =>
      dsimp only [Flow.step] at hs
      split at hs
      · rename_i hready
        obtain ⟨pages, htake, rfl⟩ := Option.map_eq_some_iff.mp hs
        exact .drainTake hready.2 htake
      · cases hs
  | stopDrain =>
      dsimp only [Flow.step] at hs
      split at hs
      · cases hs
        exact .stopDrain
      · cases hs
  | putCredit =>
      dsimp only [Flow.step] at hs
      split at hs
      · obtain ⟨bytes, hbytes, rfl⟩ := Option.map_eq_some_iff.mp hs
        exact .putCredit hbytes
      · cases hs
  | forward =>
      dsimp only [Flow.step] at hs
      split at hs
      · cases hs
      · rename_i bytes rest hcontrol
        cases hs
        exact .forward hcontrol
  | route =>
      dsimp only [Flow.step] at hs
      split at hs
      · cases hs
      · rename_i bytes rest hframes
        cases hs
        exact .route hframes

/-! ## Every step conserves -/

/-- A step of the terminal, of the requests or of the credits on their way. -/
theorem Conserved.of_same (h : s.Conserved) (hpages : s'.pages = s.pages)
    (hremaining : s'.remaining = s.remaining) (hdrained : s'.drained = s.drained)
    (hcredits : s'.credits = s.credits)
    (hwaiting : ∀ msg ∈ s'.waiting, encode msg = .ok msg.frame ∧ msg.frame.length ≤ largestPage)
    (hunbound : s'.bound = false → s.bound = false ∧ s'.request = none ∧ s'.waiting = none) :
    s'.Conserved where
  aligned := hpages ▸ h.aligned
  reading := hpages ▸ h.reading
  balance := by
    rw [hpages, hremaining, hdrained, hcredits]
    exact h.balance
  chunks := hcredits ▸ h.chunks
  drained := hdrained ▸ h.drained
  waiting := hwaiting
  unbound := by
    intro hbound
    obtain ⟨hold, hrequest, hnone⟩ := hunbound hbound
    exact ⟨hremaining.trans (h.unbound hold).1, hrequest, hnone⟩

/-- A step that moves neither a page nor a credit, except on the way back. -/
theorem Conserved.of_ledger (h : s.Conserved)
    (hledger : (s'.pages, s'.remaining, s'.drained, s'.waiting, s'.request, s'.bound) =
      (s.pages, s.remaining, s.drained, s.waiting, s.request, s.bound))
    (hcredits : s'.credits = s.credits) : s'.Conserved := by
  simp only [Prod.mk.injEq] at hledger
  obtain ⟨hpages, hremaining, hdrained, hwaiting, hrequest, hbound⟩ := hledger
  refine h.of_same hpages hremaining hdrained hcredits (hwaiting ▸ h.waiting) ?_
  rw [hbound, hrequest, hwaiting]
  exact fun hunbound => ⟨hunbound, (h.unbound hunbound).2⟩

/-- The drain task has a message. -/
theorem Conserved.count {msg : Message} (h : s.Conserved) (hreplenish : s.replenish = none)
    (haligned : Aligned pages) (hreading : ∀ err, pages.reader ≠ .failed err)
    (hwritten : pages.written = s.pages.written) (hgot : pages.got = s.pages.got ++ [msg]) :
    (Flow.count { s with pages := pages } msg).Conserved := by
  have hbytes : wireBytes msg = msg.frame.length := by
    obtain ⟨rest, hrest, -⟩ := haligned.unread
    have hmem : msg ∈ pages.written := by
      rw [hrest, hgot]
      simp
    unfold wireBytes
    rw [haligned.encodes msg hmem]
  have hframes : (frames pages.got).length = (frames s.pages.got).length + msg.frame.length := by
    rw [hgot, frames_append, List.length_append, frames_cons, frames_nil, List.append_nil]
  have hbalance := h.balance
  unfold Flow.count
  dsimp only
  rw [hbytes]
  split
  · rename_i hfull
    have hcredits : credits { s with
          pages := pages
          drained := 0
          replenish := some (s.drained + msg.frame.length) } =
        s.credits ++ [s.drained + msg.frame.length] := by
      simp only [credits, hreplenish, Option.toList_none, Option.toList_some, List.append_nil,
        List.append_assoc]
    have hzero : 0 < creditReplenishChunk := by decide
    refine ⟨haligned, hreading, ?_, ?_, hzero, h.waiting, h.unbound⟩
    · rw [hcredits, List.sum_append, List.sum_singleton]
      dsimp only
      rw [hwritten, hframes]
      omega
    · rw [hcredits]
      exact List.forall_mem_append.mpr ⟨h.chunks, List.forall_mem_singleton.mpr hfull⟩
  · rename_i hpart
    refine ⟨haligned, hreading, ?_, h.chunks, Nat.lt_of_not_le hpart, h.waiting, h.unbound⟩
    dsimp only
    rw [hwritten, hframes]
    change s.remaining + _ + _ + s.credits.sum = _
    omega

/-- Bytes of pages move, and no page is read to its end. -/
theorem Conserved.of_pages (h : s.Conserved) (haligned : Aligned pages)
    (hreading : ∀ err, pages.reader ≠ .failed err) (hwritten : pages.written = s.pages.written)
    (hgot : pages.got = s.pages.got) : Conserved { s with pages := pages } where
  aligned := haligned
  reading := hreading
  balance := by
    dsimp only
    rw [hwritten, hgot]
    exact h.balance
  chunks := h.chunks
  drained := h.drained
  waiting := h.waiting
  unbound := h.unbound

/-- A failed read ends the drain task; else it counts the messages it has got. -/
theorem drainRead_cases (s : Flow) (pages : Stream) :
    (s.drainRead pages).draining = false ∨
      (∀ err, pages.reader ≠ .failed err) ∧
        s.drainRead pages =
          (pages.got.drop s.pages.got.length).foldl Flow.count { s with pages := pages } := by
  unfold Flow.drainRead
  dsimp only
  split
  · exact Or.inl rfl
  · rename_i hlive
    exact Or.inr ⟨fun err hfailed => hlive err hfailed, rfl⟩

/-- The drain task takes a byte. -/
theorem Conserved.drainRead (h : s.Conserved) (hreplenish : s.replenish = none)
    (htake : s.pages.step .take = some pages) (hdraining : (s.drainRead pages).draining = true) :
    (s.drainRead pages).Conserved := by
  have haligned : Aligned pages := h.aligned.step (a := .take) trivial htake
  obtain hstopped | ⟨hreading, hread⟩ := s.drainRead_cases pages
  · rw [hstopped] at hdraining
    cases hdraining
  · rw [hread]
    cases Stream.step_effect htake with
    | wait =>
        rw [List.drop_length]
        exact h
    | ended => exact absurd rfl (hreading .io)
    | @take b inbox _ hinbox =>
        dsimp only
        rw [List.drop_left]
        cases hmsg : (s.pages.reader.feed b).2 with
        | none =>
            rw [hmsg] at haligned
            exact h.of_pages haligned hreading rfl (List.append_nil _)
        | some msg =>
            rw [hmsg] at haligned
            exact h.count hreplenish haligned hreading rfl rfl

theorem count_running (s : Flow) (msg : Message) :
    (s.count msg).serving = s.serving ∧ (s.count msg).draining = s.draining ∧
      (s.count msg).creditFrames = s.creditFrames := by
  unfold Flow.count
  dsimp only
  split <;> exact ⟨rfl, rfl, rfl⟩

/-- The drain task counts what it reads; the rest is as it was. -/
theorem foldl_count_running (msgs : List Message) (s : Flow) :
    (msgs.foldl Flow.count s).serving = s.serving ∧
      (msgs.foldl Flow.count s).draining = s.draining ∧
      (msgs.foldl Flow.count s).creditFrames = s.creditFrames := by
  induction msgs generalizing s with
  | nil => exact ⟨rfl, rfl, rfl⟩
  | cons msg msgs ih =>
      rw [List.foldl_cons, (ih _).1, (ih _).2.1, (ih _).2.2]
      exact s.count_running msg

/-- A read starts no task. -/
theorem drainRead_running (hserving : (s.drainRead pages).serving = true)
    (hdraining : (s.drainRead pages).draining = true) : s.serving = true ∧ s.draining = true := by
  obtain hstopped | ⟨-, hread⟩ := s.drainRead_cases pages
  · rw [hstopped] at hdraining
    cases hdraining
  · rw [hread, (foldl_count_running _ _).1] at hserving
    rw [hread, (foldl_count_running _ _).2.1] at hdraining
    exact ⟨hserving, hdraining⟩

theorem drainRead_creditFrames (s : Flow) (pages : Stream) :
    (s.drainRead pages).creditFrames = s.creditFrames := by
  unfold Flow.drainRead
  dsimp only
  split
  · rfl
  · exact (foldl_count_running _ _).2.2

/-- The sender writes the page it has credit for. -/
theorem Conserved.write {s : Flow} (h : s.Conserved) {msg : Message} {pages : Stream}
    (hwaiting : s.waiting = some msg) (hcredit : msg.frame.length ≤ s.remaining)
    (hwrite : s.pages.step (.write msg) = some pages) :
    Conserved { s with
      waiting := none
      pages := pages
      remaining := s.remaining - msg.frame.length } := by
  have henc := (h.waiting msg hwaiting).1
  have hbound : s.bound = true := by
    cases hb : s.bound with
    | true => rfl
    | false =>
        have hnone := (h.unbound hb).2.2
        rw [hwaiting] at hnone
        cases hnone
  obtain rfl := Stream.step_write henc hwrite
  refine ⟨h.aligned.write henc, h.reading, ?_, h.chunks, h.drained, ?_, ?_⟩
  · have hbalance := h.balance
    change s.remaining - msg.frame.length + (frames (s.pages.written ++ [msg])).length +
      s.drained + s.credits.sum = initialCredit + (frames s.pages.got).length
    rw [frames_append, List.length_append, frames_cons, frames_nil, List.append_nil]
    omega
  · rintro other ⟨⟩
  · intro hunbound
    rw [hbound] at hunbound
    cases hunbound

/-- The sender takes a credit; it has arrived in full, and the stream is bound. -/
theorem Conserved.senderCredit (h : s.Conserved) {bytes : ℕ} {rest : List ℕ}
    (hevents : s.events = bytes :: rest) (requests : Stream) :
    s.bound = true ∧ Conserved { s with
      events := rest
      remaining := min (s.remaining + bytes) u64Max
      requests := requests } := by
  have hcredits : s.credits = bytes :: (rest ++ (s.creditFrames ++
      (s.control ++ s.replenish.toList))) := by
    unfold credits
    rw [hevents]
    rfl
  have hsum : s.credits.sum = bytes + (rest ++ (s.creditFrames ++
      (s.control ++ s.replenish.toList))).sum := by
    rw [hcredits, List.sum_cons]
  have hchunks := h.chunks
  rw [hcredits, List.forall_mem_cons] at hchunks
  have hwindow := h.window
  have hfirst := hchunks.1
  have hbound : s.bound = true := by
    cases hb : s.bound with
    | true => rfl
    | false =>
        have hall := (h.unbound hb).1
        simp only [initialCredit, creditReplenishChunk] at hwindow hfirst hall
        omega
  have hmin : min (s.remaining + bytes) u64Max = s.remaining + bytes := by
    refine Nat.min_eq_left ?_
    simp only [initialCredit, u64Max] at hwindow ⊢
    omega
  refine ⟨hbound, h.aligned, h.reading, ?_, hchunks.2, h.drained, h.waiting, ?_⟩
  · have hbalance := h.balance
    rw [hmin]
    change s.remaining + bytes + (frames s.pages.written).length + s.drained +
      (rest ++ (s.creditFrames ++ (s.control ++ s.replenish.toList))).sum =
        initialCredit + (frames s.pages.got).length
    omega
  · intro hunbound
    have : s.bound = false := hunbound
    rw [hbound] at this
    cases this

/-- The server pump hands on a credit; the event queue has room. -/
theorem Conserved.route (h : s.Conserved) {bytes : ℕ} {rest : List ℕ}
    (hframes : s.creditFrames = bytes :: rest) :
    Conserved { s with
      creditFrames := rest
      events := if s.events.length < 64 then s.events ++ [bytes] else s.events } := by
  have hroom : s.events.length < 64 := by
    have hfew := h.credits_length
    unfold credits at hfew
    rw [List.length_append] at hfew
    omega
  refine h.of_ledger rfl ?_
  unfold credits
  dsimp only
  rw [if_pos hroom, hframes, List.append_assoc]
  rfl

/-- **Conservation.** Every paced step conserves the window, as long as both tasks run. -/
theorem Conserved.step {a : FlowAction} (h : s.serving = true → s.draining = true → s.Conserved)
    (hok : s.Paced channelId a) (hs : s.step channelId width a = some s') :
    s'.serving = true → s'.draining = true → s'.Conserved := by
  intro hserving hdraining
  cases step_effect hs with
  | aside history requests requestQueue => exact (h hserving hdraining).of_ledger rfl rfl
  | bind =>
      have h := h hserving hdraining
      refine h.of_same rfl rfl rfl rfl h.waiting ?_
      rintro ⟨⟩
  | sendRequest hcancel requests requestQueue =>
      rw [Stream.cancel_idle hok] at hcancel
      cases hcancel
      exact (h hserving hdraining).of_ledger rfl rfl
  | senderTake hbound requests request =>
      have h := h hserving hdraining
      refine h.of_same rfl rfl rfl rfl h.waiting fun hunbound => ?_
      rw [show s.bound = false from hunbound] at hbound
      cases hbound
  | @answer epoch request hrequest henc =>
      have h := h hserving hdraining
      refine h.of_same rfl rfl rfl rfl ?_ fun hunbound => ?_
      · rintro msg ⟨⟩
        exact ⟨henc, hok request hrequest⟩
      · have hnone := (h.unbound hunbound).2.1
        rw [hrequest] at hnone
        cases hnone
  | stopServing requests => cases hserving
  | write hwaiting hcredit hwrite => exact (h hserving hdraining).write hwaiting hcredit hwrite
  | senderCredit hevents _ requests =>
      exact ((h hserving hdraining).senderCredit hevents requests).2
  | dropCredit hevents hunbound =>
      exact absurd ((h hserving hdraining).senderCredit hevents s.requests).1 hunbound
  | @pageBytes n pages harrive =>
      have h := h hserving hdraining
      have haligned : Aligned pages := h.aligned.step (a := .arrive n) trivial harrive
      cases harrive
      exact h.of_pages haligned h.reading rfl rfl
  | drainTake hreplenish htake =>
      have hboth := drainRead_running hserving hdraining
      exact (h hboth.1 hboth.2).drainRead hreplenish htake hdraining
  | stopDrain => cases hdraining
  | putCredit hreplenish =>
      refine (h hserving hdraining).of_ledger rfl ?_
      unfold credits
      dsimp only
      rw [hreplenish, Option.toList_none, Option.toList_some, List.append_nil]
  | forward hcontrol =>
      refine (h hserving hdraining).of_ledger rfl ?_
      unfold credits
      dsimp only
      rw [hcontrol, List.append_assoc]
      rfl
  | route hframes => exact (h hserving hdraining).route hframes

/-- A line feed. -/
def lineFeed : FlowAction := .terminal (.dispatch (.execute 0x0A))

/-- The stream is bound, and a request for the newest 256 lines reaches the sender. -/
def firstRequest : List FlowAction :=
  [.bind, .ask 0, .sendRequest, .requestBytes 9] ++ List.replicate 9 .senderTake

/-! ## A page of more than the window -/

/-- A terminal of one row that has scrolled `n` blank lines out. -/
def blankHistory (cols n : ℕ) : TerminalHistory :=
  let lines := List.replicate n (List.replicate cols Cell.blank)
  ⟨{ TerminalState.new cols 1 with scrollback := lines }, lines⟩

theorem blankHistory_step {cols n : ℕ} (hcap : n < scrollbackLineCap) :
    (blankHistory cols n).step width (.dispatch (.execute 0x0A)) =
      some (blankHistory cols (n + 1)) := by
  have hpush : TerminalState.pushScrollback (List.replicate n (List.replicate cols Cell.blank))
      (List.replicate cols Cell.blank) =
        List.replicate (n + 1) (List.replicate cols Cell.blank) := by
    unfold TerminalState.pushScrollback
    dsimp only
    rw [← List.replicate_succ', if_neg]
    rw [List.length_replicate]
    omega
  change some (TerminalHistory.mk { TerminalState.new cols 1 with
    scrollback := TerminalState.pushScrollback (List.replicate n (List.replicate cols Cell.blank))
      (List.replicate cols Cell.blank) }
    (List.replicate n (List.replicate cols Cell.blank) ++ [List.replicate cols Cell.blank])) = _
  rw [hpush, ← List.replicate_succ']
  rfl

theorem run_lineFeeds {cols n : ℕ} (hcap : n ≤ scrollbackLineCap)
    (hnew : s.history = blankHistory cols 0) :
    (life channelId width).run s (List.replicate n lineFeed) =
      some { s with history := blankHistory cols n } := by
  induction n with
  | zero =>
      rw [← hnew]
      rfl
  | succ n ih =>
      rw [List.replicate_succ', Machine.run_append, ih (by omega), Option.bind_some,
        Machine.run_singleton]
      dsimp only [life, lineFeed, Flow.step]
      rw [blankHistory_step (by omega)]
      rfl

/-- The state in which the first request waits for its page. -/
def asked (history : TerminalHistory) : Flow :=
  { new 1000 1 with
    history := history
    bound := true
    request := some (0, 256)
    requests := ⟨[], [], .header [], false, [.scrollbackRequest 2 0 256],
      [.scrollbackRequest 2 0 256]⟩ }

theorem run_firstRequest :
    (life 2 width).run (new 1000 1) firstRequest = some (asked (blankHistory 1000 0)) :=
  rfl

theorem pageLines_all {t : TerminalState} {count : ℕ}
    (hall : t.scrollback.length ≤ min count maxPageSize) :
    pageLines t 0 count = t.scrollback.map scrollbackLine := by
  unfold pageLines TerminalState.scrollbackLines
  dsimp only
  split
  · rename_i hnone
    have hempty : t.scrollback = [] := List.eq_nil_of_length_eq_zero (by omega)
    rw [hempty]
  · have hnewest : t.scrollback.length - 1 - 0 + 1 = t.scrollback.length := by omega
    have holdest : t.scrollback.length - 1 - 0 - (min count maxPageSize - 1) = 0 := by omega
    rw [hnewest, holdest, List.take_length, List.drop_zero]

/-- A blank cell takes five bytes. -/
theorem blankLine_bytes (n : ℕ) :
    (ser (scrollbackLine (List.replicate n Cell.blank))).length =
      (ser (UInt16.ofNat n)).length + ((ser (UInt64.ofNat n)).length + n * 5) := by
  have hcell : (ser (⟨' ', ⟨0⟩, none, none⟩ : ScrollbackCell)).length = 5 := by
    decide
  change (ser (UInt16.ofNat (List.replicate n Cell.blank).length) ++
    ser ((List.replicate n Cell.blank).map _)).length = _
  rw [List.map_replicate, List.length_append, length_ser_replicate, List.length_replicate]
  exact congrArg _ (congrArg _ (congrArg _ hcell))

/-- The page of 60 blank lines of 1000 columns takes more than the window. -/
theorem blankPage_bytes (s : Flow) (hhistory : s.history = blankHistory 1000 60) :
    (s.page 2 0 (0, 256)).body.length = 300246 := by
  have hlines : pageLines s.history.terminal 0 256 =
      List.replicate 60 (scrollbackLine (List.replicate 1000 Cell.blank)) := by
    have hall : (blankHistory 1000 60).terminal.scrollback.length ≤ min 256 maxPageSize :=
      List.length_replicate.trans_le (by decide)
    rw [hhistory, pageLines_all hall]
    exact List.map_replicate
  have htotal : (s.history.terminal.scrollbackLines 0 256).2 = 60 := by
    rw [TerminalState.scrollbackLines_total, hhistory]
    exact List.length_replicate
  change (variant 16 ++ (ser (2 : UInt32) ++ (ser (0 : UInt64) ++
    (ser (UInt64.ofNat (s.history.terminal.scrollbackLines 0 256).2) ++ (ser (0 : UInt64) ++
      ser (pageLines s.history.terminal 0 256)))))).length = _
  rw [hlines, htotal]
  simp only [List.length_append, length_ser_replicate, blankLine_bytes]
  decide

/-- A terminal of 1000 columns scrolls 60 lines out before the first request is answered. -/
def sixtyLines : List FlowAction := firstRequest ++ (List.replicate 60 lineFeed ++ [.answer 0])

/-- **A page that no credit will cover.** The page takes more than the 256 KiB of the window; the
sender waits for credit that the client has no reason to send. -/
theorem run_wide_page :
    ∃ s, (life 2 fun _ => some 1).run (new 1000 1) sixtyLines = some s ∧ s.Stalled := by
  let s : Flow := asked (blankHistory 1000 60)
  have hsize : (s.page 2 0 (0, 256)).body.length = 300246 := blankPage_bytes s rfl
  have henc : encode (s.page 2 0 (0, 256)) = .ok (s.page 2 0 (0, 256)).frame := by
    rw [encode, hsize, if_neg (by decide), Message.frame, hsize]
  have hwide : initialCredit < (s.page 2 0 (0, 256)).frame.length := by
    rw [Message.frame, List.length_append, hsize, length_toBeBytes]
    decide
  have hanswer : (life 2 fun _ => some 1).run s [.answer 0] =
      some { s with request := none, waiting := some (s.page 2 0 (0, 256)) } := by
    rw [Machine.run_singleton]
    change (some (match encode (s.page 2 0 (0, 256)) with
      | .ok _ => { s with request := none, waiting := some (s.page 2 0 (0, 256)) }
      | .error _ => s.stopServing)) = _
    rw [henc]
  refine ⟨{ s with request := none, waiting := some (s.page 2 0 (0, 256)) }, ?_, ?_⟩
  · rw [sixtyLines, Machine.run_append, run_firstRequest, Option.bind_some, Machine.run_append,
      run_lineFeeds (by decide) rfl, Option.bind_some]
    exact hanswer
  · exact ⟨rfl, rfl, ⟨_, rfl, hwide⟩, ⟨rfl, rfl⟩, ⟨rfl, rfl, rfl⟩, by decide⟩

end Flow

end Nosh.Scrollback
