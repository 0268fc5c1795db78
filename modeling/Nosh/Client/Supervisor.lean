import Mathlib.Data.List.Infix
import Nosh.Lib.Machine
import Nosh.Proto.Message

/-!
# The reconnect supervisor

`main` connects, runs a session until its pump ends, and starts over. In between it keeps two
things: the token of the session and the number of frames that it has applied. With a token it asks
for the session again; without one it opens a new one. Errors of the connection are told apart by
their text. Those that mention a marker end the client, all others are followed by a wait, in which
the user may quit.

## Main Results

* `supervised` — **once a session is open the client asks for no other one, with the token it has
  read last; between two attempts to connect there is a wait; and the waits double up to ten
  seconds, and never become shorter again.**
-/

namespace Nosh.Client

open Nosh.Lib Nosh.Proto

/-! ## Errors -/

/-- `FATAL_MARKERS`. -/
def fatalMarkers : List (List Char) :=
  ["host key mismatch".toList, "certificate required".toList, "access denied".toList,
    "bad certificate".toList, "certificate unknown".toList, "unknown ca".toList,
    "decrypt error".toList, "handshake failure".toList, "encrypted".toList, "not ed25519".toList,
    "passphrase".toList]

/-- The markers that `main` adds for the inner handshake. -/
def innerAuthMarkers : List (List Char) :=
  ["host key mismatch".toList, "inner auth: host key".toList,
    "inner auth: ekm mismatch".toList, "not accepted".toList]

/-- Some marker is in the text, with ASCII letters in lower case. -/
def mentions (markers : List (List Char)) (error : List Char) : Bool :=
  let msg := error.map Char.toLower
  markers.any fun marker => decide (marker <:+: msg)

/-- `is_fatal_connect_error`, of the text of the whole chain. -/
def isFatalConnectError (error : List Char) : Bool := mentions fatalMarkers error

/-- What `main` makes of an error of `run_inner_auth_client`. -/
def isFatalInnerAuthError (error : List Char) : Bool :=
  isFatalConnectError error || mentions innerAuthMarkers error

/-! ## Waiting -/

/-- `BACKOFF_INITIAL`, in milliseconds. -/
def backoffInitial : ℕ := 250

/-- `BACKOFF_MAX`, in milliseconds. -/
def backoffMax : ℕ := 10000

/-- What may happen during a wait. -/
inductive BackoffEvent
  | signal
  | eof
  | readError
  | bytes (bytes : List UInt8)

/-- Ctrl-C, or `~.` anywhere in what is read. -/
def wantsQuit (bytes : List UInt8) : Bool :=
  bytes.contains 0x03 || decide ([0x7e, 0x2e] <:+: bytes)

/-- `quit_during_backoff`: the user quits before the wait is over. Only the first thing that happens
counts, since after other bytes the future stays pending. -/
def quitDuringBackoff : List BackoffEvent → Bool
  | [] => false
  | .bytes bytes :: _ => wantsQuit bytes
  | _ :: _ => true

/-! ## The loop -/

/-- `PumpOutcome`. -/
inductive PumpOutcome
  | cleanExit (code : ℤ)
  | transportDrop
  | userQuit

/-- What a connection sends first. -/
inductive FirstFrame
  | sessionOpen
  | reattach (token : ByteArr 16) (lastAckedSeq : ℕ)

/-- What comes back, and of the pump that is then run, how many frames it applies and how it ends.
An error of the pump is a `TransportDrop`. -/
inductive Reply
  /-- An error before the reply is read, or a reply of another kind. -/
  | failed
  | sessionOpened (token : ByteArr 16) (applied : ℕ) (outcome : PumpOutcome)
  | reattachErr
  | reattachOk (newToken : ByteArr 16) (replayingFromSeq applied : ℕ) (outcome : PumpOutcome)

/-- How an iteration of the loop connects. -/
inductive Connect
  /-- `make_endpoint` gives an error, or `connect_wt`. -/
  | unreachable
  /-- `client::connect` gives an error, or over WebTransport `run_inner_auth_client`. -/
  | fails (error : List Char)
  | connected (reply : Reply)

/-- One iteration: how it connects, and what happens while it waits. -/
structure Iteration where
  connect : Connect
  waiting : List BackoffEvent

/-- What the supervisor does. -/
inductive Event
  /-- It tries to connect; on a connection it sends a first frame and gets a reply. -/
  | attempt (exchange : Option (FirstFrame × Reply))
  /-- It waits, in milliseconds. -/
  | wait (delay : ℕ)

/-- The state of the loop. -/
structure Supervisor where
  token : Option (ByteArr 16)
  highestApplied : ℕ
  backoff : ℕ
  /-- The exit code, once the loop is left. -/
  exit : Option ℤ
  /-- History, the newest first. -/
  history : List Event

/-- `highest_applied` after the pump: a `u64` that saturates. -/
def applyFrames (first applied : ℕ) : ℕ := min (first + applied) (UInt64.size - 1)

namespace Supervisor

def start : Supervisor := ⟨none, 0, backoffInitial, none, []⟩

/-- An event is added to the history. -/
def record (s : Supervisor) (event : Event) : Supervisor :=
  { s with history := event :: s.history }

/-- What the client sends first. -/
def firstFrame (s : Supervisor) : FirstFrame :=
  match s.token with
  | none => .sessionOpen
  | some token => .reattach token s.highestApplied

/-- `fresh_session` and `reattach_session`, on a stream of their own or that of the inner
handshake. -/
def session (s : Supervisor) (reply : Reply) : Option (Supervisor × PumpOutcome) :=
  let logged := s.record (.attempt (some (s.firstFrame, reply)))
  match s.token, reply with
  | _, .failed => some (logged, .transportDrop)
  | none, .sessionOpened token applied outcome =>
      some ({ logged with
        token := some token
        highestApplied := applyFrames 0 applied }, outcome)
  | some _, .reattachErr => some ({ logged with token := none }, .cleanExit 1)
  | some _, .reattachOk newToken replayingFromSeq applied outcome =>
      some ({ logged with
        token := some newToken
        highestApplied := applyFrames replayingFromSeq applied }, outcome)
  | _, _ => none

/-- An iteration up to its wait: how it ends, as if it had got to the pump. -/
def iterate (webtransport : Bool) (s : Supervisor) : Connect → Option (Supervisor × PumpOutcome)
  | .unreachable => some (s.record (.attempt none), .transportDrop)
  | .fails error =>
      let fatal := if webtransport then isFatalInnerAuthError error else isFatalConnectError error
      some (s.record (.attempt none), if fatal then .cleanExit 1 else .transportDrop)
  | .connected reply => s.session reply

/-- One iteration. -/
def step (webtransport : Bool) (s : Supervisor) (iteration : Iteration) : Option Supervisor :=
  if s.exit ≠ none then none
  else (s.iterate webtransport iteration.connect).map fun
    | (s', .cleanExit code) => { s' with exit := some code }
    | (s', .userQuit) => { s' with exit := some 0 }
    | (s', .transportDrop) =>
        let waited := s'.record (.wait s'.backoff)
        if quitDuringBackoff iteration.waiting then { waited with exit := some 0 }
        else { waited with backoff := min (s'.backoff * 2) backoffMax }

end Supervisor

/-- The supervisor as a machine. -/
def supervisor (webtransport : Bool) : Machine Supervisor Iteration :=
  ⟨Supervisor.step webtransport⟩

/-! ## What the history tells -/

/-- The `n`-th wait. -/
def delay (n : ℕ) : ℕ := min (backoffInitial * 2 ^ n) backoffMax

theorem delay_succ (n : ℕ) : delay (n + 1) = min (delay n * 2) backoffMax := by
  unfold delay backoffInitial backoffMax
  rw [pow_succ]
  omega

/-- The token that a reply brings, and the frames applied from then on. -/
def Reply.brings : Reply → Option (ByteArr 16 × ℕ)
  | .sessionOpened token applied _ => some (token, applyFrames 0 applied)
  | .reattachOk newToken replayingFromSeq applied _ =>
      some (newToken, applyFrames replayingFromSeq applied)
  | _ => none

/-- What an event brings. -/
def Event.brings : Event → Option (ByteArr 16 × ℕ)
  | .attempt (some (_, reply)) => reply.brings
  | _ => none

/-- What the last reply that brought a token has brought. -/
def latest (history : List Event) : Option (ByteArr 16 × ℕ) := history.findSome? Event.brings

/-- What is to be sent after this history: a request for the session with the last token. -/
def due (history : List Event) : FirstFrame :=
  match latest history with
  | none => .sessionOpen
  | some (token, applied) => .reattach token applied

/-- A wait. -/
def Event.isWait : Event → Bool
  | .wait _ => true
  | .attempt _ => false

/-- Every connection has sent what was due; before every attempt but the first the supervisor has
waited; and every wait is the next one of the series. -/
def Supervised : List Event → Prop
  | [] => True
  | .attempt exchange :: before =>
      (∀ sent ∈ exchange, sent.1 = due before) ∧ (∀ event ∈ before.head?, event.isWait) ∧
        Supervised before
  | .wait ms :: before => ms = delay (before.countP Event.isWait) ∧ Supervised before

/-- In the loop its variables follow the history, and the last attempt was waited for. -/
structure Live (s : Supervisor) : Prop where
  current : latest s.history = s.token.map fun token => (token, s.highestApplied)
  backoff : s.backoff = delay (s.history.countP Event.isWait)
  waited : ∀ event ∈ s.history.head?, event.isWait

section Steps

variable {s s' : Supervisor}

theorem Live.firstFrame_eq (h : Live s) : s.firstFrame = due s.history := by
  rw [Supervisor.firstFrame, due, h.current]
  cases s.token <;> rfl

/-- What the session functions do to the state. -/
theorem session_cases {reply : Reply} {outcome : PumpOutcome}
    (hsession : s.session reply = some (s', outcome)) :
    s'.history = .attempt (some (s.firstFrame, reply)) :: s.history ∧ s'.backoff = s.backoff ∧
      (outcome = .cleanExit 1 ∨
        s'.token.map (fun token => (token, s'.highestApplied)) =
          reply.brings.or (s.token.map fun token => (token, s.highestApplied))) := by
  unfold Supervisor.session at hsession
  dsimp only at hsession
  split at hsession
  · cases hsession
    exact ⟨rfl, rfl, .inr rfl⟩
  · cases hsession
    exact ⟨rfl, rfl, .inr rfl⟩
  · cases hsession
    exact ⟨rfl, rfl, .inl rfl⟩
  · cases hsession
    exact ⟨rfl, rfl, .inr rfl⟩
  · cases hsession

/-- An attempt after a wait, which sends what is due. -/
theorem Live.iterate (h : Live s) {webtransport : Bool} {connect : Connect}
    {outcome : PumpOutcome} (hiterate : s.iterate webtransport connect = some (s', outcome)) :
    ∃ exchange, s'.history = .attempt exchange :: s.history ∧ s'.backoff = s.backoff ∧
      (∀ sent ∈ exchange, sent.1 = due s.history) ∧
      (outcome = .transportDrop →
        latest s'.history = s'.token.map fun token => (token, s'.highestApplied)) := by
  cases connect with
  | connected reply =>
      obtain ⟨hhistory, hbackoff, hbrings⟩ := session_cases hiterate
      refine ⟨_, hhistory, hbackoff, ?_, fun hdrop => ?_⟩
      · rintro sent ⟨⟩
        exact h.firstFrame_eq
      · rcases hbrings with rfl | hbrings
        · cases hdrop
        · rw [hbrings, hhistory, ← h.current, latest, List.findSome?_cons, Event.brings]
          cases reply.brings <;> rfl
  | _ =>
      cases hiterate
      exact ⟨none, rfl, rfl, nofun, fun _ => h.current⟩

/-- **One iteration.** -/
theorem Supervised.step (h : Supervised s.history) (hlive : s.exit = none → Live s)
    {webtransport : Bool} {iteration : Iteration}
    (hstep : s.step webtransport iteration = some s') :
    Supervised s'.history ∧ (s'.exit = none → Live s') := by
  unfold Supervisor.step at hstep
  obtain ⟨hexit, hstep⟩ := Option.ite_none_left_eq_some.mp hstep
  have hlive := hlive (not_not.mp hexit)
  obtain ⟨⟨after, outcome⟩, hiterate, hafter⟩ := Option.map_eq_some_iff.mp hstep
  obtain ⟨exchange, hhistory, hbackoff, hdue, hcurrent⟩ := hlive.iterate hiterate
  have hattempt : Supervised after.history := by
    rw [hhistory]
    exact ⟨hdue, hlive.waited, h⟩
  cases outcome with
  | cleanExit code =>
      cases hafter
      exact ⟨hattempt, nofun⟩
  | userQuit =>
      cases hafter
      exact ⟨hattempt, nofun⟩
  | transportDrop =>
      -- the wait that follows is the next one of the series
      have hnext : after.backoff = delay (after.history.countP Event.isWait) := by
        rw [hbackoff, hhistory, hlive.backoff]
        rfl
      dsimp only at hafter
      split at hafter
      · cases hafter
        exact ⟨⟨hnext, hattempt⟩, nofun⟩
      · cases hafter
        refine ⟨⟨hnext, hattempt⟩, fun _ => ⟨hcurrent rfl, ?_, ?_⟩⟩
        · show min (after.backoff * 2) backoffMax =
            delay ((Event.wait after.backoff :: after.history).countP Event.isWait)
          rw [List.countP_cons_of_pos rfl, delay_succ, ← hnext]
        · rintro event ⟨⟩
          rfl

end Steps

/-- **The client keeps to one session.** However connections fail and come back: every connection
sends a request for the session with the last token that was read and with the number of frames
applied, once there is one, and opens a session before; between any two attempts to connect the
client waits; and the `n`-th wait lasts `250 * 2 ^ n` milliseconds, but ten seconds at most,
whatever the sessions in between. -/
theorem supervised (webtransport : Bool) {schedule : List Iteration} {s : Supervisor}
    (hrun : (supervisor webtransport).run .start schedule = some s) : Supervised s.history := by
  have hstart : Supervised Supervisor.start.history := trivial
  have hlive : Live .start := ⟨rfl, rfl, nofun⟩
  exact ((supervisor webtransport).invariant_run
    (fun s => Supervised s.history ∧ (s.exit = none → Live s))
    (fun _ _ _ h hstep => h.1.step h.2 hstep) ⟨hstart, fun _ => hlive⟩ hrun).1

/-- The client reads `SessionOpened`, loses the connection, fails to connect, and is
reattached. -/
def droppedTwice : List Iteration :=
  [⟨.connected (.sessionOpened (.replicate 16 1) 3 .transportDrop), []⟩,
    ⟨.fails "timed out".toList, [.bytes [0x78]]⟩,
    ⟨.connected (.reattachOk (.replicate 16 2) 2 5 .transportDrop), []⟩]

theorem supervised_droppedTwice :
    ∃ s, (supervisor false).run .start droppedTwice = some s ∧
      s.history.map Event.isWait = [true, false, true, false, true, false] ∧
      Supervised s.history := by
  have hend : ((supervisor false).run .start droppedTwice).map
      (fun s => s.history.map Event.isWait) = some [true, false, true, false, true, false] := by
    decide +kernel
  obtain ⟨s, hrun, hs⟩ := Option.map_eq_some_iff.mp hend
  exact ⟨s, hrun, hs, supervised false hrun⟩

end Nosh.Client
