import Nosh.Lib.Machine
import Nosh.Server.OutputBuffer
import Nosh.Server.Terminal

/-!
# PTY output when the transport is lost

Three parties move the output of a session: the reader thread of `pty_io.rs`, the
bounded channel behind it, and the pump of `run_session`, which gives each chunk to
`push_output_and_parse`.  When the shell exits, the pump drains the channel first.
When the transport is lost it stops the reader and orphans the slot, and the channel
is dropped with whatever it still holds.

Reads of the PTY give each byte once, and the reader stops at the shutdown signal, so
that the pump's wait for it ends with the thread's exit.

## Main results

* `Conserved.step` — chunks go from the reader through the channel into the slot, in
  order, and are lost nowhere else than in the teardown.
* `read_output_pushed` — **if the transport is lost only while the channel is empty
  and the reader is at its poll, everything read is in the slot.**
* `queued_output_lost` — a chunk in the channel at that moment reaches neither the
  replay ring nor the terminal.
-/

namespace Nosh.Reattach

open Nosh.Lib Nosh.Server

/-- `PTY_CHUNK`: the size of the reader's buffer. -/
def ptyChunk : ℕ := 8192

/-- The capacity of the output channel. -/
def outputCapacity : ℕ := 64

/-- The part of a `SessionSlot` that takes output. -/
structure OutputSlot (τ : Type) where
  outputBuf : SequencedOutputBuffer
  terminalState : τ
  deriving DecidableEq

/-- `push_output_and_parse`; `advance` is `TerminalState::advance`, whose escape-sequence
parser is not part of the repository. -/
def OutputSlot.pushOutputAndParse {τ : Type} (advance : τ → List UInt8 → τ) (slot : OutputSlot τ)
    (chunk : List UInt8) : OutputSlot τ :=
  ⟨slot.outputBuf.push chunk, advance slot.terminalState chunk⟩

/-- Where `unix_reader_loop` is. -/
inductive ReaderState
  | polling
  /-- The poll has returned with the PTY readable and no shutdown signalled. -/
  | ready
  /-- In `blocking_send`. -/
  | sending (chunk : List UInt8)
  | exited
  deriving DecidableEq

/-- The chunk the reader has read and not handed on. -/
def ReaderState.inHand : ReaderState → List (List UInt8)
  | .sending chunk => [chunk]
  | _ => []

/-- The reader has nothing in hand and is not about to read. -/
def ReaderState.Idle (reader : ReaderState) : Prop := reader = .polling ∨ reader = .exited

instance (reader : ReaderState) : Decidable reader.Idle := inferInstanceAs (Decidable (_ ∨ _))

/-- Where the pump of the session is. -/
inductive PumpPhase
  | pumping
  /-- `SessionEnd::ShellExited`: draining the channel. -/
  | exiting
  | removed
  /-- `SessionEnd::TransportLost`: waiting for the reader to exit. -/
  | stopping
  | orphaned
  deriving DecidableEq

/-- The output path of a session. -/
structure PtyOutput (τ : Type) where
  slot : OutputSlot τ
  reader : ReaderState
  /-- The shutdown pipe is readable. -/
  shutdown : Bool
  channel : List (List UInt8)
  phase : PumpPhase
  /-- History: the chunks read from the PTY. -/
  read : List (List UInt8)
  /-- History: the chunks given to `push_output_and_parse`. -/
  pushed : List (List UInt8)
  deriving DecidableEq

/-- A session whose pump and reader have just started. -/
def PtyOutput.start {τ : Type} (slot : OutputSlot τ) : PtyOutput τ :=
  ⟨slot, .polling, false, [], .pumping, [], []⟩

/-- The steps of reader and pump. -/
inductive OutputAction
  /-- The poll of the reader returns. -/
  | poll
  | read (chunk : List UInt8)
  /-- The read returns end of file or an error. -/
  | eof
  | send
  /-- The pump takes a chunk; `sent` tells whether it could write it to the client. -/
  | recv (sent : Bool)
  /-- A read of the transport fails. -/
  | lose
  | shellExit
  | drain
  | remove
  | orphan
  | reattach

section

variable {τ : Type} (advance : τ → List UInt8 → τ)
variable {a : OutputAction}

namespace PtyOutput

/-- The pump takes the first chunk of the channel. -/
def take (s : PtyOutput τ) (chunk : List UInt8) (rest : List (List UInt8)) : PtyOutput τ :=
  { s with
    slot := s.slot.pushOutputAndParse advance chunk
    channel := rest
    pushed := s.pushed ++ [chunk] }

/-- The pump leaves its loop on a transport loss and signals the reader. -/
def stop (s : PtyOutput τ) : PtyOutput τ := { s with phase := .stopping, shutdown := true }

/-- A step of the reader thread. -/
def readerStep (s : PtyOutput τ) : OutputAction → Option (PtyOutput τ)
  | .poll =>
      -- the shutdown pipe is looked at first
      if s.reader = .polling then
        some { s with reader := if s.shutdown then .exited else .ready }
      else none
  | .read chunk =>
      if s.reader = .ready ∧ chunk ≠ [] ∧ chunk.length ≤ ptyChunk then
        some { s with reader := .sending chunk, read := s.read ++ [chunk] }
      else none
  | .eof => if s.reader = .ready then some { s with reader := .exited } else none
  | .send =>
      match s.reader with
      | .sending chunk =>
          if s.phase = .orphaned then some { s with reader := .exited }
          else if s.channel.length < outputCapacity then
            some { s with reader := .polling, channel := s.channel ++ [chunk] }
          else none
      | _ => none
  | _ => none

/-- A step of the pump. -/
def pumpStep (s : PtyOutput τ) : OutputAction → Option (PtyOutput τ)
  | .recv sent =>
      match s.phase, s.channel with
      | .pumping, chunk :: rest =>
          some (if sent then s.take advance chunk rest else (s.take advance chunk rest).stop)
      | _, _ => none
  | .lose => if s.phase = .pumping then some s.stop else none
  | .shellExit => if s.phase = .pumping then some { s with phase := .exiting } else none
  | .drain =>
      match s.phase, s.channel with
      | .exiting, chunk :: rest => some (s.take advance chunk rest)
      | _, _ => none
  | .remove => if s.phase = .exiting then some { s with phase := .removed } else none
  | .orphan =>
      -- the receiver is dropped undrained
      if s.phase = .stopping ∧ s.reader = .exited then
        some { s with phase := .orphaned, channel := [] }
      else none
  | .reattach =>
      if s.phase = .orphaned then
        some { s with phase := .pumping, reader := .polling, shutdown := false, channel := [] }
      else none
  | _ => none

/-- One step; with the slot removed the session is over. -/
def step (s : PtyOutput τ) (a : OutputAction) : Option (PtyOutput τ) :=
  if s.phase = .removed then none
  else match a with
    | .poll | .read _ | .eof | .send => s.readerStep a
    | _ => s.pumpStep advance a

/-- The transport is lost only while no output is between reader and slot, apart from the
chunk being written. -/
def QuietLoss (s : PtyOutput τ) : OutputAction → Prop
  | .lose => s.channel = [] ∧ s.reader.Idle
  | .recv false => s.channel.tail = [] ∧ s.reader.Idle
  | _ => True

instance (s : PtyOutput τ) (a : OutputAction) : Decidable (s.QuietLoss a) :=
  match a with
  | .lose | .recv false => inferInstanceAs (Decidable (_ ∧ _))
  | .recv true | .poll | .read _ | .eof | .send | .shellExit | .drain | .remove | .orphan
  | .reattach => inferInstanceAs (Decidable True)

end PtyOutput

/-- The output path as a machine. -/
def ptyOutput : Machine (PtyOutput τ) OutputAction := ⟨PtyOutput.step advance⟩

/-- The invariant of quiet runs. -/
structure Conserved (slot : OutputSlot τ) (s : PtyOutput τ) : Prop where
  slot_eq : s.slot = s.pushed.foldl (OutputSlot.pushOutputAndParse advance) slot
  read_eq : s.read = s.pushed ++ s.channel ++ s.reader.inHand
  stopping : s.phase = .stopping → s.channel = [] ∧ s.reader.Idle ∧ s.shutdown = true
  orphaned : s.phase = .orphaned → s.channel = [] ∧ s.reader = .exited

variable {advance} {slot : OutputSlot τ} {s s' : PtyOutput τ}

theorem conserved_start (slot : OutputSlot τ) : Conserved advance slot (.start slot) :=
  ⟨rfl, rfl, nofun, nofun⟩

section

variable (h : Conserved advance slot s)

include h

/-- A reader that is about to read, or has a chunk in hand, works for a pump that is not
past its loop. -/
theorem Conserved.phase_ne (hbusy : ¬ s.reader.Idle) :
    s.phase ≠ .stopping ∧ s.phase ≠ .orphaned := by
  constructor
  · intro hphase
    exact hbusy (h.stopping hphase).2.1
  · intro hphase
    exact hbusy (Or.inr (h.orphaned hphase).2)

/-- Such a reader may move on as long as it keeps what it has read in the channel or in
hand. -/
theorem Conserved.moveReader (hbusy : ¬ s.reader.Idle) {reader : ReaderState}
    {channel read : List (List UInt8)} (hread : read = s.pushed ++ channel ++ reader.inHand) :
    Conserved advance slot { s with reader := reader, channel := channel, read := read } := by
  obtain ⟨hstop, horph⟩ := h.phase_ne hbusy
  exact ⟨h.slot_eq, hread, fun hphase => absurd hphase hstop, fun hphase => absurd hphase horph⟩

/-- The reader's steps. -/
theorem Conserved.readerStep (hstep : s.readerStep a = some s') : Conserved advance slot s' := by
  cases a with
  | poll =>
      rw [PtyOutput.readerStep] at hstep
      split at hstep
      · rename_i hpolling
        cases hstep
        have hread := h.read_eq
        rw [hpolling] at hread
        refine ⟨h.slot_eq, ?_, fun hphase => ?_, fun hphase => ?_⟩
        · show s.read = s.pushed ++ s.channel ++ ReaderState.inHand (if s.shutdown then _ else _)
          rw [hread]
          split <;> rfl
        · obtain ⟨hchannel, -, hshutdown⟩ := h.stopping hphase
          exact ⟨hchannel, Or.inr (if_pos hshutdown), hshutdown⟩
        · have hexited := (h.orphaned hphase).2
          rw [hpolling] at hexited
          cases hexited
      · cases hstep
  | read chunk =>
      rw [PtyOutput.readerStep] at hstep
      split at hstep
      · rename_i hready
        cases hstep
        have hread := h.read_eq
        rw [hready.1] at hread
        refine h.moveReader (by rw [hready.1]; decide) ?_
        rw [hread]
        simp [ReaderState.inHand]
      · cases hstep
  | eof =>
      rw [PtyOutput.readerStep] at hstep
      split at hstep
      · rename_i hready
        cases hstep
        have hread := h.read_eq
        rw [hready] at hread
        exact h.moveReader (by rw [hready]; decide) hread
      · cases hstep
  | send =>
      rw [PtyOutput.readerStep] at hstep
      split at hstep
      · rename_i chunk hsending
        have hread := h.read_eq
        rw [hsending] at hread
        have hbusy : ¬ s.reader.Idle := by
          rw [hsending]
          rintro (hpolling | hexited)
          · cases hpolling
          · cases hexited
        rw [if_neg (h.phase_ne hbusy).2] at hstep
        split at hstep
        · cases hstep
          refine h.moveReader hbusy ?_
          rw [hread]
          simp [ReaderState.inHand]
        · cases hstep
      · cases hstep
  | _ => cases hstep

end

/-- The pump gives the first chunk of the channel to the slot. -/
theorem Conserved.take (h : Conserved advance slot s) {chunk : List UInt8}
    {rest : List (List UInt8)} (hchannel : s.channel = chunk :: rest) :
    Conserved advance slot (s.take advance chunk rest) := by
  refine ⟨?_, ?_, fun hphase => ?_, fun hphase => ?_⟩
  · show s.slot.pushOutputAndParse advance chunk = (s.pushed ++ [chunk]).foldl _ slot
    rw [List.foldl_append, ← h.slot_eq]
    rfl
  · show s.read = s.pushed ++ [chunk] ++ rest ++ s.reader.inHand
    rw [h.read_eq, hchannel]
    simp
  · have hnil := (h.stopping hphase).1
    rw [hchannel] at hnil
    cases hnil
  · have hnil := (h.orphaned hphase).1
    rw [hchannel] at hnil
    cases hnil

/-- The pump stops with nothing on the way. -/
theorem Conserved.stop (h : Conserved advance slot s) (hchannel : s.channel = [])
    (hidle : s.reader.Idle) : Conserved advance slot s.stop :=
  ⟨h.slot_eq, h.read_eq, fun _ => ⟨hchannel, hidle, rfl⟩, nofun⟩

/-- The pump's steps. -/
theorem Conserved.pumpStep (h : Conserved advance slot s) (hquiet : s.QuietLoss a)
    (hstep : s.pumpStep advance a = some s') : Conserved advance slot s' := by
  cases a with
  | recv sent =>
      rw [PtyOutput.pumpStep] at hstep
      split at hstep
      · rename_i chunk rest hphase hchannel
        cases hstep
        cases sent with
        | true => exact h.take hchannel
        | false =>
            obtain ⟨hrest, hidle⟩ := hquiet
            rw [hchannel] at hrest
            exact (h.take hchannel).stop hrest hidle
      · cases hstep
  | lose =>
      rw [PtyOutput.pumpStep] at hstep
      split at hstep
      · cases hstep
        exact h.stop hquiet.1 hquiet.2
      · cases hstep
  | shellExit =>
      rw [PtyOutput.pumpStep] at hstep
      split at hstep
      · cases hstep
        exact ⟨h.slot_eq, h.read_eq, nofun, nofun⟩
      · cases hstep
  | drain =>
      rw [PtyOutput.pumpStep] at hstep
      split at hstep
      · rename_i chunk rest hphase hchannel
        cases hstep
        exact h.take hchannel
      · cases hstep
  | remove =>
      rw [PtyOutput.pumpStep] at hstep
      split at hstep
      · cases hstep
        exact ⟨h.slot_eq, h.read_eq, nofun, nofun⟩
      · cases hstep
  | orphan =>
      rw [PtyOutput.pumpStep] at hstep
      split at hstep
      · rename_i hstopped
        cases hstep
        have hread := h.read_eq
        rw [(h.stopping hstopped.1).1] at hread
        exact ⟨h.slot_eq, hread, nofun, fun _ => ⟨rfl, hstopped.2⟩⟩
      · cases hstep
  | reattach =>
      rw [PtyOutput.pumpStep] at hstep
      split at hstep
      · rename_i horphaned
        cases hstep
        obtain ⟨hchannel, hexited⟩ := h.orphaned horphaned
        have hread := h.read_eq
        rw [hchannel, hexited] at hread
        exact ⟨h.slot_eq, hread, nofun, nofun⟩
      · cases hstep
  | _ => cases hstep

/-- Every quiet step conserves the output. -/
theorem Conserved.step (h : Conserved advance slot s) (hquiet : s.QuietLoss a)
    (hstep : s.step advance a = some s') : Conserved advance slot s' := by
  unfold PtyOutput.step at hstep
  split at hstep
  · cases hstep
  · split at hstep
    · exact h.readerStep hstep
    · exact h.readerStep hstep
    · exact h.readerStep hstep
    · exact h.readerStep hstep
    · exact h.pumpStep hquiet hstep

/-- **No output is lost.**  Take any run of a session with any number of transport losses
and reattaches, in which the transport is lost only while the channel is empty and
the reader is at its poll or has exited.  Then the slot is what the pushed chunks
make of it, the chunks read are the pushed ones followed by those on the way, and in
an orphaned slot nothing is missing. -/
theorem read_output_pushed {as : List OutputAction}
    (hok : (ptyOutput advance).Along PtyOutput.QuietLoss (.start slot) as)
    (hrun : (ptyOutput advance).run (.start slot) as = some s) :
    s.slot = s.pushed.foldl (OutputSlot.pushOutputAndParse advance) slot ∧
      s.read = s.pushed ++ s.channel ++ s.reader.inHand ∧
      (s.phase = .orphaned →
        s.slot = s.read.foldl (OutputSlot.pushOutputAndParse advance) slot) := by
  have hinv : Conserved advance slot s :=
    (ptyOutput advance).invariant_along _ (fun s a s' hs ha hstep => Conserved.step hs ha hstep)
      (conserved_start slot) hok hrun
  refine ⟨hinv.slot_eq, hinv.read_eq, fun horphaned => ?_⟩
  obtain ⟨hchannel, hexited⟩ := hinv.orphaned horphaned
  have hread : s.read = s.pushed := by
    rw [hinv.read_eq, hchannel, hexited]
    simp [ReaderState.inHand]
  rw [hread]
  exact hinv.slot_eq

end

/-- What the parser makes of text without control characters. -/
def printText (t : TerminalState) (chunk : List UInt8) : TerminalState :=
  (t.feed (fun _ => some 1) (chunk.map fun b => .print (Char.ofNat b.toNat))).getD t

/-- A slot with a small terminal and no output. -/
def freshSlot : OutputSlot TerminalState := ⟨.new 65536, .new 4 2⟩

/-- A chunk is pushed but cannot be written; the slot is orphaned and reattached. -/
def quietLossRun : List OutputAction :=
  [.poll, .read [97], .send, .recv false, .poll, .orphan, .reattach, .poll, .read [98], .send,
    .recv true, .lose, .poll, .orphan]

/-- The output path after `quietLossRun`. -/
def quietlyLost : PtyOutput TerminalState :=
  ((ptyOutput printText).run (.start freshSlot) quietLossRun).getD (.start freshSlot)

theorem read_output_pushed_quietly :
    quietlyLost.phase = .orphaned ∧ quietlyLost.read = [[97], [98]] ∧
      quietlyLost.slot = quietlyLost.pushed.foldl (OutputSlot.pushOutputAndParse printText)
        freshSlot ∧
      quietlyLost.read =
        quietlyLost.pushed ++ quietlyLost.channel ++ quietlyLost.reader.inHand ∧
      (quietlyLost.phase = .orphaned → quietlyLost.slot =
        quietlyLost.read.foldl (OutputSlot.pushOutputAndParse printText) freshSlot) := by
  have hrun : (ptyOutput printText).run (.start freshSlot) quietLossRun = some quietlyLost := by
    decide
  exact ⟨by decide, by decide, read_output_pushed (by decide) hrun⟩

/-- The transport is lost while a chunk waits in the channel. -/
def queuedLossRun : List OutputAction := [.poll, .read [97], .send, .lose, .poll, .orphan]

/-- **Queued output is lost.**  The chunk was read from the PTY; the orphaned slot has
neither numbered it nor shown it. -/
theorem queued_output_lost :
    ∃ s ∈ (ptyOutput printText).run (.start freshSlot) queuedLossRun,
      s.phase = .orphaned ∧ s.read = [[97]] ∧ s.pushed = [] ∧ s.slot = freshSlot ∧
        s.slot ≠ s.read.foldl (OutputSlot.pushOutputAndParse printText) freshSlot := by
  decide

end Nosh.Reattach
