import Nosh.Scrollback.Credit

/-!
# The credits on the control stream

The server pump reads the control stream with `read_message_ns` in its `select!` loop. When
another arm of the loop is ready, the pending read is dropped with the bytes it has, and the
`ScrollbackCredit` they belong to is lost: the sender never gets the credit, and the client does not
send it again.

## Main Definitions

* `Piped` — the channel with the bytes of the control stream
* `Piped.Wedged` — the sender waits, and no credit is on its way on the control stream either
* `Piped.Paced` — the steps of the channel are `Flow.Paced`, and the pump drops no read of the
  control stream after its first byte

## Main Results

* `InStep.step` — in such runs the pump reads every credit that was written.
* `never_wedged` — **a channel whose steps are all `Paced` never wedges.**
* `wide_page_wedges` — the first page of a terminal of 1000 columns does.
-/

namespace Nosh.Scrollback

open Lib Proto

/-- A scrollback channel and the control stream from the client pump to the server pump. -/
structure Piped where
  flow : Flow
  stream : Stream

/-- The steps of the channel and of the control stream. -/
inductive PipedAction
  | flow (a : FlowAction)
  /-- The client pump writes another frame. -/
  | write (msg : Message)
  /-- Bytes of the control stream arrive. -/
  | bytes (n : ℕ)
  /-- The server pump takes a byte. -/
  | take
  /-- Another arm of the server pump is ready. -/
  | cancel

/-- The credit of a `ScrollbackCredit` frame for the channel. -/
def creditOf (channelId : UInt32) : Message → Option ℕ
  | .scrollbackCredit id bytes => if id = channelId then some bytes.toNat else none
  | _ => none

namespace Piped

variable {channelId : UInt32} {width : Char → Option ℕ} {s : Flow} {p : Piped}

/-- The channel right after it was accepted. -/
def new (cols rows : ℕ) : Piped := ⟨.new cols rows, .start⟩

section

variable (channelId : UInt32) (width : Char → Option ℕ)

/-- The server pump has a message. A credit goes to the event queue of the sender, as in `route`;
the other frames reach the sender as `close`, or not at all. -/
def receive (s : Flow) (msg : Message) : Flow :=
  match creditOf channelId msg with
  | some bytes =>
      { s with
        creditFrames := s.creditFrames.tail
        events := if s.events.length < 64 then s.events ++ [bytes] else s.events }
  | none => s

/-- The read of the server pump, after the stream has moved. A failed one ends the session. -/
def serverRead (p : Piped) (stream : Stream) : Piped :=
  match stream.reader with
  | .failed _ => ⟨p.flow.stopServing, stream⟩
  | _ => ⟨(stream.got.drop p.stream.got.length).foldl (receive channelId) p.flow, stream⟩

/-- One step. What the server pump reads comes from the control stream, not from `route`. -/
def step (p : Piped) : PipedAction → Option Piped
  | .flow .route => none
  | .flow .forward =>
      p.flow.control.head?.bind fun bytes =>
        (p.stream.send (.scrollbackCredit channelId (UInt64.ofNat bytes))).bind fun stream =>
          (p.flow.step channelId width .forward).map fun flow => ⟨flow, stream⟩
  | .flow a => (p.flow.step channelId width a).map fun flow => { p with flow := flow }
  | .write msg =>
      if creditOf channelId msg = none then
        (p.stream.send msg).map fun stream => { p with stream := stream }
      else none
  | .bytes n => (p.stream.step (.arrive n)).map fun stream => { p with stream := stream }
  | .take => (p.stream.step .take).map (p.serverRead channelId)
  | .cancel => (p.stream.step .cancel).map fun stream => { p with stream := stream }

/-- The life of a scrollback channel. -/
def life : Machine Piped PipedAction := ⟨step channelId width⟩

end

/-- The sender waits for credit for an encoded page, and nothing is on its way that will bring
it. -/
structure Wedged (channelId : UInt32) (p : Piped) : Prop where
  stalled : p.flow.Stalled
  credits : p.stream.unread.filterMap (creditOf channelId) = []

/-- The channel is paced, and the server pump drops no read after its first byte. -/
def Paced (channelId : UInt32) (p : Piped) : PipedAction → Prop
  | .flow a => p.flow.Paced channelId a
  | .cancel => p.stream.reader = .header []
  | _ => True

instance (channelId : UInt32) (p : Piped) (a : PipedAction) : Decidable (p.Paced channelId a) :=
  match a with
  | .flow a => inferInstanceAs (Decidable (p.flow.Paced channelId a))
  | .cancel => inferInstanceAs (Decidable (_ = _))
  | .write _ | .bytes _ | .take => instDecidableTrue

/-- The credits on the control stream are those that the channel has on its way there; and the
window is conserved while both tasks run. -/
structure InStep (channelId : UInt32) (p : Piped) : Prop where
  intact : Intact p.stream
  frames : p.stream.unread.filterMap (creditOf channelId) =
    p.flow.creditFrames.map (· % 2 ^ 64)
  conserved : p.flow.serving = true → p.flow.draining = true → p.flow.Conserved

theorem inStep_new (channelId : UInt32) (cols rows : ℕ) : InStep channelId (new cols rows) :=
  ⟨intact_start, rfl, fun _ _ => Flow.conserved_new cols rows⟩

/-- Only the pumps move credits on the control stream. -/
theorem creditFrames_step {s' : Flow} {a : FlowAction} (hforward : a ≠ .forward)
    (hroute : a ≠ .route) (hs : s.step channelId width a = some s') :
    s'.creditFrames = s.creditFrames := by
  cases Flow.step_effect hs with
  | drainTake _ _ => exact s.drainRead_creditFrames _
  | forward _ => exact absurd rfl hforward
  | route _ => exact absurd rfl hroute
  | _ => rfl

theorem step_flow {a : FlowAction} (hforward : a ≠ .forward) (hroute : a ≠ .route) :
    p.step channelId width (.flow a) =
      (p.flow.step channelId width a).map fun flow => { p with flow := flow } := by
  cases a <;> first | rfl | exact absurd rfl hforward | exact absurd rfl hroute

/-- A credit on its way is below `u64::MAX`. -/
theorem creditFrame_lt (h : s.Conserved) {bytes : ℕ} (hmem : bytes ∈ s.creditFrames) :
    bytes < 2 ^ 64 := by
  have hle : bytes ≤ s.credits.sum := List.single_le_sum (fun _ _ => Nat.zero_le _) bytes
    (List.mem_append_right _ (List.mem_append_left _ hmem))
  have hwindow := h.window
  simp only [initialCredit] at hwindow
  omega

/-- The pump has the next message of the stream. -/
theorem InStep.receive (h : InStep channelId p) {msg : Message} {stream : Stream}
    (hintact : Intact stream) (hunread : p.stream.unread = msg :: stream.unread) :
    InStep channelId ⟨Piped.receive channelId p.flow msg, stream⟩ := by
  have hframes := h.frames
  rw [hunread] at hframes
  unfold Piped.receive
  cases hcredit : creditOf channelId msg with
  | none =>
      rw [List.filterMap_cons_none hcredit] at hframes
      exact ⟨hintact, hframes, h.conserved⟩
  | some bytes =>
      rw [List.filterMap_cons_some hcredit] at hframes
      obtain ⟨first, others, hqueue, hfirst, hothers⟩ := List.map_eq_cons_iff.mp hframes.symm
      dsimp only
      rw [hqueue]
      refine ⟨hintact, hothers.symm, fun hserving hdraining => ?_⟩
      have h := h.conserved hserving hdraining
      have hlt := creditFrame_lt h (by rw [hqueue]; exact List.mem_cons_self)
      rw [Nat.mod_eq_of_lt hlt] at hfirst
      rw [← hfirst]
      exact h.route hqueue

/-- **Every paced step keeps the two in step.** -/
theorem InStep.step {p' : Piped} {a : PipedAction} (h : InStep channelId p)
    (hok : p.Paced channelId a) (hs : p.step channelId width a = some p') :
    InStep channelId p' := by
  cases a with
  | flow a =>
      by_cases hroute : a = .route
      · subst hroute
        cases hs
      by_cases hforward : a = .forward
      · subst hforward
        obtain ⟨bytes, hbytes, hs⟩ := Option.bind_eq_some_iff.mp hs
        obtain ⟨stream, hsend, hs⟩ := Option.bind_eq_some_iff.mp hs
        obtain ⟨flow, hflow, rfl⟩ := Option.map_eq_some_iff.mp hs
        obtain ⟨hintact, hunread⟩ := h.intact.send hsend
        have hpaced : p.flow.Paced channelId .forward := trivial
        refine ⟨hintact, ?_, Flow.Conserved.step h.conserved hpaced hflow⟩
        obtain ⟨rest, hcontrol⟩ := List.head?_eq_some_iff.mp hbytes
        rw [Flow.step, hcontrol] at hflow
        cases hflow
        simp [hunread, h.frames, creditOf]
      · rw [step_flow hforward hroute] at hs
        obtain ⟨flow, hflow, rfl⟩ := Option.map_eq_some_iff.mp hs
        refine ⟨h.intact, ?_, Flow.Conserved.step h.conserved hok hflow⟩
        rw [creditFrames_step hforward hroute hflow]
        exact h.frames
  | write msg =>
      rw [Piped.step] at hs
      split at hs
      · rename_i hother
        obtain ⟨stream, hsend, rfl⟩ := Option.map_eq_some_iff.mp hs
        obtain ⟨hintact, hunread⟩ := h.intact.send hsend
        refine ⟨hintact, ?_, h.conserved⟩
        rw [hunread, List.filterMap_append, List.filterMap_cons_none hother, List.filterMap_nil,
          List.append_nil]
        exact h.frames
      · cases hs
  | bytes n =>
      dsimp only [Piped.step] at hs
      obtain ⟨stream, harrive, rfl⟩ := Option.map_eq_some_iff.mp hs
      obtain ⟨hintact, hunread⟩ := h.intact.arrive harrive
      exact ⟨hintact, by rw [hunread]; exact h.frames, h.conserved⟩
  | take =>
      obtain ⟨stream, htake, rfl⟩ := Option.map_eq_some_iff.mp hs
      obtain ⟨hintact, hread⟩ := h.intact.take htake
      rw [serverRead]
      split
      · rename_i err hfailed
        exact absurd hfailed (hintact.live err)
      · obtain ⟨hnew, hunread⟩ | ⟨msg, hnew, hunread⟩ := hread
        · rw [hnew]
          exact ⟨hintact, by rw [hunread]; exact h.frames, h.conserved⟩
        · rw [hnew]
          exact h.receive hintact hunread
  | cancel =>
      obtain ⟨stream, hcancel, rfl⟩ := Option.map_eq_some_iff.mp hs
      rw [Stream.cancel_idle hok] at hcancel
      cases hcancel
      exact h

/-- **No deadlock.** Whatever the interleaving of the two tasks, the two pumps and the bytes of the
streams, a channel whose steps are all `Paced` never wedges. -/
theorem never_wedged {channelId : UInt32} {width : Char → Option ℕ} {cols rows : ℕ}
    {actions : List PipedAction} {p : Piped}
    (hok : (life channelId width).Along (Paced channelId) (new cols rows) actions)
    (hrun : (life channelId width).run (new cols rows) actions = some p) :
    ¬ p.Wedged channelId := by
  have hinv : InStep channelId p :=
    (life channelId width).invariant_along (InStep channelId)
      (fun _ _ _ h hok hs => InStep.step h hok hs) (inStep_new channelId cols rows) hok hrun
  intro hw
  have hframes := hinv.frames
  rw [hw.credits] at hframes
  exact (hinv.conserved hw.stalled.serving hw.stalled.draining).not_stalled
    (List.map_eq_nil_iff.mp hframes.symm) hw.stalled

/-- A page of one line is answered, written and read, while the client types and the server pump
reads it. -/
def oneLine : List PipedAction :=
  (Flow.lineFeed :: Flow.firstRequest ++ [FlowAction.answer 0, .write, .pageBytes 17] ++
      List.replicate 17 FlowAction.drainTake).map .flow ++
    [.write (.ptyData [0x61]), .cancel, .bytes 7] ++ List.replicate 7 .take ++ [.cancel]

theorem never_wedged_one_line :
    ((life 2 fun _ => some 1).run (new 1 1) oneLine).map
        (fun p => (p.flow.drained, p.stream.got)) = some (17, [.ptyData [0x61]]) ∧
      ∀ p ∈ (life 2 fun _ => some 1).run (new 1 1) oneLine, ¬ p.Wedged 2 :=
  ⟨by decide +kernel, fun _ hrun => never_wedged (by decide +kernel) hrun⟩

/-- A run of the channel in which nothing is forwarded. -/
theorem run_map_flow {actions : List FlowAction} (hquiet : ∀ a ∈ actions, a ≠ .forward ∧ a ≠ .route)
    (hrun : (Flow.life channelId width).run p.flow actions = some s) :
    (life channelId width).run p (actions.map .flow) = some { p with flow := s } := by
  induction actions generalizing p with
  | nil =>
      cases hrun
      rfl
  | cons a actions ih =>
      obtain ⟨hforward, hroute⟩ := hquiet a List.mem_cons_self
      rw [Machine.run_cons] at hrun
      obtain ⟨flow, hstep, hrun⟩ := Option.bind_eq_some_iff.mp hrun
      have hpiped : (life channelId width).step p (.flow a) = some { p with flow := flow } :=
        (step_flow hforward hroute).trans (congrArg (Option.map _) hstep)
      rw [List.map_cons, Machine.run_cons, hpiped, Option.bind_some]
      exact ih (fun b hb => hquiet b (List.mem_cons_of_mem a hb)) hrun

/-- **A page that no credit will cover.** The terminal has 1000 columns: the page takes more than
the 256 KiB of the window. -/
theorem wide_page_wedges :
    ∃ p, (life 2 fun _ => some 1).run (new 1000 1) (Flow.sixtyLines.map .flow) = some p ∧
      p.Wedged 2 := by
  obtain ⟨s, hrun, hstalled⟩ := Flow.run_wide_page
  have hquiet : ∀ a ∈ Flow.sixtyLines, a ≠ .forward ∧ a ≠ .route := by
    simp [Flow.sixtyLines, Flow.firstRequest, Flow.lineFeed]
  exact ⟨⟨s, .start⟩, run_map_flow hquiet hrun, hstalled, rfl⟩

end Piped

end Nosh.Scrollback
