import Nosh.Scrollback.Credit

/-!
# The window of the scrollback channel in every run

The bytes of the window never become more: whatever the interleaving, and also when the drain task
drops a read in the middle of a page, a credit is lost or a task ends.

The sender writes a page with `write_all(..).await` and deducts its bytes from `remaining_credit`
when that has returned. In between the stream may have taken a part of the page already, and other
tasks run. `Sending` adds this to the model of `Nosh.Scrollback.Credit`, whose `remaining` has the
page deducted from the start.

## Main Definitions

* `Flow.Moves` — what a step can do to the window
* `Flow.Bounded` — the bytes of the window are at most `INITIAL_CREDIT`
* `Sending.step` — the channel with `write_all` as a step of its own

## Main Results

* `Flow.Bounded.step` — every step keeps the bound.
* `window_bounded` — with a page counted once while it is written, the window is never exceeded,
  and no more than `INITIAL_CREDIT` bytes of pages are written and not drained.
* `page_counted_twice` — before the deduction the parts of the window add up to more.
-/

namespace Nosh.Scrollback

open Lib Proto

namespace Flow

variable {c c' : Stream} {s s' : Flow} {a : FlowAction}

/-! ## What a step does to the window -/

/-- The bytes of the window that are not in pages. -/
def free (s : Flow) : ℕ := s.remaining + s.drained + s.credits.sum

theorem free_eq (s : Flow) :
    s.free = s.remaining + s.drained + s.events.sum + s.creditFrames.sum + s.control.sum +
      s.replenish.getD 0 := by
  unfold free credits
  cases s.replenish <;> simp [Nat.add_assoc]

/-- The stream is finished, its read is dropped, or nothing happens to it. -/
def Still (c c' : Stream) : Prop :=
  c' = c ∨ c.step .finish = some c' ∨ c.step .cancel = some c'

theorem Still.frame (h : Still c c') :
    c'.net = c.net ∧ c'.written = c.written ∧ c'.got = c.got := by
  rcases h with rfl | h | h
  · exact ⟨rfl, rfl, rfl⟩
  · cases h
    exact ⟨rfl, rfl, rfl⟩
  · cases Stream.step_effect h
    exact ⟨rfl, rfl, rfl⟩

theorem Still.accounted (h : Still c c') (hc : Accounted c) : Accounted c' := by
  rcases h with rfl | h | h
  · exact hc
  · exact hc.step h
  · exact hc.step h

/-- What a step does to the pages and to the rest of the window. -/
inductive Moves (s s' : Flow) : FlowAction → Prop
  | quiet {a : FlowAction} (hpages : Still s.pages s'.pages) (hfree : s'.free ≤ s.free)
      (hwaiting : ∀ msg ∈ s'.waiting, msg ∈ s.waiting ∨ encode msg = .ok msg.frame) : Moves s s' a
  | write {msg : Message} (hwaiting : s.waiting = some msg)
      (hcredit : msg.frame.length ≤ s.remaining) {pages : Stream}
      (hpages : s.pages.step (.write msg) = some pages)
      (hs : s' = { s with
        waiting := none
        pages := pages
        remaining := s.remaining - msg.frame.length }) : Moves s s' .write
  | arrive {n : ℕ} {pages : Stream} (hpages : s.pages.step (.arrive n) = some pages)
      (hs : s' = { s with pages := pages }) : Moves s s' (.pageBytes n)
  | take {pages : Stream} (hpages : s.pages.step .take = some pages)
      (hs : s' = s.drainRead pages) : Moves s s' .drainTake

/-- A step that leaves the pages alone, and the credits except on their way. -/
theorem Moves.of_same (hpages : s'.pages = s.pages) (hfree : s'.free ≤ s.free)
    (hwaiting : s'.waiting = s.waiting) : Moves s s' a :=
  .quiet (.inl hpages) hfree fun _ h => .inl (hwaiting ▸ h)

/-- The sender leaves its loop. -/
theorem Moves.stopServing {t : Flow} (hpages : t.pages = s.pages) (hfree : t.free = s.free) :
    Moves s t.stopServing a := by
  refine .quiet (.inr (.inl ?_)) hfree.le ?_
  · rw [← hpages]
    rfl
  · rintro msg ⟨⟩

theorem free_stopDraining (s : Flow) : s.stopDraining.free ≤ s.free := by
  rw [free_eq, free_eq]
  dsimp only [stopDraining]
  split
  · rw [Option.getD_some]
    omega
  · rw [Option.getD_none]
    omega

/-- Every step is one of these. -/
theorem step_moves {channelId : UInt32} {width : Char → Option ℕ}
    (hs : s.step channelId width a = some s') : Moves s s' a := by
  cases step_effect hs with
  | aside history requests requestQueue => exact .of_same rfl le_rfl rfl
  | bind => exact .of_same rfl le_rfl rfl
  | sendRequest hcancel requests requestQueue =>
      exact .quiet (.inr (.inr hcancel)) le_rfl fun _ h => .inl h
  | senderTake _ requests request => exact .of_same rfl le_rfl rfl
  | answer _ henc =>
      refine .quiet (.inl rfl) le_rfl ?_
      rintro msg ⟨⟩
      exact .inr henc
  | stopServing requests => exact .stopServing rfl rfl
  | write hwaiting hcredit hwrite => exact .write hwaiting hcredit hwrite rfl
  | senderCredit hevents _ requests =>
      refine .of_same rfl ?_ rfl
      rw [free_eq, free_eq, hevents, List.sum_cons]
      dsimp only
      omega
  | dropCredit hevents _ =>
      refine .of_same rfl ?_ rfl
      rw [free_eq, free_eq, hevents, List.sum_cons]
      dsimp only
      omega
  | pageBytes harrive => exact .arrive harrive rfl
  | drainTake _ htake => exact .take htake rfl
  | stopDrain => exact .of_same rfl s.free_stopDraining rfl
  | putCredit hreplenish =>
      refine .of_same rfl ?_ rfl
      rw [free_eq, free_eq, hreplenish, List.sum_append, List.sum_singleton, Option.getD_some,
        Option.getD_none]
      dsimp only
      omega
  | forward hcontrol =>
      refine .of_same rfl ?_ rfl
      rw [free_eq, free_eq, hcontrol, List.sum_append, List.sum_singleton, List.sum_cons]
      dsimp only
      omega
  | route hframes =>
      refine .of_same rfl ?_ rfl
      rw [free_eq, free_eq, hframes, List.sum_cons]
      dsimp only
      split
      · rw [List.sum_append, List.sum_singleton]
        omega
      · omega

/-! ## The bound -/

/-- The bytes of the window: free, or in pages that are written and not read. The page that waits
for credit encodes. -/
structure Bounded (s : Flow) : Prop where
  accounted : Accounted s.pages
  waiting : ∀ msg ∈ s.waiting, encode msg = .ok msg.frame
  window : s.free + (frames s.pages.written).length ≤
    initialCredit + (frames s.pages.got).length

theorem bounded_new (cols rows : ℕ) : (new cols rows).Bounded where
  accounted := accounted_start
  waiting := by
    rintro msg ⟨⟩
  window := le_rfl

/-- Messages that fit are counted with the bytes of their frames. -/
theorem sum_wireBytes {msgs : List Message} (h : ∀ msg ∈ msgs, msg.body.length ≤ maxFrameLen) :
    (msgs.map wireBytes).sum = (frames msgs).length := by
  have hframe : msgs.map wireBytes = msgs.map fun msg => msg.frame.length := by
    refine List.map_congr_left fun msg hmsg => ?_
    unfold wireBytes
    rw [encode_of_le (h msg hmsg)]
  rw [hframe, frames, List.length_flatMap]

theorem count_free (s : Flow) (msg : Message) : (s.count msg).free ≤ s.free + wireBytes msg := by
  rw [free_eq, free_eq]
  unfold Flow.count
  dsimp only
  split
  · dsimp only [Option.getD_some]
    omega
  · dsimp only
    omega

theorem count_frame (s : Flow) (msg : Message) :
    (s.count msg).pages = s.pages ∧ (s.count msg).waiting = s.waiting := by
  unfold Flow.count
  dsimp only
  split <;> exact ⟨rfl, rfl⟩

/-- Counting messages adds their bytes and nothing else. -/
theorem foldl_count (msgs : List Message) (s : Flow) :
    (msgs.foldl Flow.count s).pages = s.pages ∧ (msgs.foldl Flow.count s).waiting = s.waiting ∧
      (msgs.foldl Flow.count s).free ≤ s.free + (msgs.map wireBytes).sum := by
  induction msgs generalizing s with
  | nil => exact ⟨rfl, rfl, le_rfl⟩
  | cons msg msgs ih =>
      obtain ⟨hpages, hwaiting, hfree⟩ := ih (s.count msg)
      have hcount := s.count_free msg
      rw [List.foldl_cons, List.map_cons, List.sum_cons]
      refine ⟨hpages.trans (s.count_frame msg).1, hwaiting.trans (s.count_frame msg).2, ?_⟩
      omega

/-- What the drain task has counted of a read is at most what it has got. -/
theorem drainRead_frame (s : Flow) (pages : Stream) :
    (s.drainRead pages).pages = pages ∧ (s.drainRead pages).waiting = s.waiting ∧
      (s.drainRead pages).free ≤
        s.free + ((pages.got.drop s.pages.got.length).map wireBytes).sum := by
  unfold Flow.drainRead
  dsimp only
  split
  · refine ⟨rfl, rfl, ?_⟩
    have hfree : ({ s with pages := pages } : Flow).stopDraining.free ≤ s.free :=
      free_stopDraining { s with pages := pages }
    omega
  · exact foldl_count _ { s with pages := pages }

theorem take_frame (h : c.step .take = some c') :
    c'.net = c.net ∧ c'.written = c.written ∧ c'.got = c.got ++ c'.got.drop c.got.length := by
  cases Stream.step_effect h with
  | wait => simp
  | ended => simp
  | take _ _ => simp

/-- **Every step keeps the bound.** -/
theorem Bounded.step {channelId : UInt32} {width : Char → Option ℕ} (h : s.Bounded)
    (hstep : s.step channelId width a = some s') : s'.Bounded := by
  have hwindow := h.window
  cases step_moves hstep with
  | quiet hpages hfree hwaiting =>
      obtain ⟨-, hwritten, hgot⟩ := hpages.frame
      refine ⟨hpages.accounted h.accounted, ?_, ?_⟩
      · intro msg hmsg
        rcases hwaiting msg hmsg with hold | henc
        · exact h.waiting msg hold
        · exact henc
      · rw [hwritten, hgot]
        omega
  | @write msg hwaiting hcredit pages hpages hs =>
      subst hs
      have haccounted := h.accounted.step hpages
      obtain rfl := Stream.step_write (h.waiting msg hwaiting) hpages
      refine ⟨haccounted, ?_, ?_⟩
      · rintro other ⟨⟩
      · rw [free_eq] at hwindow ⊢
        simp only [frames_append, frames_cons, frames_nil, List.append_nil, List.length_append]
        omega
  | arrive hpages hs =>
      subst hs
      have haccounted := h.accounted.step hpages
      cases hpages
      exact ⟨haccounted, h.waiting, hwindow⟩
  | @take pages hpages hs =>
      have haccounted := h.accounted.step hpages
      obtain ⟨-, hwritten, hgot⟩ := take_frame hpages
      obtain ⟨hsame, hwaiting, hfree⟩ := s.drainRead_frame pages
      have hcounted : ((pages.got.drop s.pages.got.length).map wireBytes).sum = _ :=
        sum_wireBytes fun msg hmsg => haccounted.fits msg (List.mem_of_mem_drop hmsg)
      have hframes : (frames pages.got).length = _ :=
        congrArg (fun msgs => (frames msgs).length) hgot
      rw [frames_append, List.length_append] at hframes
      subst hs
      refine ⟨?_, hwaiting ▸ h.waiting, ?_⟩
      · rw [hsame]
        exact haccounted
      · rw [hsame, hwritten]
        omega

end Flow

/-! ## A page inside `write_all` -/

/-- The page in the pending `write_all`: its bytes, and how many of them the stream has taken. -/
structure PageWrite where
  size : ℕ
  accepted : ℕ
  accepted_le : accepted ≤ size

/-- The stream has taken nothing of the page. -/
def PageWrite.start (msg : Message) : PageWrite := ⟨msg.frame.length, 0, Nat.zero_le _⟩

/-- The channel, with the page that the sender is writing. -/
structure Sending where
  flow : Flow
  writing : Option PageWrite

/-- The steps of the channel; the stream takes bytes of the page; `write_all` returns. -/
inductive SendingAction
  | flow (a : FlowAction)
  | accept (n : ℕ)
  | writeReturns

/-- The steps that the sender task takes in its own loop. -/
def FlowAction.ofSender : FlowAction → Bool
  | .senderTake | .answer _ | .write | .senderCredit | .timeout => true
  | _ => false

namespace Sending

/-- The channel right after it was accepted. -/
def new (cols rows : ℕ) : Sending := ⟨.new cols rows, none⟩

/-- The bytes of the page that the stream has taken before `write_all` has returned. -/
def accepted (s : Sending) : ℕ := (s.writing.map PageWrite.accepted).getD 0

/-- The bytes of the page that the stream has not taken. -/
def unaccepted (s : Sending) : ℕ := (s.writing.map fun w => w.size - w.accepted).getD 0

/-- `remaining_credit`, from which the page is deducted when `write_all` has returned. -/
def remainingCredit (s : Sending) : ℕ := s.flow.remaining + (s.writing.map PageWrite.size).getD 0

/-- The bytes of pages that were written and that the drain task has not drained. -/
def outstanding (s : Sending) : ℕ :=
  (frames s.flow.pages.written).length - s.unaccepted - (frames s.flow.pages.got).length

section

variable (channelId : UInt32) (width : Char → Option ℕ)

/-- One step. Inside `write_all` the sender does nothing else, and what the stream has not taken
does not arrive. -/
def step (s : Sending) : SendingAction → Option Sending
  | .flow a =>
      if s.writing.isSome ∧ a.ofSender then none
      else
        match a with
        | .write =>
            (s.flow.step channelId width .write).map fun flow =>
              ⟨flow, s.flow.waiting.map PageWrite.start⟩
        | .pageBytes n =>
            if n + s.unaccepted ≤ s.flow.pages.net.length then
              (s.flow.step channelId width (.pageBytes n)).map fun flow => { s with flow := flow }
            else none
        | a => (s.flow.step channelId width a).map fun flow => { s with flow := flow }
  | .accept n =>
      if s.flow.serving then
        s.writing.bind fun w =>
          if h : w.accepted + n ≤ w.size then
            some { s with writing := some ⟨w.size, w.accepted + n, h⟩ }
          else none
      else none
  | .writeReturns =>
      if s.flow.serving then
        s.writing.bind fun w =>
          if w.accepted = w.size then some { s with writing := none } else none
      else none

/-- The life of a scrollback channel. -/
def life : Machine Sending SendingAction := ⟨step channelId width⟩

end

/-- The window is bounded, and what the stream has not taken of a page is not under way. -/
structure Bounded (s : Sending) : Prop where
  flow : s.flow.Bounded
  unaccepted : s.unaccepted ≤ s.flow.pages.net.length

theorem bounded_new (cols rows : ℕ) : (new cols rows).Bounded where
  flow := Flow.bounded_new cols rows
  unaccepted := le_rfl

/-- A step of the channel: the sender starts to write, or the page in `write_all` stays. -/
theorem step_flow {channelId : UInt32} {width : Char → Option ℕ} {s s' : Sending} {a : FlowAction}
    (hs : s.step channelId width (.flow a) = some s') :
    s.flow.step channelId width a = some s'.flow ∧
      ((a = .write ∧ s'.writing = s.flow.waiting.map PageWrite.start) ∨
        (a ≠ .write ∧ (∀ n, a = .pageBytes n → n + s.unaccepted ≤ s.flow.pages.net.length) ∧
          s'.writing = s.writing)) := by
  dsimp only [step] at hs
  split at hs
  · cases hs
  · cases a with
    | write =>
        obtain ⟨flow, hflow, rfl⟩ := Option.map_eq_some_iff.mp hs
        exact ⟨hflow, .inl ⟨rfl, rfl⟩⟩
    | pageBytes n =>
        dsimp only at hs
        split at hs
        · rename_i hroom
          obtain ⟨flow, hflow, rfl⟩ := Option.map_eq_some_iff.mp hs
          refine ⟨hflow, .inr ⟨by rintro ⟨⟩, ?_, rfl⟩⟩
          rintro m ⟨⟩
          exact hroom
        · cases hs
    | _ =>
        obtain ⟨flow, hflow, rfl⟩ := Option.map_eq_some_iff.mp hs
        exact ⟨hflow, .inr ⟨by rintro ⟨⟩, by rintro n ⟨⟩, rfl⟩⟩

theorem Bounded.step {channelId : UInt32} {width : Char → Option ℕ} {s s' : Sending}
    {a : SendingAction} (h : s.Bounded) (hs : s.step channelId width a = some s') :
    s'.Bounded := by
  cases a with
  | flow a =>
      obtain ⟨hflow, hcase⟩ := step_flow hs
      have hbounded := h.flow.step hflow
      have hunaccepted := h.unaccepted
      obtain ⟨rfl, hwriting⟩ | ⟨hne, hroom, hwriting⟩ := hcase
      · obtain ⟨msg, pages, hwaiting, -, hpages, heq⟩ := Flow.step_write hflow
        rw [hwaiting, Option.map_some] at hwriting
        have hframe := Stream.step_write (h.flow.waiting msg hwaiting) hpages
        refine ⟨hbounded, ?_⟩
        unfold Sending.unaccepted
        rw [hwriting, heq, hframe, List.length_append]
        exact Nat.le_add_left _ _
      · have hsame : s'.unaccepted = s.unaccepted := by
          unfold Sending.unaccepted
          rw [hwriting]
        refine ⟨hbounded, ?_⟩
        rw [hsame]
        cases Flow.step_moves hflow with
        | quiet hpages _ _ =>
            rw [hpages.frame.1]
            exact hunaccepted
        | write => exact absurd rfl hne
        | @arrive n pages hpages heq =>
            have hfits := hroom n rfl
            rw [heq]
            cases hpages
            dsimp only
            rw [List.length_drop]
            omega
        | @take pages hpages heq =>
            rw [heq, (s.flow.drainRead_frame pages).1, (Flow.take_frame hpages).1]
            exact hunaccepted
  | accept n =>
      dsimp only [Sending.step] at hs
      split at hs
      · obtain ⟨w, hw, hs⟩ := Option.bind_eq_some_iff.mp hs
        split at hs
        · cases hs
          have hunaccepted := h.unaccepted
          refine ⟨h.flow, ?_⟩
          unfold Sending.unaccepted at hunaccepted ⊢
          rw [hw] at hunaccepted
          simp only [Option.map_some, Option.getD_some] at hunaccepted ⊢
          omega
        · cases hs
      · cases hs
  | writeReturns =>
      dsimp only [Sending.step] at hs
      split at hs
      · obtain ⟨w, -, hs⟩ := Option.bind_eq_some_iff.mp hs
        split at hs
        · cases hs
          exact ⟨h.flow, Nat.zero_le _⟩
        · cases hs
      · cases hs

/-- **The window in every run.** Whatever the interleaving of the two tasks, the two pumps and the
stream, and whatever the pages: the parts of the window are together at most `INITIAL_CREDIT`, with
the bytes of a page that the stream takes inside `write_all` counted once. At most `INITIAL_CREDIT`
bytes of pages are written and not drained. -/
theorem window_bounded {channelId : UInt32} {width : Char → Option ℕ} {cols rows : ℕ}
    {actions : List SendingAction} {s : Sending}
    (hrun : (life channelId width).run (new cols rows) actions = some s) :
    s.remainingCredit + s.outstanding + s.flow.drained + s.flow.credits.sum ≤
        initialCredit + s.accepted ∧
      s.outstanding ≤ initialCredit := by
  have hinv : s.Bounded :=
    (life channelId width).invariant_run Bounded (fun _ _ _ h hs => h.step hs)
      (bounded_new cols rows) hrun
  have hwindow := hinv.flow.window
  have hbytes := hinv.flow.accounted.bytes
  have hunaccepted := hinv.unaccepted
  have hpage : (s.writing.map PageWrite.size).getD 0 = s.unaccepted + s.accepted := by
    unfold unaccepted accepted
    cases s.writing with
    | none => rfl
    | some w =>
        have hle := w.accepted_le
        simp only [Option.map_some, Option.getD_some]
        omega
  unfold Flow.free at hwindow
  unfold remainingCredit outstanding
  rw [hpage]
  omega

/-- A line is scrolled out, its page of 17 bytes is answered, and the sender writes it. -/
def startWrite : List SendingAction :=
  (Flow.lineFeed :: Flow.firstRequest ++ [FlowAction.answer 0, .write]).map .flow

/-- The page is written and drained, and the stream has taken four bytes of the next one. -/
def nextWrite : List SendingAction :=
  startWrite ++ [.accept 17, .writeReturns, .flow (.pageBytes 17)] ++
    List.replicate 17 (.flow .drainTake) ++
    (Flow.firstRequest.tail ++ [FlowAction.answer 0, .write]).map .flow ++ [.accept 4]

theorem window_bounded_nextWrite :
    ∃ s, (life 2 fun _ => some 1).run (new 1 1) nextWrite = some s ∧
      (s.remainingCredit = initialCredit - 17 ∧ s.outstanding = 4 ∧ s.flow.drained = 17) ∧
      s.remainingCredit + s.outstanding + s.flow.drained + s.flow.credits.sum ≤
          initialCredit + s.accepted ∧
        s.outstanding ≤ initialCredit := by
  have hrun : ∃ s ∈ (life 2 fun _ => some 1).run (new 1 1) nextWrite,
      s.remainingCredit = initialCredit - 17 ∧ s.outstanding = 4 ∧ s.flow.drained = 17 := by
    decide +kernel
  obtain ⟨s, hs, hvalues⟩ := hrun
  exact ⟨s, hs, hvalues, window_bounded hs⟩

/-- **A byte that is counted twice.** The stream has taken the first byte of the page: it is
written, and `remaining_credit` is still the whole window. -/
theorem page_counted_twice :
    ∃ s ∈ (life 2 fun _ => some 1).run (new 1 1) (startWrite ++ [.accept 1]),
      s.remainingCredit = initialCredit ∧ s.outstanding = 1 ∧
        initialCredit <
          s.remainingCredit + s.outstanding + s.flow.drained + s.flow.credits.sum := by
  decide +kernel

end Sending

end Nosh.Scrollback
