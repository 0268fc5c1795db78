import Nosh.Scrollback.Page
import Nosh.Server.Store

/-!
# The seam between scrollback and viewport

A page carries the epoch that `epoch_src` held when its lines were read, under one lock. The
epoch names a viewport: the grid that the diff tick of that epoch read and stored. Three parties
interleave: the PTY reader parses output into the terminal; the pump reads the terminal in a
tick, and stores the epoch to `epoch_src` after it has released the lock; the sender task reads
pages.

With every stored viewport the model keeps the terminal as it was when the tick read it, and the
lines it had pushed by then. Page and viewport fit together if the page ends where the viewport
began. They do not when lines have left the screen since the tick: these are in the page, and
still in the viewport.

## Main Definitions

* `Seam.step` — output, ticks, the store to `epoch_src`, acks, pages and reconnects
* `Seam.Contiguous` — a page and the viewport of its epoch are contiguous history
* `Seam.AtViewport` — no line was pushed since that viewport was read

## Main Results

* `tick_stored` — what the model records is what the pump stores.
* `page_contiguous` — in every interleaving in which pages are read `AtViewport`, they are
  contiguous with their viewport.
-/

namespace Nosh.Scrollback

open Lib Proto Server

/-- A session slot with its terminal, the datagram state of its pump, and `epoch_src`. -/
structure Seam where
  history : TerminalHistory
  pump : PumpState
  epochSrc : ℕ
  /-- The epoch of a tick that has read the terminal and not yet stored its epoch. -/
  unpublished : Option ℕ
  /-- The viewports stored on this connection, newest first: epoch, and terminal when read. -/
  viewports : List (ℕ × TerminalHistory)

/-- What the three parties do. -/
inductive SeamAction
  /-- `push_output_and_parse` of one chunk. -/
  | output (chunk : List Dispatch)
  | resize (cols rows : ℕ)
  /-- The tick, up to and without the store to `epoch_src`. -/
  | tick (conn : Conn)
  /-- The store to `epoch_src`. -/
  | publish
  | ack (epoch : ℕ)
  /-- The sender task reads a page with `from_line = 0`. -/
  | page (count : ℕ)
  /-- A new connection: its pump starts with epoch 0. -/
  | reattach

namespace Seam

variable {serializedSize : StateDiff → ℕ} {s : Seam}

/-- A new session. -/
def new (cols rows : ℕ) : Seam := ⟨.new cols rows, .new, 0, none, []⟩

/-- The snapshot of a page: the epoch and the lines, read under one lock. -/
def readPage (s : Seam) (count : ℕ) : ℕ × Grid Cell :=
  (s.epochSrc, (s.history.terminal.scrollbackLines 0 (min count maxPageSize)).1)

section

variable (serializedSize : StateDiff → ℕ) (width : Char → Option ℕ)

/-- The epoch that a tick stores with its viewport, if it has something to send. -/
def tickStores (s : Seam) (conn : Conn) : Option ℕ :=
  conn.maxDatagramSize.bind fun cap =>
    if cap < minCap then none
    else
      (buildStateDiff serializedSize s.pump s.history.terminal.snapshot cap).bind fun out =>
        out.2.map fun _ => out.1

/-- One action. While a tick has not stored its epoch, the pump does nothing else. -/
def step (s : Seam) : SeamAction → Option Seam
  | .output chunk =>
      ((TerminalHistory.life width).run s.history (chunk.map .dispatch)).map fun h =>
        { s with history := h }
  | .resize cols rows =>
      (s.history.step width (.resize cols rows)).map fun h => { s with history := h }
  | .tick conn =>
      if s.unpublished.isSome then none
      else
        (tick serializedSize s.pump s.history.terminal.snapshot conn).map fun out =>
          match s.tickStores serializedSize conn with
          | some epoch =>
              -- `epoch_src` is stored after the terminal lock has been released
              { s with
                pump := out.pump
                unpublished := some epoch
                viewports := (epoch, s.history) :: s.viewports }
          | none => { s with pump := out.pump }
  | .publish => s.unpublished.map fun epoch => { s with epochSrc := epoch, unpublished := none }
  | .ack epoch =>
      if s.unpublished.isSome then none else some { s with pump := s.pump.recvAck epoch }
  | .page _ => some s
  | .reattach =>
      some { s with pump := .new, epochSrc := 0, unpublished := none, viewports := [] }

/-- The life of a session. -/
def life : Machine Seam SeamAction := ⟨step serializedSize width⟩

end

/-- The grid of the primary screen. -/
def primaryGrid (t : TerminalState) : Grid Cell :=
  if t.echoState.altScreen then (t.savedPrimary.map Prod.fst).getD t.grid else t.grid

/-- The history of a terminal: the lines it has pushed and its primary screen. -/
def lines (h : TerminalHistory) : Grid Cell := h.pushed ++ primaryGrid h.terminal

/-- A page read on the primary screen, followed by the viewport stored for its epoch, is the end
of the history of the terminal at the time of the viewport: nothing between the two is missing,
and nothing is in both. -/
def Contiguous (s : Seam) : SeamAction → Prop
  | .page count => s.history.terminal.echoState.altScreen = false →
      ∀ view ∈ s.viewports.lookup (s.readPage count).1,
        (s.readPage count).2 ++ view.terminal.grid <:+ lines view
  | _ => True

/-- When a page is read on the primary screen, the viewport stored for the epoch in `epoch_src` is
one of the primary screen, and no line was pushed since it was read. -/
def AtViewport (s : Seam) : SeamAction → Prop
  | .page _ => s.history.terminal.echoState.altScreen = false →
      ∀ view ∈ s.viewports.lookup s.epochSrc,
        view.terminal.echoState.altScreen = false ∧
          view.pushed.length = s.history.pushed.length
  | _ => True

instance (s : Seam) (a : SeamAction) : Decidable (s.Contiguous a) :=
  match a with
  | .page count => inferInstanceAs (Decidable (s.history.terminal.echoState.altScreen = false →
      ∀ view ∈ s.viewports.lookup (s.readPage count).1,
        (s.readPage count).2 ++ view.terminal.grid <:+ lines view))
  | .output _ | .resize _ _ | .tick _ | .publish | .ack _ | .reattach => instDecidableTrue

instance (s : Seam) (a : SeamAction) : Decidable (s.AtViewport a) :=
  match a with
  | .page _ => inferInstanceAs (Decidable (s.history.terminal.echoState.altScreen = false →
      ∀ view ∈ s.viewports.lookup s.epochSrc, view.terminal.echoState.altScreen = false ∧
        view.pushed.length = s.history.pushed.length))
  | .output _ | .resize _ _ | .tick _ | .publish | .ack _ | .reattach => instDecidableTrue

/-! ## What a tick stores -/

theorem buildStateDiff_stored {p : PumpState} {snap : Snapshot} {cap epoch : ℕ}
    {result : DiffTickResult}
    (h : buildStateDiff serializedSize p snap cap = some (epoch, some result)) :
    result.epoch = epoch ∧ result.sentCells = snap.cells := by
  unfold buildStateDiff at h
  split at h
  · cases h
  · split at h
    · cases h
    · split at h
      · cases h
      · cases h
      · cases h
        exact ⟨rfl, rfl⟩

/-- **The recorded viewport is the stored one.** A tick that records a viewport stores its grid
under the same epoch in `epoch_snapshots`. -/
theorem tick_stored {conn : Conn} {out : Tick} {epoch : ℕ}
    (htick : tick serializedSize s.pump s.history.terminal.snapshot conn = some out)
    (hstores : s.tickStores serializedSize conn = some epoch) :
    (epoch, s.history.terminal.grid) ∈ out.pump.epochSnapshots := by
  obtain ⟨cap, hmax, hstores⟩ := Option.bind_eq_some_iff.mp hstores
  split at hstores
  · cases hstores
  · rename_i hcap
    obtain ⟨⟨epoch', result⟩, hbuild, hresult⟩ := Option.bind_eq_some_iff.mp hstores
    unfold tick at htick
    rw [hmax] at htick
    dsimp only at htick
    rw [if_neg hcap, hbuild] at htick
    cases result with
    | none => cases hresult
    | some result =>
        cases hresult
        obtain ⟨burst, -, rfl⟩ := Option.map_eq_some_iff.mp htick
        obtain ⟨hepoch, hcells⟩ := buildStateDiff_stored hbuild
        dsimp only
        rw [hepoch, hcells]
        exact self_mem_storeSnapshot _ _ _

/-! ## Pages and viewports -/

/-- The scrollback is the end of the pushed lines, and no viewport is ahead of the terminal. -/
structure Consistent (s : Seam) : Prop where
  scrollback : s.history.terminal.scrollback <:+ s.history.pushed
  viewports : ∀ entry ∈ s.viewports, entry.2.pushed <+: s.history.pushed

theorem consistent_new (cols rows : ℕ) : (new cols rows).Consistent :=
  ⟨List.nil_suffix, fun _ h => (List.not_mem_nil h).elim⟩

/-- The terminal moves on. -/
theorem Consistent.terminal {width : Char → Option ℕ} (h : s.Consistent) {evs : List TerminalEvent}
    {history : TerminalHistory}
    (hrun : (TerminalHistory.life width).run s.history evs = some history) :
    Consistent { s with history := history } := by
  have hboth : history.terminal.scrollback <:+ history.pushed ∧
      s.history.pushed <+: history.pushed := by
    refine (TerminalHistory.life width).invariant_run
      (fun t => t.terminal.scrollback <:+ t.pushed ∧ s.history.pushed <+: t.pushed) ?_
      ⟨h.scrollback, List.prefix_rfl⟩ hrun
    intro t ev t' ht hstep
    exact ⟨TerminalHistory.step_suffix ht.1 hstep,
      ht.2.trans (TerminalHistory.step_prefix hstep)⟩
  exact ⟨hboth.1, fun entry hentry => (h.viewports entry hentry).trans hboth.2⟩

theorem Consistent.step {width : Char → Option ℕ} {s' : Seam} (h : s.Consistent) {a : SeamAction}
    (hs : s.step serializedSize width a = some s') : s'.Consistent := by
  cases a with
  | output chunk =>
      obtain ⟨history, hrun, rfl⟩ := Option.map_eq_some_iff.mp hs
      exact h.terminal hrun
  | resize cols rows =>
      dsimp only [Seam.step] at hs
      obtain ⟨history, hstep, rfl⟩ := Option.map_eq_some_iff.mp hs
      have hrun :
          (TerminalHistory.life width).run s.history [.resize cols rows] = some history := by
        rw [Machine.run_singleton]
        exact hstep
      exact h.terminal hrun
  | tick conn =>
      dsimp only [Seam.step] at hs
      split at hs
      · cases hs
      · obtain ⟨out, -, rfl⟩ := Option.map_eq_some_iff.mp hs
        split
        · exact ⟨h.scrollback, List.forall_mem_cons.mpr ⟨List.prefix_rfl, h.viewports⟩⟩
        · exact { h with }
  | publish =>
      obtain ⟨epoch, -, rfl⟩ := Option.map_eq_some_iff.mp hs
      exact { h with }
  | ack epoch =>
      dsimp only [Seam.step] at hs
      split at hs
      · cases hs
      · cases hs
        exact { h with }
  | page count =>
      cases hs
      exact h
  | reattach =>
      cases hs
      exact ⟨h.scrollback, fun _ hentry => (List.not_mem_nil hentry).elim⟩

/-- A page that is read at its viewport ends where the viewport begins. -/
theorem Consistent.contiguous (h : s.Consistent) {a : SeamAction} (hat : s.AtViewport a) :
    s.Contiguous a := by
  cases a with
  | page count =>
      intro hprimary view hview
      obtain ⟨hviewPrimary, hlength⟩ := hat hprimary view hview
      -- no viewport is ahead of the terminal, and with equal lengths it is not behind either
      have hpushed : view.pushed = s.history.pushed := by
        obtain ⟨before, after, hsplit, -⟩ := List.lookup_eq_some_iff.mp hview
        refine (h.viewports ((s.readPage count).1, view) ?_).eq_of_length hlength
        rw [hsplit]
        exact List.mem_append_right _ List.mem_cons_self
      have hpage : (s.readPage count).2 <:+ s.history.pushed := by
        have hdrop := TerminalHistory.pushed_page h.scrollback 0 (min count maxPageSize)
        rwa [List.rdrop_zero] at hdrop
      have hlines : lines view = s.history.pushed ++ view.terminal.grid := by
        unfold lines primaryGrid
        rw [hviewPrimary, hpushed]
        rfl
      rw [hlines]
      obtain ⟨pre, hpre⟩ := hpage
      exact ⟨pre, by rw [← List.append_assoc, hpre]⟩
  | _ => trivial

/-- **The seam.** In every interleaving of output, ticks and pages in which each page is read
before a line leaves the screen after the viewport of its epoch, the page and that viewport are
contiguous history. -/
theorem page_contiguous {serializedSize : StateDiff → ℕ} {width : Char → Option ℕ} {cols rows : ℕ}
    {actions : List SeamAction}
    (hok : (life serializedSize width).Along AtViewport (new cols rows) actions) :
    (life serializedSize width).Along Contiguous (new cols rows) actions :=
  (life serializedSize width).along_mono Consistent (fun _ _ _ h _ hs => h.step hs)
    (fun _ _ h hat => h.contiguous hat) (consistent_new cols rows) hok

/-- A line is scrolled out, the tick stores the viewport after it, and the page is read. -/
theorem page_contiguous_after_tick :
    (life StateDiff.postcardSize fun _ => some 1).Along Contiguous (new 2 1)
      [.output [.print 'a', .execute 0x0A], .tick (.ideal 1200), .publish, .page 256] :=
  page_contiguous (by decide)

/-- **A line in the page and in the viewport.** The tick stores the viewport with the line `a` and
publishes its epoch; then the line scrolls out, before the next tick. The page carries the
published epoch and holds `a`, which is the viewport of that epoch. -/
theorem line_in_page_and_viewport :
    ∃ s view, (life StateDiff.postcardSize fun _ => some 1).run (new 2 1)
        [.output [.print 'a'], .tick (.ideal 1200), .publish, .output [.execute 0x0A]] = some s ∧
      s.viewports.lookup (s.readPage 256).1 = some view ∧
      (s.readPage 256).2 = view.terminal.grid ∧
      lines s.history = view.terminal.grid ++ makeGrid 2 1 ∧
      ¬ s.Contiguous (.page 256) :=
  ⟨_, _, rfl, rfl, rfl, rfl, by decide⟩

end Seam

end Nosh.Scrollback
