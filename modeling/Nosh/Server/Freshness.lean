import Nosh.Lib.Machine
import Nosh.Server.Store

/-!
# Freshness of what a tick sends

A datagram of epoch `e` is meant to describe the grid stored for `e`.  Fresh runs
do: they are scanned from the very snapshot the tick stores.  Runs carried over
from an earlier burst were scanned from an older grid and are sent again, under
the new epoch, without another look at the terminal.

## Main results

* `sent_cells_fresh` — **a tick whose carried-over cells still agree with the grid
  sends only cells of the stored snapshot.**
* `deferred_run_goes_stale` — a burst cut off by a full send buffer, one more
  character of output, and the next tick sends the old cell under the new epoch.
-/

namespace Nosh.Server

open Nosh.Lib Nosh.Proto

/-- The server pump and the terminal it reads. -/
structure ServerSide where
  snap : Snapshot
  pump : PumpState
  deriving DecidableEq

/-- A pump before its first tick. -/
def ServerSide.start (snap : Snapshot) : ServerSide := ⟨snap, .new⟩

/-- The steps of the server side: output, a tick on some transport, any ack. -/
inductive ServerAction
  | output (snap : Snapshot)
  | tick (conn : Conn)
  | ack (epoch : ℕ)

section

variable (serializedSize : StateDiff → ℕ) (width : Char → Option ℕ)

/-- One step; a tick on which the transport is lost ends the session. -/
def ServerSide.step (s : ServerSide) : ServerAction → Option ServerSide
  | .output snap => some { s with snap := snap }
  | .tick conn =>
      (tick serializedSize s.pump s.snap conn).bind fun out =>
        if out.transportLost then none else some { s with pump := out.pump }
  | .ack epoch => some { s with pump := s.pump.recvAck epoch }

/-- The server side as a machine. -/
def serverSide : Machine ServerSide ServerAction := ⟨ServerSide.step serializedSize⟩

/-- Output leaves a grid of width-1 characters. -/
def ServerSide.NarrowOutput (_ : ServerSide) : ServerAction → Prop
  | .output snap => snap.WellFormed ∧ snap.Narrow width
  | _ => True

instance (s : ServerSide) (a : ServerAction) : Decidable (s.NarrowOutput width a) :=
  match a with
  | .output _ => inferInstanceAs (Decidable (_ ∧ _))
  | .tick _ | .ack _ => inferInstanceAs (Decidable True)

/-- Every carried-over cell still has that value in the grid. -/
def ServerSide.PendingFresh (s : ServerSide) : Prop :=
  ∀ w ∈ runCells s.pump.pendingDeferred, s.snap.cells.cellAt w.1.1 w.1.2 = some w.2

instance (s : ServerSide) : Decidable s.PendingFresh :=
  inferInstanceAs (Decidable (∀ w ∈ runCells s.pump.pendingDeferred, _ = _))

/-- What holds of the server side in every narrow run. -/
structure ServerInv (s : ServerSide) : Prop extends StoreInv s.pump where
  wf : s.snap.WellFormed
  narrow : s.snap.Narrow width
  bounded : ∀ r ∈ s.pump.pendingDeferred, r.Bounded

variable {serializedSize width}

/-- The runs a tick sets out to send are bounded. -/
theorem ServerInv.allRuns_bounded {s : ServerSide} (h : ServerInv width s) :
    ∀ r ∈ s.pump.allRuns s.snap, r.Bounded := by
  intro r hr
  rcases List.mem_append.mp hr with hr | hr
  · exact h.bounded r hr
  · exact fresh_bounded h.wf _ r hr

theorem ServerInv.step {s s' : ServerSide} {a : ServerAction} (h : ServerInv width s)
    (hout : s.NarrowOutput width a) (hstep : s.step serializedSize a = some s') :
    ServerInv width s' := by
  cases a with
  | output snap =>
      cases hstep
      exact { h with wf := hout.1, narrow := hout.2 }
  | tick conn =>
      obtain ⟨out, htick, hs'⟩ := Option.bind_eq_some_iff.mp hstep
      split at hs'
      · cases hs'
      · cases hs'
        obtain ⟨-, -, hbound⟩ := tick_cells htick h.allRuns_bounded
        refine ⟨?_, h.wf, h.narrow, hbound⟩
        rcases tick_cases htick with
          rfl | ⟨-, rfl⟩ | ⟨-, cap, payload, deferred, leftover, -, -, -, hp⟩
        · exact h.toStoreInv
        · exact { h.toStoreInv with }
        · change StoreInv out.pump
          rw [hp]
          exact h.toStoreInv.afterTick s.snap leftover
  | ack epoch =>
      cases hstep
      refine ⟨h.toStoreInv.recvAck epoch, h.wf, h.narrow, ?_⟩
      change ∀ r ∈ (s.pump.recvAck epoch).pendingDeferred, r.Bounded
      rw [(s.pump.recvAck_frame epoch).2.2]
      exact h.bounded

/-- **Freshness.**  In any narrow run of the server side, take a tick before which
every carried-over cell still agrees with the grid.  Each cell of each datagram it
sends is a cell of the snapshot stored under the datagram's epoch. -/
theorem sent_cells_fresh {snap : Snapshot} (hwf : snap.WellFormed) (hnarrow : snap.Narrow width)
    {as : List ServerAction} {s : ServerSide}
    (hout : (serverSide serializedSize).Along (ServerSide.NarrowOutput width) (.start snap) as)
    (hrun : (serverSide serializedSize).run (.start snap) as = some s)
    (hfresh : s.PendingFresh) {conn : Conn} {out : Tick}
    (htick : tick serializedSize s.pump s.snap conn = some out) :
    ∀ d ∈ out.sent, (∃ entry ∈ out.pump.epochSnapshots, entry.1 = d.epoch) ∧
      ∀ w ∈ runCells d.runs, ∀ entry ∈ out.pump.epochSnapshots, entry.1 = d.epoch →
        entry.2.cellAt w.1.1 w.1.2 = some w.2 := by
  have hinv : ServerInv width s :=
    (serverSide serializedSize).invariant_along _
      (fun s a s' hs ha hstep => ServerInv.step hs ha hstep)
      ⟨storeInv_new, hwf, hnarrow, by simp [ServerSide.start, PumpState.new]⟩ hout hrun
  -- carried-over cells agree by assumption, fresh ones because they were just scanned
  have hagree : ∀ w ∈ runCells (s.pump.allRuns s.snap),
      s.snap.cells.cellAt w.1.1 w.1.2 = some w.2 := by
    intro w hw
    rw [PumpState.allRuns, runCells_append, List.mem_append] at hw
    rcases hw with hw | hw
    · exact hfresh w hw
    · exact ((mem_computeDiffRuns hinv.narrow.plain).mp hw).1
  obtain ⟨hcells, -⟩ := tick_cells htick hinv.allRuns_bounded
  have hhead := tick_sent_header htick
  intro d hd
  rcases tick_cases htick with
    rfl | ⟨-, rfl⟩ | ⟨-, cap, payload, deferred, leftover, -, -, -, hp⟩
  · cases hd
  · cases hd
  · have hepoch := (hhead d hd).epoch
    rw [hp]
    refine ⟨⟨_, self_mem_storeSnapshot _ _ _, hepoch.symm⟩, ?_⟩
    intro w hw entry hentry hcur
    have hsnap : entry.2 = s.snap.cells :=
      (hinv.toStoreInv.afterTick s.snap leftover).store_current entry hentry (hcur.trans hepoch)
    rw [hsnap]
    exact hagree w (hcells d hd hw)

end

/-- A cell with the default attributes. -/
def plainCell (ch : Char) : Cell := ⟨ch, CellStyle.none, none, none, false⟩

/-- A one-row terminal of 310 columns filled with `𝐀`, four bytes of UTF-8 each, but for
the last column, where the cursor is. -/
def longRow (last : Char) : Snapshot where
  cols := 310
  rows := 1
  cursor := ⟨0, 309⟩
  altScreen := false
  cells := [List.replicate 309 (plainCell '𝐀') ++ [plainCell last]]

/-- A transport whose send buffer is full after the first datagram. -/
def Conn.narrow : Conn := ⟨some 1200, fun _ => 0, fun _ => none⟩

/-- A server that could send only part of a full row. -/
def carrying : ServerSide :=
  ((serverSide StateDiff.postcardSize).run (.start (longRow '𝐀')) [.tick .narrow]).getD
    (.start (longRow '𝐀'))

/-- The tick that sends the rest. -/
def resumed : Tick :=
  (tick StateDiff.postcardSize carrying.pump carrying.snap .narrow).getD ⟨.new, [], false⟩

theorem sent_cells_fresh_resumed :
    carrying.pump.pendingDeferred.length = 1 ∧ resumed.sent.length = 1 ∧
      ∀ d ∈ resumed.sent, (∃ entry ∈ resumed.pump.epochSnapshots, entry.1 = d.epoch) ∧
        ∀ w ∈ runCells d.runs, ∀ entry ∈ resumed.pump.epochSnapshots, entry.1 = d.epoch →
          entry.2.cellAt w.1.1 w.1.2 = some w.2 := by
  have hnarrow : (longRow '𝐀').Narrow fun _ => some 1 := by
    decide +kernel
  have hrun : (serverSide StateDiff.postcardSize).run (.start (longRow '𝐀')) [.tick .narrow] =
      some carrying :=
    (Option.getD_of_ne_none (by decide +kernel) _).symm
  have htick : tick StateDiff.postcardSize carrying.pump carrying.snap .narrow = some resumed :=
    (Option.getD_of_ne_none (by decide +kernel) _).symm
  have hout : (serverSide StateDiff.postcardSize).Along
      (ServerSide.NarrowOutput fun _ => some 1) (.start (longRow '𝐀')) [.tick .narrow] := by
    decide +kernel
  refine ⟨by decide +kernel, by decide +kernel, ?_⟩
  exact sent_cells_fresh (by decide +kernel) hnarrow hout hrun (by decide +kernel) htick

/-- A server that could send only part of a full row, and then printed one more
character. -/
def cutOff : ServerSide :=
  ((serverSide StateDiff.postcardSize).run (.start (longRow '𝐀'))
    [.tick .narrow, .output (longRow 'b')]).getD (.start (longRow '𝐀'))

/-- **A deferred run goes stale.**  The next tick sends, under epoch 2, the old
character of the last column, while the snapshot stored for epoch 2 has the new
one. -/
theorem deferred_run_goes_stale :
    (serverSide StateDiff.postcardSize).run (.start (longRow '𝐀'))
        [.tick .narrow, .output (longRow 'b')] = some cutOff ∧
      ∃ out ∈ tick StateDiff.postcardSize cutOff.pump cutOff.snap .narrow,
        (∃ d ∈ out.sent, d.epoch = 2 ∧ ((0, 309), plainCell '𝐀') ∈ runCells d.runs) ∧
        out.pump.epochSnapshots.getLast? = some (2, (longRow 'b').cells) := by
  decide +kernel

end Nosh.Server
