import Nosh.Sync.Lossless

/-!
# Grid convergence of the lossless channel

Does a client that has reached the server's epoch show the server's grid?  The
diff of an epoch is taken against the last acked snapshot, so it carries exactly
the cells that changed **since the ack**; it is applied on top of the grid of the
epoch **before**.  The two agree exactly when no cell that was sent in between
has gone back to its acked value.

## Main results

* `Converging.patched` — a new epoch turns the drained client's grid into the
  server's, provided no cell was reverted.
* `grid_converges` — **in every run without a reverted cell, a client at the
  current epoch shows the grid that epoch was made from.**
* `reverted_cell_diverges` — a run with one: the client is at the current epoch
  and shows a cell the server no longer has.
-/

namespace Nosh.Sync

open Nosh.Lib Nosh.Proto Nosh.Client Nosh.Server

/-- Cells of a narrow snapshot make narrow runs. -/
theorem narrowRun_of_cells {width : Char → Option ℕ} {snap : Snapshot}
    (hnarrow : snap.Narrow width) {runs : List DiffRun}
    (hcells : ∀ w ∈ runCells runs, snap.cells.cellAt w.1.1 w.1.2 = some w.2) :
    ∀ run ∈ runs, NarrowRun width run := by
  intro run hrun ch hch
  obtain ⟨i, hi, rfl⟩ := List.getElem_of_mem hch
  have hw : ((run.row, run.startCol + i), run.cell run.chars[i]) ∈ runCells runs :=
    mem_runCells.mpr ⟨run, hrun,
      mem_layCells.mpr ⟨i, run.chars[i], List.getElem?_eq_getElem hi, rfl⟩⟩
  have hcell := hcells _ hw
  unfold Grid.cellAt at hcell
  rw [Option.bind_eq_some_iff] at hcell
  obtain ⟨row, hrow, hc⟩ := hcell
  have hone : width run.chars[i] = some 1 :=
    (hnarrow row (List.mem_of_getElem? hrow) _ (List.mem_of_getElem? hc)).2
  rw [hone]
  decide

section

variable (serializedSize : StateDiff → ℕ) (width : Char → Option ℕ)
variable {cols rows : ℕ} {c : Channel}

/-- Output keeps the dimensions and writes width-1 characters only. -/
def NarrowOutput (c : Channel) : Action → Prop
  | .output snap =>
      snap.WellFormed ∧ snap.Narrow width ∧ snap.cols = c.snap.cols ∧ snap.rows = c.snap.rows
  | _ => True

instance (c : Channel) (a : Action) : Decidable (NarrowOutput width c a) :=
  match a with
  | .output _ => inferInstanceAs (Decidable (_ ∧ _ ∧ _ ∧ _))
  | .tick _ | .deliver | .deliverAck => inferInstanceAs (Decidable True)

/-- A tick that starts an epoch finds no reverted cell: a cell that has its acked
value was also last sent with that value. -/
def Unreverted (c : Channel) : Action → Prop
  | .tick _ =>
      c.pump.Advances c.snap → ∀ r < c.snap.rows, ∀ col < c.snap.cols,
        c.pump.lastAckedSnapshot.cellAt r col = c.snap.cells.cellAt r col →
          c.pump.lastSentSnapshot.cellAt r col = c.snap.cells.cellAt r col
  | _ => True

instance (c : Channel) (a : Action) : Decidable (Unreverted c a) :=
  match a with
  | .tick _ => inferInstanceAs (Decidable (_ → _))
  | .output _ | .deliver | .deliverAck => inferInstanceAs (Decidable True)

/-- The invariant of the convergence argument, for a `cols` by `rows` terminal. -/
structure Converging (cols rows : ℕ) (c : Channel) : Prop extends Draining width c where
  wf : c.snap.WellFormed
  narrow : c.snap.Narrow width
  dims : c.snap.cols = cols ∧ c.snap.rows = rows
  pending : c.pump.pendingDeferred = []
  shaped : (c.drained width).screen.WellShaped
  /-- Before the first epoch there is no baseline. -/
  unstarted : c.pump.currentEpoch = 0 →
    c.pump.lastAckedSnapshot = [] ∧ c.pump.epochSnapshots = [] ∧ c.pump.lastSentSnapshot = []
  started : c.pump.currentEpoch ≠ 0 → c.produced.isSome
  /-- After it, the drained client shows the last sent grid. -/
  content : ∀ s, c.produced = some s →
    s.cells = c.pump.lastSentSnapshot ∧
      (c.drained width).screen.confirmed = c.pump.lastSentSnapshot ∧
      (c.drained width).screen.cols = cols ∧ (c.drained width).screen.rows = rows

variable {serializedSize width}

theorem converging_start {snap : Snapshot} (hwf : snap.WellFormed) (hnarrow : snap.Narrow width)
    (cols rows : ℕ) : Converging width snap.cols snap.rows (.start snap cols rows) where
  toDraining := draining_start snap cols rows
  wf := hwf
  narrow := hnarrow
  dims := ⟨rfl, rfl⟩
  pending := rfl
  shaped := ClientScreen.wellShaped_new cols rows
  unstarted := fun _ => ⟨rfl, rfl, rfl⟩
  started := fun h => absurd rfl h
  content := by simp [Channel.start]

section

variable (h : Converging width cols rows c)

include h

/-- A new epoch patches the drained client to the server grid, provided no cell was
reverted. -/
theorem Converging.patched {cap : ℕ} {payload : StateDiff} (hunrev : Unreverted c (.tick cap))
    (hadv : c.pump.Advances c.snap) (hlen : (c.pump.allRuns c.snap).length ≤ maxRuns)
    (henc : encodeDatagram serializedSize (c.pump.tickDiff c.snap) cap =
      some (.ok (payload, []))) :
    applyRuns width ((c.drained width).screen.fitTo c.snap.cols c.snap.rows).confirmed
      payload.runs = c.snap.cells := by
  have hfit := h.shaped.fitTo c.snap.cols c.snap.rows
  have hmem := mem_payload_iff h.wf h.narrow h.pending hlen henc
  have hagree : ∀ w ∈ runCells payload.runs, c.snap.cells.cellAt w.1.1 w.1.2 = some w.2 :=
    fun w hw => ((hmem w).mp hw).1
  rw [applyRuns_eq_writeAll (narrowRun_of_cells h.narrow hagree),
    Grid.writeAll_eq_iff hfit h.wf.1 hagree]
  intro r col hsilent
  by_cases hin : r < c.snap.rows ∧ col < c.snap.cols
  · obtain ⟨x, hx⟩ := Option.isSome_iff_exists.mp ((h.wf.1.isSome_cellAt r col).mpr hin)
    -- a cell the diff does not carry has its acked value
    have hacked : c.pump.lastAckedSnapshot.cellAt r col = some x := by
      by_contra hne
      exact hsilent ((r, col), x) ((hmem _).mpr ⟨hx, hne⟩) rfl
    have hsent := hunrev hadv r hin.1 col hin.2 (hacked.trans hx.symm)
    by_cases hzero : c.pump.currentEpoch = 0
    · rw [(h.unstarted hzero).1] at hacked
      simp [Grid.cellAt] at hacked
    · obtain ⟨s, hs⟩ := Option.isSome_iff_exists.mp (h.started hzero)
      obtain ⟨-, hconf, hcols, hrows⟩ := h.content s hs
      rw [ClientScreen.fitTo, if_neg (by simp [hcols, hrows, h.dims]), hconf]
      exact hsent
  · have hbase : ¬ (((c.drained width).screen.fitTo c.snap.cols c.snap.rows).confirmed.cellAt
        r col).isSome := by
      rw [hfit.isSome_cellAt]
      exact hin
    have hsnap : ¬ (c.snap.cells.cellAt r col).isSome := by
      rw [h.wf.1.isSome_cellAt]
      exact hin
    rw [Option.not_isSome_iff_eq_none] at hbase hsnap
    rw [hbase, hsnap]

/-- A tick that sends keeps the invariant. -/
theorem Converging.send {cap : ℕ} {payload : StateDiff} (hdims : DimsInRange cols rows)
    (hunrev : Unreverted c (.tick cap)) (hlen : (c.pump.allRuns c.snap).length ≤ maxRuns)
    (henc : encodeDatagram serializedSize (c.pump.tickDiff c.snap) cap =
      some (.ok (payload, []))) : Converging width cols rows (c.afterSend payload) := by
  have hhead := heads_of_encode henc
  have hdims' : DimsInRange c.snap.cols c.snap.rows := by
    rw [h.dims.1, h.dims.2]
    exact hdims
  by_cases hadv : c.pump.Advances c.snap
  · have hdrain := h.drained_next hhead hadv hdims'
    rw [h.patched hunrev hadv hlen henc] at hdrain
    obtain ⟨hnext, hprod⟩ := afterSend_of_advances hadv payload
    refine ⟨h.toDraining.tick hhead hdims', h.wf, h.narrow, h.dims, rfl, ?_, ?_, ?_, ?_⟩
    · rw [hdrain]
      change c.snap.cells.HasShape _ _
      rw [ClientScreen.fitTo_cols, ClientScreen.fitTo_rows]
      exact h.wf.1
    · intro hzero
      omega
    · intro _
      rw [hprod]
      rfl
    · intro s hs
      rw [hprod, Option.some.injEq] at hs
      subst hs
      rw [hdrain]
      refine ⟨rfl, rfl, ?_, ?_⟩
      · exact (ClientScreen.fitTo_cols _ _ _).trans h.dims.1
      · exact (ClientScreen.fitTo_rows _ _ _).trans h.dims.2
  · have hdrain := h.drained_same hhead hadv
    obtain ⟨hepoch, hprod⟩ := afterSend_of_not_advances hadv payload
    have hsent := PumpState.cells_eq_of_not_advances hadv
    refine ⟨h.toDraining.tick hhead hdims', h.wf, h.narrow, h.dims, rfl, ?_, ?_, ?_, ?_⟩
    · rw [hdrain]
      exact h.shaped
    · -- without an epoch there is no last sent grid to repeat
      intro hzero
      rw [hepoch] at hzero
      rw [(h.unstarted hzero).2.2] at hsent
      have hrows : c.snap.rows = 0 := by
        rw [← h.wf.1.1, hsent]
        rfl
      exact absurd (Or.inr (Or.inl hrows)) hdims'
    · rw [hepoch, hprod]
      exact h.started
    · rw [hdrain, hprod]
      change ∀ s, c.produced = some s → s.cells = c.snap.cells ∧ _ = c.snap.cells ∧ _ ∧ _
      rw [hsent]
      exact h.content

theorem Converging.deliver {d : StateDiff} {rest : List StateDiff} (hq : c.toClient = d :: rest) :
    Converging width cols rows (c.afterDeliver width d rest) where
  toDraining := h.toDraining.deliver hq
  wf := h.wf
  narrow := h.narrow
  dims := h.dims
  pending := h.pending
  shaped := by
    rw [drained_afterDeliver hq]
    exact h.shaped
  unstarted := h.unstarted
  started := h.started
  content := by
    rw [drained_afterDeliver hq]
    exact h.content

theorem Converging.ack (e : ℕ) (rest : List ℕ) :
    Converging width cols rows { c with toServer := rest, pump := c.pump.recvAck e } := by
  obtain ⟨hepoch, hsent, hpend⟩ := c.pump.recvAck_frame e
  refine ⟨h.toDraining.ack e rest, h.wf, h.narrow, h.dims, hpend.trans h.pending, h.shaped,
    ?_, ?_, ?_⟩
  · intro hzero
    rw [hepoch] at hzero
    obtain ⟨-, hstore, -⟩ := h.unstarted hzero
    rcases c.pump.recvAck_cases e with ⟨-, heq⟩ | ⟨-, entry, hmem, -, -⟩ | ⟨-, -, heq⟩
    · simp only [heq]
      exact h.unstarted hzero
    · -- with an empty store no ack installs a baseline
      rw [hstore] at hmem
      cases hmem
    · simp only [heq]
      exact h.unstarted hzero
  · rw [hepoch]
    exact h.started
  · rw [hsent]
    exact h.content

/-- Every step of an unreverted run keeps the invariant. -/
theorem Converging.step {c' : Channel} {a : Action} (hdims : DimsInRange cols rows)
    (hnarrow : NarrowOutput width c a) (hunrev : Unreverted c a)
    (hstep : c.step serializedSize width a = some c') : Converging width cols rows c' := by
  cases a with
  | output snap =>
      cases hstep
      obtain ⟨hwf, hone, hcols, hrows⟩ := hnarrow
      exact { h with
        wf := hwf
        narrow := hone
        dims := ⟨hcols.trans h.dims.1, hrows.trans h.dims.2⟩ }
  | tick cap =>
      rcases step_tick_cases hstep with ⟨-, rfl⟩ | ⟨-, hlen, payload, henc, rfl⟩
      · exact { h with pending := rfl }
      · exact h.send hdims hunrev hlen henc
  | deliver =>
      obtain ⟨d, rest, hq, rfl⟩ := step_deliver_cases hstep
      exact h.deliver hq
  | deliverAck =>
      obtain ⟨e, rest, -, rfl⟩ := step_deliverAck_cases hstep
      exact h.ack e rest

end

/-! ## Terminals the client refuses -/

/-- A terminal whose dimensions the client refuses: nothing is ever applied. -/
structure Refused (cols rows : ℕ) (c : Channel) : Prop where
  dims : c.snap.cols = cols ∧ c.snap.rows = rows
  queued : ∀ d ∈ c.toClient, d.cols = cols ∧ d.rows = rows
  epoch : c.client.screen.lastAppliedEpoch = 0
  started : c.produced.isSome → c.pump.currentEpoch ≠ 0

theorem Refused.step {c' : Channel} {a : Action} (h : Refused cols rows c)
    (hdims : ¬ DimsInRange cols rows) (hnarrow : NarrowOutput width c a)
    (hstep : c.step serializedSize width a = some c') : Refused cols rows c' := by
  cases a with
  | output snap =>
      cases hstep
      obtain ⟨-, -, hcols, hrows⟩ := hnarrow
      exact { h with dims := ⟨hcols.trans h.dims.1, hrows.trans h.dims.2⟩ }
  | tick cap =>
      rcases step_tick_cases hstep with ⟨-, rfl⟩ | ⟨-, -, payload, henc, rfl⟩
      · exact { h with }
      · have hhead := heads_of_encode henc
        refine ⟨h.dims, ?_, h.epoch, ?_⟩
        · intro d hd
          change d ∈ c.toClient ++ [payload] at hd
          rw [List.mem_append, List.mem_singleton] at hd
          rcases hd with hd | rfl
          · exact h.queued d hd
          · exact ⟨hhead.cols.trans h.dims.1, hhead.rows.trans h.dims.2⟩
        · intro hsome
          by_cases hadv : c.pump.Advances c.snap
          · rw [(afterSend_of_advances hadv payload).1]
            exact Nat.succ_ne_zero _
          · obtain ⟨hepoch, hprod⟩ := afterSend_of_not_advances hadv payload
            rw [hprod] at hsome
            rw [hepoch]
            exact h.started hsome
  | deliver =>
      obtain ⟨d, rest, hq, rfl⟩ := step_deliver_cases hstep
      have hd : d.cols = cols ∧ d.rows = rows := h.queued d (by rw [hq]; exact List.mem_cons_self)
      refine ⟨h.dims, fun d' hd' => h.queued d' (by rw [hq]; exact List.mem_cons_of_mem d hd'),
        ?_, h.started⟩
      change (c.client.recvDatagram width d).1.screen.lastAppliedEpoch = 0
      rw [ClientPump.recvDatagram_lastAppliedEpoch, if_neg]
      · exact h.epoch
      · rw [ClientPump.applies_iff, hd.1, hd.2]
        exact fun happ => hdims happ.2.2
  | deliverAck =>
      obtain ⟨e, rest, -, rfl⟩ := step_deliverAck_cases hstep
      refine ⟨h.dims, h.queued, h.epoch, ?_⟩
      rw [(c.pump.recvAck_frame e).1]
      exact h.started

/-! ## Convergence -/

/-- **Grid convergence.**  Take any run of the lossless channel from a narrow
terminal, with narrow output of the same dimensions, in which no epoch starts on a
reverted cell.  When the client has reached the server's epoch and the server grid
is still the one that epoch was made from, the client's confirmed grid is that
grid. -/
theorem grid_converges {snap : Snapshot} (hwf : snap.WellFormed) (hnarrow : snap.Narrow width)
    (clientCols clientRows : ℕ) {as : List Action} {c : Channel}
    (hout : (channel serializedSize width).Along (NarrowOutput width)
      (.start snap clientCols clientRows) as)
    (hunrev : (channel serializedSize width).Along Unreverted
      (.start snap clientCols clientRows) as)
    (hrun : (channel serializedSize width).run (.start snap clientCols clientRows) as = some c)
    {s : Snapshot} (hproduced : c.produced = some s) (hunchanged : c.snap.cells = s.cells)
    (hcaught : c.client.screen.lastAppliedEpoch = c.pump.currentEpoch) :
    c.client.screen.confirmed = c.snap.cells := by
  by_cases hdims : DimsInRange snap.cols snap.rows
  · have hinv : Converging width snap.cols snap.rows c :=
      (channel serializedSize width).invariant_along _
        (fun c a c' hc ha hs => Converging.step hc hdims ha.1 ha.2 hs)
        (converging_start hwf hnarrow clientCols clientRows)
        ((channel serializedSize width).along_and.mpr ⟨hout, hunrev⟩) hrun
    obtain ⟨hcells, hconf, -, -⟩ := hinv.content s hproduced
    rw [hinv.toDraining.client_eq hcaught] at hconf
    rw [hconf, hunchanged, hcells]
  · have hinv : Refused snap.cols snap.rows c :=
      (channel serializedSize width).invariant_along _
        (fun c a c' hc ha hs => Refused.step hc hdims ha hs)
        ⟨⟨rfl, rfl⟩, by simp [Channel.start], rfl, by simp [Channel.start]⟩ hout hrun
    have hsome := hinv.started (by rw [hproduced]; rfl)
    rw [← hcaught, hinv.epoch] at hsome
    exact absurd rfl hsome

end

/-- Two epochs, the second sent while the ack of the first is outstanding. -/
def overtakingRun : List Action :=
  [.tick 1200, .deliver, .output (oneCell 'b'), .tick 1200, .deliver, .deliverAck, .deliverAck]

/-- The channel after `overtakingRun`. -/
def overtaken : Channel :=
  ((channel StateDiff.postcardSize fun _ => some 1).run (.start (oneCell 'a') 80 24)
    overtakingRun).getD (.start (oneCell 'a') 80 24)

theorem grid_converges_overtaken :
    overtaken.client.screen.confirmed = overtaken.snap.cells ∧
      overtaken.snap.cells = (oneCell 'b').cells ∧ overtaken.pump.currentEpoch = 2 := by
  have hrun : (channel StateDiff.postcardSize fun _ => some 1).run (.start (oneCell 'a') 80 24)
      overtakingRun = some overtaken := by
    decide
  have hproduced : overtaken.produced = some (oneCell 'b') := by
    decide
  refine ⟨?_, by decide, by decide⟩
  exact grid_converges (by decide) (by decide) 80 24 (by decide) (by decide) hrun hproduced
    (by decide) (by decide)

/-- Epoch 1 is acked; epoch 2 is delivered; before its ack comes back the cell
returns to what epoch 1 showed. -/
def revertingRun : List Action :=
  [.tick 1200, .deliver, .deliverAck, .output (oneCell 'b'), .tick 1200, .deliver,
    .output (oneCell 'a'), .tick 1200, .deliver]

/-- **A reverted cell diverges.**  Epoch 3 carries nothing, because the cell has its
acked value; the client is at epoch 3 and keeps showing epoch 2. -/
theorem reverted_cell_diverges :
    (channel StateDiff.postcardSize fun _ => some 1).Along (NarrowOutput fun _ => some 1)
        (.start (oneCell 'a') 1 1) revertingRun ∧
      ∃ c ∈ (channel StateDiff.postcardSize fun _ => some 1).run (.start (oneCell 'a') 1 1)
          revertingRun,
        c.produced = some (oneCell 'a') ∧ c.snap.cells = (oneCell 'a').cells ∧
        c.client.screen.lastAppliedEpoch = c.pump.currentEpoch ∧
        c.client.screen.confirmed = (oneCell 'b').cells := by
  decide

end Nosh.Sync
