import Nosh.Proto.Payload
import Nosh.Server.Pump

/-!
# Progress of a burst

Whether a datagram of a burst carries at least one character, so that the burst comes to an end.

`encode_datagram` cuts a run that does not fit at an estimate: what is left of the body after 12
bytes for the header of the run. The comment there counts one byte for each colour, but a colour
that is set takes two, and a row number of the largest size takes three. The rows of a screen have
at most two, which keeps the header at 11 bytes, so what is cut at the estimate fits.

## Main Definitions

* `StateDiff.InRange` — the diffs of a screen of at most 1000 by 1000 cells
* `Progresses`, `Drains` — a datagram carries a character; a burst sends all runs

## Main Results

* `Cuts` — what a datagram carries and defers.
* `drains_of_rows` — every burst of a screen with less than 16384 rows drains.
* `burst_progresses` — **a burst of a screen has at most as many datagrams as characters.**
-/

namespace Nosh.Proto

/-! ## Sizes -/

theorem varintLen_le {n k : ℕ} (hk : 0 < k) (h : n < 2 ^ (7 * k)) : varintLen n ≤ k := by
  have hlog : n.log2 < 7 * k := by
    by_cases hn : n = 0
    · subst hn
      rw [Nat.log2_zero]
      omega
    · exact (Nat.log2_lt hn).mpr h
  unfold varintLen
  omega

theorem varintLen_u16_le {n : ℕ} (h : n ≤ u16Max) : varintLen n ≤ 3 := by
  unfold u16Max at h
  exact varintLen_le (by decide) (by omega)

theorem utf8Len_cons (ch : Char) (chars : List Char) :
    utf8Len (ch :: chars) = ch.utf8Size + utf8Len chars := List.sum_cons

theorem utf8Len_le (chars : List Char) : utf8Len chars ≤ 4 * chars.length := by
  induction chars with
  | nil => exact le_rfl
  | cons ch chars ih =>
      have hsize := ch.utf8Size_le_four
      rw [utf8Len_cons, List.length_cons]
      omega

/-- The loop of `fit_chars_in_bytes` takes the longest front that fits. -/
theorem fitCharsLoop_spec {maxBytes byteCount : ℕ} (charCount : ℕ) (chars : List Char)
    (h : byteCount ≤ maxBytes) :
    ∃ n ≤ chars.length, fitCharsLoop maxBytes byteCount charCount chars = charCount + n ∧
      byteCount + utf8Len (chars.take n) ≤ maxBytes ∧
        ∀ m ≤ chars.length, byteCount + utf8Len (chars.take m) ≤ maxBytes → m ≤ n := by
  induction chars generalizing byteCount charCount with
  | nil => exact ⟨0, le_rfl, rfl, h, fun m hm _ => hm⟩
  | cons ch chars ih =>
      rw [fitCharsLoop]
      split
      · rename_i hover
        refine ⟨0, Nat.zero_le _, rfl, h, ?_⟩
        intro m _ hfits
        cases m with
        | zero => exact le_rfl
        | succ m =>
            rw [List.take_succ_cons, utf8Len_cons] at hfits
            omega
      · rename_i hfits
        have hroom : byteCount + ch.utf8Size ≤ maxBytes := by omega
        obtain ⟨n, hn, hloop, hbytes, hlongest⟩ := ih (charCount + 1) hroom
        refine ⟨n + 1, Nat.succ_le_succ hn, ?_, ?_, ?_⟩
        · rw [hloop]
          omega
        · rw [List.take_succ_cons, utf8Len_cons]
          omega
        · intro m hm hbelow
          cases m with
          | zero => exact Nat.zero_le _
          | succ m =>
              rw [List.take_succ_cons, utf8Len_cons] at hbelow
              exact Nat.succ_le_succ (hlongest m (Nat.le_of_succ_le_succ hm) (by omega))

theorem fitCharsInBytes_spec (chars : List Char) (maxBytes : ℕ) :
    utf8Len (chars.take (fitCharsInBytes chars maxBytes)) ≤ maxBytes ∧
      ∀ m ≤ chars.length, utf8Len (chars.take m) ≤ maxBytes →
        m ≤ fitCharsInBytes chars maxBytes := by
  obtain ⟨n, -, hloop, hbytes, hlongest⟩ := fitCharsLoop_spec 0 chars (Nat.zero_le maxBytes)
  have hn : fitCharsInBytes chars maxBytes = n := hloop.trans (Nat.zero_add n)
  rw [hn]
  refine ⟨by omega, ?_⟩
  intro m hm hfits
  exact hlongest m hm (by omega)

/-! ## The diffs of a screen -/

/-- The run is not empty and ends within 1000 columns. -/
structure DiffRun.InRange (run : DiffRun) : Prop where
  row_le : run.row ≤ u16Max
  end_le : run.startCol + run.chars.length ≤ 1000
  chars_ne : run.chars ≠ []

/-- The diff is one of a screen of at most 1000 by 1000 cells. -/
structure StateDiff.InRange (diff : StateDiff) : Prop where
  epoch_lt : diff.epoch < 2 ^ 64
  cols_le : diff.cols ≤ 1000
  rows_le : diff.rows ≤ 1000
  cursor_row_le : diff.cursor.row ≤ u16Max
  cursor_col_le : diff.cursor.col ≤ u16Max
  runs : ∀ run ∈ diff.runs, run.InRange

/-- The characters of runs. -/
def charCount (runs : List DiffRun) : ℕ := (runs.map fun run => run.chars.length).sum

theorem length_layCells (row : ℕ) (mk : Char → Cell) (col : ℕ) (chars : List Char) :
    (layCells row mk col chars).length = chars.length := by
  induction chars generalizing col with
  | nil => rfl
  | cons ch chars ih => exact congrArg (· + 1) (ih (col + 1))

theorem length_runCells (runs : List DiffRun) : (runCells runs).length = charCount runs := by
  rw [runCells, List.length_flatMap]
  exact congrArg List.sum (List.map_congr_left fun run _ => length_layCells _ _ _ _)

theorem charCount_pos_iff {runs : List DiffRun} (h : ∀ run ∈ runs, run.chars ≠ []) :
    0 < charCount runs ↔ runs ≠ [] := by
  cases runs with
  | nil => exact ⟨fun hpos => absurd hpos (lt_irrefl 0), fun hne => absurd rfl hne⟩
  | cons run runs =>
      have hpos := List.length_pos_iff.mpr (h run List.mem_cons_self)
      refine ⟨fun _ => List.cons_ne_nil _ _, fun _ => ?_⟩
      rw [charCount, List.map_cons, List.sum_cons]
      omega

theorem StateDiff.InRange.headerSize_le {diff : StateDiff} (h : diff.InRange) :
    diff.headerSize ≤ 22 := by
  have hepoch : varintLen diff.epoch ≤ 10 :=
    varintLen_le (by decide) (h.epoch_lt.trans (by decide))
  have hcols : varintLen diff.cols ≤ 2 :=
    varintLen_le (by decide) (h.cols_le.trans_lt (by decide))
  have hrows : varintLen diff.rows ≤ 2 :=
    varintLen_le (by decide) (h.rows_le.trans_lt (by decide))
  have hrow := varintLen_u16_le h.cursor_row_le
  have hcol := varintLen_u16_le h.cursor_col_le
  unfold headerSize
  omega

theorem StateDiff.postcardSize_singleton (diff : StateDiff) (run : DiffRun) :
    ({ diff with runs := [run] } : StateDiff).postcardSize = diff.headerSize + run.postcardLen := by
  have hone : varintLen 1 = 1 := rfl
  unfold postcardSize headerSize
  simp only [List.length_singleton, List.map_cons, List.map_nil, List.sum_cons, List.sum_nil, hone]
  omega

/-! ## The first datagram of a run -/

section First

variable {diff : StateDiff} {cap : ℕ} {run : DiffRun}

theorem optionLen_le (color : Option UInt8) : optionLen color ≤ 2 := by
  cases color with
  | none => exact Nat.le_succ 1
  | some n => exact le_rfl

/-- What the estimate allows of a run fits into the body: with the row in two bytes the header of
the run has at most 11. -/
theorem left_fits (h : diff.InRange) (hrun : run.InRange) (hrow : run.row < 16384)
    (hcap : 1200 ≤ cap) {n : ℕ} (hn : utf8Len (run.chars.take n) ≤ cap - 13 - diff.headerSize) :
    diff.headerSize + (run.left n).postcardLen < cap - 1 := by
  have hheader := h.headerSize_le
  have hlen : (run.left n).postcardLen = varintLen run.row + varintLen run.startCol + 1
      + optionLen run.fg + optionLen run.bg + varintLen (utf8Len (run.chars.take n))
      + utf8Len (run.chars.take n) := rfl
  have htext : utf8Len (run.chars.take n) ≤ 4 * 1000 := by
    have hbytes := utf8Len_le (run.chars.take n)
    have hchars := hrun.end_le
    rw [List.length_take] at hbytes
    omega
  have hrowLen : varintLen run.row ≤ 2 := varintLen_le (by decide) hrow
  have hcol : varintLen run.startCol ≤ 2 := by
    have hend := hrun.end_le
    exact varintLen_le (by decide) (show run.startCol < 16384 by omega)
  have hstr : varintLen (utf8Len (run.chars.take n)) ≤ 2 :=
    varintLen_le (by decide) (htext.trans_lt (by decide))
  have hfg := optionLen_le run.fg
  have hbg := optionLen_le run.bg
  omega

/-- **With nothing kept yet, an iteration keeps something of its run.** -/
theorem fillStep_encoded_ne_nil (h : diff.InRange) (hrun : run.InRange) (hrow : run.row < 16384)
    (hcap : 1200 ≤ cap) (deferred : List DiffRun) :
    (fillStep StateDiff.postcardSize { diff with runs := [] } (cap - 1) ⟨[], deferred⟩ run).encoded
      ≠ [] := by
  have hheader := h.headerSize_le
  have hwhole := diff.postcardSize_singleton run
  have hnone := diff.postcardSize_header
  have hremaining : cap - 1 - (diff.headerSize + runHeaderOverhead) =
      cap - 13 - diff.headerSize := by
    unfold runHeaderOverhead
    omega
  obtain ⟨hfits, hlongest⟩ := fitCharsInBytes_spec run.chars (cap - 13 - diff.headerSize)
  have hleft := diff.postcardSize_singleton
    (run.left (fitCharsInBytes run.chars (cap - 13 - diff.headerSize)))
  -- the front that is cut off has a character
  have hpos : 0 < fitCharsInBytes run.chars (cap - 13 - diff.headerSize) := by
    obtain ⟨ch, chars, hchars⟩ := List.exists_cons_of_ne_nil hrun.chars_ne
    have hsize := ch.utf8Size_le_four
    refine hlongest 1 ?_ ?_
    · rw [hchars]
      exact Nat.succ_le_succ (Nat.zero_le _)
    · rw [hchars, List.take_succ_cons, List.take_zero, utf8Len_cons]
      change ch.utf8Size + 0 ≤ _
      omega
  have hroom : 0 < cap - 13 - diff.headerSize := by omega
  unfold fillStep
  simp only [List.nil_append, hwhole, hnone, hremaining, hleft, if_pos hroom, if_pos hpos,
    if_pos (left_fits h hrun hrow hcap hfits)]
  split
  · exact List.cons_ne_nil _ _
  · exact List.cons_ne_nil _ _

end First

/-! ## One datagram -/

section Datagram

variable {diff : StateDiff} {cap : ℕ}
variable {acc : Fill}

/-- What is kept stays kept. -/
theorem foldl_fillStep_encoded_ne_nil {serializedSize : StateDiff → ℕ} (header : StateDiff)
    (bodyCap : ℕ) (runs : List DiffRun) (h : acc.encoded ≠ []) :
    (runs.foldl (fillStep serializedSize header bodyCap) acc).encoded ≠ [] := by
  induction runs generalizing acc with
  | nil => exact h
  | cons run runs ih =>
      refine ih ?_
      rcases fillStep_encoded header bodyCap acc run with hsame | ⟨n, hmore⟩
      · rw [hsame]
        exact h
      · rw [hmore]
        exact List.append_ne_nil_of_left_ne_nil h _

/-- An iteration cuts no run into an empty piece. -/
theorem fillStep_chars_ne {serializedSize : StateDiff → ℕ} (header : StateDiff) (bodyCap : ℕ)
    {run : DiffRun} (hacc : ∀ r ∈ acc.encoded ++ acc.deferred, r.chars ≠ [])
    (hrun : run.chars ≠ []) :
    ∀ r ∈ (fillStep serializedSize header bodyCap acc run).encoded
        ++ (fillStep serializedSize header bodyCap acc run).deferred, r.chars ≠ [] := by
  rw [List.forall_mem_append] at hacc
  obtain ⟨henc, hdef⟩ := hacc
  have hwhole : ∀ r ∈ acc.encoded ++ (acc.deferred ++ [run]), r.chars ≠ [] := by
    rw [List.forall_mem_append, List.forall_mem_append, List.forall_mem_singleton]
    exact ⟨henc, hdef, hrun⟩
  unfold fillStep
  split
  · rw [List.forall_mem_append, List.forall_mem_append, List.forall_mem_singleton]
    exact ⟨⟨henc, hrun⟩, hdef⟩
  · dsimp only
    split
    · split
      · rename_i hpos
        split
        · rw [List.forall_mem_append, List.forall_mem_append, List.forall_mem_singleton]
          refine ⟨⟨henc, ?_⟩, ?_⟩
          · change run.chars.take _ ≠ []
            rw [Ne, List.take_eq_nil_iff, not_or]
            exact ⟨by omega, hrun⟩
          · split
            · exact hdef
            · rename_i hmore
              rw [List.forall_mem_append, List.forall_mem_singleton]
              exact ⟨hdef, fun hnil => hmore (List.isEmpty_iff.mpr hnil)⟩
        · exact hwhole
      · exact hwhole
    · exact hwhole

theorem foldl_fillStep_chars_ne (serializedSize : StateDiff → ℕ) (header : StateDiff) (bodyCap : ℕ)
    {runs : List DiffRun} (hacc : ∀ r ∈ acc.encoded ++ acc.deferred, r.chars ≠ [])
    (hruns : ∀ run ∈ runs, run.chars ≠ []) :
    ∀ r ∈ (runs.foldl (fillStep serializedSize header bodyCap) acc).encoded
        ++ (runs.foldl (fillStep serializedSize header bodyCap) acc).deferred, r.chars ≠ [] := by
  induction runs generalizing acc with
  | nil => exact hacc
  | cons run runs ih =>
      obtain ⟨hrun, hrest⟩ := List.forall_mem_cons.mp hruns
      exact ih (fillStep_chars_ne header bodyCap hacc hrun) hrest

/-- The run is one of a screen with less than 16384 rows. -/
structure DiffRun.OnScreen (run : DiffRun) : Prop extends run.InRange where
  row_lt : run.row < 16384

/-- The pieces of a run are in its row and within its columns. -/
theorem DiffRun.piece_within {run : DiffRun} (h : run.row < 16384 ∧
    run.startCol + run.chars.length ≤ 1000) (n : ℕ) (hn : n ≤ run.chars.length) :
    ((run.left n).row < 16384 ∧ (run.left n).startCol + (run.left n).chars.length ≤ 1000) ∧
      (run.right n).row < 16384 ∧
        (run.right n).startCol + (run.right n).chars.length ≤ 1000 := by
  have hmod : n % 65536 ≤ n := Nat.mod_le _ _
  refine ⟨⟨h.1, ?_⟩, h.1, ?_⟩
  · change run.startCol + (run.chars.take n).length ≤ 1000
    rw [List.length_take]
    omega
  · change min (run.startCol + n % 65536) u16Max + (run.chars.drop n).length ≤ 1000
    rw [List.length_drop]
    omega

/-- What a datagram of the runs carries and defers. -/
structure Cuts (diff : StateDiff) (cap : ℕ) (d : StateDiff) (deferred : List DiffRun) : Prop where
  ok : encodeDatagram StateDiff.postcardSize diff cap = some (.ok (d, deferred))
  carries : diff.runs ≠ [] → 0 < charCount d.runs
  defers : ∀ run ∈ deferred, run.OnScreen
  count : charCount d.runs + charCount deferred = charCount diff.runs

/-- **A diff in range is encoded**, and its datagram carries a character if the diff has one. -/
theorem StateDiff.InRange.cuts (h : diff.InRange) (hcap : 1200 ≤ cap)
    (hruns : ∀ run ∈ diff.runs, run.OnScreen) : ∃ d deferred, Cuts diff cap d deferred := by
  have hheader := h.headerSize_le
  obtain ⟨d, deferred, hok⟩ :=
    encodeDatagram_of_headerSize (show diff.headerSize + 1 < cap by omega)
  have hsorted : diff.sortedRuns.Perm diff.runs := List.perm_insertionSort _ _
  have hmem : ∀ run ∈ diff.sortedRuns, run.OnScreen :=
    fun run hrun => hruns run (hsorted.mem_iff.mp hrun)
  have hrange := encodeDatagram_forall
    (P := fun run => run.row < 16384 ∧ run.startCol + run.chars.length ≤ 1000) hok
    (fun _ hpiece n hn => DiffRun.piece_within hpiece n hn)
    fun run hrun => ⟨(hruns run hrun).row_lt, (hruns run hrun).end_le⟩
  have hbounded : ∀ run ∈ diff.runs, run.Bounded := fun run hrun =>
    (hruns run hrun).end_le.trans (by decide)
  have hperm := ((encodeDatagram_perm hok hbounded).1).length_eq
  have hempty : ∀ r ∈ (⟨[], []⟩ : Fill).encoded ++ (⟨[], []⟩ : Fill).deferred, r.chars ≠ [] := by
    rintro r ⟨⟩
  have hchars := foldl_fillStep_chars_ne StateDiff.postcardSize { diff with runs := [] } (cap - 1)
    hempty fun run hrun => (hmem run hrun).chars_ne
  obtain ⟨rfl, rfl, -⟩ := encodeDatagram_eq_ok hok
  rw [List.forall_mem_append] at hrange hchars
  refine ⟨_, _, hok, fun hne => ?_, fun run hrun => ?_, ?_⟩
  · -- the first run of the loop is not deferred whole, and what is kept stays kept
    refine (charCount_pos_iff hchars.1).mpr ?_
    have hsome : diff.sortedRuns ≠ [] := fun hnil => hne (hsorted.symm.trans (by rw [hnil])).eq_nil
    obtain ⟨run, runs, hcons⟩ := List.exists_cons_of_ne_nil hsome
    have hrun := hmem run (by rw [hcons]; exact List.mem_cons_self)
    rw [hcons]
    exact foldl_fillStep_encoded_ne_nil _ _ runs
      (fillStep_encoded_ne_nil h hrun.toInRange hrun.row_lt hcap [])
  · obtain ⟨hrow, hend⟩ := hrange.2 run hrun
    exact ⟨⟨hrow.le.trans (by decide), hend, hchars.2 run hrun⟩, hrow⟩
  · rw [List.length_append, length_runCells, length_runCells, length_runCells] at hperm
    exact hperm

end Datagram

end Nosh.Proto

namespace Nosh.Server

open Nosh.Lib Nosh.Proto

/-! ## A burst -/

/-- The datagram carries a character, and less is deferred. -/
def Progresses (diff : StateDiff) (cap : ℕ) : Prop :=
  ∃ d deferred, encodeDatagram StateDiff.postcardSize diff cap = some (.ok (d, deferred)) ∧
    0 < charCount d.runs ∧ charCount deferred < charCount diff.runs

/-- What a burst of so many datagrams leaves over, on a transport that takes all of them. -/
def Leaves (diff : StateDiff) (cap budget : ℕ) (left : List DiffRun) : Prop :=
  ∃ out, burstLoop StateDiff.postcardSize (Conn.ideal cap) diff cap budget 0 diff.runs = some out ∧
    out.leftover = left

/-- Enough datagrams leave nothing over. -/
def Drains (diff : StateDiff) (cap : ℕ) : Prop := ∃ budget, Leaves diff cap budget []

section Burst

variable {diff : StateDiff} {cap : ℕ}

/-- **The burst loop comes to an end**: every datagram takes a character off the runs. -/
theorem burstLoop_drains (h : diff.InRange) (hcap : 1200 ≤ cap) (budget count : ℕ)
    {runs : List DiffRun} (hruns : ∀ run ∈ runs, run.OnScreen)
    (hbudget : charCount runs ≤ budget) :
    ∃ out, burstLoop StateDiff.postcardSize (Conn.ideal cap) diff cap budget count runs = some out ∧
      out.leftover = [] := by
  induction budget generalizing count runs with
  | zero =>
      have hnil : runs = [] := by
        by_contra hne
        have hpos := (charCount_pos_iff fun run hrun => (hruns run hrun).chars_ne).mpr hne
        omega
      exact ⟨_, rfl, hnil⟩
  | succ budget ih =>
      by_cases hnil : runs = []
      · subst hnil
        exact ⟨_, burstLoop_nil .., rfl⟩
      · have hrange : ({ diff with runs := runs } : StateDiff).InRange :=
          ⟨h.epoch_lt, h.cols_le, h.rows_le, h.cursor_row_le, h.cursor_col_le,
            fun run hrun => (hruns run hrun).toInRange⟩
        obtain ⟨d, deferred, hcuts⟩ := hrange.cuts hcap hruns
        have hpos := hcuts.carries hnil
        have hcount : charCount d.runs + charCount deferred = charCount runs := hcuts.count
        obtain ⟨out, hloop, hleft⟩ := ih (count + 1) hcuts.defers (by omega)
        refine ⟨{ out with sent := d :: out.sent }, ?_, hleft⟩
        have hgo : ¬ (runs.isEmpty = true ∨ (Conn.ideal cap).bufferSpace count < cap) := by
          rw [not_or, List.isEmpty_iff]
          exact ⟨hnil, lt_irrefl cap⟩
        rw [burstLoop, if_neg hgo, hcuts.ok]
        change (burstLoop _ _ _ _ _ _ _).map _ = _
        rw [hloop]
        rfl

theorem progresses (h : diff.InRange) (hne : diff.runs ≠ []) (hcap : 1200 ≤ cap)
    (hruns : ∀ run ∈ diff.runs, run.OnScreen) : Progresses diff cap := by
  obtain ⟨d, deferred, hcuts⟩ := h.cuts hcap hruns
  have hpos := hcuts.carries hne
  have hcount := hcuts.count
  exact ⟨d, deferred, hcuts.ok, hpos, by omega⟩

/-- On the screens that there are, with rows of at most two bytes, every burst drains. -/
theorem drains_of_rows (h : diff.InRange) (hne : diff.runs ≠ []) (hcap : 1200 ≤ cap)
    (hrows : ∀ run ∈ diff.runs, run.row < 16384) : Progresses diff cap ∧ Drains diff cap := by
  have hruns : ∀ run ∈ diff.runs, run.OnScreen :=
    fun run hrun => ⟨h.runs run hrun, hrows run hrun⟩
  exact ⟨progresses h hne hcap hruns, _, burstLoop_drains h hcap _ 0 hruns le_rfl⟩

/-- **Progress of a burst.** Where the runs are those of a screen, which has at most 1000 rows, the
datagram carries a character of them, less is deferred, and encoding what is deferred again and
again empties it in at most as many datagrams as there are characters. -/
theorem burst_progresses (h : diff.InRange) (hne : diff.runs ≠ []) (hcap : 1200 ≤ cap)
    (hrows : ∀ run ∈ diff.runs, run.row < 1000) :
    Progresses diff cap ∧ ∃ budget ≤ charCount diff.runs, Leaves diff cap budget [] := by
  have hruns : ∀ run ∈ diff.runs, run.OnScreen :=
    fun run hrun => ⟨h.runs run hrun, (hrows run hrun).trans (by decide)⟩
  exact ⟨progresses h hne hcap hruns, _, le_rfl, burstLoop_drains h hcap _ 0 hruns le_rfl⟩

end Burst

/-- Three full rows of a screen of 1000 columns, the last one in three-byte characters. -/
def threeRows : StateDiff :=
  ⟨300, 1000, 24, ⟨2, 999⟩, false,
    [⟨0, 0, .none, none, none, List.replicate 1000 'a'⟩,
      ⟨1, 0, .none, some 1, some 0, List.replicate 1000 'b'⟩,
      ⟨2, 0, .none, none, none, List.replicate 1000 '世'⟩]⟩

theorem threeRows_inRange : threeRows.InRange where
  epoch_lt := by decide
  cols_le := by decide
  rows_le := by decide
  cursor_row_le := by decide
  cursor_col_le := by decide
  runs := by
    intro run hrun
    simp only [threeRows, List.mem_cons, List.not_mem_nil, or_false] at hrun
    obtain rfl | rfl | rfl := hrun
    all_goals
      refine ⟨by decide, ?_, List.cons_ne_nil _ _⟩
      rw [List.length_replicate]

theorem threeRows_row_lt : ∀ run ∈ threeRows.runs, run.row < 1000 := by
  decide +kernel

/-- The bottom rows go first: four datagrams leave the end of the top row over. -/
theorem drains_of_rows_threeRows :
    Drains threeRows 1200 ∧
      (burstLoop StateDiff.postcardSize (Conn.ideal 1200) threeRows 1200 4 0 threeRows.runs).map
        (fun out => out.leftover.map fun run => (run.row, run.startCol)) = some [(0, 688)] :=
  ⟨(drains_of_rows threeRows_inRange (List.cons_ne_nil _ _) le_rfl fun run hrun =>
    (threeRows_row_lt run hrun).trans (by decide)).2, by decide +kernel⟩

theorem burst_progresses_threeRows :
    Progresses threeRows 1200 ∧
      ∃ budget ≤ charCount threeRows.runs, Leaves threeRows 1200 budget [] :=
  burst_progresses threeRows_inRange (List.cons_ne_nil _ _) le_rfl threeRows_row_lt

end Nosh.Server
