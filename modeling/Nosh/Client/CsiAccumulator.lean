import Nosh.Client.Pump
import Nosh.Lib.KeyScan

/-!
# Paging keys on stdin

`CsiAccumulator` of `nosh-client/src/main.rs` takes the sequences of Shift-PageUp and Shift-PageDown
out of what is read from stdin. A read may end inside such a sequence, so bytes that may become one
are held back until the next read decides. The model is that of a release build: the assertion on
the length of `pending` is a debug assertion.

## Main Definitions

* `CsiAccumulator.process` — one read
* `CsiAccumulator.forward` — the bytes that a sequence of reads passes on
* `pagingKeys` — the two sequences, as keys to be found in a stream

## Main Results

* `process_reads` — one call reads `pending` and the input as the stream of keys and bytes that
  they are the beginning of.
* `forward_eq_strip` — **what is passed on and what is held back is the stream without the paging
  keys**, however it was cut into reads.
-/

namespace Nosh.Client

open Lib

variable {key : List UInt8}

/-- `CSI_SHIFT_PAGEUP`. -/
def csiShiftPageup : List UInt8 := [0x1B, 0x5B, 0x35, 0x3B, 0x32, 0x7E]

/-- `CSI_SHIFT_PAGEDOWN`. -/
def csiShiftPagedown : List UInt8 := [0x1B, 0x5B, 0x36, 0x3B, 0x32, 0x7E]

/-- `CsiResult::default`. -/
def CsiResult.default : CsiResult := ⟨false, false, []⟩

/-- `is_paging_prefix`. -/
def isPagingPrefix (bytes : List UInt8) : Bool :=
  if bytes.isEmpty ∨ 6 ≤ bytes.length then false
  else bytes == csiShiftPageup.take bytes.length || bytes == csiShiftPagedown.take bytes.length

/-- `CsiAccumulator`. -/
structure CsiAccumulator where
  pending : List UInt8
  deriving DecidableEq, Repr

namespace CsiAccumulator

/-- `CsiAccumulator::new`. -/
def new : CsiAccumulator := ⟨[]⟩

/-- The loop of `process` on the bytes that are not consumed yet, with the result and the bytes that
are kept. A turn consumes a byte at least, so that there are not more turns than bytes. -/
def processLoop : ℕ → List UInt8 → CsiResult → CsiResult × List UInt8
  | 0, remaining, result => (result, remaining)
  | _ + 1, [], result => (result, [])
  | turns + 1, byte :: rest, result =>
      let remaining := byte :: rest
      if 6 ≤ remaining.length ∧ remaining.take 6 = csiShiftPageup then
        processLoop turns (remaining.drop 6) { result with shiftPageup := true }
      else if 6 ≤ remaining.length ∧ remaining.take 6 = csiShiftPagedown then
        processLoop turns (remaining.drop 6) { result with shiftPagedown := true }
      else if isPagingPrefix remaining then (result, remaining)
      else
        processLoop turns rest
          { result with nonPagingRemainder := result.nonPagingRemainder ++ [byte] }

/-- `CsiAccumulator::process`. -/
def process (acc : CsiAccumulator) (input : List UInt8) : CsiResult × CsiAccumulator :=
  let bytes := acc.pending ++ input
  let out := processLoop bytes.length bytes .default
  (out.1, ⟨out.2⟩)

/-- A sequence of reads, with the bytes that are passed on. -/
def forward (acc : CsiAccumulator) : List (List UInt8) → List UInt8 × CsiAccumulator
  | [] => ([], acc)
  | input :: reads =>
      let out := acc.process input
      let rest := out.2.forward reads
      (out.1.nonPagingRemainder ++ rest.1, rest.2)

end CsiAccumulator

/-! ## The keys in a stream -/

/-- The sequences that are taken out. -/
def pagingKeys : Keys UInt8 where
  keys := [csiShiftPageup, csiShiftPagedown]
  size := 6
  size_pos := by decide
  length_eq := by decide

theorem mem_pagingKeys : key ∈ pagingKeys.keys ↔ key = csiShiftPageup ∨ key = csiShiftPagedown := by
  change key ∈ [csiShiftPageup, csiShiftPagedown] ↔ _
  simp

theorem isPagingPrefix_iff {bytes : List UInt8} (hne : bytes ≠ []) :
    isPagingPrefix bytes = true ↔ pagingKeys.Begins bytes := by
  have hstarts : ∀ key : List UInt8, bytes <+: key ↔ bytes = key.take bytes.length :=
    fun _ => List.prefix_iff_eq_take
  unfold isPagingPrefix Keys.Begins
  by_cases hlength : 6 ≤ bytes.length
  · rw [if_pos (Or.inr hlength)]
    exact iff_of_false Bool.false_ne_true fun h => absurd h.1 (Nat.not_lt.mpr hlength)
  · have hnot : ¬ (bytes.isEmpty = true ∨ 6 ≤ bytes.length) := by
      rintro (h | h)
      · exact hne (List.isEmpty_iff.mp h)
      · exact hlength h
    rw [if_neg hnot, Bool.or_eq_true, beq_iff_eq, beq_iff_eq]
    constructor
    · rintro (h | h)
      · exact ⟨Nat.not_le.mp hlength, _, mem_pagingKeys.mpr (.inl rfl), (hstarts _).mpr h⟩
      · exact ⟨Nat.not_le.mp hlength, _, mem_pagingKeys.mpr (.inr rfl), (hstarts _).mpr h⟩
    · rintro ⟨-, key, hkey, hle⟩
      rcases mem_pagingKeys.mp hkey with rfl | rfl
      · exact .inl ((hstarts _).mp hle)
      · exact .inr ((hstarts _).mp hle)

/-- A full match consumes the key. -/
theorem eq_append_of_take {remaining : List UInt8} (h : remaining.take 6 = key) :
    remaining = key ++ remaining.drop 6 := by
  rw [← h, List.take_append_drop]

theorem prefix_iff_take {remaining : List UInt8} (hkey : key.length = 6) :
    key <+: remaining ↔ 6 ≤ remaining.length ∧ remaining.take 6 = key := by
  rw [List.prefix_iff_eq_take, hkey]
  constructor
  · intro h
    have hlength := congrArg List.length h
    rw [List.length_take, hkey] at hlength
    exact ⟨by omega, h.symm⟩
  · exact fun h => h.2.symm

namespace CsiAccumulator

/-- What a call makes of a byte or a key. -/
def see (result : CsiResult) : UInt8 ⊕ List UInt8 → CsiResult
  | .inl byte => { result with nonPagingRemainder := result.nonPagingRemainder ++ [byte] }
  | .inr key =>
      { result with
        shiftPageup := result.shiftPageup || key == csiShiftPageup
        shiftPagedown := result.shiftPagedown || key == csiShiftPagedown }

theorem see_pageup (result : CsiResult) :
    see result (.inr csiShiftPageup) = { result with shiftPageup := true } := by
  have hother : (csiShiftPageup == csiShiftPagedown) = false := by decide
  simp [see, hother]

theorem see_pagedown (result : CsiResult) :
    see result (.inr csiShiftPagedown) = { result with shiftPagedown := true } := by
  have hother : (csiShiftPagedown == csiShiftPageup) = false := by decide
  simp [see, hother]

theorem nonPagingRemainder_foldl_see (toks : List (UInt8 ⊕ List UInt8)) (result : CsiResult) :
    (toks.foldl see result).nonPagingRemainder =
      result.nonPagingRemainder ++ toks.filterMap Sum.getLeft? := by
  induction toks generalizing result with
  | nil => exact (List.append_nil _).symm
  | cons tok toks ih =>
      rw [List.foldl_cons, ih]
      cases tok with
      | inl byte => simp [see]
      | inr key => rfl

/-- The loop reads what is left of `pending`, and the result is that of the tokens. -/
theorem processLoop_reads {turns : ℕ} {remaining : List UInt8} (hturns : remaining.length ≤ turns)
    (result : CsiResult) :
    ∃ toks held, pagingKeys.Reads remaining toks held ∧
      processLoop turns remaining result = (toks.foldl see result, held) := by
  induction turns generalizing remaining result with
  | zero =>
      rw [List.length_eq_zero_iff.mp (Nat.le_zero.mp hturns)]
      exact ⟨[], [], .nil, rfl⟩
  | succ turns ih =>
      cases remaining with
      | nil => exact ⟨[], [], .nil, rfl⟩
      | cons byte rest =>
          rw [List.length_cons] at hturns
          have hdrop : ((byte :: rest).drop 6).length ≤ turns := by
            rw [List.length_drop, List.length_cons]
            omega
          rw [processLoop]
          split_ifs with hup hdown hhold
          · obtain ⟨toks, held, hreads, hloop⟩ := ih hdrop { result with shiftPageup := true }
            refine ⟨.inr csiShiftPageup :: toks, held, ?_, ?_⟩
            · rw [eq_append_of_take hup.2]
              exact hreads.key (mem_pagingKeys.mpr (.inl rfl))
            · rw [hloop, List.foldl_cons, see_pageup]
          · obtain ⟨toks, held, hreads, hloop⟩ := ih hdrop { result with shiftPagedown := true }
            refine ⟨.inr csiShiftPagedown :: toks, held, ?_, ?_⟩
            · rw [eq_append_of_take hdown.2]
              exact hreads.key (mem_pagingKeys.mpr (.inr rfl))
            · rw [hloop, List.foldl_cons, see_pagedown]
          · have hbegins := (isPagingPrefix_iff (List.cons_ne_nil byte rest)).mp hhold
            exact ⟨[], byte :: rest, .hold hbegins, rfl⟩
          · obtain ⟨toks, held, hreads, hloop⟩ := ih (Nat.le_of_succ_le_succ hturns)
              { result with nonPagingRemainder := result.nonPagingRemainder ++ [byte] }
            refine ⟨.inl byte :: toks, held, hreads.plain ?_ ?_, hloop⟩
            · intro key hkey hle
              rcases mem_pagingKeys.mp hkey with rfl | rfl
              · exact hup ((prefix_iff_take rfl).mp hle)
              · exact hdown ((prefix_iff_take rfl).mp hle)
            · intro hbegins
              exact hhold ((isPagingPrefix_iff (List.cons_ne_nil byte rest)).mpr hbegins)

/-- One call reads what was pending and the input. -/
theorem process_reads (acc : CsiAccumulator) (input : List UInt8) :
    ∃ toks, pagingKeys.Reads (acc.pending ++ input) toks (acc.process input).2.pending ∧
      (acc.process input).1 = toks.foldl see .default := by
  obtain ⟨toks, held, hreads, hloop⟩ :=
    processLoop_reads (Nat.le_refl (acc.pending ++ input).length) .default
  unfold process
  dsimp only
  rw [hloop]
  exact ⟨toks, hreads, rfl⟩

/-- A sequence of reads, of a stream that `pending` is the rest of. -/
theorem forward_reads {acc : CsiAccumulator} {stream : List UInt8}
    {toks : List (UInt8 ⊕ List UInt8)} (h : pagingKeys.Reads stream toks acc.pending)
    (reads : List (List UInt8)) :
    ∃ toks', pagingKeys.Reads (stream ++ reads.flatten) (toks ++ toks')
        (acc.forward reads).2.pending ∧
      (acc.forward reads).1 = toks'.filterMap Sum.getLeft? := by
  induction reads generalizing acc stream toks with
  | nil =>
      refine ⟨[], ?_, rfl⟩
      rw [List.flatten_nil, List.append_nil, List.append_nil]
      exact h
  | cons input reads ih =>
      obtain ⟨now, hnow, hresult⟩ := acc.process_reads input
      obtain ⟨later, hlater, hforward⟩ := ih (h.append hnow)
      refine ⟨now ++ later, ?_, ?_⟩
      · rw [List.flatten_cons, ← List.append_assoc, ← List.append_assoc]
        exact hlater
      · rw [forward]
        dsimp only
        rw [hforward, hresult, nonPagingRemainder_foldl_see, List.filterMap_append]
        rfl

/-- The reads of a fresh accumulator read the stream. -/
theorem forward_new_reads (reads : List (List UInt8)) :
    ∃ toks, pagingKeys.Reads reads.flatten toks (new.forward reads).2.pending ∧
      (new.forward reads).1 = toks.filterMap Sum.getLeft? :=
  @forward_reads new [] [] .nil reads

end CsiAccumulator

open CsiAccumulator in
/-- What is passed on and what is held back is the stream without the paging keys, at most five
bytes are held back, and neither depends on how the stream was cut into reads. -/
theorem forward_eq_strip (reads : List (List UInt8)) :
    (new.forward reads).1 ++ (new.forward reads).2.pending = pagingKeys.strip reads.flatten ∧
      (new.forward reads).2.pending.length ≤ 5 ∧
      ∀ reads' : List (List UInt8), reads'.flatten = reads.flatten →
        new.forward reads' = new.forward reads := by
  obtain ⟨toks, hreads, hforward⟩ := forward_new_reads reads
  refine ⟨?_, Nat.le_of_lt_succ hreads.length_held_lt, fun reads' hflatten => ?_⟩
  · rw [hforward, hreads.strip_eq]
  · obtain ⟨toks', hreads', hforward'⟩ := forward_new_reads reads'
    rw [hflatten] at hreads'
    obtain ⟨rfl, hpending⟩ := hreads'.unique hreads
    refine Prod.ext (hforward'.trans hforward.symm) ?_
    exact congrArg CsiAccumulator.mk hpending

end Nosh.Client
