import Nosh.Lib.Transducer

/-!
# The escapes `~.` and `~~`

The escape machine of `nosh-client/src/main.rs`, between the local stdin and what is sent to the
server. A tilde at the start of a line is held back until the next byte decides: `~.` quits, `~~`
sends one tilde, and with any other byte both are sent.

What the machine should do is said about positions of the stream, without states: where it quits,
and which bytes are left out. The state after some bytes is then a function of the last two of them
(`stateAfter`), so that the machine does not depend on how the bytes were read.

## Main Definitions

* `EscapeState.process` — one call, on what was read from stdin
* `EscapeState.processAll` — call after call, until one reports `quit`
* `QuitsAt` — a `~.` at the start of a line
* `unescaped` — a stream without the first tilde of each `~~` at the start of a line

## Main Results

* `step_stateAfter` — one byte takes the state and the output after some bytes to those with it.
* `process_correct` — **the machine quits at the first `~.`, and passes on what is before it,
  unescaped**, however the stream was read.
-/

namespace Nosh.Client

open Nosh.Lib

variable {before : List UInt8} {byte : UInt8}

/-- `b'~'`. -/
def tilde : UInt8 := 0x7E

/-- `b'.'`. -/
def dot : UInt8 := 0x2E

/-- `matches!(byte, b'\n' | b'\r')`. -/
def isLineEnd (byte : UInt8) : Bool := byte == 0x0A || byte == 0x0D

/-- `EscapeState`. -/
inductive EscapeState
  | lineStart
  | seenTilde
  | midLine
  deriving DecidableEq, Repr

/-- `EscapeResult`. -/
structure EscapeResult where
  bytesToForward : List UInt8
  quit : Bool
  deriving DecidableEq, Repr

namespace EscapeState

/-- `EscapeState::new`. -/
def new : EscapeState := .lineStart

/-- The state after a byte that was passed on. -/
def afterForwarded (byte : UInt8) : EscapeState := if isLineEnd byte then .lineStart else .midLine

/-- The body of the loop of `process`: the next state and what is pushed to `out`. There is no step
for the byte at which the loop is left with `quit`. -/
def step : EscapeState → UInt8 → Option (EscapeState × List UInt8)
  | .lineStart, byte =>
      if byte = tilde then some (.seenTilde, []) else some (afterForwarded byte, [byte])
  | .seenTilde, byte =>
      if byte = dot then none
      else if byte = tilde then some (.midLine, [tilde])
      else some (afterForwarded byte, [tilde, byte])
  | .midLine, byte => some (afterForwarded byte, [byte])

/-- The loop as a transducer of bytes. -/
def machine : Transducer EscapeState UInt8 UInt8 := ⟨step⟩

/-- What a call returns, and the state that is left. -/
def ofFed (fed : Transducer.Fed EscapeState UInt8) : EscapeResult × EscapeState :=
  (⟨fed.out, fed.stopped⟩, fed.state)

/-- `EscapeState::process`. -/
def process (state : EscapeState) (input : List UInt8) : EscapeResult × EscapeState :=
  ofFed (machine.feed state input)

/-- Call after call, until one reports `quit`; the bytes to forward are put together. -/
def processAll (state : EscapeState) (reads : List (List UInt8)) : EscapeResult × EscapeState :=
  ofFed (machine.feedAll state reads)

end EscapeState

/-! ## Positions of a stream -/

/-- The position is at the start of the stream or right after CR or LF. -/
def atLineStart (stream : List UInt8) : ℕ → Bool
  | 0 => true
  | i + 1 => (stream[i]?).any isLineEnd

/-- There is a tilde at the start of a line. -/
def tildeAt (stream : List UInt8) (i : ℕ) : Bool :=
  atLineStart stream i && stream[i]? == some tilde

/-- The escape `~~` is at the position. -/
def DoubledAt (stream : List UInt8) (i : ℕ) : Prop :=
  tildeAt stream i = true ∧ stream[i + 1]? = some tilde

/-- The escape `~.` is at the position, and its tilde is not the second one of `~~`. -/
def QuitsAt (stream : List UInt8) (i : ℕ) : Prop :=
  tildeAt stream i = true ∧ stream[i + 1]? = some dot ∧ ∀ j, j + 1 = i → ¬ DoubledAt stream j

/-- The byte at the position, unless it is the first tilde of `~~` at the start of a line, or a
tilde at the start of a line with nothing behind it. -/
def kept (stream : List UInt8) (i : ℕ) : Option UInt8 :=
  if tildeAt stream i && (stream[i + 1]? == some tilde || stream[i + 1]? == none) then none
  else stream[i]?

/-- The stream with one tilde for each `~~` at the start of a line, and without a tilde at the start
of a line that ends it. -/
def unescaped (stream : List UInt8) : List UInt8 :=
  (List.range stream.length).filterMap (kept stream)

theorem quitsAt_iff {stream : List UInt8} {i : ℕ} :
    QuitsAt stream i ↔ tildeAt stream i = true ∧ stream[i + 1]? = some dot := by
  refine ⟨fun h => ⟨h.1, h.2.1⟩, fun h => ⟨h.1, h.2, ?_⟩⟩
  rintro j rfl hdoubled
  -- the byte before the start of a line is no tilde
  have hstart := (Bool.and_eq_true_iff.mp h.1).1
  have htilde := (Bool.and_eq_true_iff.mp hdoubled.1).2
  rw [beq_iff_eq] at htilde
  rw [atLineStart, htilde] at hstart
  exact absurd hstart (by decide)

section Local

variable {stream : List UInt8} {i : ℕ} (more : List UInt8)

/-! What is said about a position depends on the bytes up to the next one. -/

theorem atLineStart_append (h : i ≤ stream.length) :
    atLineStart (stream ++ more) i = atLineStart stream i := by
  cases i with
  | zero => rfl
  | succ i => rw [atLineStart, atLineStart, List.getElem?_append_left h]

theorem tildeAt_append (h : i < stream.length) :
    tildeAt (stream ++ more) i = tildeAt stream i := by
  rw [tildeAt, tildeAt, atLineStart_append more (Nat.le_of_lt h), List.getElem?_append_left h]

theorem quitsAt_append (h : i + 1 < stream.length) :
    QuitsAt (stream ++ more) i ↔ QuitsAt stream i := by
  rw [quitsAt_iff, quitsAt_iff, tildeAt_append more (Nat.lt_of_succ_lt h),
    List.getElem?_append_left h]

theorem kept_append (h : i + 1 < stream.length) : kept (stream ++ more) i = kept stream i := by
  rw [kept, kept, tildeAt_append more (Nat.lt_of_succ_lt h), List.getElem?_append_left h,
    List.getElem?_append_left (Nat.lt_of_succ_lt h)]

end Local

/-! ## The state after some bytes -/

/-- The state that the machine is in after these bytes. -/
def stateAfter (before : List UInt8) : EscapeState :=
  if atLineStart before before.length then .lineStart
  else if tildeAt before (before.length - 1) then .seenTilde
  else .midLine

section Concat

variable (before : List UInt8) (byte : UInt8)

theorem atLineStart_concat :
    atLineStart (before ++ [byte]) (before ++ [byte]).length = isLineEnd byte := by
  rw [List.length_append, List.length_singleton, atLineStart, List.getElem?_concat_length]
  rfl

theorem tildeAt_concat :
    tildeAt (before ++ [byte]) before.length =
      (atLineStart before before.length && byte == tilde) := by
  rw [tildeAt, atLineStart_append _ (Nat.le_refl _), List.getElem?_concat_length]
  rfl

theorem stateAfter_concat :
    stateAfter (before ++ [byte]) =
      if isLineEnd byte then .lineStart
      else if atLineStart before before.length && byte == tilde then .seenTilde
      else .midLine := by
  rw [stateAfter, atLineStart_concat, List.length_append, List.length_singleton,
    Nat.add_sub_cancel, tildeAt_concat]

/-- A byte that is not held back decides the state alone. -/
theorem stateAfter_forwarded (h : (atLineStart before before.length && byte == tilde) = false) :
    stateAfter (before ++ [byte]) = EscapeState.afterForwarded byte := by
  rw [stateAfter_concat, h, EscapeState.afterForwarded]
  rfl

theorem kept_concat :
    kept (before ++ [byte]) before.length =
      if atLineStart before before.length && byte == tilde then none else some byte := by
  have hend : (before ++ [byte])[before.length + 1]? = none := by
    rw [List.getElem?_eq_none_iff, List.length_append]
    exact Nat.le_refl _
  rw [kept, tildeAt_concat, List.getElem?_concat_length, hend]
  simp

theorem stateAfter_concat_eq_seenTilde_iff :
    stateAfter (before ++ [byte]) = .seenTilde ↔
      (atLineStart before before.length && byte == tilde) = true := by
  rw [stateAfter_concat]
  constructor
  · intro h
    split at h
    · cases h
    · split at h
      · assumption
      · cases h
  · intro h
    have hbyte : byte = tilde := by
      rw [Bool.and_eq_true, beq_iff_eq] at h
      exact h.2
    rw [if_neg (by rw [hbyte]; decide), if_pos h]

/-- The next byte decides about a tilde that was held back. -/
theorem filterMap_kept_append :
    (List.range before.length).filterMap (kept (before ++ [byte])) =
      unescaped before ++
        if stateAfter before = .seenTilde ∧ byte ≠ tilde then [tilde] else [] := by
  rcases before.eq_nil_or_concat' with rfl | ⟨init, last, rfl⟩
  · rfl
  · have hearlier : (List.range init.length).filterMap (kept (init ++ [last] ++ [byte])) =
        (List.range init.length).filterMap (kept (init ++ [last])) := by
      refine List.filterMap_congr fun i hi => kept_append [byte] ?_
      rw [List.length_append, List.length_singleton]
      exact Nat.succ_lt_succ (List.mem_range.mp hi)
    have hlast : kept (init ++ [last] ++ [byte]) init.length =
        if (atLineStart init init.length && last == tilde) && byte == tilde then none
        else some last := by
      have hlength : init.length < (init ++ [last]).length := by simp
      have hnext : (init ++ [last] ++ [byte])[init.length + 1]? = some byte := by
        have hget : (init ++ [last] ++ [byte])[(init ++ [last]).length]? = some byte :=
          List.getElem?_concat_length
        rwa [List.length_append] at hget
      rw [kept, tildeAt_append [byte] hlength, tildeAt_concat, hnext,
        List.getElem?_append_left hlength, List.getElem?_concat_length]
      simp
    have hseen := stateAfter_concat_eq_seenTilde_iff init last
    rw [unescaped, List.length_append, List.length_singleton, List.range_succ,
      List.filterMap_append, List.filterMap_append, hearlier]
    refine Eq.trans (congrArg _ ?_) (List.append_assoc _ _ _).symm
    rw [List.filterMap_cons, List.filterMap_cons, hlast, kept_concat]
    cases hheld : atLineStart init init.length && last == tilde with
    | false => simp [hseen, hheld]
    | true =>
        obtain rfl : last = tilde := beq_iff_eq.mp (Bool.and_eq_true_iff.mp hheld).2
        have hpending : stateAfter (init ++ [tilde]) = .seenTilde := hseen.mpr hheld
        by_cases hbyte : byte = tilde
        · simp [hbyte]
        · simp [hpending, hbyte]

/-- One byte more: a tilde that was held back is decided, and the byte may be held back itself. -/
theorem unescaped_concat :
    unescaped (before ++ [byte]) =
      unescaped before ++
        (if stateAfter before = .seenTilde ∧ byte ≠ tilde then [tilde] else []) ++
        (if atLineStart before before.length && byte == tilde then [] else [byte]) := by
  rw [← filterMap_kept_append, unescaped, List.length_append, List.length_singleton,
    List.range_succ, List.filterMap_append, List.filterMap_cons, kept_concat]
  cases atLineStart before before.length && byte == tilde <;> rfl

end Concat

theorem stateAfter_eq_lineStart_iff :
    stateAfter before = .lineStart ↔ atLineStart before before.length = true := by
  unfold stateAfter
  split
  · exact iff_of_true rfl ‹_›
  · refine iff_of_false ?_ ‹_›
    split <;> nofun

/-- A tilde at the start of a line is held back. -/
theorem unescaped_concat_tilde {init : List UInt8} (h : atLineStart init init.length = true) :
    unescaped (init ++ [tilde]) = unescaped init := by
  rw [unescaped_concat, stateAfter_eq_lineStart_iff.mpr h, h]
  simp

/-- A tilde is held back at the start of a line only. -/
theorem not_held (h : stateAfter before ≠ .lineStart) (byte : UInt8) :
    (atLineStart before before.length && byte == tilde) = false := by
  rw [Ne, stateAfter_eq_lineStart_iff, Bool.not_eq_true] at h
  rw [h]
  rfl

/-- **One byte takes the state and the output after some bytes to those with it.** -/
theorem step_stateAfter {next : EscapeState} {written : List UInt8}
    (h : (stateAfter before).step byte = some (next, written)) :
    next = stateAfter (before ++ [byte]) ∧
      unescaped (before ++ [byte]) = unescaped before ++ written := by
  rw [unescaped_concat, List.append_assoc]
  cases hstate : stateAfter before with
  | lineStart =>
      have hline := stateAfter_eq_lineStart_iff.mp hstate
      rw [hstate, EscapeState.step] at h
      split at h
      · rename_i hbyte
        cases h
        have hheld : (atLineStart before before.length && byte == tilde) = true := by
          rw [hline, hbyte]
          rfl
        rw [hheld]
        exact ⟨((stateAfter_concat_eq_seenTilde_iff before byte).mpr hheld).symm, rfl⟩
      · rename_i hbyte
        cases h
        have hsent : (atLineStart before before.length && byte == tilde) = false := by
          rw [beq_eq_false_iff_ne.mpr hbyte, Bool.and_false]
        rw [hsent]
        exact ⟨(stateAfter_forwarded before byte hsent).symm, rfl⟩
  | seenTilde =>
      have hsent := not_held (by rw [hstate]; decide) byte
      rw [hsent, stateAfter_forwarded before byte hsent]
      rw [hstate, EscapeState.step] at h
      split at h
      · cases h
      · split at h
        · rename_i hbyte
          cases h
          rw [hbyte]
          exact ⟨rfl, rfl⟩
        · rename_i hbyte
          cases h
          rw [if_pos ⟨rfl, hbyte⟩]
          exact ⟨rfl, rfl⟩
  | midLine =>
      have hsent := not_held (by rw [hstate]; decide) byte
      rw [hsent, stateAfter_forwarded before byte hsent]
      rw [hstate] at h
      cases h
      exact ⟨rfl, rfl⟩

/-- The byte at which the machine stops. -/
theorem step_eq_none_iff {state : EscapeState} :
    state.step byte = none ↔ state = .seenTilde ∧ byte = dot := by
  cases state with
  | lineStart =>
      rw [EscapeState.step]
      split <;> simp
  | seenTilde =>
      rw [EscapeState.step]
      split
      · exact iff_of_true rfl ⟨rfl, ‹_›⟩
      · split <;> exact iff_of_false nofun fun h => ‹¬ byte = dot› h.2
  | midLine => simp [EscapeState.step]

/-- After a tilde that is held back, the next byte is the one that may quit. -/
theorem stateAfter_eq_seenTilde_iff :
    stateAfter before = .seenTilde ↔
      ∃ init, before = init ++ [tilde] ∧ atLineStart init init.length = true := by
  constructor
  · intro h
    rcases before.eq_nil_or_concat' with rfl | ⟨init, last, rfl⟩
    · cases h
    · rw [stateAfter_concat_eq_seenTilde_iff, Bool.and_eq_true, beq_iff_eq] at h
      exact ⟨init, by rw [h.2], h.1⟩
  · rintro ⟨init, rfl, hline⟩
    rw [stateAfter_concat_eq_seenTilde_iff, hline]
    rfl

/-- Where the byte after some bytes completes a `~.`. -/
theorem quitsAt_concat_iff (hnone : ∀ j, ¬ QuitsAt before j) {i : ℕ} :
    QuitsAt (before ++ [byte]) i ↔
      i + 1 = before.length ∧ stateAfter before = .seenTilde ∧ byte = dot := by
  constructor
  · intro h
    obtain ⟨htilde, hdot⟩ := quitsAt_iff.mp h
    have hlength := (List.getElem?_eq_some_iff.mp hdot).1
    rw [List.length_append, List.length_singleton] at hlength
    by_cases hearlier : i + 1 < before.length
    · exact (hnone i ((quitsAt_append [byte] hearlier).mp h)).elim
    · have hi : i + 1 = before.length := by omega
      rw [hi, List.getElem?_concat_length] at hdot
      rw [tildeAt_append [byte] (by omega)] at htilde
      refine ⟨hi, ?_, Option.some.inj hdot⟩
      rcases before.eq_nil_or_concat' with rfl | ⟨init, last, rfl⟩
      · cases hi
      · rw [List.length_append, List.length_singleton] at hi
        rw [Nat.succ.inj hi, tildeAt_concat] at htilde
        exact (stateAfter_concat_eq_seenTilde_iff init last).mpr htilde
  · rintro ⟨hi, hstate, rfl⟩
    obtain ⟨init, rfl, hline⟩ := stateAfter_eq_seenTilde_iff.mp hstate
    rw [List.length_append, List.length_singleton] at hi
    rw [Nat.succ.inj hi, quitsAt_iff]
    constructor
    · rw [tildeAt_append [dot] (by simp), tildeAt_concat, hline]
      rfl
    · have hget : (init ++ [tilde] ++ [dot])[(init ++ [tilde]).length]? = some dot :=
        List.getElem?_concat_length
      rwa [List.length_append] at hget

/-! ## Runs of the machine -/

/-- What holds while the machine goes on: there was no `~.`, the output is what was read, unescaped,
and the state is that of the bytes. -/
structure Escaping (before : List UInt8) (state : EscapeState) (out : List UInt8) : Prop where
  running : ∀ i, ¬ QuitsAt before i
  state_eq : state = stateAfter before
  out_eq : out = unescaped before

theorem escaping_new : Escaping [] .new [] := by
  refine ⟨fun i h => ?_, rfl, rfl⟩
  have hdot := (quitsAt_iff.mp h).2
  rw [List.getElem?_nil] at hdot
  cases hdot

theorem Escaping.step {state : EscapeState} {out : List UInt8} (h : Escaping before state out)
    {next : EscapeState} {written : List UInt8} (hstep : state.step byte = some (next, written)) :
    Escaping (before ++ [byte]) next (out ++ written) := by
  obtain ⟨hrunning, rfl, rfl⟩ := h
  obtain ⟨hnext, hwritten⟩ := step_stateAfter hstep
  refine ⟨fun i hquits => ?_, hnext, hwritten.symm⟩
  obtain ⟨-, hstate, hbyte⟩ := (quitsAt_concat_iff hrunning).mp hquits
  rw [step_eq_none_iff.mpr ⟨hstate, hbyte⟩] at hstep
  cases hstep

/-- The machine does not stop: there is no `~.` in the stream. It stops: the first `~.` is where it
stops. -/
theorem process_spec (stream : List UInt8) :
    ((EscapeState.new.process stream).1.quit = false ∧ (∀ i, ¬ QuitsAt stream i) ∧
        (EscapeState.new.process stream).1.bytesToForward = unescaped stream) ∨
      ((EscapeState.new.process stream).1.quit = true ∧
        ∃ i, QuitsAt stream i ∧ (∀ j < i, ¬ QuitsAt stream j) ∧
          (EscapeState.new.process stream).1.bytesToForward = unescaped (stream.take i)) := by
  have hfeed := @Transducer.feed_invariant _ _ _ EscapeState.machine Escaping
    (fun _ _ _ _ _ _ h hstep => h.step hstep) [] _ [] escaping_new stream
  rw [List.nil_append, List.nil_append] at hfeed
  cases hstopped : (EscapeState.machine.feed .new stream).stopped with
  | false =>
      have h := hfeed.1 hstopped
      exact .inl ⟨hstopped, h.running, h.out_eq⟩
  | true =>
      obtain ⟨read, byte, rest, rfl, h, hstep⟩ := hfeed.2 hstopped
      rw [List.nil_append] at h
      obtain ⟨hstate, rfl⟩ := step_eq_none_iff.mp hstep
      rw [h.state_eq] at hstate
      obtain ⟨init, rfl, hline⟩ := stateAfter_eq_seenTilde_iff.mp hstate
      have hlength : (init ++ [tilde]).length = init.length + 1 := List.length_append
      have hquits : QuitsAt (init ++ [tilde] ++ [dot]) init.length :=
        (quitsAt_concat_iff h.running).mpr ⟨hlength.symm, hstate, rfl⟩
      refine .inr ⟨hstopped, init.length, ?_, fun j hj hquit => ?_, ?_⟩
      · rw [List.append_cons]
        exact (quitsAt_append rest (by simp)).mpr hquits
      · refine h.running j ((quitsAt_append (dot :: rest) ?_).mp hquit)
        rw [hlength]
        exact Nat.succ_lt_succ hj
      · have htake : (init ++ [tilde] ++ dot :: rest).take init.length = init := by
          rw [List.append_assoc, List.take_left]
        rw [htake]
        exact h.out_eq.trans (unescaped_concat_tilde hline)

open EscapeState in
/-- **The machine quits exactly if there is a `~.`, and passes on what is before the first one,
unescaped**, or the whole stream; neither depends on how the stream was read. -/
theorem process_correct (reads : List (List UInt8)) :
    ((new.processAll reads).1.quit = true ↔ ∃ i, QuitsAt reads.flatten i) ∧
      (∀ i, QuitsAt reads.flatten i → (∀ j < i, ¬ QuitsAt reads.flatten j) →
        (new.processAll reads).1.bytesToForward = unescaped (reads.flatten.take i)) ∧
      ((∀ i, ¬ QuitsAt reads.flatten i) →
        (new.processAll reads).1.bytesToForward = unescaped reads.flatten) ∧
      ∀ reads' : List (List UInt8), reads'.flatten = reads.flatten →
        new.processAll reads' = new.processAll reads := by
  have hall : ∀ reads, new.processAll reads = new.process reads.flatten := by
    intro reads
    rw [processAll, Transducer.feedAll_eq_feed_flatten, process]
  refine ⟨?_, ?_, ?_, fun reads' h => ?_⟩
  · rw [hall]
    rcases process_spec reads.flatten with ⟨hquit, hnone, -⟩ | ⟨hquit, i, hi, -⟩
    · rw [hquit]
      exact iff_of_false Bool.false_ne_true fun ⟨i, hi⟩ => hnone i hi
    · exact iff_of_true hquit ⟨i, hi⟩
  · intro i hi hfirst
    rw [hall]
    rcases process_spec reads.flatten with ⟨-, hnone, -⟩ | ⟨-, k, hk, hbefore, hout⟩
    · exact (hnone i hi).elim
    · have hle : i ≤ k := Nat.le_of_not_lt fun hlt => hfirst k hlt hk
      have hge : k ≤ i := Nat.le_of_not_lt fun hlt => hbefore i hlt hi
      rw [hout, Nat.le_antisymm hle hge]
  · intro hnone
    rw [hall]
    rcases process_spec reads.flatten with ⟨-, -, hout⟩ | ⟨-, i, hi, -⟩
    · exact hout
    · exact (hnone i hi).elim
  · rw [hall, hall, h]

end Nosh.Client
