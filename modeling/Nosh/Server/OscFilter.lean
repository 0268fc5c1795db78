import Nosh.Lib.Machine

/-!
# The OSC prefilter

`TerminalState::advance` scans every chunk of PTY output before the parser sees it, so that
the parser never accumulates more than `OSC_ACCUMULATION_MAX` bytes of one OSC string. The
scanner looks one byte ahead inside a chunk and keeps three fields between chunks; the parser
keeps its own state and never tells the scanner about it.

The scanner is an automaton on bytes that is told where a chunk ends (`Shadow`), and
`oscPrefilter_eq` says so. What the prefilter is worth is then a question about two automata
that read the same bytes: is the one inside an OSC string whenever the other is?

## Main Definitions

* `Vte` — what the parser does with a byte, as far as OSC strings and RIS are concerned
* `oscPrefilter`, `OscTerminal.advance` — the scanner and the call around it
* `Shadow`, `lockstep` — the scanner byte by byte, beside the parser

## Main Results

* `oscPrefilter_eq` — the loop with its look-ahead is the automaton.
* `accumulated_bounded` — the bound, as long as the scanner notices every OSC string that the
  parser opens.
* `prefilter_transparent` — nothing is dropped, as long as the scanner takes nothing else for
  an OSC string.
-/

namespace Nosh.Server

open Lib

/-- `OSC_ACCUMULATION_MAX`. -/
def oscAccumulationMax : ℕ := 1048576

/-! ## The parser -/

/-- The state of `vte::Parser`. `ground` stands for every state that only ESC leaves towards
one of the others. -/
inductive Vte
  | ground
  | escape
  | escapeIntermediate
  | osc (accumulated : ℕ)
  deriving DecidableEq, Repr

namespace Vte

/-- The parser reads a byte. ESC, CAN and SUB act in every state. -/
def step (v : Vte) (byte : UInt8) : Vte :=
  if byte = 0x1B then .escape
  else if byte = 0x18 ∨ byte = 0x1A then .ground
  else
    match v with
    | .ground => .ground
    | .escape =>
        if byte = 0x5D then .osc 0
        else if 0x20 ≤ byte ∧ byte ≤ 0x2F then .escapeIntermediate
        else if 0x30 ≤ byte ∧ byte ≤ 0x7E then .ground
        else .escape
    | .escapeIntermediate =>
        if 0x30 ≤ byte ∧ byte ≤ 0x7E then .ground else .escapeIntermediate
    | .osc n => if byte = 0x07 then .ground else .osc (n + 1)

/-- The parser reads a slice. -/
def feed (v : Vte) (bytes : List UInt8) : Vte := bytes.foldl step v

/-- The payload bytes of the current OSC string. -/
def accumulated : Vte → ℕ
  | .osc n => n
  | _ => 0

/-- The byte opens an OSC string. -/
def OpensOsc (v : Vte) (byte : UInt8) : Prop := v = .escape ∧ byte = 0x5D

instance (v : Vte) (byte : UInt8) : Decidable (v.OpensOsc byte) :=
  inferInstanceAs (Decidable (_ ∧ _))

/-- The parser is inside an OSC string. -/
def InOsc : Vte → Prop
  | .osc _ => True
  | _ => False

instance : ∀ v : Vte, Decidable v.InOsc
  | .ground => isFalse id
  | .escape => isFalse id
  | .escapeIntermediate => isFalse id
  | .osc _ => isTrue trivial

/-- The slice holds an escape sequence with the final byte of RIS; `esc_dispatch` ignores the
intermediates. -/
def dispatchesRis : Vte → List UInt8 → Bool
  | _, [] => false
  | v, byte :: bytes =>
      (byte == 0x63 && (v == .escape || v == .escapeIntermediate)) ||
        (v.step byte).dispatchesRis bytes

theorem feed_append (v : Vte) (pre post : List UInt8) :
    v.feed (pre ++ post) = (v.feed pre).feed post :=
  List.foldl_append ..

/-- A payload byte of an OSC string: none of the bytes that end it. -/
theorem step_osc {n : ℕ} {byte : UInt8} (hesc : byte ≠ 0x1B) (hbel : byte ≠ 0x07)
    (hcan : ¬ (byte = 0x18 ∨ byte = 0x1A)) : (osc n).step byte = .osc (n + 1) := by
  simp [step, hesc, hbel, hcan]

/-- An OSC string is entered by the byte that opens it and continued by a payload byte. -/
theorem step_eq_osc {v : Vte} {byte : UInt8} {n : ℕ} (h : v.step byte = .osc n) :
    byte ≠ 0x1B ∧ (v.OpensOsc byte ∧ n = 0 ∨ ∃ m, v = .osc m ∧ n = m + 1 ∧ byte ≠ 0x07) := by
  unfold step at h
  split at h
  · cases h
  · rename_i hesc
    refine ⟨hesc, ?_⟩
    split at h
    · cases h
    · cases v with
      | ground => cases h
      | escape =>
          dsimp only at h
          split at h
          · rename_i hopen
            cases h
            exact Or.inl ⟨⟨rfl, hopen⟩, rfl⟩
          · split at h
            · cases h
            · split at h <;> cases h
      | escapeIntermediate =>
          dsimp only at h
          split at h <;> cases h
      | osc m =>
          dsimp only at h
          split at h
          · cases h
          · rename_i hbel
            cases h
            exact Or.inr ⟨m, rfl, rfl, hbel⟩

end Vte

/-! ## The scanner -/

/-- The fields of `TerminalState` that `osc_prefilter` keeps between calls. -/
structure OscScanner where
  inOsc : Bool
  oscByteCount : ℕ
  pendingEsc : Bool
  deriving DecidableEq, Repr

/-- What an overflow, RIS and `TerminalState::new` leave. -/
def OscScanner.reset : OscScanner := ⟨false, 0, false⟩

/-- The loop goes on behind bytes that are passed on. -/
def passOn (bytes : List UInt8) (rest : OscScanner × List UInt8) : OscScanner × List UInt8 :=
  (rest.1, bytes ++ rest.2)

/-- The loop of `osc_prefilter`: the fields it commits and the prefix it returns. -/
def oscScan : Bool → ℕ → List UInt8 → OscScanner × List UInt8
  | inOsc, count, [] => (⟨inOsc, count, false⟩, [])
  | false, count, b :: bytes =>
      if b = 0x9D then passOn [b] (oscScan true 0 bytes)
      else if b = 0x1B then
        match bytes with
        | [] => (⟨false, count, false⟩, [b])
        | next :: rest =>
            if next = 0x5D then passOn [b, next] (oscScan true 0 rest)
            else passOn [b] (oscScan false count (next :: rest))
      else passOn [b] (oscScan false count bytes)
  | true, count, b :: bytes =>
      if b = 0x07 then passOn [b] (oscScan false 0 bytes)
      else if b = 0x1B then
        match bytes with
        -- whether this ESC begins ST is left to the next call
        | [] => (⟨true, count, true⟩, [b])
        | next :: rest =>
            if next = 0x5C then passOn [b, next] (oscScan false 0 rest)
            else passOn [b] (oscScan false 0 (next :: rest))
      else if oscAccumulationMax < count + 1 then (.reset, [])
      else passOn [b] (oscScan true (count + 1) bytes)

/-- `osc_prefilter`: the new fields and the bytes to feed. -/
def oscPrefilter (s : OscScanner) (bytes : List UInt8) : OscScanner × List UInt8 :=
  if s.pendingEsc ∧ s.inOsc then
    if bytes.head? = some 0x5C then passOn (bytes.take 1) (oscScan false 0 (bytes.drop 1))
    else if oscAccumulationMax < s.oscByteCount + 1 then (.reset, [])
    else oscScan true (s.oscByteCount + 1) bytes
  else oscScan s.inOsc s.oscByteCount bytes

/-- The part of `TerminalState` that decides what the parser reads. -/
structure OscTerminal where
  scanner : OscScanner
  parser : Vte
  deriving DecidableEq, Repr

namespace OscTerminal

/-- `TerminalState::new`. -/
def new : OscTerminal := ⟨.reset, .ground⟩

/-- What `advance` feeds to the parser. -/
def fed (t : OscTerminal) (bytes : List UInt8) : List UInt8 := (oscPrefilter t.scanner bytes).2

/-- `TerminalState::advance`. RIS is dispatched while the parser is fed, after the scan. -/
def advance (t : OscTerminal) (bytes : List UInt8) : OscTerminal where
  scanner :=
    if t.parser.dispatchesRis (t.fed bytes) then .reset else (oscPrefilter t.scanner bytes).1
  parser :=
    if (t.fed bytes).length < bytes.length then .ground else t.parser.feed (t.fed bytes)

/-- A call that drops nothing keeps the parser. -/
theorem parser_advance {t : OscTerminal} {bytes : List UInt8} (h : t.fed bytes = bytes) :
    (t.advance bytes).parser = t.parser.feed bytes := by
  simp [advance, h]

/-- A stream is a sequence of calls. -/
def calls : Machine OscTerminal (List UInt8) where
  step t bytes := some (t.advance bytes)

end OscTerminal

/-! ## The scanner byte by byte -/

/-- Where the scanner is between two bytes: outside or inside an OSC string, with or without an
ESC just read, or at the start of a call after an ESC at the end of the last one. -/
inductive Shadow
  | out
  | escOut
  | inside (count : ℕ)
  | escIn (count : ℕ)
  | pending (count : ℕ)
  deriving DecidableEq, Repr

namespace Shadow

/-- A byte outside an OSC string. -/
def outStep (byte : UInt8) : Shadow :=
  if byte = 0x9D then .inside 0 else if byte = 0x1B then .escOut else .out

/-- A byte inside an OSC string; `none` is the overflow. -/
def inStep (count : ℕ) (byte : UInt8) : Option Shadow :=
  if byte = 0x07 then some .out
  else if byte = 0x1B then some (.escIn count)
  else if oscAccumulationMax < count + 1 then none
  else some (.inside (count + 1))

/-- The scanner reads a byte. -/
def step : Shadow → UInt8 → Option Shadow
  | .out, byte => some (outStep byte)
  | .escOut, byte => some (if byte = 0x5D then .inside 0 else outStep byte)
  | .inside count, byte => inStep count byte
  | .escIn _, byte => some (if byte = 0x5C then .out else outStep byte)
  | .pending count, byte =>
      if byte = 0x5C then some .out
      else if oscAccumulationMax < count + 1 then none
      else inStep (count + 1) byte

/-- The scanner reads a chunk: where it ends, and the prefix it passes on. -/
def scan : Shadow → List UInt8 → Option Shadow × List UInt8
  | a, [] => (some a, [])
  | a, byte :: bytes =>
      match a.step byte with
      | none => (none, [])
      | some a' => ((scan a' bytes).1, byte :: (scan a' bytes).2)

/-- Where the scanner starts the next call. An ESC outside an OSC string is forgotten, and an
empty call turns a pending ESC into payload. -/
def endCall : Option Shadow → Shadow
  | none => .out
  | some .out => .out
  | some .escOut => .out
  | some (.inside count) => .inside count
  | some (.escIn count) => .pending count
  | some (.pending count) =>
      if oscAccumulationMax < count + 1 then .out else .inside (count + 1)

/-- What the fields mean at the start of a call. -/
def ofScanner (s : OscScanner) : Shadow :=
  if s.inOsc then if s.pendingEsc then .pending s.oscByteCount else .inside s.oscByteCount
  else .out

/-- The scanner is inside an OSC string. -/
def IsInside : Shadow → Prop
  | .inside _ => True
  | _ => False

instance : ∀ a : Shadow, Decidable a.IsInside
  | .out => isFalse id
  | .escOut => isFalse id
  | .inside _ => isTrue trivial
  | .escIn _ => isFalse id
  | .pending _ => isFalse id

/-- The last call ended with an ESC inside an OSC string. -/
def IsPending : Shadow → Prop
  | .pending _ => True
  | _ => False

instance : ∀ a : Shadow, Decidable a.IsPending
  | .out => isFalse id
  | .escOut => isFalse id
  | .inside _ => isFalse id
  | .escIn _ => isFalse id
  | .pending _ => isTrue trivial

/-- The bytes counted so far. -/
def count : Shadow → ℕ
  | .inside count => count
  | .escIn count => count
  | .pending count => count
  | _ => 0

theorem scan_cons {a a' : Shadow} {byte : UInt8} (h : a.step byte = some a')
    (bytes : List UInt8) :
    a.scan (byte :: bytes) = ((a'.scan bytes).1, byte :: (a'.scan bytes).2) := by
  rw [scan, h]

theorem scan_cons_overflow {a : Shadow} {byte : UInt8} (h : a.step byte = none)
    (bytes : List UInt8) : a.scan (byte :: bytes) = (none, []) := by
  rw [scan, h]

/-- Two states that treat the next byte alike go on alike. -/
theorem scan_congr {a b : Shadow} {byte : UInt8} (h : a.step byte = b.step byte)
    (bytes : List UInt8) : a.scan (byte :: bytes) = b.scan (byte :: bytes) := by
  rw [scan, scan, h]

end Shadow

/-- The fields and the prefix of the loop are those of the automaton. -/
def Simulates (r : OscScanner × List UInt8) (a : Shadow) (bytes : List UInt8) : Prop :=
  Shadow.ofScanner r.1 = Shadow.endCall (a.scan bytes).1 ∧ r.2 = (a.scan bytes).2

variable {a a' : Shadow} {byte : UInt8} {bytes : List UInt8} {s : Shadow × Vte} {v : Vte}

theorem Simulates.cons {r : OscScanner × List UInt8} (h : Simulates r a' bytes)
    (hstep : a.step byte = some a') : Simulates (passOn [byte] r) a (byte :: bytes) := by
  unfold Simulates passOn
  rw [Shadow.scan_cons hstep]
  exact ⟨h.1, congrArg (byte :: ·) h.2⟩

theorem Simulates.cons₂ {r : OscScanner × List UInt8} {a'' : Shadow} {next : UInt8}
    (h : Simulates r a'' bytes) (hstep : a.step byte = some a') (hnext : a'.step next = some a'') :
    Simulates (passOn [byte, next] r) a (byte :: next :: bytes) :=
  (h.cons hnext).cons hstep

theorem simulates_overflow (bytes : List UInt8) (h : a.step byte = none) :
    Simulates (.reset, []) a (byte :: bytes) := by
  unfold Simulates
  rw [Shadow.scan_cons_overflow h]
  exact ⟨rfl, rfl⟩

/-- Where the loop starts. -/
def scanStart : Bool → ℕ → Shadow
  | true, count => .inside count
  | false, _ => .out

/-- The loop is the automaton. -/
theorem oscScan_simulates (inOsc : Bool) (count : ℕ) (bytes : List UInt8) :
    Simulates (oscScan inOsc count bytes) (scanStart inOsc count) bytes := by
  -- the recursion of the loop: one byte, or two when the look-ahead is consumed
  fun_induction oscScan inOsc count bytes with
  | case1 inOsc count =>
      cases inOsc <;> exact ⟨rfl, rfl⟩
  | case2 count bytes ih => exact ih.cons rfl
  | case3 count => exact ⟨rfl, rfl⟩
  | case4 count rest _ ih => exact ih.cons₂ rfl rfl
  | case5 count next rest hnext _ ih =>
      have hsame : Shadow.escOut.step next = Shadow.out.step next := by
        simp [Shadow.step, hnext]
      have hesc : Simulates (oscScan false count (next :: rest)) .escOut (next :: rest) := by
        unfold Simulates
        rw [Shadow.scan_congr hsame]
        exact ih
      exact hesc.cons rfl
  | case6 count b bytes h9d hesc ih =>
      refine ih.cons ?_
      simp [scanStart, Shadow.step, Shadow.outStep, h9d, hesc]
  | case7 count bytes ih => exact ih.cons rfl
  | case8 count => exact ⟨rfl, rfl⟩
  | case9 count rest _ ih => exact ih.cons₂ rfl rfl
  | case10 count next rest hnext _ ih =>
      have hsame : (Shadow.escIn count).step next = Shadow.out.step next := by
        simp [Shadow.step, hnext]
      have hesc : Simulates (oscScan false 0 (next :: rest)) (.escIn count) (next :: rest) := by
        unfold Simulates
        rw [Shadow.scan_congr hsame]
        exact ih
      exact hesc.cons rfl
  | case11 count b bytes hbel hesc hmax =>
      refine simulates_overflow bytes ?_
      simp [scanStart, Shadow.step, Shadow.inStep, hbel, hesc, hmax]
  | case12 count b bytes hbel hesc hmax ih =>
      refine ih.cons ?_
      simp [scanStart, Shadow.step, Shadow.inStep, hbel, hesc, hmax]

/-- **The prefilter is the automaton**: started from what the fields mean, it passes on the
same prefix and leaves fields that mean where it stopped. -/
theorem oscPrefilter_eq (s : OscScanner) (bytes : List UInt8) :
    Simulates (oscPrefilter s bytes) (Shadow.ofScanner s) bytes := by
  obtain ⟨inOsc, count, pendingEsc⟩ := s
  cases inOsc with
  | false =>
      rw [oscPrefilter, if_neg (by simp)]
      exact oscScan_simulates false count bytes
  | true =>
      cases pendingEsc with
      | false =>
          rw [oscPrefilter, if_neg (by simp)]
          exact oscScan_simulates true count bytes
      | true =>
          rw [oscPrefilter, if_pos ⟨rfl, rfl⟩]
          change Simulates _ (.pending count) bytes
          cases bytes with
          | nil =>
              rw [if_neg (by simp)]
              split
              · rename_i hmax
                exact ⟨(if_pos hmax).symm, rfl⟩
              · rename_i hmax
                exact ⟨(if_neg hmax).symm, rfl⟩
          | cons b bytes =>
              by_cases hst : b = 0x5C
              · subst hst
                rw [if_pos (List.head?_cons ..)]
                exact (oscScan_simulates false 0 bytes).cons rfl
              · rw [if_neg (by simpa using hst)]
                split
                · rename_i hmax
                  refine simulates_overflow bytes ?_
                  simp [Shadow.step, hst, hmax]
                · rename_i hmax
                  have hsame :
                      (Shadow.pending count).step b = (Shadow.inside (count + 1)).step b := by
                    simp [Shadow.step, hst, hmax]
                  unfold Simulates
                  rw [Shadow.scan_congr hsame]
                  exact oscScan_simulates true (count + 1) (b :: bytes)

theorem fed_eq (t : OscTerminal) (bytes : List UInt8) :
    t.fed bytes = ((Shadow.ofScanner t.scanner).scan bytes).2 :=
  (oscPrefilter_eq t.scanner bytes).2

/-- Where the scanner starts the call after this one, if no RIS is dispatched. -/
theorem ofScanner_prefilter (t : OscTerminal) (bytes : List UInt8) :
    Shadow.ofScanner (oscPrefilter t.scanner bytes).1 =
      Shadow.endCall ((Shadow.ofScanner t.scanner).scan bytes).1 :=
  (oscPrefilter_eq t.scanner bytes).1

/-! ## Scanner and parser in lockstep -/

/-- Scanner and parser read the same byte; the run ends where the scanner overflows. -/
def lockstep : Machine (Shadow × Vte) UInt8 where
  step s byte := (s.1.step byte).map fun a => (a, s.2.step byte)

theorem lockstep_step (v : Vte) (h : a.step byte = some a') :
    lockstep.step (a, v) byte = some (a', v.step byte) := by
  simp only [lockstep, h, Option.map_some]

/-- What a lockstep step is. -/
theorem lockstep_inv {s' : Shadow × Vte} (h : lockstep.step s byte = some s') :
    s.1.step byte = some s'.1 ∧ s'.2 = s.2.step byte := by
  obtain ⟨a, ha, rfl⟩ := Option.map_eq_some_iff.mp h
  exact ⟨ha, rfl⟩

/-- The parser's half of a lockstep run. -/
theorem lockstep_feed {s' : Shadow × Vte} (h : lockstep.run s bytes = some s') :
    s'.2 = s.2.feed bytes := by
  induction bytes generalizing s with
  | nil =>
      cases h
      rfl
  | cons byte bytes ih =>
      rw [Machine.run_cons, Option.bind_eq_some_iff] at h
      obtain ⟨s₁, hstep, hrun⟩ := h
      rw [ih hrun, (lockstep_inv hstep).2]
      rfl

/-- The scanner passes on a prefix of the chunk: what the two read together, and everything if
there is no overflow. -/
theorem lockstep_run_scan (a : Shadow) (v : Vte) (bytes : List UInt8) :
    (a.scan bytes).2 <+: bytes ∧
      ∃ s', lockstep.run (a, v) (a.scan bytes).2 = some s' ∧
        ∀ a', (a.scan bytes).1 = some a' → s'.1 = a' ∧ (a.scan bytes).2 = bytes := by
  induction bytes generalizing a v with
  | nil =>
      refine ⟨List.prefix_rfl, (a, v), rfl, ?_⟩
      rintro a' ha'
      cases ha'
      exact ⟨rfl, rfl⟩
  | cons byte bytes ih =>
      cases hstep : a.step byte with
      | none =>
          rw [Shadow.scan_cons_overflow hstep]
          refine ⟨List.nil_prefix, (a, v), rfl, ?_⟩
          rintro a' ha'
          cases ha'
      | some a₁ =>
          rw [Shadow.scan_cons hstep]
          obtain ⟨hpre, s', hrun, hend⟩ := ih a₁ (v.step byte)
          refine ⟨List.cons_prefix_cons.mpr ⟨rfl, hpre⟩, s', ?_, ?_⟩
          · rw [Machine.run_cons, lockstep_step v hstep]
            exact hrun
          · intro a' ha'
            exact ⟨(hend a' ha').1, congrArg (byte :: ·) (hend a' ha').2⟩

/-- A chunk that overflows is cut short. -/
theorem Shadow.length_scan_lt (h : (a.scan bytes).1 = none) :
    (a.scan bytes).2.length < bytes.length := by
  induction bytes generalizing a with
  | nil => cases h
  | cons byte bytes ih =>
      cases hstep : a.step byte with
      | none =>
          rw [Shadow.scan_cons_overflow hstep]
          exact Nat.succ_pos _
      | some a' =>
          rw [Shadow.scan_cons hstep] at h ⊢
          exact Nat.succ_lt_succ (ih h)

/-- **The call rule.** What holds where a call starts and is kept by every byte that meets the
guard holds at every byte that is fed, and where the call stops. -/
theorem lockstep_call {inv : Shadow × Vte → Prop} {ok : Shadow × Vte → UInt8 → Prop}
    (hstep : ∀ s byte s', inv s → ok s byte → lockstep.step s byte = some s' → inv s')
    (h0 : inv (a, v)) (hok : lockstep.Along ok (a, v) bytes) :
    (∀ pre, pre <+: (a.scan bytes).2 → ∃ a', inv (a', v.feed pre)) ∧
      ∀ a', (a.scan bytes).1 = some a' → inv (a', v.feed bytes) := by
  obtain ⟨hfed, s', hrun, hend⟩ := lockstep_run_scan a v bytes
  have hprefix : ∀ pre s, pre <+: bytes → lockstep.run (a, v) pre = some s → inv s := by
    rintro pre s ⟨post, rfl⟩ hpre
    rw [lockstep.along_append hpre] at hok
    exact lockstep.invariant_along inv hstep h0 hok.1 hpre
  constructor
  · intro pre hpre
    obtain ⟨post, hpost⟩ := hpre
    rw [← hpost, Machine.run_append, Option.bind_eq_some_iff] at hrun
    obtain ⟨s, hs, -⟩ := hrun
    have hinv := hprefix pre s ((hpost ▸ List.prefix_append pre post).trans hfed) hs
    exact ⟨s.1, lockstep_feed hs ▸ hinv⟩
  · intro a' ha'
    obtain ⟨rfl, hall⟩ := hend a' ha'
    rw [hall] at hrun
    exact lockstep_feed hrun ▸ hprefix bytes s' List.prefix_rfl hrun

/-! ## The bound -/

/-- Where the parser opens an OSC string, the scanner is inside one too. -/
def Notices (s : Shadow × Vte) (byte : UInt8) : Prop :=
  s.2.OpensOsc byte → ∀ a ∈ s.1.step byte, a.IsInside

instance (s : Shadow × Vte) (byte : UInt8) : Decidable (Notices s byte) :=
  inferInstanceAs (Decidable (_ → _))

namespace OscTerminal

/-- The scanner notices every OSC string that the parser opens in the call, and a call that
dispatches RIS does not end inside an OSC string. -/
def Noticed (t : OscTerminal) (bytes : List UInt8) : Prop :=
  lockstep.Along Notices (Shadow.ofScanner t.scanner, t.parser) bytes ∧
    (t.parser.dispatchesRis (t.fed bytes) → ¬ (t.advance bytes).parser.InOsc)

instance (t : OscTerminal) (bytes : List UInt8) : Decidable (t.Noticed bytes) :=
  inferInstanceAs (Decidable (_ ∧ _))

/-- At every byte that is fed, the parser holds at most `OSC_ACCUMULATION_MAX` bytes. -/
def Bounded (t : OscTerminal) (bytes : List UInt8) : Prop :=
  ∀ pre, pre <+: t.fed bytes → (t.parser.feed pre).accumulated ≤ oscAccumulationMax

end OscTerminal

/-- The scanner is inside an OSC string whenever the parser is, and has counted at least as
much of it. -/
structure Tracks (s : Shadow × Vte) : Prop where
  inside : ∀ n, s.2 = .osc n → ∃ m, s.1 = .inside m ∧ n ≤ m
  count : s.1.count ≤ oscAccumulationMax

theorem Tracks.accumulated_le (h : Tracks s) : s.2.accumulated ≤ oscAccumulationMax := by
  cases hv : s.2 with
  | ground => exact Nat.zero_le _
  | escape => exact Nat.zero_le _
  | escapeIntermediate => exact Nat.zero_le _
  | osc n =>
      obtain ⟨m, ha, hle⟩ := h.inside n hv
      have hcount := h.count
      rw [ha] at hcount
      exact Nat.le_trans hle hcount

/-- A parser outside every OSC string is tracked by any scanner. -/
theorem tracks_of_not_inOsc (hcount : a.count ≤ oscAccumulationMax) (h : ¬ v.InOsc) :
    Tracks (a, v) where
  inside := by
    rintro n rfl
    exact absurd trivial h
  count := hcount

/-- A byte inside an OSC string. -/
theorem Shadow.inStep_eq_some {count : ℕ} (h : Shadow.inStep count byte = some a) :
    byte = 0x07 ∧ a = .out ∨ byte = 0x1B ∧ a = .escIn count ∨
      byte ≠ 0x07 ∧ byte ≠ 0x1B ∧ count + 1 ≤ oscAccumulationMax ∧ a = .inside (count + 1) := by
  unfold Shadow.inStep at h
  split at h
  · rename_i hbel
    cases h
    exact Or.inl ⟨hbel, rfl⟩
  · rename_i hbel
    split at h
    · rename_i hesc
      cases h
      exact Or.inr (Or.inl ⟨hesc, rfl⟩)
    · rename_i hesc
      split at h
      · cases h
      · rename_i hmax
        cases h
        exact Or.inr (Or.inr ⟨hbel, hesc, Nat.le_of_not_lt hmax, rfl⟩)

/-- Where a byte takes the scanner: outside, to the start of an OSC string, or on within one. -/
theorem Shadow.step_cases (h : a.step byte = some a') :
    (a' = .out ∨ a' = .escOut ∨ a' = .inside 0) ∨
      ∃ count, Shadow.inStep count byte = some a' ∧
        (a = .inside count ∨ count ≤ oscAccumulationMax) := by
  have hout : Shadow.outStep byte = .out ∨ Shadow.outStep byte = .escOut ∨
      Shadow.outStep byte = .inside 0 := by
    unfold Shadow.outStep
    split
    · exact Or.inr (Or.inr rfl)
    · split
      · exact Or.inr (Or.inl rfl)
      · exact Or.inl rfl
  cases a with
  | out =>
      cases h
      exact Or.inl hout
  | escOut =>
      cases h
      split
      · exact Or.inl (Or.inr (Or.inr rfl))
      · exact Or.inl hout
  | inside count => exact Or.inr ⟨count, h, Or.inl rfl⟩
  | escIn count =>
      cases h
      split
      · exact Or.inl (Or.inl rfl)
      · exact Or.inl hout
  | pending count =>
      dsimp only [Shadow.step] at h
      split at h
      · cases h
        exact Or.inl (Or.inl rfl)
      · split at h
        · cases h
        · rename_i hmax
          exact Or.inr ⟨count + 1, h, Or.inr (Nat.le_of_not_lt hmax)⟩

theorem Shadow.count_inStep {count : ℕ} (hcount : count ≤ oscAccumulationMax)
    (h : Shadow.inStep count byte = some a) : a.count ≤ oscAccumulationMax := by
  obtain ⟨-, rfl⟩ | ⟨-, rfl⟩ | ⟨-, -, hmax, rfl⟩ := Shadow.inStep_eq_some h
  · exact Nat.zero_le _
  · exact hcount
  · exact hmax

/-- The scanner never counts past the limit. -/
theorem Shadow.count_step (hcount : a.count ≤ oscAccumulationMax) (h : a.step byte = some a') :
    a'.count ≤ oscAccumulationMax := by
  obtain (rfl | rfl | rfl) | ⟨count, hin, rfl | hroom⟩ := Shadow.step_cases h
  · exact Nat.zero_le _
  · exact Nat.zero_le _
  · exact Nat.zero_le _
  · exact Shadow.count_inStep hcount hin
  · exact Shadow.count_inStep hroom hin

theorem tracks_step (s : Shadow × Vte) (byte : UInt8) (s' : Shadow × Vte) (h : Tracks s)
    (hok : Notices s byte) (hstep : lockstep.step s byte = some s') : Tracks s' := by
  obtain ⟨ha, hv⟩ := lockstep_inv hstep
  refine ⟨?_, Shadow.count_step h.count ha⟩
  intro n hn
  obtain ⟨hesc, ⟨hopen, rfl⟩ | ⟨m, hm, rfl, hbel⟩⟩ := Vte.step_eq_osc (hv.symm.trans hn)
  · -- the parser opens the string
    have hin := hok hopen s'.1 ha
    cases hs : s'.1 with
    | inside m => exact ⟨m, rfl, Nat.zero_le m⟩
    | out => simp [hs, Shadow.IsInside] at hin
    | escOut => simp [hs, Shadow.IsInside] at hin
    | escIn m => simp [hs, Shadow.IsInside] at hin
    | pending m => simp [hs, Shadow.IsInside] at hin
  · -- both take a payload byte
    obtain ⟨k, hk, hle⟩ := h.inside m hm
    rw [hk] at ha
    obtain ⟨hb, -⟩ | ⟨hb, -⟩ | ⟨-, -, -, hs⟩ := Shadow.inStep_eq_some ha
    · exact absurd hb hbel
    · exact absurd hb hesc
    · exact ⟨k + 1, hs, Nat.succ_le_succ hle⟩

/-- The end of a call loses track of no OSC string. -/
theorem Tracks.endCall (h : Tracks (a, v)) : Tracks (Shadow.endCall (some a), v) := by
  by_cases hv : v.InOsc
  · cases v with
    | osc n =>
        obtain ⟨m, rfl, -⟩ := h.inside n rfl
        exact h
    | ground => cases hv
    | escape => cases hv
    | escapeIntermediate => cases hv
  · refine tracks_of_not_inOsc ?_ hv
    cases a with
    | out => exact Nat.zero_le _
    | escOut => exact Nat.zero_le _
    | inside m => exact h.count
    | escIn m => exact h.count
    | pending m =>
        dsimp only [Shadow.endCall]
        split
        · exact Nat.zero_le _
        · rename_i hmax
          exact Nat.le_of_not_lt hmax

namespace OscTerminal

/-- The scanner tracks the parser between two calls. -/
def Tracked (t : OscTerminal) : Prop := Tracks (Shadow.ofScanner t.scanner, t.parser)

theorem tracked_new : new.Tracked := tracks_of_not_inOsc (Nat.zero_le _) id

/-- Inside a call that is noticed, the parser stays tracked at every byte. -/
theorem Tracked.bounded {t : OscTerminal} (h : t.Tracked) (hok : t.Noticed bytes) :
    t.Bounded bytes := by
  intro pre hpre
  rw [fed_eq] at hpre
  obtain ⟨a', hinv⟩ := (lockstep_call tracks_step h hok.1).1 pre hpre
  exact hinv.accumulated_le

theorem Tracked.advance {t : OscTerminal} (h : t.Tracked) (hok : t.Noticed bytes) :
    (t.advance bytes).Tracked := by
  unfold Tracked
  by_cases hris : t.parser.dispatchesRis (t.fed bytes)
  · have hreset : (t.advance bytes).scanner = .reset := if_pos hris
    rw [hreset]
    exact tracks_of_not_inOsc (Nat.zero_le _) (hok.2 hris)
  · have hscanner : (t.advance bytes).scanner = (oscPrefilter t.scanner bytes).1 := if_neg hris
    rw [hscanner, ofScanner_prefilter]
    cases hscan : ((Shadow.ofScanner t.scanner).scan bytes).1 with
    | none =>
        have hcut : (t.fed bytes).length < bytes.length := by
          rw [fed_eq]
          exact Shadow.length_scan_lt hscan
        have hparser : (t.advance bytes).parser = .ground := if_pos hcut
        rw [hparser]
        exact tracks_of_not_inOsc (Nat.zero_le _) id
    | some a' =>
        obtain ⟨-, s', -, hend⟩ :=
          lockstep_run_scan (Shadow.ofScanner t.scanner) t.parser bytes
        have hfed : t.fed bytes = bytes := (fed_eq t bytes).trans (hend a' hscan).2
        rw [parser_advance hfed]
        exact ((lockstep_call tracks_step h hok.1).2 a' hscan).endCall

/-- **The accumulation bound.** If the scanner notices every OSC string that the parser opens,
and no call that dispatches RIS ends inside an OSC string, then at every byte of every call the
parser holds at most `OSC_ACCUMULATION_MAX` bytes. -/
theorem accumulated_bounded {chunks : List (List UInt8)} (hok : calls.Along Noticed new chunks) :
    calls.Along Bounded new chunks := by
  refine calls.along_mono Tracked ?_ (fun t bytes h hn => h.bounded hn) tracked_new hok
  rintro t bytes t' h hn hstep
  cases hstep
  exact h.advance hn

/-- A title whose terminator is split between two calls, then RIS. -/
theorem accumulated_bounded_title :
    calls.Along Bounded new
      [[0x1B, 0x5D, 0x32, 0x3B, 0x61, 0x1B], [0x5C, 0x62], [0x1B, 0x63]] :=
  accumulated_bounded (by decide)

end OscTerminal

/-! ## Plain text -/

/-- Text without ESC leaves the parser in the ground state. -/
theorem Vte.feed_ground_plain (h : ∀ b ∈ bytes, b ≠ 0x1B) : Vte.ground.feed bytes = .ground := by
  induction bytes with
  | nil => rfl
  | cons b bytes ih =>
      rw [List.forall_mem_cons] at h
      have hstep : Vte.ground.step b = .ground := by simp [Vte.step, h.1]
      change (Vte.ground.step b).feed bytes = .ground
      rw [hstep]
      exact ih h.2

/-- The parser accumulates at most what it is fed. -/
theorem Vte.accumulated_feed_le (v : Vte) (bytes : List UInt8) :
    (v.feed bytes).accumulated ≤ v.accumulated + bytes.length := by
  induction bytes generalizing v with
  | nil => exact Nat.le_refl _
  | cons b bytes ih =>
      have hstep : (v.step b).accumulated ≤ v.accumulated + 1 := by
        cases hv : v.step b with
        | ground => exact Nat.zero_le _
        | escape => exact Nat.zero_le _
        | escapeIntermediate => exact Nat.zero_le _
        | osc n =>
            obtain ⟨-, ⟨-, rfl⟩ | ⟨m, rfl, rfl, -⟩⟩ := Vte.step_eq_osc hv
            · exact Nat.zero_le _
            · exact Nat.le_refl _
      calc ((v.step b).feed bytes).accumulated
          ≤ (v.step b).accumulated + bytes.length := ih _
        _ ≤ v.accumulated + 1 + bytes.length := Nat.add_le_add_right hstep _
        _ = v.accumulated + (b :: bytes).length := by
            rw [List.length_cons]
            omega

/-- Text inside an OSC string is accumulated. -/
theorem Vte.feed_osc_replicate (n k : ℕ) :
    (Vte.osc n).feed (List.replicate k 0x61) = .osc (n + k) := by
  induction k generalizing n with
  | zero => rfl
  | succ k ih =>
      change (Vte.osc (n + 1)).feed (List.replicate k 0x61) = _
      rw [ih, Nat.add_right_comm, Nat.add_assoc]

/-- Text behind an introducer that the parser has half read. -/
theorem Vte.feed_escape_replicate (k : ℕ) :
    Vte.escape.feed (0x5D :: List.replicate k 0x61) = .osc k := by
  change (Vte.osc 0).feed (List.replicate k 0x61) = _
  rw [Vte.feed_osc_replicate, Nat.zero_add]

/-- Text without an introducer is passed on by a scanner outside every OSC string. -/
theorem Shadow.scan_out_plain (h : ∀ b ∈ bytes, b ≠ 0x9D ∧ b ≠ 0x1B) :
    Shadow.out.scan bytes = (some .out, bytes) := by
  induction bytes with
  | nil => rfl
  | cons b bytes ih =>
      rw [List.forall_mem_cons] at h
      have hstep : Shadow.out.step b = some .out := by simp [Shadow.step, Shadow.outStep, h.1]
      rw [Shadow.scan_cons hstep, ih h.2]

/-- Text inside an OSC string overflows once the limit is passed. -/
theorem Shadow.scan_inside_overflow {count k : ℕ} (hcount : count ≤ oscAccumulationMax)
    (h : oscAccumulationMax < count + k) :
    ((Shadow.inside count).scan (List.replicate k 0x61)).1 = none := by
  induction k generalizing count with
  | zero => exact absurd h (Nat.not_lt_of_le hcount)
  | succ k ih =>
      rw [List.replicate_succ]
      by_cases hmax : oscAccumulationMax < count + 1
      · rw [Shadow.scan_cons_overflow]
        simp [Shadow.step, Shadow.inStep, hmax]
      · have hstep : (Shadow.inside count).step 0x61 = some (.inside (count + 1)) := by
          simp [Shadow.step, Shadow.inStep, hmax]
        rw [Shadow.scan_cons hstep]
        exact ih (Nat.le_of_not_lt hmax) (by omega)

namespace OscTerminal

/-- An ESC at the end of a call and `]` at the start of the next: the scanner has forgotten the
ESC, and the string that follows is fed without a limit. -/
theorem split_introducer_unbounded :
    ¬ calls.Along Bounded new
      [[0x1B], 0x5D :: List.replicate (oscAccumulationMax + 1) 0x61] := by
  intro h
  have hcall : Bounded ⟨.reset, .escape⟩ (0x5D :: List.replicate (oscAccumulationMax + 1) 0x61) :=
    h.2.1
  have hfed : fed ⟨.reset, .escape⟩ (0x5D :: List.replicate (oscAccumulationMax + 1) 0x61) =
      0x5D :: List.replicate (oscAccumulationMax + 1) 0x61 := by
    rw [fed_eq]
    change (Shadow.out.scan _).2 = _
    rw [Shadow.scan_out_plain]
    intro b hb
    rcases List.mem_cons.mp hb with rfl | hb
    · decide
    · rw [List.eq_of_mem_replicate hb]
      decide
  unfold Bounded at hcall
  rw [hfed] at hcall
  have hmax := hcall _ List.prefix_rfl
  rw [Vte.feed_escape_replicate] at hmax
  exact absurd hmax (Nat.not_succ_le_self oscAccumulationMax)

end OscTerminal

/-! ## Transparency -/

/-- The scanner takes the byte for no introducer that the parser does not know, and misses no
end of an OSC string: no 0x9D outside both, no CAN or SUB inside, and nothing but the rest of
ST after an ESC at the end of a call. -/
structure Agrees (s : Shadow × Vte) (byte : UInt8) : Prop where
  introducer : byte = 0x9D → s.1.IsInside ∨ s.2.InOsc
  cancel : byte = 0x18 ∨ byte = 0x1A → ¬ s.1.IsInside
  terminator : s.1.IsPending → byte = 0x5C

instance (s : Shadow × Vte) (byte : UInt8) : Decidable (Agrees s byte) :=
  decidable_of_iff
    ((byte = 0x9D → s.1.IsInside ∨ s.2.InOsc) ∧
      (byte = 0x18 ∨ byte = 0x1A → ¬ s.1.IsInside) ∧ (s.1.IsPending → byte = 0x5C))
    ⟨fun h => ⟨h.1, h.2.1, h.2.2⟩, fun h => ⟨h.introducer, h.cancel, h.terminator⟩⟩

/-- The scanner is inside an OSC string only if the parser is, and has counted at most as much
of it; an ESC that the scanner has just read outside is one that the parser has just read. -/
structure Behind (s : Shadow × Vte) : Prop where
  inside : ∀ m, s.1 = .inside m → ∃ n, s.2 = .osc n ∧ m ≤ n
  escOut : s.1 = .escOut → s.2 = .escape

theorem Vte.InOsc.step (h : v.InOsc) (hesc : byte ≠ 0x1B) (hbel : byte ≠ 0x07)
    (hcan : ¬ (byte = 0x18 ∨ byte = 0x1A)) : ∃ n, v = .osc n ∧ v.step byte = .osc (n + 1) := by
  cases v with
  | osc n => exact ⟨n, rfl, Vte.step_osc hesc hbel hcan⟩
  | ground => cases h
  | escape => cases h
  | escapeIntermediate => cases h

/-- A scanner outside every OSC string, with no ESC in hand, is behind any parser. -/
theorem behind_of_out (hin : ¬ a.IsInside) (hesc : a ≠ .escOut) : Behind (a, v) where
  inside := by
    rintro m rfl
    exact absurd trivial hin
  escOut := fun h => absurd h hesc

/-- A scanner inside an OSC string is behind a parser that has accumulated as much. -/
theorem behind_inside {m n : ℕ} (h : m ≤ n) : Behind (.inside m, .osc n) where
  inside := by
    rintro k hk
    cases hk
    exact ⟨n, rfl, h⟩
  escOut := by
    rintro ⟨⟩

/-- Outside an OSC string the scanner enters one at 0x9D and remembers an ESC. -/
theorem behind_outStep (hok : Agrees (a, v) byte) (hout : ¬ a.IsInside) :
    Behind (Shadow.outStep byte, v.step byte) := by
  unfold Shadow.outStep
  split
  · rename_i h9d
    subst h9d
    have hin : v.InOsc := (hok.introducer rfl).resolve_left hout
    obtain ⟨n, -, hstep⟩ := hin.step (show (0x9D : UInt8) ≠ 0x1B by decide) (by decide) (by decide)
    rw [hstep]
    exact behind_inside (Nat.zero_le _)
  · split
    · rename_i hesc
      subst hesc
      refine ⟨?_, fun _ => rfl⟩
      rintro m ⟨⟩
    · exact behind_of_out id (by simp)

theorem behind_step (h : Behind (a, v)) (hok : Agrees (a, v) byte) (hstep : a.step byte = some a') :
    Behind (a', v.step byte) := by
  cases a with
  | out =>
      cases hstep
      exact behind_outStep hok id
  | escOut =>
      cases hstep
      by_cases hopen : byte = 0x5D
      · subst hopen
        have hv : v = .escape := h.escOut rfl
        subst hv
        exact behind_inside (Nat.le_refl 0)
      · rw [if_neg hopen]
        exact behind_outStep hok id
  | inside m =>
      obtain ⟨n, hv, hle⟩ := h.inside m rfl
      obtain ⟨-, rfl⟩ | ⟨-, rfl⟩ | ⟨hbel, hesc, -, rfl⟩ := Shadow.inStep_eq_some hstep
      · exact behind_of_out id (by simp)
      · exact behind_of_out id (by simp)
      · have hcan : ¬ (byte = 0x18 ∨ byte = 0x1A) := fun hcan => hok.cancel hcan trivial
        dsimp only at hv
        rw [hv, Vte.step_osc hesc hbel hcan]
        exact behind_inside (Nat.succ_le_succ hle)
  | escIn m =>
      cases hstep
      by_cases hst : byte = 0x5C
      · rw [if_pos hst]
        exact behind_of_out id (by simp)
      · rw [if_neg hst]
        exact behind_outStep hok id
  | pending m =>
      have hst := hok.terminator trivial
      subst hst
      cases hstep
      exact behind_of_out id (by simp)

/-- A scanner that is behind the parser does not overflow where the parser stays below the
limit. -/
theorem Behind.step_isSome (h : Behind (a, v)) (hok : Agrees (a, v) byte)
    (hmax : (v.step byte).accumulated ≤ oscAccumulationMax) : ∃ a', a.step byte = some a' := by
  cases a with
  | out => exact ⟨_, rfl⟩
  | escOut => exact ⟨_, rfl⟩
  | escIn m => exact ⟨_, rfl⟩
  | pending m =>
      have hst := hok.terminator trivial
      subst hst
      exact ⟨_, rfl⟩
  | inside m =>
      obtain ⟨n, hv, hle⟩ := h.inside m rfl
      have hcan : ¬ (byte = 0x18 ∨ byte = 0x1A) := fun hcan => hok.cancel hcan trivial
      dsimp only [Shadow.step, Shadow.inStep] at hv ⊢
      split
      · exact ⟨_, rfl⟩
      · rename_i hbel
        split
        · exact ⟨_, rfl⟩
        · rename_i hesc
          rw [hv, Vte.step_osc hesc hbel hcan] at hmax
          have hroom : m + 1 ≤ oscAccumulationMax := Nat.le_trans (Nat.succ_le_succ hle) hmax
          rw [if_neg (Nat.not_lt_of_le hroom)]
          exact ⟨_, rfl⟩

/-- A chunk on which the two agree, and in which every OSC string stays below the limit, is
passed on whole. -/
theorem Behind.scan (h : Behind (a, v)) (hok : lockstep.Along Agrees (a, v) bytes)
    (hmax : ∀ pre, pre <+: bytes → (v.feed pre).accumulated ≤ oscAccumulationMax) :
    ∃ a', a.scan bytes = (some a', bytes) ∧ Behind (a', v.feed bytes) := by
  induction bytes generalizing a v with
  | nil => exact ⟨a, rfl, h⟩
  | cons byte bytes ih =>
      have hbyte : Agrees (a, v) byte := hok.1
      obtain ⟨a₁, hstep⟩ := h.step_isSome hbyte (hmax [byte] ⟨bytes, rfl⟩)
      rw [lockstep.along_cons_of_step (lockstep_step v hstep)] at hok
      have hrest : ∀ pre, pre <+: bytes →
          ((v.step byte).feed pre).accumulated ≤ oscAccumulationMax :=
        fun pre hpre => hmax (byte :: pre) (List.cons_prefix_cons.mpr ⟨rfl, hpre⟩)
      obtain ⟨a', hscan, hend⟩ := ih (behind_step h hbyte hstep) hok.2 hrest
      refine ⟨a', ?_, hend⟩
      rw [Shadow.scan_cons hstep, hscan]

/-- Only the end of a call leaves an ESC pending. -/
theorem Shadow.not_isPending_step (h : a.step byte = some a') : ¬ a'.IsPending := by
  obtain (rfl | rfl | rfl) | ⟨count, hin, -⟩ := Shadow.step_cases h
  · exact id
  · exact id
  · exact id
  · obtain ⟨-, rfl⟩ | ⟨-, rfl⟩ | ⟨-, -, -, rfl⟩ := Shadow.inStep_eq_some hin <;> exact id

/-- After a byte of the call no ESC is pending any more. -/
theorem Shadow.not_isPending_scan (hne : bytes ≠ []) (h : (a.scan bytes).1 = some a') :
    ¬ a'.IsPending := by
  induction bytes generalizing a with
  | nil => exact absurd rfl hne
  | cons byte bytes ih =>
      cases hstep : a.step byte with
      | none =>
          rw [Shadow.scan_cons_overflow hstep] at h
          cases h
      | some a₁ =>
          rw [Shadow.scan_cons hstep] at h
          cases bytes with
          | nil =>
              cases h
              exact Shadow.not_isPending_step hstep
          | cons next bytes => exact ih (List.cons_ne_nil next bytes) h

theorem Shadow.pendingEsc_of_isPending {s : OscScanner} (h : (Shadow.ofScanner s).IsPending) :
    s.pendingEsc := by
  unfold Shadow.ofScanner at h
  split at h
  · split at h
    · assumption
    · cases h
  · cases h

/-- A scanner that is behind the parser stays so at the end of a call. -/
theorem Behind.endCall (h : Behind (a, v)) (hne : ¬ a.IsPending) :
    Behind (Shadow.endCall (some a), v) := by
  cases a with
  | out => exact h
  | escOut => exact behind_of_out id (by simp [Shadow.endCall])
  | inside m => exact h
  | escIn m => exact behind_of_out id (by simp [Shadow.endCall])
  | pending m => exact absurd trivial hne

namespace OscTerminal

/-- Scanner and parser agree at every byte of the call, and an ESC left pending by the last
call is not resolved by an empty one. -/
def Agreed (t : OscTerminal) (bytes : List UInt8) : Prop :=
  (t.scanner.pendingEsc → bytes ≠ []) ∧
    lockstep.Along Agrees (Shadow.ofScanner t.scanner, t.parser) bytes

instance (t : OscTerminal) (bytes : List UInt8) : Decidable (t.Agreed bytes) :=
  inferInstanceAs (Decidable (_ ∧ _))

/-- The scanner is behind the parser between two calls. -/
def Follows (t : OscTerminal) : Prop := Behind (Shadow.ofScanner t.scanner, t.parser)

/-- A call of a stream with bounded OSC strings on which the two agree drops nothing. -/
theorem Follows.fed_eq_self {t : OscTerminal} (h : t.Follows) (hok : t.Agreed bytes)
    (hmax : ∀ pre, pre <+: bytes → (t.parser.feed pre).accumulated ≤ oscAccumulationMax) :
    t.fed bytes = bytes ∧ (t.advance bytes).Follows := by
  obtain ⟨a', hscan, hend⟩ := Behind.scan h hok.2 hmax
  have hfed : t.fed bytes = bytes := by rw [fed_eq, hscan]
  refine ⟨hfed, ?_⟩
  unfold Follows
  rw [parser_advance hfed]
  by_cases hris : t.parser.dispatchesRis (t.fed bytes)
  · have hreset : (t.advance bytes).scanner = .reset := if_pos hris
    rw [hreset]
    exact behind_of_out id (by decide)
  · have hscanner : (t.advance bytes).scanner = (oscPrefilter t.scanner bytes).1 := if_neg hris
    rw [hscanner, ofScanner_prefilter, hscan]
    refine hend.endCall fun hpend => ?_
    by_cases hne : bytes = []
    · -- the call is empty, so the ESC was pending before it
      subst hne
      cases hscan
      exact hok.1 (Shadow.pendingEsc_of_isPending hpend) rfl
    · exact Shadow.not_isPending_scan hne (congrArg Prod.fst hscan) hpend

/-- **Transparency.** If no OSC string of the stream, as the parser delimits it, is longer than
`OSC_ACCUMULATION_MAX`, and scanner and parser agree at every byte, then every call feeds the
parser exactly what it was given, and the parser is the one that has read the whole stream. -/
theorem prefilter_transparent {chunks : List (List UInt8)}
    (hmax : ∀ pre, pre <+: chunks.flatten →
      (Vte.ground.feed pre).accumulated ≤ oscAccumulationMax)
    (hok : calls.Along Agreed new chunks) :
    calls.Along (fun t bytes => t.fed bytes = bytes) new chunks ∧
      ∀ t, calls.run new chunks = some t → t.parser = Vte.ground.feed chunks.flatten := by
  suffices hgen : ∀ t : OscTerminal, t.Follows →
      (∀ pre, pre <+: chunks.flatten →
        (t.parser.feed pre).accumulated ≤ oscAccumulationMax) →
      calls.Along Agreed t chunks →
        calls.Along (fun t bytes => t.fed bytes = bytes) t chunks ∧
          ∀ t', calls.run t chunks = some t' → t'.parser = t.parser.feed chunks.flatten from
    hgen new (behind_of_out id (by decide)) hmax hok
  clear hmax hok
  -- call by call: the parser has read what came before, so the bound is about what is left
  induction chunks with
  | nil =>
      rintro t - - -
      refine ⟨trivial, ?_⟩
      rintro t' ht'
      cases ht'
      rfl
  | cons bytes chunks ih =>
      intro t hfollows hmax hok
      rw [calls.along_cons_of_step rfl] at hok
      rw [List.flatten_cons] at hmax ⊢
      obtain ⟨hfed, hnext⟩ := hfollows.fed_eq_self hok.1 fun pre hpre =>
        hmax pre (hpre.trans (List.prefix_append _ _))
      have hparser := parser_advance hfed
      obtain ⟨halong, hrun⟩ := ih (t.advance bytes) hnext (by
        intro pre hpre
        rw [hparser, ← Vte.feed_append]
        exact hmax _ ((List.prefix_append_right_inj bytes).mpr hpre)) hok.2
      refine ⟨(calls.along_cons_of_step rfl).mpr ⟨hfed, halong⟩, ?_⟩
      intro t' ht'
      rw [hrun t' ht', hparser, Vte.feed_append]

/-- A title with a 0x9D byte in it, whose terminator is split between two calls. -/
theorem prefilter_transparent_title :
    calls.Along (fun t bytes => t.fed bytes = bytes) new
        [[0x1B, 0x5D, 0x32, 0x3B, 0xC3, 0x9D, 0x1B], [0x5C, 0x62]] ∧
      ∀ t, calls.run new [[0x1B, 0x5D, 0x32, 0x3B, 0xC3, 0x9D, 0x1B], [0x5C, 0x62]] = some t →
        t.parser = Vte.ground.feed
          [[0x1B, 0x5D, 0x32, 0x3B, 0xC3, 0x9D, 0x1B], [0x5C, 0x62]].flatten :=
  prefilter_transparent
    (by
      intro pre hpre
      have hlen : pre.length ≤ 9 := hpre.length_le
      have hacc : (Vte.ground.feed pre).accumulated ≤ 0 + pre.length :=
        Vte.accumulated_feed_le .ground pre
      have hmax : 9 ≤ oscAccumulationMax := by decide
      omega)
    (by decide)

/-- The letter Ý, in UTF-8 the bytes 0xC3 0x9D, then text: the stream holds no OSC string at
all, the scanner sees one, and the last byte is dropped with the parser. -/
theorem letter_not_transparent :
    (∀ pre, pre <+: [0xC3 :: 0x9D :: List.replicate (oscAccumulationMax + 1) 0x61].flatten →
        (Vte.ground.feed pre).accumulated ≤ oscAccumulationMax) ∧
      ¬ calls.Along (fun t bytes => t.fed bytes = bytes) new
        [0xC3 :: 0x9D :: List.replicate (oscAccumulationMax + 1) 0x61] := by
  constructor
  · intro pre hpre
    have hplain : ∀ b ∈ pre, b ≠ 0x1B := by
      intro b hb
      have hb' := hpre.subset hb
      rw [List.flatten_singleton, List.mem_cons, List.mem_cons] at hb'
      obtain rfl | rfl | hb' := hb'
      · decide
      · decide
      · rw [List.eq_of_mem_replicate hb']
        decide
    rw [Vte.feed_ground_plain hplain]
    exact Nat.zero_le _
  · intro h
    have hfed : new.fed (0xC3 :: 0x9D :: List.replicate (oscAccumulationMax + 1) 0x61) =
        0xC3 :: 0x9D :: List.replicate (oscAccumulationMax + 1) 0x61 := h.1
    have hover : ∀ k, oscAccumulationMax < k →
        (Shadow.out.scan (0xC3 :: 0x9D :: List.replicate k 0x61)).1 = none := by
      intro k hk
      have hfirst : Shadow.out.step 0xC3 = some .out := rfl
      have hsecond : Shadow.out.step 0x9D = some (.inside 0) := rfl
      rw [Shadow.scan_cons hfirst, Shadow.scan_cons hsecond]
      exact Shadow.scan_inside_overflow (Nat.zero_le _) (by rwa [Nat.zero_add])
    have hcut := Shadow.length_scan_lt (hover _ (Nat.lt_succ_self _))
    rw [fed_eq] at hfed
    exact absurd (congrArg List.length hfed) (Nat.ne_of_lt hcut)

end OscTerminal

end Nosh.Server
