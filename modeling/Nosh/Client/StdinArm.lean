import Mathlib.Data.List.DropRight
import Nosh.Client.CsiAccumulator
import Nosh.Client.EscapeState
import Nosh.Client.PageStrokes

/-!
# The stdin arm of the pump

The arm of `run_pump` that reads stdin: the paging keys are taken out of a read, the view is paged,
and the other bytes go through the escape machine to the server. How the keystrokes are cut into
reads is up to the terminal and the kernel, so the view should only depend on the keystrokes.
`CsiResult` says of each paging key whether it was in the read, not how often and in which order,
so that it does depend on the reads, unless they are orderly.

The connection is alive here: a `send_input` that fails leaves the pump. Rendering and prediction
are in `Nosh.Client.Display`.

## Main Definitions

* `StdinArm.read`, `StdinArm.readAll` — one read, and read after read
* `StdinArm.pressAll` — the same bytes, key by key
* `OrderlyReads` — reads in which the order and number of the paging keys does not matter

## Main Results

* `stdin_shown_iff` — **what a read shows is what its keys show one by one, in every state of the
  pump, exactly if they are orderly.**
* `readAll_same` — orderly reads are a refinement of the keys one by one.
* `same_view_of_orderly` — **two orderly ways to read a stream end in the same view**, that of its
  keys one by one.
* `bytewise_shown` — read byte by byte, the view is always that of the keys one by one.
-/

namespace Nosh.Client

open Nosh.Lib

/-- What the view shows: nothing of the scrollback, or the lines from this offset. -/
def ScrollbackView.shown : ScrollbackView → Option ℕ
  | .live => none
  | .active _ offset _ _ _ => some offset

/-- The state of the stdin arm. -/
structure StdinArm where
  acc : CsiAccumulator
  pump : ClientPump
  escape : EscapeState
  /-- `run_pump` has returned `UserQuit`. -/
  quit : Bool
  /-- What was given to `send_input`, one entry for each call. -/
  sent : List (List UInt8)
  /-- The page requests that were queued. -/
  requests : List PageRequest
  deriving DecidableEq, Repr

namespace StdinArm

/-- The arm behind `csi_acc.process`. -/
def handle (arm : StdinArm) (csi : CsiResult) : StdinArm :=
  let paged := arm.pump.stdin csi
  let arm := { arm with pump := paged.1, requests := arm.requests ++ paged.2.toList }
  if csi.nonPagingRemainder.isEmpty then arm
  else
    let result := arm.escape.process csi.nonPagingRemainder
    let arm := { arm with escape := result.2 }
    if result.1.quit then { arm with quit := true }
    else if result.1.bytesToForward.isEmpty then arm
    else { arm with sent := arm.sent ++ [result.1.bytesToForward] }

/-- A read of stdin; it returns no byte at the end of the input only. -/
def read (arm : StdinArm) (input : List UInt8) : StdinArm :=
  if arm.quit then arm
  else if input.isEmpty then { arm with quit := true }
  else
    let out := arm.acc.process input
    handle { arm with acc := out.2 } out.1

/-- Read after read. -/
def readAll (arm : StdinArm) (reads : List (List UInt8)) : StdinArm := reads.foldl read arm

/-- A single key or byte. -/
def press (arm : StdinArm) (tok : UInt8 ⊕ List UInt8) : StdinArm :=
  if arm.quit then arm else arm.handle (CsiAccumulator.see .default tok)

/-- Key after key. -/
def pressAll (arm : StdinArm) (toks : List (UInt8 ⊕ List UInt8)) : StdinArm := toks.foldl press arm

end StdinArm

/-! ## The keys of a read -/

/-- The stroke that a key or a byte is. -/
def strokeOf : UInt8 ⊕ List UInt8 → Stroke
  | .inl _ => .other
  | .inr key => if key = csiShiftPageup then .up else .down

/-- The bytes among the keys. -/
def bytesOf (toks : List (UInt8 ⊕ List UInt8)) : List UInt8 := toks.filterMap Sum.getLeft?

/-- The keys are paging keys. -/
def AllKeys (toks : List (UInt8 ⊕ List UInt8)) : Prop :=
  ∀ key, .inr key ∈ toks → key ∈ pagingKeys.keys

/-- The keys and bytes that are decided with a read: all but what is held back. -/
def CsiAccumulator.decided (acc : CsiAccumulator) (input : List UInt8) :
    List (UInt8 ⊕ List UInt8) :=
  (pagingKeys.tokens 0 (acc.pending ++ input)).rdrop (acc.process input).2.pending.length

/-- Nothing is pending, or the beginning of a key. -/
def CsiAccumulator.Waiting (acc : CsiAccumulator) : Prop :=
  acc.pending = [] ∨ pagingKeys.Begins acc.pending

/-- Every read is orderly, in the keys and bytes that it decides. -/
def OrderlyReads : CsiAccumulator → List (List UInt8) → Prop
  | _, [] => True
  | acc, input :: reads =>
      Orderly ((acc.decided input).map strokeOf) ∧ OrderlyReads (acc.process input).2 reads

section Tokens

variable {toks : List (UInt8 ⊕ List UInt8)}

theorem AllKeys.tail {tok : UInt8 ⊕ List UInt8} (h : AllKeys (tok :: toks)) : AllKeys toks :=
  fun key hkey => h key (List.mem_cons_of_mem tok hkey)

theorem AllKeys.head {tok : UInt8 ⊕ List UInt8} (h : AllKeys (tok :: toks)) : AllKeys [tok] :=
  fun key hkey => h key (List.mem_cons.mpr (.inl (List.mem_singleton.mp hkey)))

/-- The stroke of a paging key is found where the key is. -/
theorem strokeOf_mem_iff (h : AllKeys toks) {key : List UInt8} (hkey : key ∈ pagingKeys.keys) :
    strokeOf (.inr key) ∈ toks.map strokeOf ↔ .inr key ∈ toks := by
  rw [List.mem_map]
  constructor
  · rintro ⟨tok, htok, hstroke⟩
    cases tok with
    | inl byte => rcases mem_pagingKeys.mp hkey with rfl | rfl <;> cases hstroke
    | inr other =>
        have hother := mem_pagingKeys.mp (h other htok)
        rcases mem_pagingKeys.mp hkey with rfl | rfl <;> rcases hother with rfl | rfl
        · exact htok
        · cases hstroke
        · cases hstroke
        · exact htok
  · exact fun hmem => ⟨_, hmem, rfl⟩

theorem other_mem_iff : .other ∈ toks.map strokeOf ↔ bytesOf toks ≠ [] := by
  induction toks with
  | nil => simp [bytesOf]
  | cons tok toks ih =>
      rw [List.map_cons, List.mem_cons, ih]
      cases tok with
      | inl byte => simp [strokeOf, bytesOf]
      | inr key =>
          have hother : .other ≠ strokeOf (.inr key) := by
            rw [strokeOf]
            split <;> decide
          rw [or_iff_right hother]
          rfl

/-- The result of a call says which paging keys are among the tokens. -/
theorem foldl_see_iff (result : CsiResult) :
    ((toks.foldl CsiAccumulator.see result).shiftPageup = true ↔
        result.shiftPageup = true ∨ .inr csiShiftPageup ∈ toks) ∧
      ((toks.foldl CsiAccumulator.see result).shiftPagedown = true ↔
        result.shiftPagedown = true ∨ .inr csiShiftPagedown ∈ toks) := by
  induction toks generalizing result with
  | nil => simp
  | cons tok toks ih =>
      rw [List.foldl_cons, (ih _).1, (ih _).2]
      cases tok with
      | inl byte => simp [CsiAccumulator.see]
      | inr key =>
          simp only [CsiAccumulator.see, Bool.or_eq_true, beq_iff_eq, List.mem_cons, Sum.inr.injEq,
            or_assoc, @eq_comm _ key, and_self]

end Tokens

/-! ## The view after a read -/

namespace ClientPump

variable {pump : ClientPump}

theorem shiftPageup_shown (h : pump.scrollbackAvailable = true) :
    pump.shiftPageup.1.view.shown = Stroke.up.act pump.screen.rows pump.view.shown := by
  unfold shiftPageup
  cases hview : pump.view with
  | live => rw [if_pos h]; rfl
  | active lines offset pending epoch total =>
      dsimp only
      split <;> rfl

theorem shiftPagedown_shown :
    pump.shiftPagedown.view.shown = Stroke.down.act pump.screen.rows pump.view.shown := by
  unfold shiftPagedown
  cases hview : pump.view with
  | live => rw [hview]; rfl
  | active lines offset pending epoch total =>
      dsimp only
      by_cases hlow : offset ≤ pump.screen.rows
      · rw [if_pos hlow]
        exact (if_pos hlow).symm
      · rw [if_neg hlow]
        exact (if_neg hlow).symm

theorem stdin_shown_eq (havailable : pump.scrollbackAvailable = true) (csi : CsiResult) :
    (pump.stdin csi).1.view.shown =
      let up := if csi.shiftPageup then Stroke.up.act pump.screen.rows pump.view.shown
        else pump.view.shown
      let down := if csi.shiftPagedown then Stroke.down.act pump.screen.rows up else up
      if csi.nonPagingRemainder.isEmpty then down else none := by
  unfold stdin
  dsimp only
  cases csi.nonPagingRemainder.isEmpty with
  | false => rfl
  | true =>
      cases csi.shiftPagedown with
      | false =>
          cases csi.shiftPageup with
          | false => rfl
          | true => exact shiftPageup_shown havailable
      | true =>
          cases csi.shiftPageup with
          | false => exact shiftPagedown_shown
          | true =>
              refine shiftPagedown_shown.trans ?_
              rw [if_pos rfl, shiftPageup_screen, shiftPageup_shown havailable]
              rfl

/-- A read pages the view up, down and back, once each. -/
theorem stdin_shown (havailable : pump.scrollbackAvailable = true)
    {toks : List (UInt8 ⊕ List UInt8)} (hkeys : AllKeys toks) :
    (pump.stdin (toks.foldl CsiAccumulator.see .default)).1.view.shown =
      atOnce pump.screen.rows pump.view.shown (toks.map strokeOf) := by
  have hup : (toks.foldl CsiAccumulator.see .default).shiftPageup = true ↔
      .up ∈ toks.map strokeOf := by
    rw [(foldl_see_iff _).1, ← strokeOf_mem_iff hkeys (mem_pagingKeys.mpr (.inl rfl))]
    exact or_iff_right Bool.false_ne_true
  have hdown : (toks.foldl CsiAccumulator.see .default).shiftPagedown = true ↔
      .down ∈ toks.map strokeOf := by
    rw [(foldl_see_iff _).2, ← strokeOf_mem_iff hkeys (mem_pagingKeys.mpr (.inr rfl))]
    exact or_iff_right Bool.false_ne_true
  have hother : (toks.foldl CsiAccumulator.see .default).nonPagingRemainder.isEmpty = true ↔
      .other ∉ toks.map strokeOf := by
    rw [CsiAccumulator.nonPagingRemainder_foldl_see, other_mem_iff, not_not, List.isEmpty_iff]
    rfl
  rw [stdin_shown_eq havailable, atOnce]
  simp only [hup, hdown, hother, ite_not]

end ClientPump

/-- **What a read shows is what its keys show one by one, in every state of the pump, exactly if
they are orderly.** -/
theorem stdin_shown_iff {toks : List (UInt8 ⊕ List UInt8)} (hkeys : AllKeys toks) :
    (∀ pump : ClientPump, pump.scrollbackAvailable = true →
      (pump.stdin (toks.foldl CsiAccumulator.see .default)).1.view.shown =
        pressed pump.screen.rows pump.view.shown (toks.map strokeOf)) ↔
      Orderly (toks.map strokeOf) := by
  rw [orderly_iff]
  constructor
  · intro h rows view
    let pump : ClientPump :=
      { ClientPump.new 0 rows true with view := view.elim .live fun o => .active [] o false 0 0 }
    have hshown : pump.view.shown = view := by cases view <;> rfl
    have hpump := h pump rfl
    rw [ClientPump.stdin_shown rfl hkeys, hshown] at hpump
    exact hpump
  · intro h pump havailable
    rw [ClientPump.stdin_shown havailable hkeys, h]

theorem stdin_shown_iff_twoUp : ¬ ∀ pump : ClientPump, pump.scrollbackAvailable = true →
    (pump.stdin ([.inr csiShiftPageup, .inr csiShiftPageup].foldl
      CsiAccumulator.see .default)).1.view.shown =
        pressed pump.screen.rows pump.view.shown [.up, .up] := by
  have hkeys : AllKeys [.inr csiShiftPageup, .inr csiShiftPageup] := by
    intro key hkey
    rw [List.mem_pair, or_self, Sum.inr.injEq] at hkey
    exact mem_pagingKeys.mpr (.inl hkey)
  exact fun h => absurd ((stdin_shown_iff hkeys).mp h) (by decide)

/-! ## Reads and keys -/

/-- The state that is left when these keys and bytes were handled, up to the byte at which the
escape machine quits, and the view is the given one. -/
structure StdinArm.After (arm : StdinArm) (toks : List (UInt8 ⊕ List UInt8)) (view : Option ℕ)
    (arm' : StdinArm) : Prop where
  screen : arm'.pump.screen = arm.pump.screen
  available : arm'.pump.scrollbackAvailable = arm.pump.scrollbackAvailable
  quit : arm'.quit = (EscapeState.machine.feed arm.escape (bytesOf toks)).stopped
  shown : arm'.pump.view.shown = if arm'.quit then none else view
  escape : arm'.quit = false →
    arm'.escape = (EscapeState.machine.feed arm.escape (bytesOf toks)).state
  sent : arm'.quit = false →
    arm'.sent.flatten =
      arm.sent.flatten ++ (EscapeState.machine.feed arm.escape (bytesOf toks)).out

namespace StdinArm

variable {arm keyed : StdinArm} {toks : List (UInt8 ⊕ List UInt8)}

/-- What a read leaves. -/
theorem handle_after (hquit : arm.quit = false) (havailable : arm.pump.scrollbackAvailable = true)
    (hkeys : AllKeys toks) :
    arm.After toks (atOnce arm.pump.screen.rows arm.pump.view.shown (toks.map strokeOf))
      (arm.handle (toks.foldl CsiAccumulator.see .default)) := by
  have hframe := arm.pump.stdin_frame (toks.foldl CsiAccumulator.see .default)
  have hscreen := congrArg ClientPump.screen hframe
  have hkept := congrArg ClientPump.scrollbackAvailable hframe
  have hshown := ClientPump.stdin_shown havailable hkeys
  have hbytes : (toks.foldl CsiAccumulator.see .default).nonPagingRemainder = bytesOf toks :=
    CsiAccumulator.nonPagingRemainder_foldl_see toks .default
  unfold handle
  dsimp only
  rw [hbytes]
  by_cases hnil : bytesOf toks = []
  · rw [if_pos (List.isEmpty_iff.mpr hnil)]
    refine ⟨hscreen, hkept, ?_, ?_, fun _ => ?_, fun _ => ?_⟩
    · rw [hquit, hnil]
      rfl
    · rw [hquit]
      exact hshown
    · rw [hnil]
      rfl
    · rw [hnil]
      exact (List.append_nil _).symm
  · have hlive := hshown.trans (atOnce_of_other _ _ (other_mem_iff.mpr hnil))
    rw [if_neg fun h => hnil (List.isEmpty_iff.mp h), atOnce_of_other _ _ (other_mem_iff.mpr hnil)]
    cases hstopped : (EscapeState.machine.feed arm.escape (bytesOf toks)).stopped with
    | true =>
        rw [EscapeState.process, EscapeState.ofFed, hstopped, if_pos rfl]
        exact ⟨hscreen, hkept, hstopped.symm, hlive, fun h => (Bool.false_ne_true h.symm).elim,
          fun h => (Bool.false_ne_true h.symm).elim⟩
    | false =>
        rw [EscapeState.process, EscapeState.ofFed, hstopped, if_neg Bool.false_ne_true]
        split
        · rename_i hout
          have hnone : (EscapeState.machine.feed arm.escape (bytesOf toks)).out = [] :=
            List.isEmpty_iff.mp hout
          refine ⟨hscreen, hkept, hquit.trans hstopped.symm, ?_, fun _ => rfl, fun _ => ?_⟩
          · rw [hlive, ite_self]
          · rw [hnone, List.append_nil]
        · refine ⟨hscreen, hkept, hquit.trans hstopped.symm, ?_, fun _ => rfl, fun _ => ?_⟩
          · rw [hlive, ite_self]
          · rw [List.flatten_append, List.flatten_singleton]

/-- Nothing is handled behind the byte that quits. -/
theorem After.stop {view : Option ℕ} {arm' : StdinArm} (h : arm.After toks view arm')
    (hquit : arm'.quit = true) {toks' : List (UInt8 ⊕ List UInt8)} (view' : Option ℕ) :
    arm.After (toks ++ toks') view' arm' := by
  have hstopped := h.quit.symm.trans hquit
  have hbytes : bytesOf (toks ++ toks') = bytesOf toks ++ bytesOf toks' := List.filterMap_append
  have hrunning : arm'.quit ≠ false := by
    rw [hquit]
    exact Bool.false_ne_true.symm
  refine ⟨h.screen, h.available, ?_, ?_, fun h => (hrunning h).elim, fun h => (hrunning h).elim⟩
  · rw [hbytes, Transducer.feed_append_of_stopped hstopped]
    exact h.quit
  · rw [h.shown, hquit]
    rfl

theorem After.append {view view' : Option ℕ} {arm' arm'' : StdinArm}
    (h : arm.After toks view arm') (hquit : arm'.quit = false)
    {toks' : List (UInt8 ⊕ List UInt8)} (h' : arm'.After toks' view' arm'') :
    arm.After (toks ++ toks') view' arm'' := by
  have hrunning := h.quit.symm.trans hquit
  have hbytes : bytesOf (toks ++ toks') = bytesOf toks ++ bytesOf toks' := List.filterMap_append
  have hfeed := Transducer.feed_append_of_running hrunning (bytesOf toks')
  rw [← h.escape hquit] at hfeed
  refine ⟨h'.screen.trans h.screen, h'.available.trans h.available, ?_, h'.shown, ?_, ?_⟩
  · rw [hbytes, hfeed]
    exact h'.quit
  · intro hq
    rw [hbytes, hfeed]
    exact h'.escape hq
  · intro hq
    rw [hbytes, hfeed, h'.sent hq, h.sent hquit, List.append_assoc]

theorem pressAll_of_quit (h : arm.quit = true) (toks : List (UInt8 ⊕ List UInt8)) :
    arm.pressAll toks = arm := by
  induction toks with
  | nil => rfl
  | cons tok toks ih =>
      have hpress : arm.press tok = arm := if_pos h
      rw [pressAll, List.foldl_cons, hpress]
      exact ih

theorem readAll_of_quit (h : arm.quit = true) (reads : List (List UInt8)) :
    arm.readAll reads = arm := by
  induction reads with
  | nil => rfl
  | cons input reads ih =>
      have hread : arm.read input = arm := if_pos h
      rw [readAll, List.foldl_cons, hread]
      exact ih

/-- What the keys leave one by one. -/
theorem pressAll_after (hquit : arm.quit = false)
    (havailable : arm.pump.scrollbackAvailable = true) (hkeys : AllKeys toks) :
    arm.After toks (pressed arm.pump.screen.rows arm.pump.view.shown (toks.map strokeOf))
      (arm.pressAll toks) := by
  -- the induction is on the keys: the first one is a read with a single key
  induction toks generalizing arm with
  | nil =>
      refine ⟨rfl, rfl, hquit, ?_, fun _ => rfl, fun _ => (List.append_nil _).symm⟩
      exact (if_neg (by rw [pressAll, List.foldl_nil, hquit]; exact Bool.false_ne_true)).symm
  | cons tok toks ih =>
      have hpress : arm.press tok = arm.handle ([tok].foldl CsiAccumulator.see .default) :=
        if_neg (by rw [hquit]; exact Bool.false_ne_true)
      have hfirst := handle_after hquit havailable hkeys.head
      have hone : atOnce arm.pump.screen.rows arm.pump.view.shown [strokeOf tok] =
          (strokeOf tok).act arm.pump.screen.rows arm.pump.view.shown :=
        atOnce_replicate _ _ _ 0
      rw [← hpress, List.map_singleton, hone] at hfirst
      rw [pressAll, List.foldl_cons, List.map_cons, pressed_cons]
      cases hstop : (arm.press tok).quit with
      | true =>
          have hrest := pressAll_of_quit hstop toks
          rw [pressAll] at hrest
          rw [hrest]
          exact hfirst.stop hstop _
      | false =>
          have hrest := ih hstop (hfirst.available.trans havailable) hkeys.tail
          have hshown := hfirst.shown
          rw [hstop, if_neg Bool.false_ne_true] at hshown
          rw [hfirst.screen, hshown] at hrest
          exact hfirst.append hstop hrest

end StdinArm

namespace CsiAccumulator

variable (acc : CsiAccumulator) (input : List UInt8)

/-- A call decides on these keys and bytes, and returns what they come to. -/
theorem decided_reads :
    pagingKeys.Reads (acc.pending ++ input) (acc.decided input) (acc.process input).2.pending ∧
      (acc.process input).1 = (acc.decided input).foldl see .default := by
  obtain ⟨toks, hreads, hresult⟩ := acc.process_reads input
  have hdecided : acc.decided input = toks := by
    rw [decided, hreads.tokens_eq, List.rdrop, List.length_append, List.length_map,
      Nat.add_sub_cancel, List.take_left]
  rw [hdecided]
  exact ⟨hreads, hresult⟩

theorem decided_allKeys : AllKeys (acc.decided input) := by
  intro key hkey
  have hmem : .inr key ∈ pagingKeys.tokens 0 (acc.pending ++ input) := by
    rw [(acc.decided_reads input).1.tokens_eq]
    exact List.mem_append_left _ hkey
  exact Keys.mem_keys_of_mem_tokens hmem

/-- Two reads decide what one with both inputs does. -/
theorem decided_append (later : List UInt8) :
    acc.decided (input ++ later) =
      acc.decided input ++ (acc.process input).2.decided later := by
  have hboth := (acc.decided_reads input).1.append ((acc.process input).2.decided_reads later).1
  rw [List.append_assoc] at hboth
  exact ((acc.decided_reads (input ++ later)).1.unique hboth).1

theorem process_waiting : (acc.process input).2.Waiting := (acc.decided_reads input).1.begins

variable {acc}

theorem Waiting.decided_nil (h : acc.Waiting) : acc.decided [] = [] := by
  have hheld : pagingKeys.Reads (acc.pending ++ []) [] acc.pending := by
    rw [List.append_nil]
    rcases h with hnil | hbegins
    · rw [hnil]
      exact .nil
    · exact .hold hbegins
  exact ((acc.decided_reads []).1.unique hheld).1

end CsiAccumulator

/-- The reads have left the state that the keys leave, as far as it can be seen. -/
structure StdinArm.Same (arm keyed : StdinArm) : Prop where
  screen : arm.pump.screen = keyed.pump.screen
  available : arm.pump.scrollbackAvailable = keyed.pump.scrollbackAvailable
  quit : arm.quit = keyed.quit
  shown : arm.pump.view.shown = keyed.pump.view.shown
  escape : arm.quit = false → arm.escape = keyed.escape
  sent : arm.quit = false → arm.sent.flatten = keyed.sent.flatten

namespace StdinArm

variable {arm keyed : StdinArm}

theorem Same.refl (arm : StdinArm) : Same arm arm :=
  ⟨rfl, rfl, rfl, rfl, fun _ => rfl, fun _ => rfl⟩

theorem Same.after {toks : List (UInt8 ⊕ List UInt8)} {view : Option ℕ} {arm' keyed' : StdinArm}
    (h : Same arm keyed) (hquit : arm.quit = false) (harm : arm.After toks view arm')
    (hkeyed : keyed.After toks view keyed') : Same arm' keyed' := by
  have hsame : arm'.quit = keyed'.quit := by
    rw [harm.quit, hkeyed.quit, h.escape hquit]
  refine ⟨?_, ?_, hsame, ?_, fun hq => ?_, fun hq => ?_⟩
  · rw [harm.screen, hkeyed.screen, h.screen]
  · rw [harm.available, hkeyed.available, h.available]
  · rw [harm.shown, hkeyed.shown, hsame]
  · rw [harm.escape hq, hkeyed.escape (hsame ▸ hq), h.escape hquit]
  · rw [harm.sent hq, hkeyed.sent (hsame ▸ hq), h.escape hquit, h.sent hquit]

theorem handle_acc (arm : StdinArm) (csi : CsiResult) : (arm.handle csi).acc = arm.acc := by
  unfold handle
  dsimp only
  split
  · rfl
  · split
    · rfl
    · split <;> rfl

/-- **An orderly read does what its keys do one by one.** -/
theorem read_same (h : Same arm keyed) (hquit : arm.quit = false)
    (havailable : arm.pump.scrollbackAvailable = true) {input : List UInt8} (hinput : input ≠ [])
    (horderly : Orderly ((arm.acc.decided input).map strokeOf)) :
    Same (arm.read input) (keyed.pressAll (arm.acc.decided input)) ∧
      (arm.read input).acc = (arm.acc.process input).2 ∧
      (arm.read input).pump.scrollbackAvailable = true := by
  have hread : arm.read input =
      handle { arm with acc := (arm.acc.process input).2 } (arm.acc.process input).1 := by
    rw [read, if_neg (by rw [hquit]; exact Bool.false_ne_true),
      if_neg fun hnil => hinput (List.isEmpty_iff.mp hnil)]
  have hkeys := arm.acc.decided_allKeys input
  have harm := @handle_after { arm with acc := (arm.acc.process input).2 } _ hquit havailable hkeys
  have hkeyed := @pressAll_after keyed _ (h.quit.symm.trans hquit)
    (h.available.symm.trans havailable) hkeys
  rw [← atOnce_eq_pressed horderly, ← h.screen, ← h.shown] at hkeyed
  have hstart : Same { arm with acc := (arm.acc.process input).2 } keyed :=
    ⟨h.screen, h.available, h.quit, h.shown, h.escape, h.sent⟩
  rw [hread, (arm.acc.decided_reads input).2]
  exact ⟨hstart.after hquit harm hkeyed, handle_acc _ _, harm.available.trans havailable⟩

/-- **Orderly reads refine the keys one by one.** -/
theorem readAll_same (h : Same arm keyed) (havailable : arm.pump.scrollbackAvailable = true)
    (hwaiting : arm.acc.Waiting) {reads : List (List UInt8)} (hreads : ∀ input ∈ reads, input ≠ [])
    (horderly : OrderlyReads arm.acc reads) :
    Same (arm.readAll reads) (keyed.pressAll (arm.acc.decided reads.flatten)) := by
  induction reads generalizing arm keyed with
  | nil =>
      rw [List.flatten_nil, hwaiting.decided_nil]
      exact h
  | cons input reads ih =>
      obtain ⟨hinput, hlater⟩ := List.forall_mem_cons.mp hreads
      cases hquit : arm.quit with
      | true =>
          rw [readAll_of_quit hquit, pressAll_of_quit (h.quit.symm.trans hquit)]
          exact h
      | false =>
          obtain ⟨hsame, hacc, hkept⟩ := read_same h hquit havailable hinput horderly.1
          have hnext := horderly.2
          have hdecided := arm.acc.decided_append input reads.flatten
          have hnextWaiting := arm.acc.process_waiting input
          rw [← hacc] at hnext hdecided hnextWaiting
          rw [List.flatten_cons, hdecided, pressAll, List.foldl_append]
          exact ih hsame hkept hnextWaiting hlater hnext

end StdinArm

/-- **Two orderly ways to read a stream end in the same view: that of its keys, each in its place
between the other bytes.** -/
theorem same_view_of_orderly (arm : StdinArm) (havailable : arm.pump.scrollbackAvailable = true)
    (hwaiting : arm.acc.Waiting) {reads reads' : List (List UInt8)}
    (hreads : ∀ input ∈ reads, input ≠ []) (hreads' : ∀ input ∈ reads', input ≠ [])
    (hstream : reads'.flatten = reads.flatten) (horderly : OrderlyReads arm.acc reads)
    (horderly' : OrderlyReads arm.acc reads') :
    (arm.readAll reads').pump.view.shown = (arm.readAll reads).pump.view.shown ∧
      (arm.readAll reads).pump.view.shown =
        (arm.pressAll (arm.acc.decided reads.flatten)).pump.view.shown := by
  have h := StdinArm.readAll_same (.refl arm) havailable hwaiting hreads horderly
  have h' := StdinArm.readAll_same (.refl arm) havailable hwaiting hreads' horderly'
  rw [hstream] at h'
  exact ⟨h'.shown.trans h.shown.symm, h.shown⟩

/-- The arm of a pump that has just started, with a scrollback. -/
def StdinArm.start (cols rows : ℕ) : StdinArm where
  acc := .new
  pump := .new cols rows true
  escape := .new
  quit := false
  sent := []
  requests := []

/-- Two strokes up, cut inside the keys, are shown like two reads with one of them each. -/
theorem cut_keys_shown :
    ((StdinArm.start 80 24).readAll [csiShiftPageup.take 3,
          csiShiftPageup.drop 3 ++ csiShiftPageup.take 2, csiShiftPageup.drop 2]).pump.view.shown =
        ((StdinArm.start 80 24).readAll [csiShiftPageup, csiShiftPageup]).pump.view.shown ∧
      ((StdinArm.start 80 24).readAll [csiShiftPageup, csiShiftPageup]).pump.view.shown =
        some 24 := by
  have hreads : ∀ input ∈ [csiShiftPageup, csiShiftPageup], input ≠ [] :=
    List.forall_mem_cons.mpr ⟨by decide, List.forall_mem_singleton.mpr (by decide)⟩
  have hreads' : ∀ input ∈ [csiShiftPageup.take 3,
      csiShiftPageup.drop 3 ++ csiShiftPageup.take 2, csiShiftPageup.drop 2], input ≠ [] :=
    List.forall_mem_cons.mpr ⟨by decide,
      List.forall_mem_cons.mpr ⟨by decide, List.forall_mem_singleton.mpr (by decide)⟩⟩
  obtain ⟨hsame, hshown⟩ := same_view_of_orderly (.start 80 24) rfl (.inl rfl) hreads hreads' rfl
    ⟨by decide, by decide, trivial⟩ ⟨by decide, by decide, by decide, trivial⟩
  exact ⟨hsame, hshown.trans rfl⟩

/-- Read together, the second of two strokes up is lost, and a stroke up behind another byte. -/
theorem read_together_lost :
    ((StdinArm.start 80 24).readAll [csiShiftPageup, csiShiftPageup]).pump.view.shown = some 24 ∧
      ((StdinArm.start 80 24).readAll [csiShiftPageup ++ csiShiftPageup]).pump.view.shown =
        some 0 ∧
      ((StdinArm.start 80 24).readAll [[0x61], csiShiftPageup]).pump.view.shown = some 0 ∧
      ((StdinArm.start 80 24).readAll [[0x61] ++ csiShiftPageup]).pump.view.shown = none :=
  ⟨rfl, rfl, rfl, rfl⟩

/-! ## Byte by byte -/

/-- A read of one byte decides on one key, or on bytes only. -/
theorem CsiAccumulator.Waiting.orderly_byte {acc : CsiAccumulator} (h : acc.Waiting)
    (byte : UInt8) : Orderly ((acc.decided [byte]).map strokeOf) := by
  have hpending : acc.pending.length < pagingKeys.size := by
    rcases h with hnil | hbegins
    · rw [hnil]
      exact pagingKeys.size_pos
    · exact hbegins.1
  have hlength : (acc.pending ++ [byte]).length ≤ pagingKeys.size := by
    rw [List.length_append]
    exact hpending
  unfold CsiAccumulator.decided
  rw [List.rdrop]
  rcases Keys.tokens_of_length_le hlength with hkey | hbytes
  · refine orderly_of_length_le_one ?_
    rw [hkey, List.length_map, List.length_take]
    exact Nat.min_le_right _ _
  · refine orderly_of_forall_other fun stroke hstroke => ?_
    rw [hbytes, ← List.map_take, List.map_map, List.mem_map] at hstroke
    obtain ⟨other, -, rfl⟩ := hstroke
    rfl

/-- A stream that is read byte by byte is read in an orderly way. -/
theorem orderlyReads_bytewise {acc : CsiAccumulator} (h : acc.Waiting) (stream : List UInt8) :
    OrderlyReads acc (stream.map fun byte => [byte]) := by
  induction stream generalizing acc with
  | nil => trivial
  | cons byte stream ih => exact ⟨h.orderly_byte byte, ih (acc.process_waiting [byte])⟩

/-- **Byte by byte, the view is always that of the keys one by one.** -/
theorem bytewise_shown (arm : StdinArm) (havailable : arm.pump.scrollbackAvailable = true)
    (hwaiting : arm.acc.Waiting) (stream : List UInt8) :
    (arm.readAll (stream.map fun byte => [byte])).pump.view.shown =
      (arm.pressAll (arm.acc.decided stream)).pump.view.shown := by
  have hreads : ∀ input ∈ stream.map fun byte => [byte], input ≠ [] := by
    intro input hinput
    obtain ⟨byte, -, rfl⟩ := List.mem_map.mp hinput
    exact List.cons_ne_nil byte []
  have hflatten : (stream.map fun byte => [byte]).flatten = stream := by
    rw [← List.flatMap_def, List.flatMap_singleton']
  have h := StdinArm.readAll_same (.refl arm) havailable hwaiting hreads
    (orderlyReads_bytewise hwaiting stream)
  rw [hflatten] at h
  exact h.shown

theorem bytewise_shown_pageup :
    ((StdinArm.start 80 24).readAll (csiShiftPageup.map fun byte => [byte])).pump.view.shown =
      some 0 :=
  (bytewise_shown (.start 80 24) rfl (.inl rfl) csiShiftPageup).trans rfl

end Nosh.Client
