import Nosh.Lib.Machine
import Nosh.Server.Shape

/-!
# The window size of the PTY and of the terminal

A session has two sizes: the window size of its PTY, which the shell sees, and the dimensions
of its `TerminalState`, which the client sees. `session::open` sets the first to what the
client asked for, `SessionSlot::new` sets the second to 80 by 24, and `SessionSlot::resize`
sets both, the first one only if the PTY accepts it.

## Main Results

* `run_sizes` — the two sizes after any history of the session.
* `sizes_agree_iff` — when the two agree whenever output is processed.
-/

namespace Nosh.Server

open Lib

/-- The parts of a `SessionSlot` that have a size, and whether a pump is attached to it. -/
structure SizedSlot where
  /-- The window size of the PTY, columns first. -/
  pty : ℕ × ℕ
  terminal : TerminalState
  attached : Bool
  deriving DecidableEq, Repr

/-- What happens to a slot. `applied` is the result of the PTY call. -/
inductive SlotEvent
  | output (dispatches : List Dispatch)
  | resizeFrame (cols rows : ℕ) (applied : Bool)
  | transportLost
  | reattach

/-- `MAX_COLS` and `MAX_ROWS` of `SessionSlot::resize`. -/
def maxCols : ℕ := 1000

@[inherit_doc maxCols]
def maxRows : ℕ := 1000

/-- The size that a `Resize` frame is clamped to. -/
def clampSize (cols rows : ℕ) : ℕ × ℕ := (min cols maxCols, min rows maxRows)

namespace SizedSlot

/-- `session::open` followed by `SessionSlot::new`, as `run_session` calls them. -/
def opened (cols rows : ℕ) : SizedSlot where
  pty := (cols, rows)
  terminal := .new 80 24
  attached := true

/-- `SessionSlot::resize`: the terminal is resized whatever the PTY says. -/
def resize (slot : SizedSlot) (cols rows : ℕ) (applied : Bool) : SizedSlot :=
  let size := clampSize cols rows
  { slot with
    pty := if applied then size else slot.pty
    terminal := slot.terminal.resize size.1 size.2 }

/-- One event. Frames and output are handled by an attached pump; a reattached one works on the
slot as it finds it. -/
def step (width : Char → Option ℕ) (slot : SizedSlot) : SlotEvent → Option SizedSlot
  | .output dispatches =>
      if slot.attached then
        (slot.terminal.feed width dispatches).map fun terminal => { slot with terminal := terminal }
      else none
  | .resizeFrame cols rows applied =>
      if slot.attached then some (slot.resize cols rows applied) else none
  | .transportLost => if slot.attached then some { slot with attached := false } else none
  | .reattach => if slot.attached then none else some { slot with attached := true }

/-- Output is processed only while the two sizes agree. -/
def AgreesAtOutput (slot : SizedSlot) : SlotEvent → Prop
  | .output _ => slot.terminal.size = slot.pty
  | _ => True

instance (slot : SizedSlot) (ev : SlotEvent) : Decidable (slot.AgreesAtOutput ev) :=
  match ev with
  | .output _ => inferInstanceAs (Decidable (_ = _))
  | .resizeFrame _ _ _ | .transportLost | .reattach => inferInstanceAs (Decidable True)

end SizedSlot

/-- The life of a slot. -/
def slotLife (width : Char → Option ℕ) : Machine SizedSlot SlotEvent := ⟨SizedSlot.step width⟩

/-! ## The two sizes after a history -/

/-- The size that the client asked for last: 80 by 24 before the first `Resize` frame, whatever
the session was opened with. -/
def requestedSize (size : ℕ × ℕ) : List SlotEvent → ℕ × ℕ
  | [] => size
  | .resizeFrame cols rows _ :: evs => requestedSize (clampSize cols rows) evs
  | _ :: evs => requestedSize size evs

/-- The size that was last set on the PTY. -/
def grantedSize (size : ℕ × ℕ) : List SlotEvent → ℕ × ℕ
  | [] => size
  | .resizeFrame cols rows true :: evs => grantedSize (clampSize cols rows) evs
  | _ :: evs => grantedSize size evs

/-- The two sizes are what the history says. -/
theorem run_sizes {width : Char → Option ℕ} {slot slot' : SizedSlot} {evs : List SlotEvent}
    (hrun : (slotLife width).run slot evs = some slot') :
    slot'.terminal.size = requestedSize slot.terminal.size evs ∧
      slot'.pty = grantedSize slot.pty evs := by
  induction evs generalizing slot with
  | nil =>
      cases hrun
      exact ⟨rfl, rfl⟩
  | cons ev evs ih =>
      rw [Machine.run_cons, Option.bind_eq_some_iff] at hrun
      obtain ⟨slot₁, hstep, hrun⟩ := hrun
      obtain ⟨hterminal, hpty⟩ := ih hrun
      cases ev with
      | output dispatches =>
          dsimp only [slotLife, SizedSlot.step] at hstep
          split at hstep
          · obtain ⟨terminal, hfeed, rfl⟩ := Option.map_eq_some_iff.mp hstep
            refine ⟨?_, hpty⟩
            rw [hterminal, TerminalState.feed_size hfeed]
            rfl
          · cases hstep
      | resizeFrame cols rows applied =>
          dsimp only [slotLife, SizedSlot.step] at hstep
          split at hstep
          · cases hstep
            -- the terminal is resized whether or not the PTY was
            refine ⟨hterminal, ?_⟩
            cases applied <;> exact hpty
          · cases hstep
      | transportLost =>
          dsimp only [slotLife, SizedSlot.step] at hstep
          split at hstep <;> cases hstep
          exact ⟨hterminal, hpty⟩
      | reattach =>
          dsimp only [slotLife, SizedSlot.step] at hstep
          split at hstep <;> cases hstep
          exact ⟨hterminal, hpty⟩

/-- **Sizes, exactly.** In a session opened with `cols` by `rows`, PTY and terminal agree
whenever output is processed if and only if, whenever output is processed, the size asked for
last, 80 by 24 if no `Resize` frame has come yet, is the size last set on the PTY. -/
theorem sizes_agree_iff (width : Char → Option ℕ) (cols rows : ℕ) (evs : List SlotEvent) :
    (slotLife width).Along SizedSlot.AgreesAtOutput (.opened cols rows) evs ↔
      ∀ pre dispatches post, evs = pre ++ .output dispatches :: post →
        ((slotLife width).run (.opened cols rows) pre).isSome →
          requestedSize (80, 24) pre = grantedSize (cols, rows) pre := by
  constructor
  · rintro h pre dispatches post rfl hrun
    obtain ⟨slot, hrun⟩ := Option.isSome_iff_exists.mp hrun
    rw [(slotLife width).along_append hrun] at h
    obtain ⟨hterminal, hpty⟩ := run_sizes hrun
    have hagree : slot.terminal.size = slot.pty := h.2.1
    rwa [hterminal, hpty] at hagree
  · intro h
    refine (slotLife width).along_of_prefixes fun pre ev post slot hsplit hrun => ?_
    cases ev with
    | output dispatches =>
        have hsizes := h pre dispatches post hsplit (Option.isSome_iff_exists.mpr ⟨slot, hrun⟩)
        obtain ⟨hterminal, hpty⟩ := run_sizes hrun
        change slot.terminal.size = slot.pty
        rw [hterminal, hpty]
        exact hsizes
    | resizeFrame cols rows applied => trivial
    | transportLost => trivial
    | reattach => trivial

/-- A session opened with 100 by 30: the first output is processed at 80 by 24. -/
theorem opened_sizes_differ :
    ¬ (slotLife fun _ => some 1).Along SizedSlot.AgreesAtOutput (.opened 100 30)
      [.output [.print 'a']] :=
  fun h => absurd h.1 (by decide)

end Nosh.Server
