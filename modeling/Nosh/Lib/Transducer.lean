import Mathlib.Data.List.Basic
import Mathlib.Tactic.Common

/-!
# Transducers that may stop

A transducer reads a stream letter by letter, writes an output for each letter, and may stop at a
letter. It is given the stream in pieces; once it has stopped it is given no more of them.

## Main Definitions

* `Transducer.feed` — one piece, as far as the transducer goes
* `Transducer.feedAll` — piece after piece, until it stops

## Main Results

* `Transducer.feedAll_eq_feed_flatten` — **it makes no difference how the stream is cut.**
* `Transducer.feed_invariant` — what relates the letters read so far to the state and the output,
  and is kept by a step, holds after a piece, up to the letter at which the transducer stops.
-/

namespace Nosh.Lib

/-- Reads letters of `α`, writes letters of `β`; it stops at a letter for which there is no step. -/
structure Transducer (σ α β : Type*) where
  step : σ → α → Option (σ × List β)

namespace Transducer

/-- What was written, whether the transducer has stopped, and the state it is in. -/
structure Fed (σ β : Type*) where
  out : List β
  stopped : Bool
  state : σ
  deriving DecidableEq, Repr

variable {σ α β : Type*} (T : Transducer σ α β)

/-- Read a piece; what follows the letter at which the transducer stops is dropped. -/
def feed (s : σ) : List α → Fed σ β
  | [] => ⟨[], false, s⟩
  | a :: as =>
      match T.step s a with
      | none => ⟨[], true, s⟩
      | some (s', out) =>
          let fed := feed s' as
          { fed with out := out ++ fed.out }

/-- Read piece after piece, until the transducer stops. -/
def feedAll (s : σ) : List (List α) → Fed σ β
  | [] => ⟨[], false, s⟩
  | piece :: pieces =>
      let fed := T.feed s piece
      if fed.stopped then fed
      else
        let later := feedAll fed.state pieces
        { later with out := fed.out ++ later.out }

variable {T}

theorem feed_cons_of_step {s s' : σ} {a : α} {out : List β} (h : T.step s a = some (s', out))
    (as : List α) :
    T.feed s (a :: as) = { T.feed s' as with out := out ++ (T.feed s' as).out } := by
  rw [feed, h]

theorem feed_cons_of_stop {s : σ} {a : α} (h : T.step s a = none) (as : List α) :
    T.feed s (a :: as) = ⟨[], true, s⟩ := by
  rw [feed, h]

/-- A transducer that has stopped reads no more. -/
theorem feed_append_of_stopped {s : σ} {as : List α} (h : (T.feed s as).stopped = true)
    (bs : List α) : T.feed s (as ++ bs) = T.feed s as := by
  induction as generalizing s with
  | nil => cases h
  | cons a as ih =>
      rw [List.cons_append]
      cases hstep : T.step s a with
      | none => rw [feed_cons_of_stop hstep, feed_cons_of_stop hstep]
      | some next =>
          rw [feed_cons_of_step hstep] at h
          rw [feed_cons_of_step hstep, feed_cons_of_step hstep, ih h]

theorem feed_append_of_running {s : σ} {as : List α} (h : (T.feed s as).stopped = false)
    (bs : List α) :
    T.feed s (as ++ bs) =
      { T.feed (T.feed s as).state bs with
        out := (T.feed s as).out ++ (T.feed (T.feed s as).state bs).out } := by
  induction as generalizing s with
  | nil => rfl
  | cons a as ih =>
      rw [List.cons_append]
      cases hstep : T.step s a with
      | none =>
          rw [feed_cons_of_stop hstep] at h
          cases h
      | some next =>
          rw [feed_cons_of_step hstep] at h
          rw [feed_cons_of_step hstep, feed_cons_of_step hstep, ih h, List.append_assoc]

/-- **It makes no difference how the stream is cut.** -/
theorem feedAll_eq_feed_flatten (s : σ) (pieces : List (List α)) :
    T.feedAll s pieces = T.feed s pieces.flatten := by
  induction pieces generalizing s with
  | nil => rfl
  | cons piece pieces ih =>
      rw [feedAll, List.flatten_cons]
      dsimp only
      cases hstopped : (T.feed s piece).stopped with
      | true => rw [if_pos rfl, feed_append_of_stopped hstopped]
      | false => rw [if_neg Bool.false_ne_true, ih, feed_append_of_running hstopped]

/-- An invariant of the letters read so far, the state and the output holds after a piece. If the
transducer stops, it holds up to the letter for which there is no step. -/
theorem feed_invariant {inv : List α → σ → List β → Prop}
    (hstep : ∀ before s out a s' written, inv before s out → T.step s a = some (s', written) →
      inv (before ++ [a]) s' (out ++ written))
    {before : List α} {s : σ} {out : List β} (h : inv before s out) (as : List α) :
    ((T.feed s as).stopped = false →
        inv (before ++ as) (T.feed s as).state (out ++ (T.feed s as).out)) ∧
      ((T.feed s as).stopped = true → ∃ read a rest, as = read ++ a :: rest ∧
        inv (before ++ read) (T.feed s as).state (out ++ (T.feed s as).out) ∧
        T.step (T.feed s as).state a = none) := by
  induction as generalizing before s out with
  | nil =>
      refine ⟨fun _ => ?_, nofun⟩
      rw [feed, List.append_nil, List.append_nil]
      exact h
  | cons a as ih =>
      cases ha : T.step s a with
      | none =>
          rw [feed_cons_of_stop ha, List.append_nil]
          exact ⟨nofun, fun _ => ⟨[], a, as, rfl, by rwa [List.append_nil], ha⟩⟩
      | some next =>
          obtain ⟨hrunning, hstopped⟩ := ih (hstep before s out a next.1 next.2 h ha)
          rw [feed_cons_of_step ha]
          refine ⟨fun hrun => ?_, fun hstop => ?_⟩
          · have hinv := hrunning hrun
            rwa [List.append_assoc, List.singleton_append, List.append_assoc] at hinv
          · obtain ⟨read, b, rest, rfl, hinv, hb⟩ := hstopped hstop
            rw [List.append_assoc, List.singleton_append, List.append_assoc] at hinv
            exact ⟨a :: read, b, rest, rfl, hinv, hb⟩

end Transducer

end Nosh.Lib
