import Mathlib.Data.List.Basic
import Mathlib.Order.Nat

/-!
# Consecutive numbers

`Consecutive a xs b` says that `xs` is `a, a + 1, …, b - 1`.  Queues that carry
sequence numbers have this shape, whichever end they are used at: a new number goes
to the back and raises `b`, the oldest one leaves at the front and raises `a`.
-/

namespace Nosh.Lib

/-- The list `a, a + 1, …, b - 1`. -/
def Consecutive : ℕ → List ℕ → ℕ → Prop
  | a, [], b => a = b
  | a, x :: xs, b => x = a ∧ Consecutive (a + 1) xs b

namespace Consecutive

variable {a b x : ℕ} {xs : List ℕ}

variable (h : Consecutive a xs b)

include h

theorem le : a ≤ b := by
  induction xs generalizing a with
  | nil => exact le_of_eq h
  | cons x xs ih => exact le_of_lt (ih h.2)

theorem concat : Consecutive a (xs ++ [b]) (b + 1) := by
  induction xs generalizing a with
  | nil =>
      obtain rfl : a = b := h
      exact ⟨rfl, rfl⟩
  | cons x xs ih => exact ⟨h.1, ih h.2⟩

theorem mem_iff : x ∈ xs ↔ a ≤ x ∧ x < b := by
  induction xs generalizing a with
  | nil =>
      obtain rfl : a = b := h
      exact ⟨fun hmem => absurd hmem List.not_mem_nil, fun hx => absurd hx.1 (by omega)⟩
  | cons y xs ih =>
      obtain ⟨rfl, hrest⟩ := h
      have hle := hrest.le
      rw [List.mem_cons, ih hrest]
      omega

theorem pairwise : xs.Pairwise (· < ·) := by
  induction xs generalizing a with
  | nil => exact List.Pairwise.nil
  | cons y xs ih =>
      obtain ⟨rfl, hrest⟩ := h
      exact List.pairwise_cons.mpr ⟨fun z hz => (hrest.mem_iff.mp hz).1, ih hrest⟩

/-- The numbers from `w` on. -/
theorem filter_le {w : ℕ} (hw : w ≤ b) : Consecutive (max a w) (xs.filter (w ≤ ·)) b := by
  induction xs generalizing a with
  | nil =>
      obtain rfl : a = b := h
      rw [Nat.max_eq_left hw]
      rfl
  | cons x xs ih =>
      obtain ⟨rfl, hrest⟩ := h
      have hih := ih hrest
      by_cases hx : w ≤ x
      · rw [Nat.max_eq_left hx, List.filter_cons_of_pos (by simpa using hx)]
        rw [Nat.max_eq_left (by omega)] at hih
        exact ⟨rfl, hih⟩
      · rw [List.filter_cons_of_neg (by simpa using hx)]
        rw [Nat.max_eq_right (by omega)] at hih ⊢
        exact hih

end Consecutive

end Nosh.Lib
