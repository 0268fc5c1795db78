import Mathlib.Data.List.Basic
import Mathlib.Data.Nat.PSub
import Mathlib.Tactic.Common

/-!
# Paging key by key, and at once

What the stdin arm of `run_pump` makes of the paging keys in one read. `CsiResult` has one boolean
for each direction and the other bytes put together, so that the arm pages up at most once, then
down at most once, and last goes back to `Live` if there was any other byte. This is compared with
the same keys pressed one after the other, in the view that can be seen: `none` is `Live`, and
`some offset` is the scrollback view with that offset.

## Main Definitions

* `pressed` — the view after the strokes, one by one
* `atOnce` — the view after a read with these strokes
* `Orderly` — strokes for which there is no difference

## Main Results

* `orderly_iff` — **a read shows what its strokes show one by one, in every view and for every
  height of the screen, exactly if they are orderly.**
-/

namespace Nosh.Client

/-- What is found in a read: a paging key, or another byte. -/
inductive Stroke
  | up
  | down
  | other
  deriving DecidableEq, Repr

namespace Stroke

/-- What a stroke does to the view. -/
def act (rows : ℕ) : Stroke → Option ℕ → Option ℕ
  | .up, none => some 0
  | .up, some offset => some (offset + rows)
  | .down, none => none
  | .down, some offset => if offset ≤ rows then none else some (offset - rows)
  | .other, _ => none

end Stroke

/-- The view after the strokes, one by one. -/
def pressed (rows : ℕ) (view : Option ℕ) (strokes : List Stroke) : Option ℕ :=
  strokes.foldl (fun view stroke => stroke.act rows view) view

/-- The view after all strokes of a read: up, down, and back to `Live`, once each. -/
def atOnce (rows : ℕ) (view : Option ℕ) (strokes : List Stroke) : Option ℕ :=
  let up := if .up ∈ strokes then Stroke.up.act rows view else view
  let down := if .down ∈ strokes then Stroke.down.act rows up else up
  if .other ∈ strokes then none else down

/-! ## Orderly strokes -/

/-- How far up the view is after a stroke, in strokes: `Live` is 0, and the scrollback view is
entered at its lower end with the first stroke. A stroke down leaves it from there, and also from
one stroke further up. -/
def level (above : ℕ) : Stroke → ℕ
  | .up => above + 1
  | .down => if above ≤ 2 then 0 else above - 1
  | .other => 0

/-- How many of the strokes up are open after these strokes, where a stroke down closes the last one
that is; `none` if there is one too many, or another byte. -/
def nested : ℕ → List Stroke → Option ℕ
  | opened, [] => some opened
  | opened, .up :: strokes => nested (opened + 1) strokes
  | opened + 1, .down :: strokes => nested opened strokes
  | 0, .down :: _ => none
  | _, .other :: _ => none

/-- With another byte in the read: the strokes behind the last one lead back to `Live`. Without one:
there is only one stroke, or the strokes up and down are paired like brackets. -/
def Orderly (strokes : List Stroke) : Prop :=
  if .other ∈ strokes then strokes.foldl level 0 = 0
  else strokes.length ≤ 1 ∨ nested 0 strokes = some 0

instance (strokes : List Stroke) : Decidable (Orderly strokes) :=
  inferInstanceAs (Decidable (if .other ∈ strokes then strokes.foldl level 0 = 0
    else strokes.length ≤ 1 ∨ nested 0 strokes = some 0))

theorem orderly_of_length_le_one {strokes : List Stroke} (h : strokes.length ≤ 1) :
    Orderly strokes := by
  rcases strokes with _ | ⟨stroke, _ | ⟨second, later⟩⟩
  · decide
  · cases stroke <;> decide
  · exact absurd h (by simp)

theorem orderly_of_forall_other {strokes : List Stroke} (h : ∀ stroke ∈ strokes, stroke = .other) :
    Orderly strokes := by
  have hlevel : ∀ above, strokes ≠ [] → strokes.foldl level above = 0 := by
    induction strokes with
    | nil => exact fun _ hne => (hne rfl).elim
    | cons stroke strokes ih =>
        intro above _
        obtain ⟨rfl, hlater⟩ := List.forall_mem_cons.mp h
        by_cases hlast : strokes = []
        · rw [hlast]
          rfl
        · exact ih hlater _ hlast
  cases strokes with
  | nil => decide
  | cons stroke strokes =>
      obtain ⟨rfl, -⟩ := List.forall_mem_cons.mp h
      rw [Orderly, if_pos List.mem_cons_self]
      exact hlevel 0 (List.cons_ne_nil _ _)

section Pressed

variable {rows : ℕ} {view : Option ℕ} {strokes : List Stroke}
variable {above : ℕ}

theorem pressed_cons (rows : ℕ) (view : Option ℕ) (stroke : Stroke) (strokes : List Stroke) :
    pressed rows view (stroke :: strokes) = pressed rows (stroke.act rows view) strokes := rfl

theorem pressed_append (rows : ℕ) (view : Option ℕ) (strokes later : List Stroke) :
    pressed rows view (strokes ++ later) = pressed rows (pressed rows view strokes) later :=
  List.foldl_append

/-- Behind another byte it does not matter what the view was before. -/
theorem pressed_of_other (h : .other ∈ strokes) :
    pressed rows view strokes = pressed rows none strokes := by
  obtain ⟨before, after, rfl⟩ := List.append_of_mem h
  rw [pressed_append, pressed_append, pressed_cons, pressed_cons]
  rfl

/-! ### The level -/

/-- The view is not further up than the level. -/
def Within (rows above : ℕ) (view : Option ℕ) : Prop :=
  ∀ offset ∈ view, ∃ pages ∈ above.ppred, offset ≤ pages * rows

theorem within_none (rows above : ℕ) : Within rows above none := nofun

theorem Within.eq_none (h : Within rows 0 view) : view = none := by
  refine Option.eq_none_iff_forall_not_mem.mpr fun offset hoffset => ?_
  obtain ⟨pages, hpages, -⟩ := h offset hoffset
  cases hpages

theorem Within.act (h : Within rows above view) (stroke : Stroke) :
    Within rows (level above stroke) (stroke.act rows view) := by
  cases view with
  | none =>
      cases stroke with
      | up =>
          rintro offset ⟨⟩
          exact ⟨above, rfl, Nat.zero_le _⟩
      | down => exact within_none rows _
      | other => exact within_none rows _
  | some old =>
      obtain ⟨pages, hpages, hle⟩ := h old rfl
      obtain rfl : pages + 1 = above := Nat.ppred_eq_some.mp hpages
      cases stroke with
      | up =>
          rintro offset ⟨⟩
          refine ⟨pages + 1, rfl, ?_⟩
          rw [Nat.succ_mul]
          exact Nat.add_le_add_right hle rows
      | down =>
          rw [Stroke.act]
          split
          · exact within_none rows _
          · rename_i hlow
            have hpages : ¬ pages ≤ 1 := by
              intro hone
              have hbound := Nat.mul_le_mul_right rows hone
              omega
            obtain ⟨fewer, rfl⟩ : ∃ fewer, pages = fewer + 2 := ⟨pages - 2, by omega⟩
            rintro offset ⟨⟩
            refine ⟨fewer + 1, rfl, ?_⟩
            rw [Nat.succ_mul (fewer + 1)] at hle
            omega
      | other => exact within_none rows _

theorem Within.pressed (h : Within rows above view) (strokes : List Stroke) :
    Within rows (strokes.foldl level above) (pressed rows view strokes) := by
  induction strokes generalizing above view with
  | nil => exact h
  | cons stroke strokes ih => exact ih (h.act stroke)

/-- On a screen of one row the level is the view. -/
theorem pressed_one_row (above : ℕ) (strokes : List Stroke) :
    pressed 1 above.ppred strokes = (strokes.foldl level above).ppred := by
  induction strokes generalizing above with
  | nil => rfl
  | cons stroke strokes ih =>
      rw [pressed_cons, List.foldl_cons, ← ih]
      congr 1
      cases stroke with
      | up => cases above <;> rfl
      | down =>
          rcases above with _ | _ | _ | above
          · rfl
          · rfl
          · rfl
          · rw [level, if_neg (by omega)]
            rfl
      | other => rfl

/-! ### Paired strokes -/

/-- A stroke down takes back a stroke up that is open. -/
theorem act_down_opened (rows low opened : ℕ) :
    Stroke.down.act rows (some (low + 1 + (opened + 1) * rows)) =
      some (low + 1 + opened * rows) := by
  rw [Stroke.act, Nat.succ_mul, if_neg (by omega)]
  congr 1
  omega

/-- Paired strokes keep a view that is above the lower end of the scrollback. -/
theorem pressed_of_nested {opened later : ℕ} (h : nested opened strokes = some later) (low : ℕ) :
    pressed rows (some (low + 1 + opened * rows)) strokes = some (low + 1 + later * rows) := by
  induction strokes generalizing opened with
  | nil =>
      cases h
      rfl
  | cons stroke strokes ih =>
      rw [pressed_cons]
      cases stroke with
      | up =>
          rw [Stroke.act, Nat.add_assoc, ← Nat.succ_mul]
          exact ih h
      | down =>
          cases opened with
          | zero => cases h
          | succ opened =>
              rw [act_down_opened]
              exact ih h
      | other => cases opened <;> cases h

/-- Paired strokes lead from the lower end of the scrollback to `Live`. -/
theorem level_of_nested {opened : ℕ} (h : nested opened strokes = some 0)
    (habove : above ≤ opened + 1) (hne : strokes ≠ []) : strokes.foldl level above = 0 := by
  induction strokes generalizing opened above with
  | nil => exact (hne rfl).elim
  | cons stroke strokes ih =>
      rw [List.foldl_cons]
      cases stroke with
      | up =>
          refine ih h (Nat.succ_le_succ habove) ?_
          rintro rfl
          cases h
      | down =>
          cases opened with
          | zero => cases h
          | succ opened =>
              rw [nested] at h
              by_cases hlast : strokes = []
              · subst hlast
                cases h
                rw [level, if_pos habove, List.foldl_nil]
              · refine ih h ?_ hlast
                rw [level]
                split
                · exact Nat.zero_le _
                · omega
      | other => cases opened <;> cases h

/-- On a screen of two rows a view with an odd offset is only seen until a stroke down leaves it. -/
theorem pressed_two_rows_even (h : ∀ offset ∈ view, 2 ∣ offset) (strokes : List Stroke) :
    ∀ offset ∈ pressed 2 view strokes, 2 ∣ offset := by
  induction strokes generalizing view with
  | nil => exact h
  | cons stroke strokes ih =>
      rw [pressed_cons]
      refine ih ?_
      intro offset hoffset
      cases stroke with
      | up =>
          cases view with
          | none =>
              cases hoffset
              exact Nat.dvd_zero 2
          | some old =>
              cases hoffset
              exact Nat.dvd_add (h old rfl) (Nat.dvd_refl 2)
      | down =>
          cases view with
          | none => cases hoffset
          | some old =>
              rw [Option.mem_def, Stroke.act, Option.ite_none_left_eq_some,
                Option.some.injEq] at hoffset
              rw [← hoffset.2]
              exact Nat.dvd_sub (h old rfl) (Nat.dvd_refl 2)
      | other => cases hoffset

/-- Strokes that keep the view with offset 1 on a screen of two rows are paired. -/
theorem nested_of_pressed {opened : ℕ}
    (h : pressed 2 (some (0 + 1 + opened * 2)) strokes = some 1) :
    nested opened strokes = some 0 := by
  have hnone : ∀ later, pressed 2 none later ≠ some 1 := by
    intro later hlater
    have hdvd := @pressed_two_rows_even none nofun later 1 hlater
    omega
  induction strokes generalizing opened with
  | nil =>
      have hone : 0 + 1 + opened * 2 = 1 := Option.some.inj h
      rw [nested]
      congr 1
      omega
  | cons stroke strokes ih =>
      rw [pressed_cons] at h
      cases stroke with
      | up =>
          rw [Stroke.act, Nat.add_assoc, ← Nat.succ_mul] at h
          exact ih h
      | down =>
          cases opened with
          | zero => exact (hnone strokes h).elim
          | succ opened =>
              rw [act_down_opened] at h
              exact ih h
      | other => exact (hnone strokes h).elim

end Pressed

/-! ## A read and its strokes -/

section AtOnce

variable {strokes : List Stroke}

theorem atOnce_of_other (rows : ℕ) (view : Option ℕ) (h : .other ∈ strokes) :
    atOnce rows view strokes = none := if_pos h

/-- However often one key is found in a read, it counts once. -/
theorem atOnce_replicate (rows : ℕ) (view : Option ℕ) (stroke : Stroke) (count : ℕ) :
    atOnce rows view (List.replicate (count + 1) stroke) = stroke.act rows view := by
  unfold atOnce
  simp only [List.mem_replicate, ne_eq, Nat.succ_ne_zero, not_false_eq_true, true_and]
  cases stroke <;> rfl

theorem atOnce_of_up_down (rows : ℕ) (view : Option ℕ) (hother : .other ∉ strokes)
    (hup : .up ∈ strokes) (hdown : .down ∈ strokes) :
    atOnce rows view strokes = Stroke.down.act rows (Stroke.up.act rows view) := by
  rw [atOnce, if_neg hother, if_pos hdown, if_pos hup]

/-- Paging keys are all the same, or there are some in each direction. -/
theorem eq_replicate_or (hother : .other ∉ strokes) :
    strokes = List.replicate strokes.length .up ∨ strokes = List.replicate strokes.length .down ∨
      .up ∈ strokes ∧ .down ∈ strokes := by
  by_cases hup : .up ∈ strokes
  · by_cases hdown : .down ∈ strokes
    · exact .inr (.inr ⟨hup, hdown⟩)
    · refine .inl (List.eq_replicate_of_mem fun stroke hmem => ?_)
      cases stroke with
      | up => rfl
      | down => exact (hdown hmem).elim
      | other => exact (hother hmem).elim
  · refine .inr (.inl (List.eq_replicate_of_mem fun stroke hmem => ?_))
    cases stroke with
    | up => exact (hup hmem).elim
    | down => rfl
    | other => exact (hother hmem).elim

theorem nested_replicate_up (opened count : ℕ) :
    nested opened (List.replicate count .up) = some (opened + count) := by
  induction count generalizing opened with
  | zero => rfl
  | succ count ih =>
      rw [List.replicate_succ, nested, ih]
      congr 1
      omega

theorem nested_replicate_down (opened count : ℕ) :
    nested (opened + count) (List.replicate count .down) = some opened := by
  induction count with
  | zero => rfl
  | succ count ih =>
      rw [List.replicate_succ, ← Nat.add_assoc, nested]
      exact ih

/-- Strokes that are paired are none, or some in each direction. -/
theorem up_mem_and_down_mem_of_nested (h : nested 0 strokes = some 0) (hother : .other ∉ strokes)
    (hne : strokes ≠ []) : .up ∈ strokes ∧ .down ∈ strokes := by
  have hlength : strokes.length ≠ 0 := fun hzero => hne (List.length_eq_zero_iff.mp hzero)
  rcases eq_replicate_or hother with hall | hall | hboth
  · rw [hall, nested_replicate_up, Option.some.injEq] at h
    omega
  · obtain ⟨count, hcount⟩ := Nat.exists_eq_succ_of_ne_zero hlength
    rw [hall, hcount, List.replicate_succ] at h
    cases h
  · exact hboth

theorem atOnce_eq_pressed (h : Orderly strokes) (rows : ℕ) (view : Option ℕ) :
    atOnce rows view strokes = pressed rows view strokes := by
  unfold Orderly at h
  split at h
  · rename_i hother
    have hwithin := (within_none rows 0).pressed strokes
    rw [h] at hwithin
    rw [atOnce_of_other rows view hother, pressed_of_other hother, hwithin.eq_none]
  · rename_i hother
    rcases h with hone | hnested
    · rcases strokes with _ | ⟨stroke, _ | ⟨second, later⟩⟩
      · rfl
      · exact atOnce_replicate rows view stroke 0
      · exact absurd hone (by simp)
    · by_cases hne : strokes = []
      · subst hne
        rfl
      · obtain ⟨hup, hdown⟩ := up_mem_and_down_mem_of_nested hnested hother hne
        rw [atOnce_of_up_down rows view hother hup hdown]
        rcases view with _ | _ | low
        · have hwithin := (within_none rows 0).pressed strokes
          rw [level_of_nested hnested (Nat.zero_le _) hne] at hwithin
          exact hwithin.eq_none.symm
        · have hzero : Within rows 1 (some 0) := by
            rintro offset ⟨⟩
            exact ⟨0, rfl, Nat.zero_le _⟩
          have hwithin := hzero.pressed strokes
          rw [level_of_nested hnested (Nat.le_refl _) hne] at hwithin
          rw [hwithin.eq_none, Stroke.act, Stroke.act, if_pos (Nat.le_of_eq (Nat.zero_add rows))]
        · have hpressed := @pressed_of_nested rows strokes 0 0 hnested low
          rw [Nat.zero_mul, Nat.add_zero] at hpressed
          rw [hpressed, Stroke.act, Stroke.act, if_neg (by omega), Nat.add_sub_cancel]

/-- A key that is found more than once in a read does not count as often as it was pressed. -/
theorem length_le_one_of_replicate {stroke : Stroke}
    (hall : strokes = List.replicate strokes.length stroke) (hkey : stroke = .up ∨ stroke = .down)
    (h : ∀ rows view, atOnce rows view strokes = pressed rows view strokes) :
    strokes.length ≤ 1 := by
  generalize strokes.length = count at hall ⊢
  subst hall
  cases count with
  | zero => exact Nat.zero_le 1
  | succ count =>
      rcases hkey with rfl | rfl
      · have htwo := h 2 (some (0 + 1 + 0 * 2))
        rw [pressed_of_nested (nested_replicate_up 0 (count + 1)) 0, atOnce_replicate, Stroke.act,
          Option.some.injEq] at htwo
        omega
      · have htwo := h 2 (some (0 + 1 + (0 + (count + 1)) * 2))
        rw [pressed_of_nested (nested_replicate_down 0 (count + 1)) 0, atOnce_replicate, Stroke.act,
          if_neg (by omega), Option.some.injEq] at htwo
        omega

theorem orderly_of_atOnce (h : ∀ rows view, atOnce rows view strokes = pressed rows view strokes) :
    Orderly strokes := by
  unfold Orderly
  split
  · rename_i hother
    have hlive := h 1 none
    rw [atOnce_of_other 1 none hother] at hlive
    have hlevel := hlive.trans (pressed_one_row 0 strokes)
    exact Nat.ppred_eq_none.mp hlevel.symm
  · rename_i hother
    rcases eq_replicate_or hother with hall | hall | ⟨hup, hdown⟩
    · exact .inl (length_le_one_of_replicate hall (.inl rfl) h)
    · exact .inl (length_le_one_of_replicate hall (.inr rfl) h)
    · right
      have hone := h 2 (some 1)
      rw [atOnce_of_up_down 2 (some 1) hother hup hdown] at hone
      exact nested_of_pressed hone.symm

/-- **A read shows what its strokes show one by one exactly if they are orderly.** -/
theorem orderly_iff :
    Orderly strokes ↔ ∀ rows view, atOnce rows view strokes = pressed rows view strokes :=
  ⟨atOnce_eq_pressed, orderly_of_atOnce⟩

end AtOnce

end Nosh.Client
