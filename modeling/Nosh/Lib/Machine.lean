import Mathlib.Data.List.Basic
import Mathlib.Order.Basic

/-!
# Partial-step machines and their runs

A component of a concurrent system is a **machine**: a step function on an
explicit state that answers `none` when the action is not enabled.  A schedule
is a list of actions, and `run` replays it.  Every interleaving of the parties
of a protocol is one schedule, so a statement about every schedule is a
statement about every interleaving.

`Along ok s as` says that each action of `as` meets the guard `ok` *in the state
it is taken from*.  This is how "in every run whose steps all meet the
condition" is stated.

`invariant_along` packages the induction over schedules once: an invariant that
holds initially and is kept by every step meeting the guard holds at the end of
every guarded run.

`emitAll` is the output of a loop that keeps a state between its turns.
-/

namespace Nosh.Lib

universe u v w

/-- A deterministic machine with labelled steps; `none` means the action is not
enabled in that state. -/
structure Machine (σ : Type u) (α : Type v) where
  step : σ → α → Option σ

namespace Machine

variable {σ : Type u} {α : Type v} (M : Machine σ α)
variable {ok : σ → α → Prop} {s t : σ} {a : α} {as : List α}

/-- Replay a schedule from a state; `none` as soon as an action is refused. -/
def run : σ → List α → Option σ
  | s, [] => some s
  | s, a :: as =>
      match M.step s a with
      | some s' => run s' as
      | none => none

theorem run_cons (s : σ) (a : α) (as : List α) :
    M.run s (a :: as) = (M.step s a).bind fun s' => M.run s' as := by
  rw [run]
  cases M.step s a <;> rfl

theorem run_singleton (s : σ) (a : α) : M.run s [a] = M.step s a := by
  rw [run_cons]
  exact Option.bind_fun_some _

/-- A schedule is replayed part by part. -/
theorem run_append (s : σ) (as bs : List α) :
    M.run s (as ++ bs) = (M.run s as).bind fun t => M.run t bs := by
  induction as generalizing s with
  | nil => rfl
  | cons a as ih =>
      rw [List.cons_append, run_cons, run_cons, Option.bind_assoc]
      simp only [ih]

/-- Every action of the schedule meets `ok` in the state it is taken from.  A
refused action ends the run, so nothing is asked after it. -/
def Along (ok : σ → α → Prop) : σ → List α → Prop
  | _, [] => True
  | s, a :: as =>
      ok s a ∧
        match M.step s a with
        | some s' => Along ok s' as
        | none => True

theorem along_cons_of_step {s' : σ} (hstep : M.step s a = some s') :
    M.Along ok s (a :: as) ↔ ok s a ∧ M.Along ok s' as := by
  rw [Along, hstep]

/-- A guard is met along a schedule part by part. -/
theorem along_append {bs : List α} (hrun : M.run s as = some t) :
    M.Along ok s (as ++ bs) ↔ M.Along ok s as ∧ M.Along ok t bs := by
  induction as generalizing s with
  | nil =>
      cases hrun
      exact (and_iff_right trivial).symm
  | cons a as ih =>
      rw [run_cons, Option.bind_eq_some_iff] at hrun
      obtain ⟨s', hstep, hrun⟩ := hrun
      rw [List.cons_append, M.along_cons_of_step hstep, M.along_cons_of_step hstep, ih hrun,
        and_assoc]

theorem along_singleton : M.Along ok s [a] ↔ ok s a := by
  cases hstep : M.step s a <;> simp [Along, hstep]

instance decidableAlong (ok : σ → α → Prop) [∀ s a, Decidable (ok s a)] :
    ∀ (s : σ) (as : List α), Decidable (M.Along ok s as)
  | _, [] => isTrue trivial
  | s, a :: as =>
      match hstep : M.step s a with
      | some s' =>
          have := decidableAlong ok s' as
          decidable_of_iff (ok s a ∧ M.Along ok s' as)
            (M.along_cons_of_step hstep).symm
      | none =>
          decidable_of_iff (ok s a) (by rw [Along, hstep, and_true])

/-- Two guards are met along a schedule exactly when both together are. -/
theorem along_and {ok' : σ → α → Prop} :
    M.Along (fun s a => ok s a ∧ ok' s a) s as ↔ M.Along ok s as ∧ M.Along ok' s as := by
  induction as generalizing s with
  | nil => exact ⟨fun _ => ⟨trivial, trivial⟩, fun _ => trivial⟩
  | cons a as ih =>
      cases hs : M.step s a with
      | none => simp [Along, hs]
      | some s' =>
          rw [M.along_cons_of_step hs, M.along_cons_of_step hs, M.along_cons_of_step hs, ih]
          exact and_and_and_comm

/-- **The run rule.**  An invariant that holds in the first state and is kept by
every step meeting the guard holds in the last state of every guarded run. -/
theorem invariant_along (inv : σ → Prop)
    (hstep : ∀ s a s', inv s → ok s a → M.step s a = some s' → inv s') (h0 : inv s)
    (hok : M.Along ok s as) (hrun : M.run s as = some t) : inv t := by
  induction as generalizing s with
  | nil => cases hrun; exact h0
  | cons a as ih =>
      rw [run_cons, Option.bind_eq_some_iff] at hrun
      obtain ⟨s', hs', hrun⟩ := hrun
      rw [M.along_cons_of_step hs'] at hok
      exact ih (hstep s a s' h0 hok.1 hs') hok.2 hrun

/-- A guard that implies another one under an invariant implies it along every schedule. -/
theorem along_mono (inv : σ → Prop) {ok' : σ → α → Prop}
    (hstep : ∀ s a s', inv s → ok s a → M.step s a = some s' → inv s')
    (himp : ∀ s a, inv s → ok s a → ok' s a) (h0 : inv s) (hok : M.Along ok s as) :
    M.Along ok' s as := by
  induction as generalizing s with
  | nil => trivial
  | cons a as ih =>
      cases hs : M.step s a with
      | none =>
          rw [Along, hs] at hok ⊢
          exact ⟨himp s a h0 hok.1, trivial⟩
      | some s' =>
          rw [M.along_cons_of_step hs] at hok ⊢
          exact ⟨himp s a h0 hok.1, ih (hstep s a s' h0 hok.1 hs) hok.2⟩

/-- A guard is met along a schedule if each action meets it in the state the ones before it
lead to. -/
theorem along_of_prefixes
    (h : ∀ pre a post t, as = pre ++ a :: post → M.run s pre = some t → ok t a) :
    M.Along ok s as := by
  induction as generalizing s with
  | nil => trivial
  | cons a as ih =>
      have hfirst : ok s a := h [] a as s rfl rfl
      cases hs : M.step s a with
      | none =>
          rw [Along, hs]
          exact ⟨hfirst, trivial⟩
      | some s' =>
          rw [M.along_cons_of_step hs]
          refine ⟨hfirst, ih fun pre b post t hsplit hrun => h (a :: pre) b post t ?_ ?_⟩
          · rw [hsplit, List.cons_append]
          · rw [run_cons, hs]
            exact hrun

/-- A guard that every action meets is met along every schedule. -/
theorem along_of_forall (h : ∀ s a, ok s a) (s : σ) (as : List α) : M.Along ok s as := by
  induction as generalizing s with
  | nil => trivial
  | cons a as ih =>
      cases hs : M.step s a with
      | none => simp [Along, hs, h]
      | some s' =>
          rw [M.along_cons_of_step hs]
          exact ⟨h s a, ih s'⟩

/-- The run rule without a guard. -/
theorem invariant_run (inv : σ → Prop) (hstep : ∀ s a s', inv s → M.step s a = some s' → inv s')
    (h0 : inv s) (hrun : M.run s as = some t) : inv t :=
  M.invariant_along inv (fun s a s' h _ => hstep s a s' h) h0
    (M.along_of_forall (fun _ _ => trivial) s as) hrun

/-- **The enabledness rule.**  If under an invariant an action is enabled exactly when it meets
the guard, then a schedule runs to its end exactly when it is guarded throughout. -/
theorem isSome_run_iff_along (inv : σ → Prop)
    (hstep : ∀ s a s', inv s → M.step s a = some s' → inv s')
    (hok : ∀ s a, inv s → ((M.step s a).isSome ↔ ok s a)) (h0 : inv s) (as : List α) :
    (M.run s as).isSome ↔ M.Along ok s as := by
  induction as generalizing s with
  | nil => exact ⟨fun _ => trivial, fun _ => rfl⟩
  | cons a as ih =>
      have hfirst := hok s a h0
      cases hs : M.step s a with
      | none =>
          rw [run_cons, hs, Along, hs]
          rw [hs] at hfirst
          exact ⟨fun h => absurd h Bool.false_ne_true, fun h => hfirst.mpr h.1⟩
      | some s' =>
          rw [run_cons, hs, Option.bind_some, M.along_cons_of_step hs, ih (hstep s a s' h0 hs),
            iff_and_self]
          exact fun _ => hfirst.mp (by rw [hs]; rfl)

/-- The enabledness rule for a guard that does not look at the state. -/
theorem isSome_run_iff_forall (inv : σ → Prop) (ok : α → Prop)
    (hstep : ∀ s, ∀ a ∈ as, ∀ s', inv s → M.step s a = some s' → inv s')
    (hok : ∀ s, ∀ a ∈ as, inv s → ((M.step s a).isSome ↔ ok a)) (h0 : inv s) :
    (M.run s as).isSome ↔ ∀ a ∈ as, ok a := by
  induction as generalizing s with
  | nil => exact ⟨fun _ a ha => absurd ha List.not_mem_nil, fun _ => rfl⟩
  | cons a as ih =>
      rw [run_cons, List.forall_mem_cons, ← hok s a List.mem_cons_self h0]
      cases hs : M.step s a with
      | none => exact ⟨fun h => absurd h Bool.false_ne_true, fun h => h.1⟩
      | some s' =>
          rw [Option.bind_some,
            ih (fun s a ha => hstep s a (List.mem_cons_of_mem _ ha))
              (fun s a ha => hok s a (List.mem_cons_of_mem _ ha))
              (hstep s a List.mem_cons_self s' h0 hs)]
          exact (and_iff_right rfl).symm

/-- **The progress rule.**  If every action that meets the guard is enabled under an invariant and
keeps it, every guarded schedule runs to its end. -/
theorem exists_run (inv : σ → Prop) (ok : α → Prop)
    (hstep : ∀ s a, inv s → ok a → ∃ s', M.step s a = some s' ∧ inv s') (h0 : inv s)
    (hok : ∀ a ∈ as, ok a) : ∃ t, M.run s as = some t ∧ inv t := by
  induction as generalizing s with
  | nil => exact ⟨s, rfl, h0⟩
  | cons a as ih =>
      obtain ⟨ha, has⟩ := List.forall_mem_cons.mp hok
      obtain ⟨s', hs', hinv⟩ := hstep s a h0 ha
      obtain ⟨t, hrun, ht⟩ := ih hinv has
      exact ⟨t, by rw [run_cons, hs', Option.bind_some, hrun], ht⟩

/-- Every state a run goes through, the first and the last included: the states
its prefixes reach. -/
def Visits (s : σ) (as : List α) (t : σ) : Prop :=
  ∃ pre, pre <+: as ∧ M.run s pre = some t

theorem forall_visits_iff (good : σ → Prop) :
    (∀ t, M.Visits s as t → good t) ↔
      ∀ pre t, pre <+: as → M.run s pre = some t → good t :=
  ⟨fun h pre t hpre hrun => h t ⟨pre, hpre, hrun⟩, fun h t ⟨pre, hpre, hrun⟩ => h pre t hpre hrun⟩

/-- The states a run visits are its first one and those visited after its first step. -/
theorem visits_cons_iff {s' : σ} (hstep : M.step s a = some s') :
    M.Visits s (a :: as) t ↔ t = s ∨ M.Visits s' as t := by
  constructor
  · rintro ⟨pre, hpre, hrun⟩
    cases pre with
    | nil =>
        cases hrun
        exact Or.inl rfl
    | cons b pre =>
        rw [List.cons_prefix_cons] at hpre
        obtain ⟨rfl, hpre⟩ := hpre
        rw [run_cons, hstep, Option.bind_some] at hrun
        exact Or.inr ⟨pre, hpre, hrun⟩
  · rintro (rfl | ⟨pre, hpre, hrun⟩)
    · exact ⟨[], List.nil_prefix, rfl⟩
    · refine ⟨a :: pre, List.cons_prefix_cons.mpr ⟨rfl, hpre⟩, ?_⟩
      rw [run_cons, hstep]
      exact hrun

/-- A refused first action ends the run where it starts. -/
theorem visits_refused (hstep : M.step s a = none) (h : M.Visits s (a :: as) t) : t = s := by
  obtain ⟨pre, hpre, hrun⟩ := h
  cases pre with
  | nil =>
      cases hrun
      rfl
  | cons b pre =>
      rw [List.cons_prefix_cons] at hpre
      obtain ⟨rfl, -⟩ := hpre
      rw [run_cons, hstep] at hrun
      cases hrun

/-- **The exactly-when rule.**  If under an invariant a step keeps `good` exactly
when it meets the guard, then a run is good throughout exactly when it is
guarded throughout. -/
theorem forall_visits_iff_along (inv good : σ → Prop)
    (hstep : ∀ s a s', inv s → good s → M.step s a = some s' → inv s' ∧ (good s' ↔ ok s a))
    (hrefused : ∀ s a, inv s → good s → M.step s a = none → ok s a) (hinv : inv s) (hgood : good s)
    (as : List α) : (∀ t, M.Visits s as t → good t) ↔ M.Along ok s as := by
  induction as generalizing s with
  | nil =>
      refine ⟨fun _ => trivial, ?_⟩
      rintro - t ⟨pre, hpre, hrun⟩
      rw [List.prefix_nil] at hpre
      subst hpre
      cases hrun
      exact hgood
  | cons a as ih =>
      cases hs : M.step s a with
      | none =>
          rw [Along, hs]
          refine ⟨fun _ => ⟨hrefused s a hinv hgood hs, trivial⟩, fun _ t ht => ?_⟩
          rw [M.visits_refused hs ht]
          exact hgood
      | some s' =>
          obtain ⟨hinv', hgood'⟩ := hstep s a s' hinv hgood hs
          rw [M.along_cons_of_step hs]
          simp only [M.visits_cons_iff hs]
          constructor
          · intro hall
            have hs' : good s' := hall s' (Or.inr ⟨[], List.nil_prefix, rfl⟩)
            exact ⟨hgood'.mp hs', (ih hinv' hs').mp fun t ht => hall t (Or.inr ht)⟩
          · rintro ⟨hok, halong⟩ t (rfl | ht)
            · exact hgood
            · exact (ih hinv' (hgood'.mpr hok)).mpr halong t ht

end Machine

/-! ## Loops with output -/

section Emit

variable {σ : Type u} {α : Type v} {β : Type w}

/-- What a loop over a list writes: each turn reads and updates a state and appends to the
output. -/
def emitAll (step : σ → α → σ × List β) : σ → List α → List β
  | _, [] => []
  | s, a :: as => (step s a).2 ++ emitAll step (step s a).1 as

/-- What holds of everything each turn writes, whatever its state, holds of the output. -/
theorem forall_mem_emitAll {step : σ → α → σ × List β} {good : β → Prop} {as : List α}
    (hstep : ∀ s, ∀ a ∈ as, ∀ b ∈ (step s a).2, good b) (s : σ) :
    ∀ b ∈ emitAll step s as, good b := by
  induction as generalizing s with
  | nil => exact fun _ hb => (List.not_mem_nil hb).elim
  | cons a as ih =>
      intro b hb
      rcases List.mem_append.mp hb with hb | hb
      · exact hstep s a List.mem_cons_self b hb
      · exact ih (fun s a ha => hstep s a (List.mem_cons_of_mem _ ha)) _ b hb

end Emit

end Nosh.Lib
