import Mathlib.Data.List.DropRight
import Mathlib.Tactic.Common

/-!
# The first word of a line

A line is read as its first word and what comes after it, without the separators around either. The
lemmas say how the two change when the line is continued: with more of the last word, and with a
separator and another text.

## Main Definitions

* `strip` — without the separators at both ends
* `firstWord`, `afterWord` — the first word, and what follows it, stripped

## Main Results

* `strip_cases` — a stripped line is its first word, or that, a separator, and what follows.
* `firstWord_continued`, `afterWord_continued` — a line that is continued with a separator and a
  text.
* `afterWord_completed` — a line before and after its last word is completed.
-/

namespace Nosh.Lib.Words

variable {α : Type*} (sep : α → Bool)
variable {xs ys w : List α} {x : α}

/-- Without the separators at both ends. -/
def strip (xs : List α) : List α := (xs.dropWhile sep).rdropWhile sep

/-- The first word. -/
def firstWord (xs : List α) : List α := (xs.dropWhile sep).takeWhile (!sep ·)

/-- What follows the first word. -/
def afterWord (xs : List α) : List α := strip sep ((xs.dropWhile sep).dropWhile (!sep ·))

variable {sep}

/-! ## Stripping -/

theorem rdropWhile_append (xs ys : List α) :
    (xs ++ ys).rdropWhile sep =
      if ys.rdropWhile sep = [] then xs.rdropWhile sep else xs ++ ys.rdropWhile sep := by
  unfold List.rdropWhile
  rw [List.reverse_append, List.dropWhile_append]
  simp only [List.isEmpty_iff, List.reverse_eq_nil_iff]
  split
  · rfl
  · rw [List.reverse_append, List.reverse_reverse]

/-- A text that was continued with some element ends before it, or keeps it. -/
theorem rdropWhile_append_cons (xs : List α) (s : α) (ys : List α) :
    (xs ++ s :: ys).rdropWhile sep = xs.rdropWhile sep ∨
      xs ++ [s] <+: (xs ++ s :: ys).rdropWhile sep := by
  rw [rdropWhile_append]
  split
  · exact .inl rfl
  · rename_i hne
    right
    rw [List.prefix_append_right_inj]
    obtain ⟨t, ts, ht⟩ := List.exists_cons_of_ne_nil hne
    have hprefix : t :: ts <+: s :: ys := ht ▸ List.rdropWhile_prefix sep (s :: ys)
    rw [ht, (List.cons_prefix_cons.mp hprefix).1]
    exact List.prefix_append [s] ts

theorem strip_eq_nil_iff : strip sep xs = [] ↔ ∀ x ∈ xs, sep x = true := by
  unfold strip
  rw [List.rdropWhile_eq_nil_iff]
  constructor
  · intro h
    by_contra hsome
    have hne : xs.dropWhile sep ≠ [] := fun hnil => hsome (List.dropWhile_eq_nil_iff.mp hnil)
    have hhead := List.head_dropWhile_not sep hne
    exact absurd (h _ (List.head_mem hne)) (by simpa using hhead)
  · exact fun h x hx => h x ((List.dropWhile_suffix sep).subset hx)

theorem strip_append_of_forall (xs : List α) (h : ∀ y ∈ ys, sep y = true) :
    strip sep (xs ++ ys) = strip sep xs := by
  have hnil : ys.rdropWhile sep = [] := List.rdropWhile_eq_nil_iff.mpr h
  unfold strip
  rw [List.dropWhile_append]
  split
  · rename_i hempty
    rw [List.isEmpty_iff.mp hempty, List.dropWhile_eq_nil_iff.mpr h]
  · rw [rdropWhile_append, if_pos hnil]

theorem strip_cons_of_sep (h : sep x = true) (xs : List α) :
    strip sep (x :: xs) = strip sep xs := by
  unfold strip
  rw [List.dropWhile_cons_of_pos h]

theorem strip_rdropWhile (xs : List α) : strip sep (xs.rdropWhile sep) = strip sep xs := by
  have hsplit : xs.rdropWhile sep ++ xs.rtakeWhile sep = xs := List.rdropWhile_append_rtakeWhile
  calc strip sep (xs.rdropWhile sep)
      = strip sep (xs.rdropWhile sep ++ xs.rtakeWhile sep) :=
        (strip_append_of_forall _ fun _ hy => List.mem_rtakeWhile_imp hy).symm
    _ = strip sep xs := by rw [hsplit]

theorem strip_strip (xs : List α) : strip sep (strip sep xs) = strip sep xs := by
  have hkept : strip sep (strip sep xs) = strip sep (xs.dropWhile sep) := strip_rdropWhile _
  rw [hkept, strip, strip, List.dropWhile_idempotent]

theorem mem_of_mem_strip (h : x ∈ strip sep xs) : x ∈ xs :=
  (List.dropWhile_suffix sep).subset ((List.rdropWhile_prefix sep _).subset h)

/-- A text without separators. -/
def IsWord (sep : α → Bool) (xs : List α) : Prop := xs ≠ [] ∧ ∀ x ∈ xs, sep x = false

instance [DecidableEq α] (sep : α → Bool) (xs : List α) : Decidable (IsWord sep xs) :=
  inferInstanceAs (Decidable (_ ∧ _))

/-- A text that has no separators at its ends. -/
def Stripped (sep : α → Bool) (xs : List α) : Prop := xs ≠ [] ∧ strip sep xs = xs

theorem IsWord.not_mem (h : IsWord sep w) {s : α} (hs : sep s = true) : s ∉ w :=
  fun hmem => Bool.false_ne_true ((h.2 s hmem).symm.trans hs)

theorem dropWhile_append_of_head (h : ∀ y ∈ ys.head?, sep y = false) :
    (xs ++ ys).dropWhile sep = xs.dropWhile sep ++ ys := by
  rw [List.dropWhile_append]
  split
  · rename_i hempty
    rw [List.isEmpty_iff.mp hempty, List.nil_append]
    cases ys with
    | nil => rfl
    | cons y ys => exact List.dropWhile_cons_of_neg (by rw [h y rfl]; exact Bool.false_ne_true)
  · rfl

theorem IsWord.dropWhile_append (h : IsWord sep w) (xs : List α) :
    (xs ++ w).dropWhile sep = xs.dropWhile sep ++ w :=
  dropWhile_append_of_head fun y hy => h.2 y (List.mem_of_mem_head? hy)

theorem rdropWhile_append_of_last (xs : List α) (hne : ys ≠ []) (h : ys.rdropWhile sep = ys) :
    (xs ++ ys).rdropWhile sep = xs ++ ys := by
  rw [rdropWhile_append, h, if_neg hne]

theorem IsWord.rdropWhile_eq (h : IsWord sep w) : w.rdropWhile sep = w := by
  refine List.rdropWhile_eq_self_iff.mpr fun hne => ?_
  rw [h.2 _ (List.getLast_mem hne)]
  exact Bool.false_ne_true

/-! ## The first word and what follows -/

theorem firstWord_not_sep (xs : List α) : ∀ x ∈ firstWord sep xs, sep x = false := by
  intro x hx
  have h := List.mem_takeWhile_imp hx
  simpa using h

theorem mem_of_mem_afterWord (h : x ∈ afterWord sep xs) : x ∈ xs :=
  (List.dropWhile_suffix sep).subset ((List.dropWhile_suffix _).subset (mem_of_mem_strip h))

theorem firstWord_ne_nil (h : xs.dropWhile sep ≠ []) : firstWord sep xs ≠ [] := by
  have hhead := List.head_dropWhile_not sep h
  unfold firstWord
  cases hxs : xs.dropWhile sep with
  | nil => exact (h hxs).elim
  | cons x rest =>
      simp only [hxs, List.head_cons] at hhead
      rw [List.takeWhile_cons_of_pos (by rw [hhead]; rfl)]
      exact List.cons_ne_nil _ _

/-- A stripped line is its first word, or that, a separator, and what follows. -/
theorem strip_cases (xs : List α) :
    afterWord sep xs = [] ∧ strip sep xs = firstWord sep xs ∨
      ∃ s rest, sep s = true ∧ firstWord sep xs ≠ [] ∧ afterWord sep xs ≠ [] ∧
        strip sep rest = afterWord sep xs ∧ strip sep xs = firstWord sep xs ++ s :: rest := by
  have hsplit : firstWord sep xs ++ (xs.dropWhile sep).dropWhile (!sep ·) = xs.dropWhile sep :=
    List.takeWhile_append_dropWhile
  have hstrip : strip sep xs = (firstWord sep xs ++
      (xs.dropWhile sep).dropWhile (!sep ·)).rdropWhile sep := by
    rw [hsplit]
    rfl
  have hword : (firstWord sep xs).rdropWhile sep = firstWord sep xs := by
    refine List.rdropWhile_eq_self_iff.mpr fun hne => ?_
    rw [firstWord_not_sep xs _ (List.getLast_mem hne)]
    exact Bool.false_ne_true
  have hhead : ∀ s rest, (xs.dropWhile sep).dropWhile (!sep ·) = s :: rest → sep s = true := by
    intro s rest htail
    have hnot := List.head_dropWhile_not (!sep ·) (by rw [htail]; exact List.cons_ne_nil s rest)
    simp only [htail, List.head_cons, Bool.not_eq_false'] at hnot
    exact hnot
  have hfirst : (xs.dropWhile sep).dropWhile (!sep ·) ≠ [] → firstWord sep xs ≠ [] := by
    refine fun htail => firstWord_ne_nil fun hnil => htail ?_
    rw [hnil, List.dropWhile_nil]
  rw [rdropWhile_append, hword] at hstrip
  unfold afterWord
  generalize (xs.dropWhile sep).dropWhile (!sep ·) = tail at hstrip hhead hfirst ⊢
  by_cases hnil : tail.rdropWhile sep = []
  · rw [if_pos hnil] at hstrip
    exact .inl ⟨strip_eq_nil_iff.mpr (List.rdropWhile_eq_nil_iff.mp hnil), hstrip⟩
  · rw [if_neg hnil] at hstrip
    right
    have hstart : tail.rdropWhile sep <+: tail := List.rdropWhile_prefix sep tail
    have hafter : strip sep (tail.rdropWhile sep) = strip sep tail := strip_rdropWhile tail
    cases hkept : tail.rdropWhile sep with
    | nil => exact (hnil hkept).elim
    | cons s rest =>
        rw [hkept] at hstart hafter hstrip
        obtain ⟨more, hmore⟩ := hstart
        have hs : sep s = true := hhead s (rest ++ more) hmore.symm
        rw [strip_cons_of_sep hs] at hafter
        refine ⟨s, rest, hs, hfirst ?_, fun h => hnil ?_, hafter, hstrip⟩
        · rw [← hmore]
          exact List.cons_ne_nil _ _
        · exact List.rdropWhile_eq_nil_iff.mpr (strip_eq_nil_iff.mp h)

/-! ## Lines that are continued -/

section Continued

variable {line : List α}

theorem dropWhile_ne_nil (hne : line ≠ []) (hlast : line.rdropWhile sep = line) :
    line.dropWhile sep ≠ [] := by
  intro hnil
  rw [List.rdropWhile_eq_nil_iff.mpr (List.dropWhile_eq_nil_iff.mp hnil)] at hlast
  exact hne hlast.symm

theorem dropWhile_append_ne_nil (hne : line ≠ []) (hlast : line.rdropWhile sep = line)
    (ys : List α) : (line ++ ys).dropWhile sep = line.dropWhile sep ++ ys := by
  rw [List.dropWhile_append, if_neg]
  rw [List.isEmpty_iff]
  exact dropWhile_ne_nil hne hlast

/-- The first word of a line does not change if the line is continued after a separator. -/
theorem firstWord_continued (hne : line ≠ []) (hlast : line.rdropWhile sep = line) {s : α}
    (hs : sep s = true) (ys : List α) : firstWord sep (line ++ s :: ys) = firstWord sep line := by
  unfold firstWord
  rw [dropWhile_append_ne_nil hne hlast, List.takeWhile_append]
  split
  · rename_i hall
    rw [List.takeWhile_cons_of_neg (by rw [hs]; decide), List.append_nil]
    exact (List.takeWhile_sublist _).eq_of_length hall |>.symm
  · rfl

theorem Stripped.rdropWhile_eq (h : Stripped sep ys) : ys.rdropWhile sep = ys := by
  rw [← h.2, strip, List.rdropWhile_idempotent]

/-- The part of a line that follows its first word ends as the line does. -/
theorem rdropWhile_suffix_eq {tail : List α} (hlast : line.rdropWhile sep = line)
    (htail : tail <:+ line) : tail.rdropWhile sep = tail := by
  obtain ⟨front, rfl⟩ := htail
  rw [rdropWhile_append] at hlast
  split at hlast
  · rename_i hnil
    rw [hnil]
    have hlength := congrArg List.length hlast
    have hle := (List.rdropWhile_prefix sep front).length_le
    rw [List.length_append] at hlength
    exact (List.length_eq_zero_iff.mp (by omega)).symm
  · exact List.append_cancel_left hlast

/-- What follows the first word if the line is continued. -/
theorem afterWord_continued (hne : line ≠ []) (hlast : line.rdropWhile sep = line) {s : α}
    (hs : sep s = true) (hys : Stripped sep ys) :
    afterWord sep (line ++ s :: ys) =
      if afterWord sep line = [] then ys else afterWord sep line ++ s :: ys := by
  have htail : (line.dropWhile sep).dropWhile (!sep ·) <:+ line :=
    (List.dropWhile_suffix _).trans (List.dropWhile_suffix _)
  have hkept := rdropWhile_suffix_eq hlast htail
  unfold afterWord
  rw [dropWhile_append_ne_nil hne hlast, List.dropWhile_append]
  generalize (line.dropWhile sep).dropWhile (!sep ·) = tail at hkept ⊢
  by_cases hnil : tail = []
  · subst hnil
    have hempty : ([] : List α).isEmpty = true := rfl
    have hnil : strip sep [] = [] := rfl
    rw [if_pos hempty, if_pos hnil, List.dropWhile_cons_of_neg (by rw [hs]; decide),
      strip_cons_of_sep hs, hys.2]
  · have hdrop := dropWhile_ne_nil hnil hkept
    have hstrip : strip sep tail = tail.dropWhile sep :=
      rdropWhile_suffix_eq hkept (List.dropWhile_suffix sep)
    have hends : (s :: ys).rdropWhile sep = s :: ys :=
      rdropWhile_append_of_last [s] hys.1 hys.rdropWhile_eq
    rw [if_neg (by rwa [List.isEmpty_iff]), hstrip, if_neg hdrop, strip,
      dropWhile_append_ne_nil hnil hkept,
      rdropWhile_append_of_last _ (List.cons_ne_nil s ys) hends]

end Continued

/-- If something follows the first word once the last word is completed, the first word was there
before, and what followed it was the same without the end of the last word. -/
theorem afterWord_completed (hw : IsWord sep w) (xs : List α) :
    afterWord sep (xs ++ w) = [] ∧ afterWord sep xs = [] ∨
      afterWord sep (xs ++ w) ≠ [] ∧ firstWord sep (xs ++ w) = firstWord sep xs ∧
        ∃ front, afterWord sep (xs ++ w) = front ++ w ∧
          afterWord sep xs = front.rdropWhile sep := by
  have hnone : w.dropWhile (!sep ·) = [] := by
    refine List.dropWhile_eq_nil_iff.mpr fun x hx => ?_
    rw [hw.2 x hx]
    rfl
  unfold afterWord firstWord
  rw [hw.dropWhile_append, List.dropWhile_append, List.takeWhile_append]
  have hsplit : (xs.dropWhile sep).takeWhile (!sep ·) ++ (xs.dropWhile sep).dropWhile (!sep ·) =
      xs.dropWhile sep := List.takeWhile_append_dropWhile
  generalize (xs.dropWhile sep).dropWhile (!sep ·) = tail at hsplit ⊢
  by_cases hnil : tail = []
  · subst hnil
    rw [if_pos List.isEmpty_nil, hnone]
    exact .inl ⟨rfl, rfl⟩
  · have hlength := congrArg List.length hsplit
    rw [List.length_append] at hlength
    have hpos := List.length_pos_iff.mpr hnil
    have hstrip : strip sep (tail ++ w) = tail.dropWhile sep ++ w := by
      rw [strip, hw.dropWhile_append, rdropWhile_append_of_last _ hw.1 hw.rdropWhile_eq]
    rw [if_neg (by rwa [List.isEmpty_iff]), if_neg (by omega), hstrip]
    exact .inr ⟨List.append_ne_nil_of_right_ne_nil _ hw.1, rfl, tail.dropWhile sep, rfl, rfl⟩

theorem afterWord_eq_nil (hxs : ∀ x ∈ xs, sep x = true) : afterWord sep xs = [] := by
  rw [afterWord, List.dropWhile_eq_nil_iff.mpr hxs]
  rfl

/-- A word behind separators only is the first word. -/
theorem IsWord.firstWord_eq (hw : IsWord sep w) (hxs : ∀ x ∈ xs, sep x = true) :
    firstWord sep (xs ++ w) = w := by
  rw [firstWord, hw.dropWhile_append, List.dropWhile_eq_nil_iff.mpr hxs, List.nil_append]
  refine List.takeWhile_eq_self_iff.mpr fun x hx => ?_
  rw [hw.2 x hx]
  rfl

theorem IsWord.afterWord_eq (hw : IsWord sep w) (hxs : ∀ x ∈ xs, sep x = true) :
    afterWord sep (xs ++ w) = [] := by
  have hnot : ∀ x ∈ w, (!sep x) = true := by
    intro x hx
    rw [hw.2 x hx]
    rfl
  rw [afterWord, hw.dropWhile_append, List.dropWhile_eq_nil_iff.mpr hxs, List.nil_append,
    List.dropWhile_eq_nil_iff.mpr hnot]
  rfl

end Nosh.Lib.Words
