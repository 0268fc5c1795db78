import Mathlib.Data.List.Basic
import Mathlib.Tactic.Common

/-!
# Finding keys in a stream

A stream is read from left to right. Where one of a finite set of keys starts, the whole key is
read, elsewhere a single element. A reader that is given the stream in pieces cannot always decide
at the end of a piece, and has to hold back what may be the beginning of a key.

`Reads` says what a reader may do with a piece: whatever follows, the stream reads as the reader
says. Such readings compose over pieces, and there is only one for a piece, so that a reader that
has the property for each piece does not depend on how the stream was cut.

## Main Definitions

* `Keys` — a set of keys of one length
* `Keys.tokens`, `Keys.strip` — a stream as single elements and keys, and without the keys
* `Keys.Reads` — a piece, what is known of its tokens, and what is held back

## Main Results

* `Keys.Reads.append` — readings compose.
* `Keys.Reads.unique` — **a piece has only one reading.**
-/

namespace Nosh.Lib

/-- Keys of one length. -/
structure Keys (α : Type*) where
  keys : List (List α)
  size : ℕ
  size_pos : 0 < size
  length_eq : ∀ key ∈ keys, key.length = size

namespace Keys

variable {α : Type*} [DecidableEq α] (K : Keys α)
variable {xs : List α}

/-- The key that the list starts with. -/
def find (xs : List α) : Option (List α) := K.keys.find? fun key => xs.take K.size == key

/-- The stream as single elements and keys; the first `skip` elements are read already. -/
def tokens : ℕ → List α → List (α ⊕ List α)
  | _, [] => []
  | skip + 1, _ :: xs => tokens skip xs
  | 0, x :: xs =>
      match K.find (x :: xs) with
      | some key => .inr key :: tokens (K.size - 1) xs
      | none => .inl x :: tokens 0 xs

/-- The stream without its keys. -/
def strip (xs : List α) : List α := (K.tokens 0 xs).filterMap Sum.getLeft?

/-- The beginning of a key that is not complete. -/
def Begins (xs : List α) : Prop := xs.length < K.size ∧ ∃ key ∈ K.keys, xs <+: key

/-- Whatever follows `xs`, it reads as these tokens and then as what follows `held`. -/
structure Reads (xs : List α) (toks : List (α ⊕ List α)) (held : List α) : Prop where
  begins : held = [] ∨ K.Begins held
  tokens_append : ∀ ys, K.tokens 0 (xs ++ ys) = toks ++ K.tokens 0 (held ++ ys)

variable {K}

theorem find_eq_some_iff {key : List α} : K.find xs = some key ↔ key ∈ K.keys ∧ key <+: xs := by
  have hstarts : ∀ k ∈ K.keys, k <+: xs ↔ xs.take K.size = k := by
    intro k hk
    rw [List.prefix_iff_eq_take, K.length_eq k hk, eq_comm]
  unfold find
  constructor
  · intro h
    have hkey := List.mem_of_find?_eq_some h
    exact ⟨hkey, (hstarts key hkey).mpr (eq_of_beq (List.find?_some h))⟩
  · rintro ⟨hkey, hle⟩
    have htake := (hstarts key hkey).mp hle
    cases h : K.keys.find? fun key => xs.take K.size == key with
    | none =>
        have hnot := List.find?_eq_none.mp h key hkey
        exact (hnot (beq_iff_eq.mpr htake)).elim
    | some k =>
        rw [← htake, eq_of_beq (List.find?_some h)]

theorem tokens_skip (skip : ℕ) (xs : List α) : K.tokens skip xs = K.tokens 0 (xs.drop skip) := by
  induction skip generalizing xs with
  | zero => rfl
  | succ skip ih =>
      cases xs with
      | nil => rfl
      | cons x xs => exact ih xs

theorem tokens_key {key : List α} (h : key ∈ K.keys) (xs : List α) :
    K.tokens 0 (key ++ xs) = .inr key :: K.tokens 0 xs := by
  have hlength := K.length_eq key h
  have hpos := K.size_pos
  have hfind : K.find (key ++ xs) = some key :=
    find_eq_some_iff.mpr ⟨h, List.prefix_append key xs⟩
  cases key with
  | nil =>
      rw [List.length_nil] at hlength
      omega
  | cons x key =>
      have hdrop : (key ++ xs).drop (K.size - 1) = xs := by
        rw [← hlength, List.length_cons, Nat.add_sub_cancel, List.drop_left]
      rw [List.cons_append] at hfind ⊢
      rw [tokens, hfind]
      dsimp only
      rw [tokens_skip, hdrop]

theorem tokens_plain {x : α} (h : ∀ key ∈ K.keys, ¬ key <+: x :: xs) :
    K.tokens 0 (x :: xs) = .inl x :: K.tokens 0 xs := by
  have hfind : K.find (x :: xs) = none := by
    cases hk : K.find (x :: xs) with
    | none => rfl
    | some key =>
        obtain ⟨hkey, hle⟩ := find_eq_some_iff.mp hk
        exact (h key hkey hle).elim
  rw [tokens, hfind]

/-- Only keys are read as keys. -/
theorem mem_keys_of_mem_tokens {skip : ℕ} {key : List α} (h : .inr key ∈ K.tokens skip xs) :
    key ∈ K.keys := by
  induction xs generalizing skip with
  | nil =>
      rw [tokens] at h
      cases h
  | cons x xs ih =>
      cases skip with
      | succ skip => exact ih h
      | zero =>
          rw [tokens] at h
          cases hfind : K.find (x :: xs) with
          | none =>
              rw [hfind, List.mem_cons] at h
              exact ih (h.resolve_left Sum.inr_ne_inl)
          | some found =>
              rw [hfind, List.mem_cons, Sum.inr.injEq] at h
              rcases h with rfl | hlater
              · exact (find_eq_some_iff.mp hfind).1
              · exact ih hlater

/-- What is too short for a key is read as it is. -/
theorem tokens_short (h : xs.length < K.size) : K.tokens 0 xs = xs.map .inl := by
  induction xs with
  | nil => rfl
  | cons x xs ih =>
      rw [tokens_plain, List.map_cons, ih (Nat.lt_of_succ_lt h)]
      intro key hkey hle
      have hlength := hle.length_le
      rw [K.length_eq key hkey] at hlength
      omega

/-- What is not longer than a key is a key, or is read as it is. -/
theorem tokens_of_length_le (h : xs.length ≤ K.size) :
    K.tokens 0 xs = [.inr xs] ∨ K.tokens 0 xs = xs.map .inl := by
  cases xs with
  | nil => exact .inr rfl
  | cons x xs =>
      by_cases hkey : x :: xs ∈ K.keys
      · left
        have htokens := tokens_key hkey []
        rwa [List.append_nil] at htokens
      · right
        rw [tokens_plain, tokens_short (Nat.lt_of_succ_le h), List.map_cons]
        intro key hmem hle
        have heq : key = x :: xs := hle.eq_of_length_le (by rw [K.length_eq key hmem]; exact h)
        exact hkey (heq ▸ hmem)

omit [DecidableEq α] in
/-- A key at the beginning of a stream is at the beginning of the piece, or the piece is the
beginning of the key. -/
theorem prefix_append_cases {key xs ys : List α} (hkey : key ∈ K.keys) (h : key <+: xs ++ ys) :
    key <+: xs ∨ K.Begins xs := by
  rcases List.prefix_or_prefix_of_prefix h (List.prefix_append xs ys) with hle | hle
  · exact .inl hle
  · by_cases hlength : xs.length < K.size
    · exact .inr ⟨hlength, key, hkey, hle⟩
    · left
      have heq : xs = key := hle.eq_of_length_le (by rw [K.length_eq key hkey]; omega)
      exact heq ▸ List.prefix_rfl

namespace Reads

variable {held : List α} {toks : List (α ⊕ List α)}

theorem nil : K.Reads [] [] [] := ⟨.inl rfl, fun _ => rfl⟩

/-- The beginning of a key is held back. -/
theorem hold (h : K.Begins xs) : K.Reads xs [] xs := ⟨.inr h, fun _ => rfl⟩

/-- A complete key is read. -/
theorem key {key : List α} (hkey : key ∈ K.keys) (h : K.Reads xs toks held) :
    K.Reads (key ++ xs) (.inr key :: toks) held := by
  refine ⟨h.begins, fun ys => ?_⟩
  rw [List.append_assoc, tokens_key hkey, h.tokens_append, List.cons_append]

/-- An element is read that is not the first one of a key, now or later. -/
theorem plain {x : α} (hkey : ∀ key ∈ K.keys, ¬ key <+: x :: xs) (hbegins : ¬ K.Begins (x :: xs))
    (h : K.Reads xs toks held) : K.Reads (x :: xs) (.inl x :: toks) held := by
  refine ⟨h.begins, fun ys => ?_⟩
  have hnot : ∀ key ∈ K.keys, ¬ key <+: x :: (xs ++ ys) := by
    intro key hmem hle
    rcases @prefix_append_cases _ K key (x :: xs) ys hmem hle with hle | hle
    · exact hkey key hmem hle
    · exact hbegins hle
  rw [List.cons_append, tokens_plain hnot, h.tokens_append, List.cons_append]

/-- The next piece is read together with what was held back. -/
theorem append {ys held' : List α} {toks' : List (α ⊕ List α)} (h : K.Reads xs toks held)
    (h' : K.Reads (held ++ ys) toks' held') : K.Reads (xs ++ ys) (toks ++ toks') held' := by
  refine ⟨h'.begins, fun zs => ?_⟩
  rw [List.append_assoc, h.tokens_append, ← List.append_assoc, h'.tokens_append,
    List.append_assoc]

section Unique

variable {held' : List α} {toks' : List (α ⊕ List α)}

variable (h : K.Reads xs toks held)

include h

theorem length_held_lt : held.length < K.size := by
  rcases h.begins with rfl | ⟨hlt, -⟩
  · exact K.size_pos
  · exact hlt

theorem tokens_eq : K.tokens 0 xs = toks ++ held.map .inl := by
  have htokens := h.tokens_append []
  rwa [List.append_nil, List.append_nil, tokens_short h.length_held_lt] at htokens

/-- The piece without its keys. -/
theorem strip_eq : K.strip xs = toks.filterMap Sum.getLeft? ++ held := by
  unfold strip
  rw [h.tokens_eq, List.filterMap_append, List.filterMap_map]
  congr 1
  exact List.filterMap_some

/-- What one reading holds back another one cannot have read: it may become a key. -/
theorem length_le (h' : K.Reads xs toks' held') : toks'.length ≤ toks.length := by
  by_contra hlt
  rw [Nat.not_le] at hlt
  have heq := h.tokens_eq.symm.trans h'.tokens_eq
  have hplain : (held.map Sum.inl)[0]? = toks'[toks.length]? := by
    have hget := congrArg (fun l => l[toks.length]?) heq
    rwa [List.getElem?_append_right (Nat.le_refl _), Nat.sub_self,
      List.getElem?_append_left hlt] at hget
  rcases h.begins with rfl | ⟨-, key, hkey, rest, rfl⟩
  · rw [List.map_nil, List.getElem?_nil] at hplain
    exact absurd (List.getElem?_eq_none_iff.mp hplain.symm) (Nat.not_le.mpr hlt)
  · have hread := (h.tokens_append rest).symm.trans (h'.tokens_append rest)
    have htokens : K.tokens 0 (held ++ rest) = [.inr (held ++ rest)] := by
      have hnil := tokens_key hkey []
      rwa [List.append_nil] at hnil
    have hcomplete : [Sum.inr (held ++ rest)][0]? = toks'[toks.length]? := by
      have hget := congrArg (fun l => l[toks.length]?) hread
      rwa [htokens, List.getElem?_append_right (Nat.le_refl _), Nat.sub_self,
        List.getElem?_append_left hlt] at hget
    have hboth := hplain.trans hcomplete.symm
    rw [List.getElem?_map, List.getElem?_cons_zero, Option.map_eq_some_iff] at hboth
    obtain ⟨x, -, hx⟩ := hboth
    cases hx

/-- A piece has only one reading. -/
theorem unique (h' : K.Reads xs toks' held') : toks = toks' ∧ held = held' := by
  have hlength := Nat.le_antisymm (h'.length_le h) (h.length_le h')
  have heq := h.tokens_eq.symm.trans h'.tokens_eq
  obtain ⟨htoks, hheld⟩ := List.append_inj heq hlength
  exact ⟨htoks, List.map_injective_iff.mpr (fun _ _ => Sum.inl.inj) hheld⟩

end Unique

end Reads

end Keys

end Nosh.Lib
