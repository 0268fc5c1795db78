import Nosh.Proto.Datagram

/-!
# Rows with wide characters

`Cell::wide` marks the second column of a width-2 character: the phantom spacer that belongs to the
glyph to its left. A row is paired if exactly the right neighbours of width-2 characters carry the
mark.

## Main Definitions

* `IsContinuation`, `IsWideGlyph` — the two halves of a wide character
* `RowPaired` — the halves belong together

## Main Results

* `RowPaired.replace_iff` — **replacing a stretch of a row** keeps the pairs exactly if neither the
  first cell of the stretch nor the cell after it was a continuation.
* `RowPaired.resizeRow_iff` — making a row longer keeps them exactly if it did not end with a glyph
  that had been cut off.
-/

namespace Nosh.Proto

/-! ## Halves of wide characters -/

/-- There is a cell, and it is marked as continuation. -/
def IsContinuation (cell : Option Cell) : Prop := ∃ x, cell = some x ∧ x.wide = true

/-- There is a cell, and it holds a width-2 character and is not marked itself. -/
def IsWideGlyph (width : Char → Option ℕ) (cell : Option Cell) : Prop :=
  ∃ x, cell = some x ∧ width x.ch = some 2 ∧ x.wide = false

theorem isContinuation_some {x : Cell} : IsContinuation (some x) ↔ x.wide = true :=
  ⟨fun ⟨_, h, hx⟩ => by cases h; exact hx, fun h => ⟨x, rfl, h⟩⟩

theorem not_isContinuation_none : ¬ IsContinuation none := fun ⟨_, h, _⟩ => by cases h

instance : DecidablePred IsContinuation
  | none => isFalse not_isContinuation_none
  | some _ => decidable_of_iff _ isContinuation_some.symm

section Rows

variable {width : Char → Option ℕ} {x : Cell} {row row' : List Cell}
variable {c : ℕ}

theorem isWideGlyph_some :
    IsWideGlyph width (some x) ↔ width x.ch = some 2 ∧ x.wide = false :=
  ⟨fun ⟨_, h, hx⟩ => by cases h; exact hx, fun h => ⟨x, rfl, h⟩⟩

theorem not_isWideGlyph_none : ¬ IsWideGlyph width none := fun ⟨_, h, _⟩ => by cases h

instance : DecidablePred (IsWideGlyph width)
  | none => isFalse not_isWideGlyph_none
  | some _ => decidable_of_iff _ isWideGlyph_some.symm

theorem IsContinuation.lt_length (h : IsContinuation row[c]?) : c < row.length := by
  obtain ⟨x, hx, -⟩ := h
  exact (List.getElem?_eq_some_iff.mp hx).1

theorem IsWideGlyph.lt_length (h : IsWideGlyph width row[c]?) : c < row.length := by
  obtain ⟨x, hx, -⟩ := h
  exact (List.getElem?_eq_some_iff.mp hx).1

/-- In a row the continuation cells are exactly the right neighbours of width-2 glyphs. -/
structure RowPaired (width : Char → Option ℕ) (row : List Cell) : Prop where
  first : ¬ IsContinuation row[0]?
  next : ∀ c, c + 1 < row.length → (IsContinuation row[c + 1]? ↔ IsWideGlyph width row[c]?)

instance : Decidable (RowPaired width row) :=
  decidable_of_iff (¬ IsContinuation row[0]? ∧ ∀ c < row.length, c + 1 < row.length →
      (IsContinuation row[c + 1]? ↔ IsWideGlyph width row[c]?))
    ⟨fun h => ⟨h.1, fun c hc => h.2 c (Nat.lt_of_succ_lt hc) hc⟩,
      fun h => ⟨h.first, fun c _ => h.next c⟩⟩

theorem RowPaired.wide_iff (h : RowPaired width row) {left right : Cell}
    (hleft : row[c]? = some left) (hright : row[c + 1]? = some right) :
    right.wide = true ↔ width left.ch = some 2 ∧ left.wide = false := by
  have hnext := h.next c (List.getElem?_eq_some_iff.mp hright).1
  rwa [hleft, hright, isContinuation_some, isWideGlyph_some] at hnext

/-- **Replacing a stretch of a row.**  The new cells from `a` up to `b` are paired among
themselves. Then the row stays paired exactly if no glyph began before the stretch and ended in it,
and none began in it and ended after it. -/
theorem RowPaired.replace_iff (h : RowPaired width row) {a b : ℕ} (hab : a < b)
    (hlen : row'.length = row.length) (hout : ∀ c, c < a ∨ b ≤ c → row'[c]? = row[c]?)
    (hfirst : ¬ IsContinuation row'[a]?)
    (hin : ∀ c, a ≤ c → c + 1 < b → c + 1 < row.length →
      (IsContinuation row'[c + 1]? ↔ IsWideGlyph width row'[c]?))
    (hlast : b < row.length → ¬ IsWideGlyph width row'[b - 1]?) :
    RowPaired width row' ↔ ¬ IsContinuation row[a]? ∧ ¬ IsContinuation row[b]? := by
  constructor
  · intro h'
    constructor
    · intro hcont
      have hlt := hcont.lt_length
      obtain _ | d := a
      · exact h.first hcont
      · have hglyph := (h.next d hlt).mp hcont
        rw [← hout d (Or.inl (Nat.lt_succ_self d))] at hglyph
        exact hfirst ((h'.next d (by omega)).mpr hglyph)
    · intro hcont
      have hlt := hcont.lt_length
      obtain ⟨d, rfl⟩ : ∃ d, b = d + 1 := ⟨b - 1, by omega⟩
      rw [← hout (d + 1) (Or.inr (Nat.le_refl _))] at hcont
      exact hlast hlt ((h'.next d (by omega)).mp hcont)
  · rintro ⟨ha, hb⟩
    refine ⟨?_, fun c hc => ?_⟩
    · rcases Nat.eq_zero_or_pos a with rfl | hpos
      · exact hfirst
      · rw [hout 0 (Or.inl hpos)]
        exact h.first
    · rw [hlen] at hc
      by_cases hbefore : c < a
      · rw [hout c (Or.inl hbefore), ← h.next c hc]
        by_cases hedge : c + 1 = a
        · rw [hedge]
          exact iff_of_false hfirst ha
        · rw [hout (c + 1) (Or.inl (by omega))]
      · by_cases hinside : c + 1 < b
        · exact hin c (by omega) hinside hc
        · rw [hout (c + 1) (Or.inr (by omega))]
          by_cases hedge : c + 1 = b
          · subst hedge
            exact iff_of_false hb (hlast hc)
          · rw [hout c (Or.inr (by omega))]
            exact h.next c hc

/-! ## Stretches -/

theorem not_isContinuation_map (hx : x.wide = false) (cell : Option Cell) :
    ¬ IsContinuation (cell.map fun _ => x) := by
  cases cell with
  | none => exact not_isContinuation_none
  | some old =>
      rw [Option.map_some, isContinuation_some, hx]
      exact Bool.false_ne_true

theorem not_isWideGlyph_map (hx : width x.ch ≠ some 2) (cell : Option Cell) :
    ¬ IsWideGlyph width (cell.map fun _ => x) := by
  cases cell with
  | none => exact not_isWideGlyph_none
  | some old =>
      rw [Option.map_some, isWideGlyph_some]
      exact fun h => hx h.1

/-- Filling a stretch of a row with a narrow character. -/
theorem RowPaired.fill_iff (h : RowPaired width row) (hnarrow : width x.ch ≠ some 2)
    (hunmarked : x.wide = false) {p : ℕ → Prop} [DecidablePred p] {a b : ℕ} (hab : a < b)
    (hp : ∀ c < row.length, (p c ↔ a ≤ c ∧ c < b)) :
    RowPaired width (row.mapIdx fun i old => if p i then x else old) ↔
      ¬ IsContinuation row[a]? ∧ ¬ IsContinuation row[b]? := by
  have hin : ∀ c, a ≤ c → c < b →
      (row.mapIdx fun i old => if p i then x else old)[c]? = row[c]?.map fun _ => x := by
    intro c ha hb
    rw [List.getElem?_mapIdx]
    by_cases hc : c < row.length
    · simp only [if_pos ((hp c hc).mpr ⟨ha, hb⟩)]
    · rw [List.getElem?_eq_none (Nat.le_of_not_lt hc)]
      rfl
  refine h.replace_iff hab List.length_mapIdx (fun c hc => ?_) ?_ (fun c ha hb _ => ?_) fun _ => ?_
  · rw [List.getElem?_mapIdx]
    by_cases hlt : c < row.length
    · have hout : ¬ p c := by
        rw [hp c hlt]
        omega
      simp only [if_neg hout]
      exact Option.map_id_apply
    · rw [List.getElem?_eq_none (Nat.le_of_not_lt hlt)]
      rfl
  · rw [hin a (Nat.le_refl a) hab]
    exact not_isContinuation_map hunmarked _
  · rw [hin c ha (by omega), hin (c + 1) (by omega) hb]
    exact iff_of_false (not_isContinuation_map hunmarked _) (not_isWideGlyph_map hnarrow _)
  · rw [hin (b - 1) (by omega) (by omega)]
    exact not_isWideGlyph_map hnarrow _

theorem rowPaired_replicate (hnarrow : width x.ch ≠ some 2) (hunmarked : x.wide = false) (n : ℕ) :
    RowPaired width (List.replicate n x) := by
  have hcell : ∀ c : ℕ, ¬ IsContinuation (List.replicate n x)[c]? ∧
      ¬ IsWideGlyph width (List.replicate n x)[c]? := by
    intro c
    rw [List.getElem?_replicate]
    split
    · rw [isContinuation_some, isWideGlyph_some, hunmarked]
      exact ⟨Bool.false_ne_true, fun hglyph => hnarrow hglyph.1⟩
    · exact ⟨not_isContinuation_none, not_isWideGlyph_none⟩
  exact ⟨(hcell 0).1, fun c _ => iff_of_false (hcell (c + 1)).1 (hcell c).2⟩

/-! ## Resized rows -/

/-- Cutting a row at the right edge keeps the pairs: a glyph may lose its continuation there. -/
theorem RowPaired.take (h : RowPaired width row) (n : ℕ) : RowPaired width (row.take n) where
  first := by
    rw [List.getElem?_take]
    split
    · exact h.first
    · exact not_isContinuation_none
  next := by
    intro c hc
    rw [List.length_take] at hc
    rw [List.getElem?_take_of_lt (by omega), List.getElem?_take_of_lt (by omega)]
    exact h.next c (by omega)

/-- Making a row longer keeps the pairs exactly if no glyph ends at the old edge without its
continuation. -/
theorem RowPaired.extend_iff (h : RowPaired width row) (hnarrow : width x.ch ≠ some 2)
    (hunmarked : x.wide = false) {n : ℕ} (hn : 0 < n) :
    RowPaired width (row ++ List.replicate n x) ↔ ¬ IsWideGlyph width row.getLast? := by
  have hblank := rowPaired_replicate hnarrow hunmarked n
  have hfront : ∀ c < row.length, (row ++ List.replicate n x)[c]? = row[c]? :=
    fun c hc => List.getElem?_append_left hc
  have hback : ∀ c, row.length ≤ c →
      (row ++ List.replicate n x)[c]? = (List.replicate n x)[c - row.length]? :=
    fun c hc => List.getElem?_append_right hc
  have hedge : ¬ IsContinuation (row ++ List.replicate n x)[row.length]? := by
    rw [hback _ (Nat.le_refl _), Nat.sub_self]
    exact hblank.first
  rw [List.getLast?_eq_getElem?]
  constructor
  · intro h' hglyph
    obtain ⟨last, hlast, -⟩ := id hglyph
    have hlt := (List.getElem?_eq_some_iff.mp hlast).1
    rw [← hfront _ hlt, ← h'.next _ (by rw [List.length_append, List.length_replicate]; omega),
      Nat.sub_add_cancel (by omega)] at hglyph
    exact hedge hglyph
  · intro hlast
    refine ⟨?_, fun c hc => ?_⟩
    · rcases Nat.eq_zero_or_pos row.length with hzero | hpos
      · rw [← hzero]
        exact hedge
      · rw [hfront 0 hpos]
        exact h.first
    · by_cases hinside : c + 1 < row.length
      · rw [hfront _ hinside, hfront c (by omega)]
        exact h.next c hinside
      · by_cases hlt : c < row.length
        · have hc' : c + 1 = row.length := by omega
          have hlast' : row.length - 1 = c := by omega
          rw [hc', hfront c hlt]
          rw [hlast'] at hlast
          exact iff_of_false hedge hlast
        · rw [List.length_append] at hc
          rw [hback _ (by omega), hback c (by omega), Nat.sub_add_comm (by omega)]
          exact hblank.next _ (by omega)

/-- `row.truncate` and `row.resize`. -/
theorem RowPaired.resizeRow_iff (h : RowPaired width row) (hspace : width ' ' ≠ some 2)
    (cols : ℕ) :
    RowPaired width (resizeRow cols row) ↔
      ¬ (row.length < cols ∧ IsWideGlyph width row.getLast?) := by
  unfold resizeRow
  by_cases hgrow : row.length < cols
  · rw [List.take_of_length_le hgrow.le,
      h.extend_iff (x := Cell.blank) hspace rfl (Nat.sub_pos_of_lt hgrow)]
    exact ⟨fun hlast hboth => hlast hboth.2, fun hboth hlast => hboth ⟨hgrow, hlast⟩⟩
  · rw [Nat.sub_eq_zero_of_le (Nat.le_of_not_lt hgrow), List.replicate_zero, List.append_nil]
    exact iff_of_true (h.take cols) fun hboth => hgrow hboth.1

/-- A row of at most one column has no continuation cell. -/
theorem RowPaired.not_isContinuation_of_short (h : RowPaired width row) (hshort : row.length < 2)
    (c : ℕ) : ¬ IsContinuation row[c]? := by
  intro hcont
  have hlt := hcont.lt_length
  obtain rfl : c = 0 := by omega
  exact h.first hcont

end Rows

end Nosh.Proto
