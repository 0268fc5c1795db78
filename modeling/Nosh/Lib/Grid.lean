import Mathlib.Data.List.Induction
import Mathlib.Data.List.Basic
import Mathlib.Logic.Basic

/-!
# Rectangular grids and patches

A grid is a list of rows.  `cellAt` reads it, `write` overwrites one cell (and
does nothing outside the grid), `writeAll` applies a patch, a list of writes,
from left to right.

The fact the development needs most often about patches is
`writeAll_eq_iff`: if every write of a patch agrees with a target grid, then
applying it to a base grid of the same shape gives the target **exactly when**
base and target already agree wherever the patch is silent.  The order of the
writes and repeated writes play no role.

Where the writes of a patch do not agree, the last one to a cell counts
(`cellAt_writeAll`); where they do, their order plays no role
(`HasShape.writeAll_of_agree`).
-/

namespace Nosh.Lib

universe u

/-- A grid of cells: a list of rows. -/
abbrev Grid (α : Type u) := List (List α)

namespace Grid

variable {α : Type u}
variable {g h : Grid α} {rows cols r c : ℕ} {f : List α → List α} {p : α → Prop} {x : α}
    {ws : List ((ℕ × ℕ) × α)}

/-- The cell at row `r`, column `c`; `none` outside the grid. -/
def cellAt (g : Grid α) (r c : ℕ) : Option α :=
  g[r]?.bind fun row => row[c]?

/-- The grid has exactly `rows` rows of exactly `cols` cells. -/
def HasShape (g : Grid α) (rows cols : ℕ) : Prop :=
  g.length = rows ∧ ∀ row ∈ g, row.length = cols

instance (g : Grid α) (rows cols : ℕ) : Decidable (g.HasShape rows cols) :=
  inferInstanceAs (Decidable (_ ∧ _))

/-- Exactly the coordinates inside the shape name a cell. -/
theorem HasShape.isSome_cellAt (h : g.HasShape rows cols) (r c : ℕ) :
    (g.cellAt r c).isSome ↔ r < rows ∧ c < cols := by
  unfold cellAt
  by_cases hr : r < g.length
  · have hrow : g[r].length = cols := h.2 _ (List.getElem_mem hr)
    have hr' : r < rows := h.1 ▸ hr
    simp [hr, hr', hrow]
  · have hr' : ¬ r < rows := h.1 ▸ hr
    rw [List.getElem?_eq_none (Nat.le_of_not_lt hr)]
    simp [hr']

/-- Two grids of one shape that agree in every cell are equal. -/
theorem HasShape.ext (hg : g.HasShape rows cols) (hh : h.HasShape rows cols)
    (heq : ∀ r c, g.cellAt r c = h.cellAt r c) : g = h := by
  refine List.ext_getElem (hg.1.trans hh.1.symm) fun r hr hr' => ?_
  refine List.ext_getElem? fun c => ?_
  have hcell := heq r c
  unfold cellAt at hcell
  rwa [List.getElem?_eq_getElem hr, List.getElem?_eq_getElem hr'] at hcell

theorem HasShape.append {rows' : ℕ} (hg : g.HasShape rows cols) (hh : h.HasShape rows' cols) :
    (g ++ h).HasShape (rows + rows') cols := by
  refine ⟨by rw [List.length_append, hg.1, hh.1], ?_⟩
  intro row hrow
  rcases List.mem_append.mp hrow with hrow | hrow
  · exact hg.2 row hrow
  · exact hh.2 row hrow

theorem HasShape.drop (h : g.HasShape rows cols) (n : ℕ) :
    Grid.HasShape (List.drop n g) (rows - n) cols :=
  ⟨by rw [List.length_drop, h.1], fun row hrow => h.2 row (List.mem_of_mem_drop hrow)⟩

/-- An edit of every row that brings it to length `cols'`. -/
theorem HasShape.map {β : Type*} {cols' : ℕ} (h : g.HasShape rows cols) {f : List α → List β}
    (hf : ∀ row, row.length = cols → (f row).length = cols') :
    Grid.HasShape (List.map f g) rows cols' := by
  refine ⟨by rw [List.length_map, h.1], ?_⟩
  intro row hrow
  obtain ⟨row', hrow', rfl⟩ := List.mem_map.mp hrow
  exact hf row' (h.2 row' hrow')

/-- An edit of one row that keeps its length. -/
theorem HasShape.modify (h : g.HasShape rows cols) (r : ℕ)
    (hf : ∀ row, (f row).length = row.length) : Grid.HasShape (List.modify g r f) rows cols := by
  refine ⟨by rw [List.length_modify, h.1], ?_⟩
  intro row hrow
  obtain ⟨i, hi, rfl⟩ := List.getElem_of_mem hrow
  rw [List.getElem_modify]
  have hi' : i < g.length := by simpa using hi
  split
  · rw [hf]
    exact h.2 _ (List.getElem_mem hi')
  · exact h.2 _ (List.getElem_mem hi')

/-- Every cell satisfies `p`. -/
def All (p : α → Prop) (g : Grid α) : Prop := ∀ row ∈ g, ∀ x ∈ row, p x

instance (p : α → Prop) [DecidablePred p] (g : Grid α) : Decidable (g.All p) :=
  inferInstanceAs (Decidable (∀ row ∈ g, ∀ x ∈ row, p x))

theorem all_replicate (hx : p x) (rows cols : ℕ) :
    Grid.All p (List.replicate rows (List.replicate cols x)) := by
  intro row hrow y hy
  rw [List.eq_of_mem_replicate hrow] at hy
  rwa [List.eq_of_mem_replicate hy]

theorem All.append (hg : g.All p) (hh : h.All p) : (g ++ h).All p :=
  List.forall_mem_append.mpr ⟨hg, hh⟩

theorem All.take {p : α → Prop} {g : Grid α} (h : g.All p) (n : ℕ) : Grid.All p (List.take n g) :=
  fun row hrow => h row (List.mem_of_mem_take hrow)

theorem All.drop (h : g.All p) (n : ℕ) : Grid.All p (List.drop n g) :=
  fun row hrow => h row (List.mem_of_mem_drop hrow)

theorem All.map (h : g.All p) (hf : ∀ row : List α, (∀ x ∈ row, p x) → ∀ x ∈ f row, p x) :
    Grid.All p (List.map f g) := by
  intro row hrow
  obtain ⟨row', hrow', rfl⟩ := List.mem_map.mp hrow
  exact hf row' (h row' hrow')

theorem All.modify (h : g.All p) (r : ℕ)
    (hf : ∀ row : List α, (∀ x ∈ row, p x) → ∀ x ∈ f row, p x) :
    Grid.All p (List.modify g r f) := by
  intro row hrow
  obtain ⟨i, hi, rfl⟩ := List.getElem_of_mem hrow
  rw [List.getElem_modify]
  have hi' : i < g.length := by simpa using hi
  split
  · exact hf _ (h _ (List.getElem_mem hi'))
  · exact h _ (List.getElem_mem hi')

/-- Overwrite one cell; a write outside the grid does nothing. -/
def write (g : Grid α) (w : (ℕ × ℕ) × α) : Grid α :=
  g.modify w.1.1 fun row => row.set w.1.2 w.2

theorem HasShape.write {g : Grid α} {rows cols : ℕ} (h : g.HasShape rows cols)
    (w : (ℕ × ℕ) × α) : (g.write w).HasShape rows cols :=
  HasShape.modify h w.1.1 fun _ => List.length_set

theorem cellAt_write_of_ne (g : Grid α) (w : (ℕ × ℕ) × α) (hne : w.1 ≠ (r, c)) :
    (g.write w).cellAt r c = g.cellAt r c := by
  unfold cellAt write
  rw [List.getElem?_modify]
  by_cases hr : w.1.1 = r
  · have hc : w.1.2 ≠ c := fun hc => hne (Prod.ext hr hc)
    cases hrow : g[r]? with
    | none => simp
    | some row => simp [hr, List.getElem?_set_ne hc]
  · simp [hr]

theorem cellAt_write_self (g : Grid α) (x : α) (h : (g.cellAt r c).isSome) :
    (g.write ((r, c), x)).cellAt r c = some x := by
  unfold cellAt write at *
  rw [List.getElem?_modify]
  cases hrow : g[r]? with
  | none => simp [hrow] at h
  | some row =>
      have hc : c < row.length := by simpa [hrow] using h
      simp [List.getElem?_set_self hc]

/-- Apply a patch from left to right. -/
def writeAll (g : Grid α) (ws : List ((ℕ × ℕ) × α)) : Grid α := ws.foldl write g

theorem writeAll_append (g : Grid α) (ws ws' : List ((ℕ × ℕ) × α)) :
    g.writeAll (ws ++ ws') = (g.writeAll ws).writeAll ws' :=
  List.foldl_append ..

theorem HasShape.writeAll (h : g.HasShape rows cols) (ws : List ((ℕ × ℕ) × α)) :
    (g.writeAll ws).HasShape rows cols := by
  induction ws generalizing g with
  | nil => exact h
  | cons w ws ih => exact ih (h.write w)

theorem All.writeAll (h : g.All p) (hws : ∀ w ∈ ws, p w.2) : (g.writeAll ws).All p := by
  induction ws generalizing g with
  | nil => exact h
  | cons w ws ih =>
      obtain ⟨hw, hrest⟩ := List.forall_mem_cons.mp hws
      refine ih (All.modify h w.1.1 fun row hrow x hx => ?_) hrest
      rcases List.mem_or_eq_of_mem_set hx with hold | rfl
      · exact hrow x hold
      · exact hw

/-- A cell no write names keeps its value. -/
theorem cellAt_writeAll_of_notMem (g : Grid α) (ws : List ((ℕ × ℕ) × α))
    (hne : ∀ w ∈ ws, w.1 ≠ (r, c)) : (g.writeAll ws).cellAt r c = g.cellAt r c := by
  induction ws generalizing g with
  | nil => rfl
  | cons w ws ih =>
      rw [List.forall_mem_cons] at hne
      rw [writeAll, List.foldl_cons]
      exact (ih _ hne.2).trans (cellAt_write_of_ne g w hne.1)

/-- A cell of the grid that some write names, all of them with one value, ends
with that value. -/
theorem cellAt_writeAll_of_mem (g : Grid α) (ws : List ((ℕ × ℕ) × α)) (hin : (g.cellAt r c).isSome)
    (hall : ∀ w ∈ ws, w.1 = (r, c) → w.2 = x) (hmem : ∃ w ∈ ws, w.1 = (r, c)) :
    (g.writeAll ws).cellAt r c = some x := by
  induction ws using List.reverseRecOn with
  | nil => simp at hmem
  | append_singleton ws w ih =>
      rw [writeAll_append]
      show ((g.writeAll ws).write w).cellAt r c = some x
      by_cases hw : w.1 = (r, c)
      · obtain ⟨pos, y⟩ := w
        have hy : y = x := hall _ (by simp) hw
        subst hw hy
        refine cellAt_write_self _ _ ?_
        -- the cell exists, whether or not an earlier write named it
        by_cases hprev : ∃ w ∈ ws, w.1 = (r, c)
        · rw [ih (fun w hw => hall w (by simp [hw])) hprev]; rfl
        · rw [cellAt_writeAll_of_notMem _ _ fun w hw hpos => hprev ⟨w, hw, hpos⟩]; exact hin
      · rw [cellAt_write_of_ne _ _ hw]
        refine ih (fun w hw => hall w (by simp [hw])) ?_
        obtain ⟨w', hw', hpos⟩ := hmem
        rcases List.mem_append.mp hw' with hw' | hw'
        · exact ⟨w', hw', hpos⟩
        · rw [List.mem_singleton] at hw'
          exact absurd (hw' ▸ hpos) hw

/-- **Patching.**  A patch whose writes all agree with a target turns a base of
the same shape into the target exactly when base and target already agree in
every cell the patch does not name. -/
theorem writeAll_eq_iff {base target : Grid α} (hbase : base.HasShape rows cols)
    (htarget : target.HasShape rows cols)
    (hagree : ∀ w ∈ ws, target.cellAt w.1.1 w.1.2 = some w.2) :
    base.writeAll ws = target ↔
      ∀ r c, (∀ w ∈ ws, w.1 ≠ (r, c)) → base.cellAt r c = target.cellAt r c := by
  constructor
  · intro heq r c hne
    rw [← cellAt_writeAll_of_notMem base ws hne, heq]
  · intro hsilent
    refine (hbase.writeAll ws).ext htarget fun r c => ?_
    by_cases hmem : ∃ w ∈ ws, w.1 = (r, c)
    · obtain ⟨w, hw, hpos⟩ := hmem
      have htar : target.cellAt r c = some w.2 := by
        have := hagree w hw
        rwa [hpos] at this
      have hin : (base.cellAt r c).isSome := by
        rw [hbase.isSome_cellAt, ← htarget.isSome_cellAt, htar]; rfl
      rw [htar]
      refine cellAt_writeAll_of_mem base ws hin (fun w' hw' hpos' => ?_) ⟨w, hw, hpos⟩
      have := hagree w' hw'
      rw [hpos', htar] at this
      exact (Option.some.inj this).symm
    · have hne : ∀ w ∈ ws, w.1 ≠ (r, c) := fun w hw hpos => hmem ⟨w, hw, hpos⟩
      rw [cellAt_writeAll_of_notMem base ws hne, hsilent r c hne]

/-! ## The last write -/

/-- The last value a patch writes to a cell, if it names the cell at all. -/
def lastWrite : List ((ℕ × ℕ) × α) → ℕ × ℕ → Option α
  | [], _ => none
  | w :: ws, pos => (lastWrite ws pos).or (if w.1 = pos then some w.2 else none)

theorem lastWrite_append (ws ws' : List ((ℕ × ℕ) × α)) (pos : ℕ × ℕ) :
    lastWrite (ws ++ ws') pos = (lastWrite ws' pos).or (lastWrite ws pos) := by
  induction ws with
  | nil => simp [lastWrite]
  | cons w ws ih => rw [List.cons_append, lastWrite, ih, lastWrite, Option.or_assoc]

theorem lastWrite_eq_none {pos : ℕ × ℕ} (h : ∀ w ∈ ws, w.1 ≠ pos) : lastWrite ws pos = none := by
  induction ws with
  | nil => rfl
  | cons w ws ih =>
      rw [List.forall_mem_cons] at h
      rw [lastWrite, ih h.2, if_neg h.1, Option.or_none]

/-- A cell of the grid ends with the last value the patch writes to it, or keeps its
own. -/
theorem cellAt_writeAll (g : Grid α) (ws : List ((ℕ × ℕ) × α)) (hin : (g.cellAt r c).isSome) :
    (g.writeAll ws).cellAt r c = (lastWrite ws (r, c)).or (g.cellAt r c) := by
  induction ws generalizing g with
  | nil => rfl
  | cons w ws ih =>
      rw [writeAll, List.foldl_cons, lastWrite, Option.or_assoc]
      by_cases hpos : w.1 = (r, c)
      · obtain ⟨pos, x⟩ := w
        cases hpos
        have hself := cellAt_write_self g x hin
        have hrest := ih (g.write ((r, c), x)) (by rw [hself]; rfl)
        rw [hself] at hrest
        rw [if_pos rfl, Option.some_or]
        exact hrest
      · have hsame := cellAt_write_of_ne g w hpos
        have hrest := ih (g.write w) (by rwa [hsame])
        rw [hsame] at hrest
        rw [if_neg hpos, Option.none_or]
        exact hrest

/-- Patches with the same last writes inside the shape have the same effect. -/
theorem HasShape.writeAll_congr (hg : g.HasShape rows cols) {ws' : List ((ℕ × ℕ) × α)}
    (h : ∀ r < rows, ∀ c < cols, lastWrite ws (r, c) = lastWrite ws' (r, c)) :
    g.writeAll ws = g.writeAll ws' := by
  refine (hg.writeAll ws).ext (hg.writeAll ws') fun r c => ?_
  by_cases hin : r < rows ∧ c < cols
  · have hin' := (hg.isSome_cellAt r c).mpr hin
    rw [cellAt_writeAll g _ hin', cellAt_writeAll g _ hin', h r hin.1 c hin.2]
  · have hout : ∀ ws : List ((ℕ × ℕ) × α), (g.writeAll ws).cellAt r c = none := by
      intro ws
      rwa [← Option.not_isSome_iff_eq_none, (hg.writeAll ws).isSome_cellAt]
    rw [hout, hout]

/-- Applying a patch a second time changes nothing. -/
theorem HasShape.writeAll_writeAll (hg : g.HasShape rows cols) (ws : List ((ℕ × ℕ) × α)) :
    (g.writeAll ws).writeAll ws = g.writeAll ws := by
  rw [← writeAll_append]
  refine hg.writeAll_congr fun r _ c _ => ?_
  rw [lastWrite_append, Option.or_self]

end Grid

end Nosh.Lib
