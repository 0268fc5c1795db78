import Nosh.Lib.Grid

/-!
# Cells changed in place, and windows on an unbounded page

`edit` changes each cell of a grid by a function of its position.  A page has a
cell at every position of the quadrant; `window` cuts a grid out of it.  Editing a
window is cutting it out of the edited page (`edit_window`), and windows that
touch are one (`window_append`).
-/

namespace Nosh.Lib

universe u

namespace Grid

variable {α : Type u}
variable {f : ℕ → ℕ → α → α} {g : Grid α} {rows cols : ℕ} {page page' : ℕ → ℕ → α}

/-- Change each cell by a function of its position. -/
def edit (f : ℕ → ℕ → α → α) (g : Grid α) : Grid α :=
  g.mapIdx fun r row => row.mapIdx (f r)

theorem getElem?_edit (f : ℕ → ℕ → α → α) (g : Grid α) (r : ℕ) :
    (g.edit f)[r]? = g[r]?.map (List.mapIdx (f r)) :=
  List.getElem?_mapIdx

/-- Changing each cell to itself. -/
theorem mapIdx_keep (row : List α) : (row.mapIdx fun _ x => x) = row := by
  refine List.ext_getElem? fun i => ?_
  rw [List.getElem?_mapIdx]
  exact Option.map_id_apply

theorem map_mapIdx_keep (row : Option (List α)) : row.map (List.mapIdx fun _ x => x) = row := by
  cases row with
  | none => rfl
  | some row => rw [Option.map_some, mapIdx_keep]

/-- A grid of lists that agree with an edit, row by row. -/
theorem eq_edit {h : Grid α} (hrow : ∀ r, h[r]? = g[r]?.map (List.mapIdx (f r))) : h = g.edit f :=
  List.ext_getElem? fun r => by rw [hrow, getElem?_edit]

theorem edit_congr {f' : ℕ → ℕ → α → α} (h : ∀ r < g.length, ∀ c x, f r c x = f' r c x) :
    g.edit f = g.edit f' := by
  refine eq_edit fun r => ?_
  rw [getElem?_edit]
  by_cases hr : r < g.length
  · have hf : f r = f' r := by
      funext c x
      exact h r hr c x
    rw [hf]
  · rw [List.getElem?_eq_none (Nat.le_of_not_lt hr)]
    rfl

theorem edit_keep (g : Grid α) : (g.edit fun _ _ x => x) = g :=
  (eq_edit fun _ => (map_mapIdx_keep _).symm).symm

theorem edit_edit (f f' : ℕ → ℕ → α → α) (g : Grid α) :
    (g.edit f).edit f' = g.edit fun r c x => f' r c (f r c x) := by
  refine eq_edit fun r => ?_
  rw [getElem?_edit, getElem?_edit]
  cases g[r]? with
  | none => rfl
  | some row => rw [Option.map_some, Option.map_some, Option.map_some, List.mapIdx_mapIdx]; rfl

/-- An edit of the rows above `k` and of those from `k` on. -/
theorem take_edit_append_drop_edit (f : ℕ → ℕ → α → α) (g : Grid α) {k : ℕ} (hk : k ≤ g.length) :
    Grid.edit f (List.take k g) ++ Grid.edit (fun r => f (r + k)) (List.drop k g) = g.edit f := by
  have hsplit : Grid.edit f (List.take k g ++ List.drop k g) = Grid.edit f (List.take k g) ++
      Grid.edit (fun r => f (r + (List.take k g).length)) (List.drop k g) := List.mapIdx_append
  rw [List.take_append_drop, List.length_take, Nat.min_eq_left hk] at hsplit
  exact hsplit.symm

theorem HasShape.edit (h : g.HasShape rows cols) (f : ℕ → ℕ → α → α) :
    (g.edit f).HasShape rows cols := by
  refine ⟨List.length_mapIdx.trans h.1, fun row hrow => ?_⟩
  obtain ⟨r, hr, rfl⟩ := List.mem_mapIdx.mp hrow
  rw [List.length_mapIdx]
  exact h.2 _ (List.getElem_mem hr)

theorem All.edit {p : α → Prop} (h : g.All p) (hf : ∀ r c x, p x → p (f r c x)) :
    (g.edit f).All p := by
  intro row hrow x hx
  obtain ⟨r, hr, rfl⟩ := List.mem_mapIdx.mp hrow
  obtain ⟨c, hc, rfl⟩ := List.mem_mapIdx.mp hx
  exact hf r c _ (h _ (List.getElem_mem hr) _ (List.getElem_mem hc))

/-! ## Windows -/

/-- One row of a page, up to a number of columns. -/
def line (page : ℕ → ℕ → α) (cols r : ℕ) : List α := (List.range cols).map (page r)

/-- The rows of a page from `top` on. -/
def window (page : ℕ → ℕ → α) (cols top rows : ℕ) : Grid α :=
  (List.range' top rows).map (line page cols)

theorem length_window (page : ℕ → ℕ → α) (cols top rows : ℕ) :
    (window page cols top rows).length = rows := by
  rw [window, List.length_map, List.length_range']

theorem line_congr {r : ℕ} (h : ∀ c < cols, page r c = page' r c) :
    line page cols r = line page' cols r :=
  List.map_congr_left fun c hc => h c (List.mem_range.mp hc)

theorem window_congr {top : ℕ}
    (h : ∀ r, top ≤ r → r < top + rows → ∀ c < cols, page r c = page' r c) :
    window page cols top rows = window page' cols top rows := by
  refine List.map_congr_left fun r hr => line_congr ?_
  rw [List.mem_range'_1] at hr
  exact h r hr.1 hr.2

theorem window_const (x : α) (cols top rows : ℕ) :
    window (fun _ _ => x) cols top rows = List.replicate rows (List.replicate cols x) := by
  have hline : line (fun _ _ => x) cols = fun _ => List.replicate cols x := by
    funext r
    rw [line, List.map_const', List.length_range]
  rw [window, hline, List.map_const', List.length_range']

/-- Windows that touch are one window. -/
theorem window_append (page : ℕ → ℕ → α) (cols top m n : ℕ) :
    window page cols top m ++ window page cols (top + m) n = window page cols top (m + n) := by
  rw [window, window, ← List.map_append, List.range'_append_1]
  rfl

theorem window_succ (page : ℕ → ℕ → α) (cols top rows : ℕ) :
    window page cols top (rows + 1) = line page cols top :: window page cols (top + 1) rows := by
  rw [window, List.range'_succ, List.map_cons]
  rfl

theorem tail_window (page : ℕ → ℕ → α) (cols top rows : ℕ) :
    (window page cols top rows).tail = window page cols (top + 1) (rows - 1) := by
  cases rows with
  | zero => rfl
  | succ rows =>
      rw [window_succ]
      rfl

/-- **Editing a window** is cutting it out of the edited page. -/
theorem edit_window {top : ℕ}
    (h : ∀ r < rows, ∀ c < cols, page' (top + r) c = f r c (page (top + r) c)) :
    (window page cols top rows).edit f = window page' cols top rows := by
  refine List.ext_getElem? fun r => ?_
  rw [getElem?_edit]
  unfold window
  rw [List.getElem?_map, List.getElem?_map]
  by_cases hr : r < rows
  · rw [List.getElem?_range' hr, Option.map_some, Option.map_some, Option.map_some, Nat.one_mul]
    refine congrArg some (List.ext_getElem? fun c => ?_)
    unfold line
    rw [List.getElem?_mapIdx, List.getElem?_map, List.getElem?_map]
    by_cases hc : c < cols
    · rw [List.getElem?_range hc, Option.map_some, Option.map_some, Option.map_some, h r hr c hc]
    · rw [List.getElem?_eq_none (by rw [List.length_range]; omega)]
      rfl
  · rw [List.getElem?_eq_none (by rw [List.length_range']; omega)]
    rfl

end Grid

end Nosh.Lib
