import Mathlib.Data.List.DropRight
import Nosh.Proto.Message
import Nosh.Server.History

/-!
# Pages of the scrollback

`TerminalState::scrollback_lines` and the part of `run_scrollback_sender_task` that turns its
answer into a page. Lines are counted from the newest one backwards.

## Main Results

* `scrollbackLines_suffix` — a page is the end of the scrollback without its newest `fromLine`
  lines.
* `pages_tile` — **consecutive pages make up the scrollback.**
* `pushed_page` — a page is also the end of every line ever pushed, without the newest `fromLine`.
-/

namespace Nosh.Server

open Lib Proto

/-- `MAX_PAGE_SIZE`. -/
def maxPageSize : ℕ := 1024

namespace TerminalState

/-- `scrollback_lines`: the page, oldest line first, and the number of lines there are. -/
def scrollbackLines (t : TerminalState) (fromLine count : ℕ) : Grid Cell × ℕ :=
  let total := t.scrollback.length
  if total ≤ fromLine ∨ count = 0 then ([], total)
  else
    let newest := total - 1 - fromLine
    let oldest := newest - (count - 1)
    -- the indices `oldest..=newest`
    ((t.scrollback.take (newest + 1)).drop oldest, total)

theorem scrollbackLines_total (t : TerminalState) (fromLine count : ℕ) :
    (t.scrollbackLines fromLine count).2 = t.scrollback.length := by
  unfold scrollbackLines
  dsimp only
  split <;> rfl

theorem scrollbackLines_suffix (t : TerminalState) (fromLine count : ℕ) :
    (t.scrollbackLines fromLine count).1 <:+ t.scrollback.rdrop fromLine := by
  unfold scrollbackLines
  dsimp only
  split
  · exact List.nil_suffix
  · rename_i hsome
    have hlen : t.scrollback.length - 1 - fromLine + 1 = t.scrollback.length - fromLine := by omega
    rw [hlen]
    exact List.drop_suffix _ _

/-! ## Positions -/

/-- An unsigned subtraction, which panics below 0. -/
def checkedSub (a b : ℕ) : Option ℕ := if b ≤ a then some (a - b) else none

/-- `scrollback_lines` with its subtractions and its indexing as the source has them; `none` is a
panic. -/
def scrollbackLinesChecked (t : TerminalState) (fromLine count : ℕ) : Option (Grid Cell × ℕ) :=
  let total := t.scrollback.length
  if total ≤ fromLine ∨ count = 0 then some ([], total)
  else do
    let last ← checkedSub total 1
    let newest ← checkedSub last fromLine
    let others ← checkedSub count 1
    -- `saturating_sub`
    let oldest := newest - others
    let lines ← (List.range' oldest (newest + 1 - oldest)).mapM fun i => t.scrollback[i]?
    some (lines, total)

theorem checkedSub_of_le {a b : ℕ} (h : b ≤ a) : checkedSub a b = some (a - b) := if_pos h

/-- Indexing a list one position after another. -/
theorem mapM_getElem?_range' {α : Type} (l : List α) {start n : ℕ} (h : start + n ≤ l.length) :
    (List.range' start n).mapM (fun i => l[i]?) = some ((l.drop start).take n) := by
  induction n generalizing start with
  | zero => rfl
  | succ n ih =>
      have hstart : start < l.length := by omega
      rw [List.range'_succ, List.mapM_cons, List.getElem?_eq_getElem hstart, ih (by omega),
        List.drop_eq_getElem_cons hstart, List.take_succ_cons]
      rfl

section

variable (t : TerminalState)

/-- No subtraction and no index of `scrollback_lines` is out of range. -/
theorem scrollbackLinesChecked_eq (fromLine count : ℕ) :
    t.scrollbackLinesChecked fromLine count = some (t.scrollbackLines fromLine count) := by
  unfold scrollbackLinesChecked scrollbackLines
  dsimp only
  split
  · rfl
  · rename_i hsome
    rw [not_or, not_le] at hsome
    obtain ⟨hfrom, hcount⟩ := hsome
    have hlast := checkedSub_of_le (show 1 ≤ t.scrollback.length by omega)
    have hnewest := checkedSub_of_le (show fromLine ≤ t.scrollback.length - 1 by omega)
    have hothers := checkedSub_of_le (show 1 ≤ count by omega)
    simp only [hlast, hnewest, hothers, Option.bind_eq_bind, Option.bind_some]
    rw [mapM_getElem?_range' _ (by omega), List.drop_take]
    rfl

/-- **A page is a range of positions**: the `count` lines before the newest `fromLine` ones. -/
theorem scrollbackLines_eq (fromLine count : ℕ) :
    (t.scrollbackLines fromLine count).1 =
      (t.scrollback.take (t.scrollback.length - fromLine)).drop
        (t.scrollback.length - fromLine - count) := by
  unfold scrollbackLines
  dsimp only
  split
  · rename_i hnone
    refine (List.drop_eq_nil_of_le ?_).symm
    rw [List.length_take]
    omega
  · rename_i hsome
    rw [not_or, not_le] at hsome
    have hnewest : t.scrollback.length - 1 - fromLine + 1 = t.scrollback.length - fromLine := by
      omega
    have holdest : t.scrollback.length - 1 - fromLine - (count - 1) =
        t.scrollback.length - fromLine - count := by
      omega
    dsimp only
    rw [hnewest, holdest]

/-- A page comes right before the lines it leaves out. -/
theorem scrollbackLines_append (fromLine count : ℕ) :
    (t.scrollbackLines fromLine count).1 ++ t.scrollback.rtake fromLine =
      t.scrollback.rtake (fromLine + count) := by
  have hcut : t.scrollback.length - (fromLine + count) =
      t.scrollback.length - fromLine - count := by
    omega
  have hle : t.scrollback.length - fromLine - count ≤
      (t.scrollback.take (t.scrollback.length - fromLine)).length := by
    rw [List.length_take]
    omega
  have hdrop : (t.scrollback.take (t.scrollback.length - fromLine) ++
      t.scrollback.drop (t.scrollback.length - fromLine)).drop
        (t.scrollback.length - fromLine - count) = _ :=
    List.drop_append_of_le_length hle
  rw [List.take_append_drop] at hdrop
  rw [scrollbackLines_eq, List.rtake, List.rtake, hcut, hdrop]

/-! ## Consecutive pages -/

/-- Consecutive pages of the given sizes, each put before the lines there are: every page starts
at the line that follows the pages before it. -/
def prependPages (t : TerminalState) : ℕ → Grid Cell → List ℕ → Grid Cell
  | _, lines, [] => lines
  | fromLine, lines, size :: sizes =>
      prependPages t (fromLine + size) ((t.scrollbackLines fromLine size).1 ++ lines) sizes

/-- The same, with every page starting after the lines that there are, as the client asks. -/
def prependPagesHeld (t : TerminalState) : Grid Cell → List ℕ → Grid Cell
  | lines, [] => lines
  | lines, size :: sizes =>
      prependPagesHeld t ((t.scrollbackLines lines.length size).1 ++ lines) sizes

theorem prependPages_rtake (fromLine : ℕ) (sizes : List ℕ) :
    t.prependPages fromLine (t.scrollback.rtake fromLine) sizes =
      t.scrollback.rtake (fromLine + sizes.sum) := by
  induction sizes generalizing fromLine with
  | nil => rfl
  | cons size sizes ih =>
      rw [prependPages, scrollbackLines_append, ih, List.sum_cons, Nat.add_assoc]

/-- A short page is followed by empty ones, wherever they start. -/
theorem prependPagesHeld_rtake (fromLine : ℕ) (sizes : List ℕ) :
    t.prependPagesHeld (t.scrollback.rtake fromLine) sizes =
      t.scrollback.rtake (fromLine + sizes.sum) := by
  induction sizes generalizing fromLine with
  | nil => rfl
  | cons size sizes ih =>
      have hheld : (t.scrollback.rtake fromLine).length = min fromLine t.scrollback.length := by
        rw [List.rtake, List.length_drop]
        omega
      have hpage : t.scrollbackLines (min fromLine t.scrollback.length) size =
          t.scrollbackLines fromLine size := by
        unfold scrollbackLines
        dsimp only
        by_cases hfrom : t.scrollback.length ≤ fromLine
        · rw [Nat.min_eq_right hfrom, if_pos (Or.inl le_rfl), if_pos (Or.inl hfrom)]
        · rw [Nat.min_eq_left (by omega)]
      rw [prependPagesHeld, hheld, hpage, scrollbackLines_append, ih, List.sum_cons,
        Nat.add_assoc]

end

/-- **Pages tile the scrollback.** `scrollback_lines` never panics and answers with the number of
lines and the lines at the positions asked for, and consecutive pages whose sizes sum to the number
of lines make up the scrollback. -/
theorem pages_tile (t : TerminalState) :
    (∀ fromLine count, t.scrollbackLinesChecked fromLine count =
        some ((t.scrollback.take (t.scrollback.length - fromLine)).drop
          (t.scrollback.length - fromLine - count), t.scrollback.length)) ∧
      ∀ sizes : List ℕ, t.scrollback.length ≤ sizes.sum →
        t.prependPages 0 [] sizes = t.scrollback ∧ t.prependPagesHeld [] sizes = t.scrollback := by
  refine ⟨?_, ?_⟩
  · intro fromLine count
    rw [scrollbackLinesChecked_eq, ← scrollbackLines_eq, ← scrollbackLines_total t fromLine count]
  · intro sizes hsum
    have hnone : t.scrollback.rtake 0 = [] := List.rtake_zero _
    have hall : t.scrollback.rtake (0 + sizes.sum) = t.scrollback := by
      rw [List.rtake, Nat.zero_add, Nat.sub_eq_zero_of_le hsum, List.drop_zero]
    have hpages := t.prependPages_rtake 0 sizes
    have hheld := t.prependPagesHeld_rtake 0 sizes
    rw [hnone, hall] at hpages hheld
    exact ⟨hpages, hheld⟩

/-- Three lines are made up by two pages of two. -/
theorem pages_tile_three :
    let t := { new 1 1 with
      scrollback := ['a', 'b', 'c'].map fun ch => [SgrState.default.cell ch false] }
    t.prependPages 0 [] [2, 2] = t.scrollback ∧ t.prependPagesHeld [] [2, 2] = t.scrollback :=
  (pages_tile _).2 [2, 2] (by decide)

end TerminalState

/-- Leaving out the newest lines keeps a suffix a suffix. -/
theorem rdrop_suffix {α : Type} {l l' : List α} (h : l <:+ l') (n : ℕ) :
    l.rdrop n <:+ l'.rdrop n := by
  obtain ⟨pre, rfl⟩ := h
  unfold List.rdrop
  by_cases hn : n ≤ l.length
  · have hlen : (pre ++ l).length - n = pre.length + (l.length - n) := by
      rw [List.length_append]
      omega
    rw [hlen, List.take_length_add_append]
    exact List.suffix_append _ _
  · have hzero : l.length - n = 0 := by omega
    rw [hzero]
    exact List.nil_suffix

/-- **Pages come from the history.** A page holds the lines just before the newest `fromLine`
lines ever pushed. -/
theorem TerminalHistory.pushed_page {h : TerminalHistory}
    (hsuf : h.terminal.scrollback <:+ h.pushed) (fromLine count : ℕ) :
    (h.terminal.scrollbackLines fromLine count).1 <:+ h.pushed.rdrop fromLine :=
  (h.terminal.scrollbackLines_suffix fromLine count).trans (rdrop_suffix hsuf fromLine)

/-- The wire form of a line; the wide flag of a cell is not sent. -/
def scrollbackLine (row : List Cell) : ScrollbackLine :=
  ⟨UInt16.ofNat row.length, row.map fun cell => ⟨cell.ch, cell.style, cell.fg, cell.bg⟩⟩

/-- The lines of the page that answers a request. -/
def pageLines (t : TerminalState) (fromLine count : ℕ) : List ScrollbackLine :=
  (t.scrollbackLines fromLine (min count maxPageSize)).1.map scrollbackLine

end Nosh.Server
