import Mathlib.Algebra.Order.Ring.Nat
import Mathlib.Data.List.Sort
import Nosh.Lib.Grid

/-!
# State-sync datagrams

The types of `nosh-proto/src/datagram.rs` and the cursor-priority fill of
`encode_datagram`.

The postcard serializer is not part of the repository.  The only thing the fill
loop asks of it is the serialized size of a candidate `StateDiff`, so that size
is a parameter, `serializedSize`, of everything below; every theorem holds for
whatever sizes the serializer reports.  A datagram payload is represented by the
`StateDiff` it carries.

## Main results

* `fillStep_perm` / `encodeDatagram_perm` — the runs that are encoded and the
  runs that are deferred carry, together, exactly the cells of the input runs.
* `encodeDatagram_header` — the header fields travel unchanged.
-/

namespace Nosh.Proto

open Nosh.Lib

/-- `CellStyle(u8)`: SGR attributes packed into one byte. -/
structure CellStyle where
  bits : UInt8
  deriving DecidableEq, Repr

namespace CellStyle

/-- `CellStyle::NONE`: plain text. -/
def none : CellStyle := ⟨0x00⟩

/-- `CellStyle::BOLD`. -/
def bold : UInt8 := 0x01

/-- `CellStyle::ITALIC`. -/
def italic : UInt8 := 0x02

/-- `CellStyle::UNDERLINE`. -/
def underline : UInt8 := 0x04

/-- `CellStyle::REVERSE`. -/
def reverse : UInt8 := 0x08

end CellStyle

/-- One terminal cell.  `nosh_server::terminal::Cell` and its client mirror
`nosh_client::screen::Cell` have the same fields, so one type stands for both. -/
structure Cell where
  ch : Char
  style : CellStyle
  fg : Option UInt8
  bg : Option UInt8
  /-- Continuation marker of a width-2 glyph in the column to the left. -/
  wide : Bool
  deriving DecidableEq, Repr

/-- `Cell::default()`: a blank cell. -/
def Cell.blank : Cell := ⟨' ', CellStyle.none, none, none, false⟩

/-- `make_grid`, which `TerminalState` and `ClientScreen` both have: a blank grid. -/
def makeGrid (cols rows : ℕ) : Grid Cell :=
  List.replicate rows (List.replicate cols Cell.blank)

/-- The row step of both `resize` functions: truncate to `cols` cells or extend with
blank ones. -/
def resizeRow (cols : ℕ) (row : List Cell) : List Cell :=
  row.take cols ++ List.replicate (cols - row.length) Cell.blank

theorem hasShape_makeGrid (cols rows : ℕ) : (makeGrid cols rows).HasShape rows cols := by
  refine ⟨List.length_replicate, ?_⟩
  intro row hrow
  obtain ⟨-, rfl⟩ := List.mem_replicate.mp hrow
  exact List.length_replicate

theorem length_resizeRow (cols : ℕ) (row : List Cell) : (resizeRow cols row).length = cols := by
  simp only [resizeRow, List.length_append, List.length_take, List.length_replicate]
  omega

theorem getElem?_resizeRow {cols c : ℕ} (hc : c < cols) (row : List Cell) :
    (resizeRow cols row)[c]? = some (row[c]?.getD Cell.blank) := by
  unfold resizeRow
  by_cases hin : c < row.length
  · rw [List.getElem?_append_left (by rw [List.length_take]; omega), List.getElem?_take_of_lt hc,
      List.getElem?_eq_getElem hin, Option.getD_some]
  · have hout : (row.take cols).length ≤ c := by
      rw [List.length_take]
      omega
    rw [List.getElem?_append_right hout, List.getElem?_replicate_of_lt (by
        rw [List.length_take]
        omega),
      List.getElem?_eq_none (Nat.le_of_not_lt hin), Option.getD_none]

/-- A 0-based cursor position. -/
structure CursorPos where
  row : ℕ
  col : ℕ
  deriving DecidableEq, Repr

/-- A run of changed cells on one row that share their attributes. -/
structure DiffRun where
  row : ℕ
  startCol : ℕ
  style : CellStyle
  fg : Option UInt8
  bg : Option UInt8
  chars : List Char
  deriving DecidableEq, Repr

/-- A sparse terminal-state diff. -/
structure StateDiff where
  epoch : ℕ
  cols : ℕ
  rows : ℕ
  cursor : CursorPos
  altScreen : Bool
  runs : List DiffRun
  deriving DecidableEq, Repr

/-- `MAX_RUNS`: the run-count bound of `decode_datagram`, also the bound
`build_state_diff` truncates to. -/
def maxRuns : ℕ := 4096

/-- `MIN_CAP`: the smallest cap `encode_datagram` accepts. -/
def minCap : ℕ := 8

/-- `u16::MAX`, where `saturating_add` on a column stops. -/
def u16Max : ℕ := 65535

/-- `ProtoError`, without the payloads of foreign error types. -/
inductive ProtoError
  | postcard
  | frameTooLarge (len : ℕ)
  | io
  | capTooSmall (cap minimum : ℕ)
  deriving DecidableEq, Repr

/-! ## The cells a run carries -/

/-- The cells of `chars` laid out on `row` from column `col` on. -/
def layCells (row : ℕ) (mk : Char → Cell) : ℕ → List Char → List ((ℕ × ℕ) × Cell)
  | _, [] => []
  | col, ch :: rest => ((row, col), mk ch) :: layCells row mk (col + 1) rest

theorem layCells_append (row : ℕ) (mk : Char → Cell) (col : ℕ) (xs ys : List Char) :
    layCells row mk col (xs ++ ys) =
      layCells row mk col xs ++ layCells row mk (col + xs.length) ys := by
  induction xs generalizing col with
  | nil => simp [layCells]
  | cons x xs ih =>
      simp only [List.cons_append, layCells, ih, List.length_cons]
      rw [Nat.add_assoc col 1, Nat.add_comm 1]

theorem mem_layCells {row : ℕ} {mk : Char → Cell} {col : ℕ} {chars : List Char}
    {w : (ℕ × ℕ) × Cell} :
    w ∈ layCells row mk col chars ↔
      ∃ i ch, chars[i]? = some ch ∧ w = ((row, col + i), mk ch) := by
  induction chars generalizing col with
  | nil => simp [layCells]
  | cons x xs ih =>
      rw [layCells, List.mem_cons, ih]
      constructor
      · rintro (rfl | ⟨i, ch, hch, rfl⟩)
        · exact ⟨0, x, rfl, rfl⟩
        · exact ⟨i + 1, ch, hch, by rw [Nat.add_assoc col 1, Nat.add_comm 1]⟩
      · rintro ⟨i, ch, hch, rfl⟩
        cases i with
        | zero => exact Or.inl (by simp_all)
        | succ i => exact Or.inr ⟨i, ch, hch, by rw [Nat.add_assoc col 1, Nat.add_comm 1]⟩

/-- The non-continuation cell a run writes for one of its characters. -/
def DiffRun.cell (run : DiffRun) (ch : Char) : Cell :=
  ⟨ch, run.style, run.fg, run.bg, false⟩

/-- The cells `(row, column, char, style, fg, bg)` a run carries. -/
def DiffRun.cells (run : DiffRun) : List ((ℕ × ℕ) × Cell) :=
  layCells run.row run.cell run.startCol run.chars

/-- The cells a list of runs carries, run after run. -/
def runCells (runs : List DiffRun) : List ((ℕ × ℕ) × Cell) := runs.flatMap DiffRun.cells

@[simp] theorem runCells_nil : runCells [] = [] := rfl

@[simp] theorem runCells_cons (run : DiffRun) (runs : List DiffRun) :
    runCells (run :: runs) = run.cells ++ runCells runs := rfl

@[simp] theorem runCells_append (runs runs' : List DiffRun) :
    runCells (runs ++ runs') = runCells runs ++ runCells runs' :=
  List.flatMap_append

theorem mem_runCells {runs : List DiffRun} {w : (ℕ × ℕ) × Cell} :
    w ∈ runCells runs ↔ ∃ run ∈ runs, w ∈ run.cells := List.mem_flatMap

/-- The columns of the run stay within a `u16`, so that splitting it never
saturates. -/
def DiffRun.Bounded (run : DiffRun) : Prop := run.startCol + run.chars.length ≤ u16Max

instance (run : DiffRun) : Decidable run.Bounded := inferInstanceAs (Decidable (_ ≤ _))

/-! ## `encode_datagram` -/

/-- `fit_chars_in_bytes`: how many leading characters fit in `maxBytes` bytes of
UTF-8, `byteCount` bytes and `charCount` characters being taken already. -/
def fitCharsLoop (maxBytes : ℕ) : ℕ → ℕ → List Char → ℕ
  | _, charCount, [] => charCount
  | byteCount, charCount, ch :: rest =>
      if byteCount + ch.utf8Size > maxBytes then charCount
      else fitCharsLoop maxBytes (byteCount + ch.utf8Size) (charCount + 1) rest

/-- `fit_chars_in_bytes`. -/
def fitCharsInBytes (chars : List Char) (maxBytes : ℕ) : ℕ := fitCharsLoop maxBytes 0 0 chars

theorem fitCharsLoop_le (maxBytes byteCount charCount : ℕ) (chars : List Char) :
    fitCharsLoop maxBytes byteCount charCount chars ≤ charCount + chars.length := by
  induction chars generalizing byteCount charCount with
  | nil => simp [fitCharsLoop]
  | cons ch rest ih =>
      rw [fitCharsLoop]
      split
      · exact Nat.le_add_right _ _
      · have := ih (byteCount + ch.utf8Size) (charCount + 1)
        simp only [List.length_cons]
        omega

theorem fitCharsInBytes_le (chars : List Char) (maxBytes : ℕ) :
    fitCharsInBytes chars maxBytes ≤ chars.length := by
  simpa [fitCharsInBytes] using fitCharsLoop_le maxBytes 0 0 chars

/-- The Manhattan distance of a run's start to the cursor, rows weighted by the
terminal width: the sort key of `encode_datagram`. -/
def StateDiff.distance (diff : StateDiff) (run : DiffRun) : ℕ :=
  ((run.row : ℤ) - diff.cursor.row).natAbs * diff.cols
    + ((run.startCol : ℤ) - diff.cursor.col).natAbs

/-- The runs in ascending distance to the cursor; `sort_by_key` is stable, and so
is insertion sort. -/
def StateDiff.sortedRuns (diff : StateDiff) : List DiffRun :=
  diff.runs.insertionSort fun a b => diff.distance a ≤ diff.distance b

/-- `RUN_HEADER_OVERHEAD`: the worst-case header bytes of one run. -/
def runHeaderOverhead : ℕ := 12

/-- The accumulators of the fill loop. -/
structure Fill where
  encoded : List DiffRun
  deferred : List DiffRun
  deriving DecidableEq, Repr

/-- The first `n` characters of a run. -/
def DiffRun.left (run : DiffRun) (n : ℕ) : DiffRun := { run with chars := run.chars.take n }

/-- The rest of a run after its first `n` characters; the column saturates at
`u16::MAX`, and the count is cast to `u16` first. -/
def DiffRun.right (run : DiffRun) (n : ℕ) : DiffRun :=
  { run with startCol := min (run.startCol + n % 65536) u16Max, chars := run.chars.drop n }

section Fill

variable (serializedSize : StateDiff → ℕ)
variable {run : DiffRun} {P : DiffRun → Prop} {diff d : StateDiff} {cap : ℕ}
    {deferred : List DiffRun}

/-- One iteration of the fill loop: keep the run if the body stays below
`bodyCap`, else keep as many of its leading characters as the conservative
estimate allows, else defer it.  The loop never stops at a rejected run. -/
def fillStep (header : StateDiff) (bodyCap : ℕ) (acc : Fill) (run : DiffRun) : Fill :=
  if serializedSize { header with runs := acc.encoded ++ [run] } < bodyCap then
    { acc with encoded := acc.encoded ++ [run] }
  else
    let currentSize := serializedSize { header with runs := acc.encoded }
    let remaining := bodyCap - (currentSize + runHeaderOverhead)
    if 0 < remaining then
      let prefixChars := fitCharsInBytes run.chars remaining
      if 0 < prefixChars then
        -- the estimate is checked against the real size before it is trusted
        if serializedSize { header with runs := acc.encoded ++ [run.left prefixChars] }
            < bodyCap then
          { encoded := acc.encoded ++ [run.left prefixChars]
            deferred :=
              if (run.right prefixChars).chars.isEmpty then acc.deferred
              else acc.deferred ++ [run.right prefixChars] }
        else { acc with deferred := acc.deferred ++ [run] }
      else { acc with deferred := acc.deferred ++ [run] }
    else { acc with deferred := acc.deferred ++ [run] }

/-- The whole fill loop over the sorted runs. -/
def fill (diff : StateDiff) (bodyCap : ℕ) : Fill :=
  diff.sortedRuns.foldl (fillStep serializedSize { diff with runs := [] } bodyCap) ⟨[], []⟩

/-- `encode_datagram`: the `StateDiff` the payload carries and the runs deferred
to a later datagram.  `none` is the final `assert!` firing. -/
def encodeDatagram (diff : StateDiff) (cap : ℕ) :
    Option (Except ProtoError (StateDiff × List DiffRun)) :=
  if cap < minCap then some (.error (.capTooSmall cap minCap))
  else
    let bodyCap := cap - 1
    let filled := fill serializedSize diff bodyCap
    let finalDiff := { diff with runs := filled.encoded }
    if serializedSize finalDiff < bodyCap then some (.ok (finalDiff, filled.deferred))
    else none

/-! ## The size of a postcard body -/

/-- The bytes of `n` as a LEB128 varint. -/
def varintLen (n : ℕ) : ℕ := n.log2 / 7 + 1

/-- The bytes of an `Option<u8>`: a tag and the byte, if any. -/
def optionLen : Option UInt8 → ℕ
  | none => 1
  | some _ => 2

/-- The bytes of the UTF-8 text of a run. -/
def utf8Len (chars : List Char) : ℕ := (chars.map Char.utf8Size).sum

/-- The bytes of a serialized `DiffRun`. -/
def DiffRun.postcardLen (run : DiffRun) : ℕ :=
  varintLen run.row + varintLen run.startCol + 1 + optionLen run.fg + optionLen run.bg
    + varintLen (utf8Len run.chars) + utf8Len run.chars

/-- `postcard::experimental::serialized_size` of a `StateDiff`, by the documented
wire format: integers as varints, strings and sequences length-prefixed. -/
def StateDiff.postcardSize (diff : StateDiff) : ℕ :=
  varintLen diff.epoch + varintLen diff.cols + varintLen diff.rows
    + varintLen diff.cursor.row + varintLen diff.cursor.col + 1
    + varintLen diff.runs.length + (diff.runs.map DiffRun.postcardLen).sum

/-! ## What the fill loop keeps -/

/-- Cutting a bounded run in two keeps its cells. -/
theorem DiffRun.cells_left_append_right (hb : run.Bounded) {n : ℕ} (hn : n ≤ run.chars.length) :
    (run.left n).cells ++ (run.right n).cells = run.cells := by
  have hn' : n ≤ u16Max := le_trans hn (le_trans (Nat.le_add_left _ _) hb)
  have hmod : n % 65536 = n := Nat.mod_eq_of_lt (by unfold u16Max at hn'; omega)
  have hcol : min (run.startCol + n % 65536) u16Max = run.startCol + n := by
    unfold DiffRun.Bounded at hb
    rw [hmod]
    omega
  unfold DiffRun.cells DiffRun.left DiffRun.right
  simp only [hcol]
  conv_rhs => rw [← List.take_append_drop n run.chars, layCells_append]
  rw [List.length_take, Nat.min_eq_left hn]
  rfl

theorem DiffRun.Bounded.left (hb : run.Bounded) (n : ℕ) : (run.left n).Bounded := by
  unfold DiffRun.Bounded DiffRun.left at *
  simp only [List.length_take]
  omega

theorem DiffRun.Bounded.right (hb : run.Bounded) {n : ℕ} (hn : n ≤ run.chars.length) :
    (run.right n).Bounded := by
  unfold DiffRun.Bounded DiffRun.right at *
  have : n % 65536 ≤ n := Nat.mod_le _ _
  simp only [List.length_drop]
  omega

/-- The three things an iteration can do: keep the run, keep a prefix of it and
defer the (possibly empty) rest, or defer it whole. -/
theorem fillStep_cases (header : StateDiff) (bodyCap : ℕ) (acc : Fill) (run : DiffRun) :
    fillStep serializedSize header bodyCap acc run =
        { acc with encoded := acc.encoded ++ [run] } ∨
      (∃ n, n ≤ run.chars.length ∧
        fillStep serializedSize header bodyCap acc run =
          { encoded := acc.encoded ++ [run.left n]
            deferred :=
              if (run.right n).chars.isEmpty then acc.deferred
              else acc.deferred ++ [run.right n] }) ∨
      fillStep serializedSize header bodyCap acc run =
        { acc with deferred := acc.deferred ++ [run] } := by
  unfold fillStep
  split
  · exact Or.inl rfl
  · refine Or.inr ?_
    dsimp only
    split
    · split
      · split
        · exact Or.inl ⟨_, fitCharsInBytes_le _ _, rfl⟩
        · exact Or.inr rfl
      · exact Or.inr rfl
    · exact Or.inr rfl

/-- One iteration neither loses, moves nor restyles a cell. -/
theorem fillStep_perm (header : StateDiff) (bodyCap : ℕ) (acc : Fill) (hb : run.Bounded) :
    let acc' := fillStep serializedSize header bodyCap acc run
    (runCells acc'.encoded ++ runCells acc'.deferred).Perm
      (runCells acc.encoded ++ runCells acc.deferred ++ run.cells) := by
  intro acc'
  rcases fillStep_cases serializedSize header bodyCap acc run with h | ⟨n, hn, h⟩ | h
  · simp only [acc', h, runCells_append, runCells_cons, runCells_nil, List.append_nil,
      List.append_assoc]
    exact List.perm_append_comm.append_left _
  · have hright : runCells
        (if (run.right n).chars.isEmpty then acc.deferred
          else acc.deferred ++ [run.right n]) = runCells acc.deferred ++ (run.right n).cells := by
      split
      · next hnil =>
          rw [List.isEmpty_iff] at hnil
          simp [DiffRun.cells, hnil, layCells]
      · simp
    simp only [acc', h, hright, runCells_append, runCells_cons, runCells_nil,
      List.append_nil, List.append_assoc]
    rw [← DiffRun.cells_left_append_right hb hn]
    refine List.Perm.append_left _ ?_
    rw [← List.append_assoc, ← List.append_assoc]
    exact List.perm_append_comm.append_right _
  · simp [acc', h]

/-- What holds of the runs and of every piece of a run holds of what an iteration keeps and
defers. -/
theorem fillStep_forall
    (hpiece : ∀ run, P run → ∀ n ≤ run.chars.length, P (run.left n) ∧ P (run.right n))
    (header : StateDiff) (bodyCap : ℕ) {acc : Fill} (hacc : ∀ r ∈ acc.encoded ++ acc.deferred, P r)
    (hrun : P run) :
    ∀ r ∈ (fillStep serializedSize header bodyCap acc run).encoded
        ++ (fillStep serializedSize header bodyCap acc run).deferred, P r := by
  rw [List.forall_mem_append] at hacc ⊢
  obtain ⟨henc, hdef⟩ := hacc
  rcases fillStep_cases serializedSize header bodyCap acc run with h | ⟨n, hn, h⟩ | h
  · rw [h, List.forall_mem_append, List.forall_mem_singleton]
    exact ⟨⟨henc, hrun⟩, hdef⟩
  · obtain ⟨hleft, hright⟩ := hpiece run hrun n hn
    rw [h, List.forall_mem_append, List.forall_mem_singleton]
    refine ⟨⟨henc, hleft⟩, ?_⟩
    dsimp only
    split
    · exact hdef
    · rw [List.forall_mem_append, List.forall_mem_singleton]
      exact ⟨hdef, hright⟩
  · rw [h, List.forall_mem_append, List.forall_mem_singleton]
    exact ⟨henc, hdef, hrun⟩

theorem foldl_fillStep_forall
    (hpiece : ∀ run, P run → ∀ n ≤ run.chars.length, P (run.left n) ∧ P (run.right n))
    (header : StateDiff) (bodyCap : ℕ) (runs : List DiffRun) {acc : Fill}
    (hacc : ∀ r ∈ acc.encoded ++ acc.deferred, P r) (hruns : ∀ r ∈ runs, P r) :
    ∀ r ∈ (runs.foldl (fillStep serializedSize header bodyCap) acc).encoded
        ++ (runs.foldl (fillStep serializedSize header bodyCap) acc).deferred, P r := by
  induction runs generalizing acc with
  | nil => exact hacc
  | cons run runs ih =>
      rw [List.forall_mem_cons] at hruns
      exact ih (fillStep_forall serializedSize hpiece header bodyCap hacc hruns.1) hruns.2

/-- An iteration adds at most one run to what it keeps and at most one to what it defers. -/
theorem fillStep_length (header : StateDiff) (bodyCap : ℕ) (acc : Fill) (run : DiffRun) :
    (fillStep serializedSize header bodyCap acc run).encoded.length ≤ acc.encoded.length + 1 ∧
      (fillStep serializedSize header bodyCap acc run).deferred.length ≤
        acc.deferred.length + 1 := by
  rcases fillStep_cases serializedSize header bodyCap acc run with h | ⟨n, -, h⟩ | h
  · rw [h, List.length_append]
    exact ⟨le_rfl, Nat.le_succ _⟩
  · rw [h, List.length_append]
    refine ⟨le_rfl, ?_⟩
    dsimp only
    split
    · exact Nat.le_succ _
    · rw [List.length_append]
      exact le_rfl
  · rw [h, List.length_append]
    exact ⟨Nat.le_succ _, le_rfl⟩

theorem foldl_fillStep_length (header : StateDiff) (bodyCap : ℕ) (runs : List DiffRun)
    (acc : Fill) :
    (runs.foldl (fillStep serializedSize header bodyCap) acc).encoded.length ≤
        acc.encoded.length + runs.length ∧
      (runs.foldl (fillStep serializedSize header bodyCap) acc).deferred.length ≤
        acc.deferred.length + runs.length := by
  induction runs generalizing acc with
  | nil => exact ⟨le_rfl, le_rfl⟩
  | cons run runs ih =>
      obtain ⟨henc, hdef⟩ := fillStep_length serializedSize header bodyCap acc run
      obtain ⟨henc', hdef'⟩ := ih (fillStep serializedSize header bodyCap acc run)
      rw [List.foldl_cons, List.length_cons]
      omega

/-- The fill loop over any list of bounded runs conserves cells. -/
theorem foldl_fillStep_perm (header : StateDiff) (bodyCap : ℕ) (runs : List DiffRun) (acc : Fill)
    (hb : ∀ r ∈ runs, r.Bounded) :
    let out := runs.foldl (fillStep serializedSize header bodyCap) acc
    (runCells out.encoded ++ runCells out.deferred).Perm
      (runCells acc.encoded ++ runCells acc.deferred ++ runCells runs) := by
  induction runs generalizing acc with
  | nil => simp
  | cons run runs ih =>
      rw [List.forall_mem_cons] at hb
      have hstep := fillStep_perm serializedSize header bodyCap acc hb.1
      refine (ih _ hb.2).trans ?_
      rw [runCells_cons, ← List.append_assoc]
      exact hstep.append_right _

variable {serializedSize}

variable (h : encodeDatagram serializedSize diff cap = some (.ok (d, deferred)))

include h

/-- A successful encoding is the outcome of the fill loop, and its body fits. -/
theorem encodeDatagram_eq_ok :
    d = { diff with runs := (fill serializedSize diff (cap - 1)).encoded } ∧
      deferred = (fill serializedSize diff (cap - 1)).deferred ∧ serializedSize d < cap - 1 := by
  unfold encodeDatagram at h
  split at h
  · cases h
  · dsimp only at h
    split at h
    · next hsize =>
        cases h
        exact ⟨rfl, rfl, hsize⟩
    · cases h

/-- The header of the datagram is the header of the diff. -/
theorem encodeDatagram_header : d = { diff with runs := d.runs } := by
  obtain ⟨rfl, -, -⟩ := encodeDatagram_eq_ok h
  rfl

/-- What holds of the runs of a diff and of all their pieces holds of the runs of the
datagram and of the deferred ones. -/
theorem encodeDatagram_forall
    (hpiece : ∀ run, P run → ∀ n ≤ run.chars.length, P (run.left n) ∧ P (run.right n))
    (hruns : ∀ r ∈ diff.runs, P r) : ∀ r ∈ d.runs ++ deferred, P r := by
  obtain ⟨rfl, rfl, -⟩ := encodeDatagram_eq_ok h
  have hsorted : diff.sortedRuns.Perm diff.runs := List.perm_insertionSort _ _
  exact foldl_fillStep_forall serializedSize hpiece _ _ diff.sortedRuns (by simp)
    fun r hr => hruns r (hsorted.mem_iff.mp hr)

theorem encodeDatagram_length :
    d.runs.length ≤ diff.runs.length ∧ deferred.length ≤ diff.runs.length := by
  obtain ⟨rfl, rfl, -⟩ := encodeDatagram_eq_ok h
  have hsorted : diff.sortedRuns.Perm diff.runs := List.perm_insertionSort _ _
  have hlength := foldl_fillStep_length serializedSize { diff with runs := [] } (cap - 1)
    diff.sortedRuns ⟨[], []⟩
  rw [hsorted.length_eq, List.length_nil, Nat.zero_add] at hlength
  exact hlength

/-- **Conservation.**  What a datagram carries together with what it defers is
exactly what the diff asked for, and deferred runs stay bounded. -/
theorem encodeDatagram_perm (hb : ∀ r ∈ diff.runs, r.Bounded) :
    (runCells d.runs ++ runCells deferred).Perm (runCells diff.runs) ∧
      ∀ r ∈ deferred, r.Bounded := by
  refine ⟨?_, fun r hr => encodeDatagram_forall h (fun _ h n hn => ⟨h.left n, h.right hn⟩) hb r
    (List.mem_append_right _ hr)⟩
  obtain ⟨rfl, rfl, -⟩ := encodeDatagram_eq_ok h
  have hsorted : diff.sortedRuns.Perm diff.runs := List.perm_insertionSort _ _
  have hperm := foldl_fillStep_perm serializedSize { diff with runs := [] } (cap - 1)
    diff.sortedRuns ⟨[], []⟩ fun r hr => hb r (hsorted.mem_iff.mp hr)
  refine hperm.trans ?_
  simpa [runCells] using hsorted.flatMap_right DiffRun.cells

end Fill

end Nosh.Proto
