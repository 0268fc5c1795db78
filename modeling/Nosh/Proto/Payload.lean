import Mathlib.Algebra.Order.BigOperators.Group.List
import Mathlib.Data.Multiset.AddSub
import Nosh.Proto.Codec
import Nosh.Proto.Datagram

/-!
# Datagram payloads

The bytes of `nosh-proto/src/datagram.rs`: a tag byte and a postcard body, for a
`StateDiff` to the client and for a `ClientEpoch` to the server.

`encode_datagram` measures its candidates with `serialized_size` and ends in a hard
`assert!`.  Its documentation promises a payload below `cap` for every `cap` of at
least `MIN_CAP`; the promise counts a header of six one-byte fields, while the
header has seven fields and most of them are varints.

## Main Definitions

* `StateDiff.payload`, `decodeDatagram` — the bytes of a diff, and their reader.
* `encodeEpochAck`, `decodeEpochAck` — the bytes of an epoch ack, and their reader.
* `SizeGuarantee` — what `encode_datagram` promises at a cap.

## Main Results

* `length_payload` — `StateDiff.postcardSize` counts the bytes of the body.
* `decodeDatagram_payload`, `decodeEpochAck_encodeEpochAck` — payloads are read back.
* `fill_size_lt` — the fill loop stays below the cap if the header alone does.
* `sizeGuarantee_iff` — **the promise is kept exactly when the header fits**.
* `decodeDatagram_encodeDatagram` — a datagram and what it defers are the diff.
-/

namespace Nosh.Proto

open Nosh.Lib Nosh.Lib.Postcard

variable {n : ℕ} {diff : StateDiff}

/-! ## The wire form -/

/-- `TAG_STATE_DIFF`. -/
def tagStateDiff : UInt8 := 0x01

/-- `TAG_CLIENT_EPOCH`. -/
def tagClientEpoch : UInt8 := 0x02

/-- The fields of a `DiffRun` in wire order. -/
abbrev WireRun := UInt16 × UInt16 × CellStyle × Option UInt8 × Option UInt8 × String

/-- The fields of a `StateDiff` in wire order. -/
abbrev WireDiff := UInt64 × UInt16 × UInt16 × (UInt16 × UInt16) × Bool × List WireRun

def DiffRun.wire (run : DiffRun) : WireRun :=
  (UInt16.ofNat run.row, UInt16.ofNat run.startCol, run.style, run.fg, run.bg,
    String.ofList run.chars)

def DiffRun.ofWire (run : WireRun) : DiffRun where
  row := run.1.toNat
  startCol := run.2.1.toNat
  style := run.2.2.1
  fg := run.2.2.2.1
  bg := run.2.2.2.2.1
  chars := run.2.2.2.2.2.toList

def StateDiff.wire (diff : StateDiff) : WireDiff :=
  (UInt64.ofNat diff.epoch, UInt16.ofNat diff.cols, UInt16.ofNat diff.rows,
    (UInt16.ofNat diff.cursor.row, UInt16.ofNat diff.cursor.col), diff.altScreen,
    diff.runs.map DiffRun.wire)

def StateDiff.ofWire (diff : WireDiff) : StateDiff where
  epoch := diff.1.toNat
  cols := diff.2.1.toNat
  rows := diff.2.2.1.toNat
  cursor := ⟨diff.2.2.2.1.1.toNat, diff.2.2.2.1.2.toNat⟩
  altScreen := diff.2.2.2.2.1
  runs := diff.2.2.2.2.2.map DiffRun.ofWire

/-- The payload that carries a diff. -/
def StateDiff.payload (diff : StateDiff) : List UInt8 := tagStateDiff :: ser diff.wire

/-- `decode_datagram`. -/
def decodeDatagram : List UInt8 → Except ProtoError StateDiff
  | [] => .error .postcard
  | tag :: body =>
      if tag ≠ tagStateDiff then .error .postcard
      else
        match (de : Reader WireDiff) body with
        | none => .error .postcard
        | some (diff, _) =>
            if maxRuns < diff.2.2.2.2.2.length then .error .postcard
            else .ok (StateDiff.ofWire diff)

/-- `encode_epoch_ack`. -/
def encodeEpochAck (epoch : UInt64) : List UInt8 := tagClientEpoch :: ser epoch

/-- `decode_epoch_ack`. -/
def decodeEpochAck : List UInt8 → Except ProtoError UInt64
  | [] => .error .postcard
  | tag :: body =>
      if tag ≠ tagClientEpoch then .error .postcard
      else
        match (de : Reader UInt64) body with
        | none => .error .postcard
        | some (epoch, _) => .ok epoch

/-- An epoch ack is read back. -/
theorem decodeEpochAck_encodeEpochAck (epoch : UInt64) :
    decodeEpochAck (encodeEpochAck epoch) = .ok epoch := by
  have hlen : (ser epoch).length < 2 ^ 64 := by
    have hbits := epoch.toNat_lt
    have hlog : epoch.toNat.log2 ≤ epoch.toNat := Nat.log2_le_self _
    rw [length_ser_u64]
    omega
  have hde := de_ser epoch [] hlen
  rw [List.append_nil] at hde
  rw [encodeEpochAck, decodeEpochAck, if_neg (not_not_intro rfl), hde]

/-! ## Diffs that the source types can hold -/

/-- The fields of the diff are in the ranges of their types, and the diff is held in
memory. -/
structure StateDiff.Representable (diff : StateDiff) : Prop where
  epoch_lt : diff.epoch < 2 ^ 64
  cols_le : diff.cols ≤ u16Max
  rows_le : diff.rows ≤ u16Max
  cursor_row_le : diff.cursor.row ≤ u16Max
  cursor_col_le : diff.cursor.col ≤ u16Max
  runs_le : ∀ run ∈ diff.runs, run.row ≤ u16Max ∧ run.startCol ≤ u16Max
  size_lt : diff.postcardSize < 2 ^ 63

theorem toNat_ofNat_u16 (h : n ≤ u16Max) : (UInt16.ofNat n).toNat = n := by
  unfold u16Max at h
  rw [UInt16.toNat_ofNat']
  omega

theorem toNat_ofNat_u64 (h : n < 2 ^ 64) : (UInt64.ofNat n).toNat = n := by
  rw [UInt64.toNat_ofNat']
  exact Nat.mod_eq_of_lt h

theorem length_ser_ofNat_u16 (h : n ≤ u16Max) : (ser (UInt16.ofNat n)).length = varintLen n := by
  rw [length_ser_u16, toNat_ofNat_u16 h, varintLen]

theorem length_ser_ofNat_u64 (h : n < 2 ^ 64) : (ser (UInt64.ofNat n)).length = varintLen n := by
  rw [length_ser_u64, toNat_ofNat_u64 h, varintLen]

theorem length_ser_option (color : Option UInt8) : (ser color).length = optionLen color := by
  cases color <;> rfl

theorem length_ser_pair {α β : Type} [Postcard α] [Postcard β] (a : α) (b : β) :
    (ser (a, b)).length = (ser a).length + (ser b).length := List.length_append

theorem DiffRun.length_ser_wire {run : DiffRun} (hrow : run.row ≤ u16Max)
    (hcol : run.startCol ≤ u16Max) (htext : utf8Len run.chars < 2 ^ 64) :
    (ser run.wire).length = run.postcardLen := by
  have hstyle : (ser run.style).length = 1 := rfl
  have hbytes : (utf8Bytes (String.ofList run.chars)).length = utf8Len run.chars :=
    length_utf8Bytes_ofList run.chars
  unfold DiffRun.wire DiffRun.postcardLen
  simp only [length_ser_pair, length_ser_ofNat_u16 hrow, length_ser_ofNat_u16 hcol, hstyle,
    length_ser_option, length_ser_string, hbytes, length_ser_ofNat_u64 htext]
  omega

theorem varintLen_pos (n : ℕ) : 0 < varintLen n := Nat.succ_pos _

theorem varintLen_mono {m : ℕ} (h : m ≤ n) : varintLen m ≤ varintLen n := by
  unfold varintLen
  rw [Nat.log2_eq_log_two, Nat.log2_eq_log_two]
  have hlog : Nat.log 2 m ≤ Nat.log 2 n := Nat.log_mono_right h
  omega

theorem DiffRun.postcardLen_pos (run : DiffRun) : 0 < run.postcardLen := by
  have hpos := varintLen_pos run.row
  unfold DiffRun.postcardLen
  omega

theorem length_le_sum_postcardLen (runs : List DiffRun) :
    runs.length ≤ (runs.map DiffRun.postcardLen).sum := by
  induction runs with
  | nil => simp
  | cons run runs ih =>
      have hpos := run.postcardLen_pos
      simp only [List.length_cons, List.map_cons, List.sum_cons]
      omega

namespace StateDiff

theorem sum_postcardLen_le (diff : StateDiff) :
    (diff.runs.map DiffRun.postcardLen).sum ≤ diff.postcardSize := Nat.le_add_left _ _

variable (h : diff.Representable)

include h

theorem Representable.length_runs_lt : diff.runs.length < 2 ^ 63 :=
  calc diff.runs.length ≤ (diff.runs.map DiffRun.postcardLen).sum :=
        length_le_sum_postcardLen diff.runs
    _ ≤ diff.postcardSize := diff.sum_postcardLen_le
    _ < 2 ^ 63 := h.size_lt

theorem Representable.utf8Len_lt {run : DiffRun} (hrun : run ∈ diff.runs) :
    utf8Len run.chars < 2 ^ 63 := by
  have hone : run.postcardLen ≤ (diff.runs.map DiffRun.postcardLen).sum :=
    List.le_sum_of_mem (List.mem_map_of_mem hrun)
  have hsize := h.size_lt
  have hall := diff.sum_postcardLen_le
  have htext : utf8Len run.chars ≤ run.postcardLen := Nat.le_add_left _ _
  omega

theorem Representable.length_ser_wire : (ser diff.wire).length = diff.postcardSize := by
  have hbool : (ser diff.altScreen).length = 1 := rfl
  have hruns : (diff.runs.map DiffRun.wire).map (fun run => (ser run).length) =
      diff.runs.map DiffRun.postcardLen := by
    rw [List.map_map]
    refine List.map_congr_left ?_
    intro run hrun
    have htext := h.utf8Len_lt hrun
    exact DiffRun.length_ser_wire (h.runs_le run hrun).1 (h.runs_le run hrun).2 (by omega)
  have hcount := h.length_runs_lt
  unfold StateDiff.wire StateDiff.postcardSize
  simp only [length_ser_pair, length_ser_ofNat_u64 h.epoch_lt, length_ser_ofNat_u16 h.cols_le,
    length_ser_ofNat_u16 h.rows_le, length_ser_ofNat_u16 h.cursor_row_le,
    length_ser_ofNat_u16 h.cursor_col_le, hbool, length_ser_list, hruns, List.length_map]
  rw [length_ser_ofNat_u64 (by omega)]
  omega

/-- The payload is the body and its tag. -/
theorem Representable.length_payload : diff.payload.length = diff.postcardSize + 1 := by
  rw [StateDiff.payload, List.length_cons, h.length_ser_wire]

theorem Representable.ofWire_wire : ofWire diff.wire = diff := by
  have hruns : (diff.runs.map DiffRun.wire).map DiffRun.ofWire = diff.runs := by
    rw [List.map_map, List.map_congr_left (g := id), List.map_id]
    intro run hrun
    obtain ⟨hrow, hcol⟩ := h.runs_le run hrun
    simp only [Function.comp_apply, DiffRun.ofWire, DiffRun.wire, toNat_ofNat_u16 hrow,
      toNat_ofNat_u16 hcol, String.toList_ofList, id_eq]
  unfold StateDiff.ofWire StateDiff.wire
  simp only [hruns, toNat_ofNat_u64 h.epoch_lt, toNat_ofNat_u16 h.cols_le,
    toNat_ofNat_u16 h.rows_le, toNat_ofNat_u16 h.cursor_row_le, toNat_ofNat_u16 h.cursor_col_le]

/-- **A diff is read back from its payload**, up to the run count the reader accepts. -/
theorem Representable.decodeDatagram_payload (hruns : diff.runs.length ≤ maxRuns) :
    decodeDatagram diff.payload = .ok diff := by
  have hsize := h.size_lt
  have hde := de_ser diff.wire [] (by rw [h.length_ser_wire]; omega)
  have hcount : ¬ maxRuns < diff.wire.2.2.2.2.2.length := by
    change ¬ maxRuns < (diff.runs.map DiffRun.wire).length
    rw [List.length_map]
    exact Nat.not_lt.mpr hruns
  rw [List.append_nil] at hde
  rw [StateDiff.payload, decodeDatagram, if_neg (not_not_intro rfl), hde]
  dsimp only
  rw [if_neg hcount, h.ofWire_wire]

end StateDiff

/-! ## The fill loop and the cap -/

section Fill

variable {serializedSize : StateDiff → ℕ}
variable {bodyCap : ℕ} {runs : List DiffRun}

/-- A run is kept only after the body with it was measured. -/
theorem fillStep_size_lt {header : StateDiff} {acc : Fill} (run : DiffRun)
    (h : serializedSize { header with runs := acc.encoded } < bodyCap) :
    serializedSize
      { header with runs := (fillStep serializedSize header bodyCap acc run).encoded }
        < bodyCap := by
  unfold fillStep
  split
  · next hfits => exact hfits
  · dsimp only
    split
    · split
      · split
        · next hfits => exact hfits
        · exact h
      · exact h
    · exact h

theorem foldl_fillStep_size_lt (header : StateDiff) (runs : List DiffRun) {acc : Fill}
    (h : serializedSize { header with runs := acc.encoded } < bodyCap) :
    serializedSize { header with
      runs := (runs.foldl (fillStep serializedSize header bodyCap) acc).encoded } < bodyCap := by
  induction runs generalizing acc with
  | nil => exact h
  | cons run runs ih => exact ih (fillStep_size_lt run h)

/-- **The loop stays below the cap** if the header alone does. -/
theorem fill_size_lt (h : serializedSize { diff with runs := [] } < bodyCap) :
    serializedSize { diff with runs := (fill serializedSize diff bodyCap).encoded } < bodyCap :=
  foldl_fillStep_size_lt { diff with runs := [] } diff.sortedRuns h

/-- An iteration keeps at most a front piece of its run. -/
theorem fillStep_encoded (header : StateDiff) (bodyCap : ℕ) (acc : Fill) (run : DiffRun) :
    (fillStep serializedSize header bodyCap acc run).encoded = acc.encoded ∨
      ∃ n, (fillStep serializedSize header bodyCap acc run).encoded =
        acc.encoded ++ [run.left n] := by
  rcases fillStep_cases serializedSize header bodyCap acc run with h | ⟨n, -, h⟩ | h
  · refine Or.inr ⟨run.chars.length, ?_⟩
    rw [h, DiffRun.left, List.take_length]
  · exact Or.inr ⟨n, by rw [h]⟩
  · exact Or.inl (by rw [h])

/-- The encoded runs are front pieces of some of the runs. -/
structure Pieces (encoded runs : List DiffRun) : Prop where
  length_le : encoded.length ≤ runs.length
  sum_le : (encoded.map DiffRun.postcardLen).sum ≤ (runs.map DiffRun.postcardLen).sum
  piece : ∀ r ∈ encoded, ∃ run ∈ runs, ∃ n, r = run.left n

theorem DiffRun.postcardLen_left_le (run : DiffRun) (n : ℕ) :
    (run.left n).postcardLen ≤ run.postcardLen := by
  have htext : utf8Len (run.left n).chars ≤ utf8Len run.chars := by
    unfold utf8Len DiffRun.left
    conv_rhs => rw [← List.take_append_drop n run.chars, List.map_append, List.sum_append]
    exact Nat.le_add_right _ _
  have hfront := varintLen_mono htext
  change varintLen run.row + varintLen run.startCol + 1 + optionLen run.fg + optionLen run.bg
    + varintLen (utf8Len (run.left n).chars) + utf8Len (run.left n).chars ≤ _
  unfold DiffRun.postcardLen
  omega

theorem pieces_foldl (header : StateDiff) (bodyCap : ℕ) (runs : List DiffRun) :
    Pieces (runs.foldl (fillStep serializedSize header bodyCap) ⟨[], []⟩).encoded runs := by
  induction runs using List.reverseRecOn with
  | nil => exact ⟨le_rfl, le_rfl, by rintro r ⟨⟩⟩
  | append_singleton runs run ih =>
      rw [List.foldl_append, List.foldl_cons, List.foldl_nil]
      have hlength := ih.length_le
      have hsum := ih.sum_le
      rcases fillStep_encoded header bodyCap
        (runs.foldl (fillStep serializedSize header bodyCap) ⟨[], []⟩) run with hsame | ⟨n, hmore⟩
      · rw [hsame]
        refine ⟨?_, ?_, ?_⟩
        · rw [List.length_append]
          omega
        · rw [List.map_append, List.sum_append]
          omega
        · intro r hr
          obtain ⟨source, hsource, hpiece⟩ := ih.piece r hr
          exact ⟨source, List.mem_append_left _ hsource, hpiece⟩
      · rw [hmore]
        refine ⟨?_, ?_, ?_⟩
        · rw [List.length_append, List.length_append]
          exact Nat.add_le_add_right hlength 1
        · have hpiece := run.postcardLen_left_le n
          simp only [List.map_append, List.sum_append, List.map_cons, List.map_nil,
            List.sum_singleton]
          omega
        · intro r hr
          rcases List.mem_append.mp hr with hold | hnew
          · obtain ⟨source, hsource, hpiece⟩ := ih.piece r hold
            exact ⟨source, List.mem_append_left _ hsource, hpiece⟩
          · exact ⟨run, List.mem_append_right _ (List.mem_singleton_self run), n,
              List.mem_singleton.mp hnew⟩

theorem Pieces.of_front {encoded more : List DiffRun} (h : Pieces encoded runs)
    (hfront : runs <+: more) : Pieces encoded more := by
  obtain ⟨rest, rfl⟩ := hfront
  have hlength := h.length_le
  have hsum := h.sum_le
  refine ⟨?_, ?_, ?_⟩
  · rw [List.length_append]
    omega
  · rw [List.map_append, List.sum_append]
    omega
  · intro r hr
    obtain ⟨run, hrun, hpiece⟩ := h.piece r hr
    exact ⟨run, List.mem_append_left _ hrun, hpiece⟩

theorem Pieces.of_perm {encoded runs' : List DiffRun} (h : Pieces encoded runs)
    (hperm : runs.Perm runs') : Pieces encoded runs' := by
  refine ⟨?_, ?_, ?_⟩
  · rw [← hperm.length_eq]
    exact h.length_le
  · rw [← (hperm.map DiffRun.postcardLen).sum_eq]
    exact h.sum_le
  · intro r hr
    obtain ⟨run, hrun, hpiece⟩ := h.piece r hr
    exact ⟨run, hperm.subset hrun, hpiece⟩

variable (serializedSize) in
/-- Every candidate body of the loop carries pieces of the runs of the diff. -/
theorem pieces_candidate (diff : StateDiff) (bodyCap : ℕ) (hfront : runs <+: diff.sortedRuns) :
    Pieces (runs.foldl (fillStep serializedSize { diff with runs := [] } bodyCap)
      ⟨[], []⟩).encoded diff.runs :=
  ((pieces_foldl { diff with runs := [] } bodyCap runs).of_front hfront).of_perm
    (List.perm_insertionSort _ _)

end Fill

namespace StateDiff

variable {encoded : List DiffRun}

theorem postcardSize_le_of_pieces (h : Pieces encoded diff.runs) :
    ({ diff with runs := encoded } : StateDiff).postcardSize ≤ diff.postcardSize := by
  have hcount := varintLen_mono h.length_le
  have hsum := h.sum_le
  unfold StateDiff.postcardSize
  dsimp only
  omega

theorem Representable.of_pieces (h : diff.Representable) (hp : Pieces encoded diff.runs) :
    ({ diff with runs := encoded } : StateDiff).Representable where
  epoch_lt := h.epoch_lt
  cols_le := h.cols_le
  rows_le := h.rows_le
  cursor_row_le := h.cursor_row_le
  cursor_col_le := h.cursor_col_le
  runs_le := by
    intro r hr
    obtain ⟨run, hrun, n, rfl⟩ := hp.piece r hr
    exact h.runs_le run hrun
  size_lt := lt_of_le_of_lt (postcardSize_le_of_pieces hp) h.size_lt

/-- The bytes of the header and of an empty run list. -/
def headerSize (diff : StateDiff) : ℕ :=
  varintLen diff.epoch + varintLen diff.cols + varintLen diff.rows
    + varintLen diff.cursor.row + varintLen diff.cursor.col + 2

theorem postcardSize_header (diff : StateDiff) :
    ({ diff with runs := [] } : StateDiff).postcardSize = diff.headerSize := by
  simp [postcardSize, headerSize, varintLen]

theorem headerSize_le_postcardSize (diff : StateDiff) : diff.headerSize ≤ diff.postcardSize := by
  have hcount := varintLen_pos diff.runs.length
  unfold headerSize postcardSize
  omega

/-- The sort key of a run is computed in `u32`. -/
theorem Representable.distance_lt (h : diff.Representable) {run : DiffRun}
    (hrun : run ∈ diff.runs) : diff.distance run < 2 ^ 32 := by
  obtain ⟨hrow, hcol⟩ := h.runs_le run hrun
  have hcols := h.cols_le
  have hcrow := h.cursor_row_le
  have hccol := h.cursor_col_le
  unfold u16Max at *
  have hrows : ((run.row : ℤ) - diff.cursor.row).natAbs ≤ 65535 := by
    omega
  have hproduct : ((run.row : ℤ) - diff.cursor.row).natAbs * diff.cols ≤ 65535 * 65535 :=
    Nat.mul_le_mul hrows hcols
  unfold StateDiff.distance
  omega

end StateDiff

/-! ## The size guarantee -/

/-- No arithmetic of `encode_datagram` overflows: neither a sort key, a `u32`, nor the
size estimate of a split, a `usize`. -/
structure ArithmeticFits (diff : StateDiff) (cap : ℕ) : Prop where
  key : ∀ run ∈ diff.runs, diff.distance run < 2 ^ 32
  estimate : ∀ runs, runs <+: diff.sortedRuns →
    ({ diff with
        runs := (runs.foldl (fillStep StateDiff.postcardSize { diff with runs := [] } (cap - 1))
          ⟨[], []⟩).encoded } : StateDiff).postcardSize + runHeaderOverhead < 2 ^ 64

/-- What `encode_datagram` promises at a cap: it does not panic, it returns `Ok`, and
the payload is shorter than the cap. -/
def SizeGuarantee (diff : StateDiff) (cap : ℕ) : Prop :=
  ArithmeticFits diff cap ∧
    ∃ final deferred,
      encodeDatagram StateDiff.postcardSize diff cap = some (.ok (final, deferred)) ∧
        final.payload.length < cap

theorem arithmeticFits (h : diff.Representable) (cap : ℕ) : ArithmeticFits diff cap where
  key _ hrun := h.distance_lt hrun
  estimate runs hfront := by
    have hsize := h.size_lt
    have hle := StateDiff.postcardSize_le_of_pieces
      (pieces_candidate StateDiff.postcardSize diff (cap - 1) hfront)
    unfold runHeaderOverhead
    omega

/-- Where the header fits, the encoder returns a datagram, whatever the runs. -/
theorem encodeDatagram_of_headerSize {cap : ℕ} (h : diff.headerSize + 1 < cap) :
    ∃ d deferred, encodeDatagram StateDiff.postcardSize diff cap = some (.ok (d, deferred)) := by
  have hmin : ¬ cap < minCap := by
    have hepoch := varintLen_pos diff.epoch
    have hcols := varintLen_pos diff.cols
    have hrows := varintLen_pos diff.rows
    have hrow := varintLen_pos diff.cursor.row
    have hcol := varintLen_pos diff.cursor.col
    unfold StateDiff.headerSize at h
    unfold minCap
    omega
  have hsize : ({ diff with runs := (fill StateDiff.postcardSize diff (cap - 1)).encoded } :
      StateDiff).postcardSize < cap - 1 := by
    refine fill_size_lt ?_
    rw [StateDiff.postcardSize_header]
    omega
  rw [encodeDatagram, if_neg hmin]
  exact ⟨_, _, if_pos hsize⟩

/-- A datagram that was encoded has room for its header. -/
theorem headerSize_lt_of_encodeDatagram {d : StateDiff} {cap : ℕ} {deferred : List DiffRun}
    (h : encodeDatagram StateDiff.postcardSize diff cap = some (.ok (d, deferred))) :
    diff.headerSize + 1 < cap := by
  obtain ⟨rfl, -, hsize⟩ := encodeDatagram_eq_ok h
  have hheader := StateDiff.headerSize_le_postcardSize
    { diff with runs := (fill StateDiff.postcardSize diff (cap - 1)).encoded }
  change diff.headerSize ≤ _ at hheader
  omega

/-- **The promise is kept exactly when the header fits.**  The header is seven fields,
of which `epoch` takes up to ten bytes and the four `u16`s up to three each; the tag
byte and the strict comparison take one more each. -/
theorem sizeGuarantee_iff {diff : StateDiff} (hdiff : diff.Representable) (cap : ℕ) :
    SizeGuarantee diff cap ↔ diff.headerSize + 1 < cap := by
  constructor
  · rintro ⟨-, final, deferred, hok, -⟩
    exact headerSize_lt_of_encodeDatagram hok
  · intro hheader
    obtain ⟨final, deferred, hok⟩ := encodeDatagram_of_headerSize hheader
    refine ⟨arithmeticFits hdiff cap, final, deferred, hok, ?_⟩
    obtain ⟨rfl, -, hsize⟩ := encodeDatagram_eq_ok hok
    have hpieces : Pieces (fill StateDiff.postcardSize diff (cap - 1)).encoded diff.runs :=
      pieces_candidate StateDiff.postcardSize diff (cap - 1) (List.prefix_refl _)
    rw [(hdiff.of_pieces hpieces).length_payload]
    omega

/-- An 80 by 24 screen in its 300th epoch, with one changed cell. -/
def smallDiff : StateDiff := ⟨300, 80, 24, ⟨0, 1⟩, false, [⟨0, 0, .none, none, none, ['a']⟩]⟩

theorem smallDiff_representable : smallDiff.Representable where
  epoch_lt := by decide
  cols_le := by decide
  rows_le := by decide
  cursor_row_le := by decide
  cursor_col_le := by decide
  runs_le := by decide
  size_lt := by decide

theorem sizeGuarantee_smallDiff : SizeGuarantee smallDiff 1200 :=
  (sizeGuarantee_iff smallDiff_representable 1200).mpr (by decide)

/-- At `MIN_CAP` itself the assert fires, also for a diff with one-byte fields and no
runs. -/
theorem not_sizeGuarantee_minCap :
    encodeDatagram StateDiff.postcardSize ⟨0, 0, 0, ⟨0, 0⟩, false, []⟩ minCap = none ∧
      ¬ SizeGuarantee ⟨0, 0, 0, ⟨0, 0⟩, false, []⟩ minCap := by
  have hpanic : encodeDatagram StateDiff.postcardSize ⟨0, 0, 0, ⟨0, 0⟩, false, []⟩ minCap =
      none := by
    decide
  refine ⟨hpanic, ?_⟩
  rintro ⟨-, final, deferred, hok, -⟩
  rw [hpanic] at hok
  cases hok

/-! ## Conservation -/

/-- **A datagram and what it defers are the diff.**  The payload is read back with the header of
the diff, and its cells together with the deferred ones are the cells of the diff. -/
theorem decodeDatagram_encodeDatagram {diff d : StateDiff} {cap : ℕ} {deferred : List DiffRun}
    (hdiff : diff.Representable) (hruns : diff.runs.length ≤ maxRuns)
    (hbounded : ∀ run ∈ diff.runs, run.Bounded)
    (h : encodeDatagram StateDiff.postcardSize diff cap = some (.ok (d, deferred))) :
    ∃ received, decodeDatagram d.payload = .ok received ∧
      received.epoch = diff.epoch ∧ received.cols = diff.cols ∧ received.rows = diff.rows ∧
        received.cursor = diff.cursor ∧ received.altScreen = diff.altScreen ∧
          (runCells received.runs : Multiset ((ℕ × ℕ) × Cell)) + runCells deferred =
            runCells diff.runs := by
  have hperm := (encodeDatagram_perm h hbounded).1
  have hlength := (encodeDatagram_length h).1
  have hpieces : Pieces (fill StateDiff.postcardSize diff (cap - 1)).encoded diff.runs :=
    pieces_candidate StateDiff.postcardSize diff (cap - 1) (List.prefix_refl _)
  obtain ⟨rfl, -, -⟩ := encodeDatagram_eq_ok h
  refine ⟨_, (hdiff.of_pieces hpieces).decodeDatagram_payload (hlength.trans hruns), rfl, rfl, rfl,
    rfl, rfl, ?_⟩
  rw [Multiset.coe_add]
  exact Multiset.coe_eq_coe.mpr hperm

/-- A run of eleven characters. -/
def splitRun : DiffRun := ⟨3, 5, ⟨CellStyle.bold⟩, some 1, none, "hello there".toList⟩

/-- An 80 by 24 screen in its 300th epoch, with that run. -/
def splitDiff : StateDiff := ⟨300, 80, 24, ⟨0, 1⟩, false, [splitRun]⟩

theorem splitDiff_representable : splitDiff.Representable where
  epoch_lt := by decide
  cols_le := by decide
  rows_le := by decide
  cursor_row_le := by decide
  cursor_col_le := by decide
  runs_le := by decide
  size_lt := by decide

/-- At a cap of 24 bytes three characters travel and eight are deferred. -/
theorem splitDiff_conserved :
    encodeDatagram StateDiff.postcardSize splitDiff 24 =
        some (.ok ({ splitDiff with runs := [splitRun.left 3] }, [splitRun.right 3])) ∧
      ∃ received,
        decodeDatagram ({ splitDiff with runs := [splitRun.left 3] } : StateDiff).payload =
            .ok received ∧
          received.epoch = 300 ∧ received.cols = 80 ∧ received.rows = 24 ∧
            received.cursor = ⟨0, 1⟩ ∧ received.altScreen = false ∧
              (runCells received.runs : Multiset ((ℕ × ℕ) × Cell)) + runCells [splitRun.right 3] =
                runCells splitDiff.runs := by
  have hok : encodeDatagram StateDiff.postcardSize splitDiff 24 =
      some (.ok ({ splitDiff with runs := [splitRun.left 3] }, [splitRun.right 3])) := by
    decide
  exact ⟨hok, decodeDatagram_encodeDatagram splitDiff_representable (by decide) (by decide) hok⟩

end Nosh.Proto
