import Mathlib.Algebra.Order.Ring.Nat
import Nosh.Client.Render

/-!
# Typing and deleting

The `PredictChar` arm of `on_input` advances the predicted cursor by the width of the character,
while the `PredictBackspace` arm goes back by one column and removes the prediction that starts
there. So Backspace takes back characters of width 1 only: a character of width 2 keeps its
prediction, and the cursor ends up inside it.

## Main Definitions

* `onInputs` — batches of keystrokes on one screen
* `startsIn` — a prediction in certain columns of a row

## Main Results

* `onInputs_printable` — what typing predicts.
* `onInputs_backspace` — what deleting leaves.
* `backspace_undoes_iff` — **Backspace takes back what was typed exactly when all of it is one
  column wide**; inside a bracketed paste, where nothing is predicted, exactly when there is nothing
  to go back over.
-/

namespace Nosh.Client

open Nosh.Lib Nosh.Proto PredictionOverlay

/-! ## Keystrokes of one character -/

/-- Bytes without control characters are classified as a printable. -/
theorem classifyInput_plain (width : Char → Option ℕ) {bytes : List UInt8}
    (hlength : bytes.length ≤ bulkSuppressThreshold)
    (hplain : ∀ byte ∈ bytes, 0x20 ≤ byte.toNat ∧ byte ≠ 0x7f) :
    classifyInput width bytes = classifyPrintable width bytes := by
  have hesc : (0x1b : UInt8) ∉ bytes := fun h => absurd (hplain _ h).1 (by decide)
  refine classifyInput_cases (motive := fun action => action = classifyPrintable width bytes)
    ?_ ?_ (fun hbulk => absurd hlength (Nat.not_le.mpr hbulk)) ?_ rfl
  · rintro rfl
    exact (hesc List.mem_cons_self).elim
  · rintro rfl
    exact (hesc List.mem_cons_self).elim
  · rintro _ _ ⟨byte, hmem, hlt | hdel⟩
    · exact absurd (UInt8.lt_iff_toNat_lt.mp hlt) (Nat.not_lt.mpr (hplain byte hmem).1)
    · exact ((hplain byte hmem).2 hdel).elim

theorem classifyInput_char {width : Char → Option ℕ}
    (hcontrol : ∀ ch, isControl ch = true → width ch = none) {ch : Char}
    (hch : Printable width ch) :
    classifyInput width (String.utf8EncodeChar ch) = .predictChar ch ((width ch).getD 0) := by
  have hvisible : isControl ch = false := hch.plain hcontrol
  have hplain : ∀ byte ∈ String.utf8EncodeChar ch, 0x20 ≤ byte.toNat ∧ byte ≠ 0x7f := by
    intro byte hbyte
    have hsame := fun hascii => Utf8.toNat_of_mem_utf8EncodeChar hascii hbyte
    unfold isControl at hvisible
    simp only [Bool.or_eq_false_iff, decide_eq_false_iff_not, Bool.and_eq_false_iff] at hvisible
    constructor
    · by_contra hlow
      have := hsame (by omega)
      omega
    · rintro rfl
      have := hsame (by decide)
      have h7f : (0x7f : UInt8).toNat = 127 := by decide
      omega
  have hlength : (String.utf8EncodeChar ch).length ≤ bulkSuppressThreshold := by
    rw [String.length_utf8EncodeChar]
    exact ch.utf8Size_le_four
  have htext : (Postcard.ofUtf8Bytes (String.utf8EncodeChar ch)).map String.toList = some [ch] := by
    have hbytes := Postcard.utf8Bytes_ofList [ch]
    rw [List.flatMap_singleton] at hbytes
    rw [← hbytes, Postcard.ofUtf8Bytes_utf8Bytes]
    simp
  rw [classifyInput_plain width hlength hplain]
  unfold classifyPrintable
  rw [htext]
  rcases hch with hone | htwo
  · simp [hone]
  · simp [htwo]

theorem classifyInput_backspace (width : Char → Option ℕ) {key : List UInt8}
    (hkey : key = [0x7f] ∨ key = [0x08]) : classifyInput width key = .predictBackspace := by
  rcases hkey with rfl | rfl <;> rfl

/-! ## Sequences of keystrokes -/

namespace PredictionOverlay

/-- Batches of keystrokes without a datagram between them. -/
def onInputs (width : Char → Option ℕ) (screen : ClientScreen) (overlay : PredictionOverlay)
    (batches : List (List UInt8)) : PredictionOverlay :=
  batches.foldl (fun overlay bytes => overlay.onInput width bytes screen) overlay

/-- The columns of some characters. -/
def columns (width : Char → Option ℕ) (chars : List Char) : ℕ :=
  (chars.map fun ch => (width ch).getD 0).sum

/-- The prediction starts in these columns of the row. -/
def startsIn (row low high : ℕ) (pred : PendingPrediction) : Bool :=
  pred.row == row && (decide (low ≤ pred.col) && decide (pred.col < high))

theorem startsIn_iff {row low high : ℕ} {pred : PendingPrediction} :
    startsIn row low high pred = true ↔ pred.row = row ∧ low ≤ pred.col ∧ pred.col < high := by
  unfold startsIn
  rw [Bool.and_eq_true, Bool.and_eq_true, beq_iff_eq, decide_eq_true_iff, decide_eq_true_iff]

variable {width : Char → Option ℕ} (screen : ClientScreen)

/-- A character that fits is predicted in its column. -/
theorem predictChar_of_fits {overlay : PredictionOverlay} {colWidth : ℕ}
    (hcols : overlay.termCols ≤ 65535)
    (hfits : overlay.predictedCursor.col + colWidth ≤ overlay.termCols) (ch : Char) :
    ∃ pred : PendingPrediction, pred.row = overlay.predictedCursor.row ∧
      pred.col = overlay.predictedCursor.col ∧
      (overlay.predictChar screen ch colWidth).2 =
        { overlay with
          pending := overlay.pending ++ [pred]
          predictedCursor := ⟨overlay.predictedCursor.row, overlay.predictedCursor.col + colWidth⟩
          cursorMotionPending := false } := by
  have hguard : ¬ overlay.termCols < min (overlay.predictedCursor.col + colWidth) 65535 := by omega
  have hmod : (overlay.predictedCursor.col + colWidth) % 65536 =
      overlay.predictedCursor.col + colWidth := Nat.mod_eq_of_lt (by omega)
  unfold predictChar
  dsimp only
  rw [if_neg hguard, hmod]
  exact ⟨_, rfl, rfl, rfl⟩

theorem columns_cons (ch : Char) (chars : List Char) :
    columns width (ch :: chars) = (width ch).getD 0 + columns width chars := by
  unfold columns
  rw [List.map_cons, List.sum_cons]

/-- **Typing.** Characters that fit are predicted one after the other, outside of a paste. -/
theorem onInputs_printable (hcontrol : ∀ ch, isControl ch = true → width ch = none)
    {chars : List Char} (hchars : ∀ ch ∈ chars, Printable width ch) {overlay : PredictionOverlay}
    (hpaste : overlay.inBracketedPaste = false) (hcols : overlay.termCols ≤ 65535)
    (hfits : overlay.predictedCursor.col + columns width chars ≤ overlay.termCols) :
    ∃ new, (overlay.onInputs width screen (chars.map String.utf8EncodeChar)).pending =
        overlay.pending ++ new ∧
      (∀ pred ∈ new, startsIn overlay.predictedCursor.row overlay.predictedCursor.col
        (overlay.predictedCursor.col + columns width chars) pred = true) ∧
      (overlay.onInputs width screen (chars.map String.utf8EncodeChar)).predictedCursor =
        ⟨overlay.predictedCursor.row, overlay.predictedCursor.col + columns width chars⟩ ∧
      (overlay.onInputs width screen (chars.map String.utf8EncodeChar)).epochStartCol =
        overlay.epochStartCol := by
  induction chars generalizing overlay with
  | nil =>
      refine ⟨[], (List.append_nil _).symm, ?_, rfl, rfl⟩
      exact fun _ hpred => (List.not_mem_nil hpred).elim
  | cons ch chars ih =>
      obtain ⟨hch, hchars⟩ := List.forall_mem_cons.mp hchars
      rw [columns_cons] at hfits
      have hpositive : 0 < (width ch).getD 0 := by
        rcases hch with h | h <;> rw [h] <;> decide
      have hfitsFirst : overlay.predictedCursor.col + (width ch).getD 0 ≤ overlay.termCols := by
        omega
      obtain ⟨pred, hrow, hcol, hpredict⟩ := predictChar_of_fits screen hcols hfitsFirst ch
      have hfirst : overlay.onInput width (String.utf8EncodeChar ch) screen =
          (overlay.predictChar screen ch ((width ch).getD 0)).2 := by
        rw [onInput, classifyInput_char hcontrol hch, onAction, hpaste]
        exact if_neg Bool.false_ne_true
      rw [List.map_cons, onInputs, List.foldl_cons, ← onInputs, hfirst, hpredict]
      obtain ⟨new, hpending, hnew, hcursor, hstart⟩ := @ih hchars
        { overlay with
          pending := overlay.pending ++ [pred]
          predictedCursor :=
            ⟨overlay.predictedCursor.row, overlay.predictedCursor.col + (width ch).getD 0⟩
          cursorMotionPending := false } hpaste hcols (by dsimp only; omega)
      refine ⟨pred :: new, ?_, ?_, ?_, hstart⟩
      · rw [hpending, List.append_assoc]
        rfl
      · rw [columns_cons]
        refine List.forall_mem_cons.mpr ⟨startsIn_iff.mpr ⟨hrow, hcol.ge, ?_⟩, fun p hp => ?_⟩
        · rw [hcol]
          omega
        · obtain ⟨hprow, hlow, hhigh⟩ := startsIn_iff.mp (hnew p hp)
          dsimp only at hlow hhigh
          exact startsIn_iff.mpr ⟨hprow, by omega, by omega⟩
      · rw [hcursor, columns_cons, Nat.add_assoc]

theorem onAction_backspace {overlay : PredictionOverlay}
    (hcol : overlay.epochStartCol < overlay.predictedCursor.col) :
    (overlay.onAction screen .predictBackspace).predictedCursor =
        ⟨overlay.predictedCursor.row, overlay.predictedCursor.col - 1⟩ ∧
      (overlay.onAction screen .predictBackspace).pending = overlay.pending.filter (fun p =>
        !(p.row == overlay.predictedCursor.row && p.col == overlay.predictedCursor.col - 1)) ∧
      (overlay.onAction screen .predictBackspace).epochStartCol = overlay.epochStartCol := by
  rw [onAction, if_pos hcol]
  exact ⟨rfl, rfl, rfl⟩

/-- **Deleting.** Backspace goes back to the beginning of the input at most, and removes what starts
in the columns that it goes over. -/
theorem onInputs_backspace {keys : List (List UInt8)}
    (hkeys : ∀ key ∈ keys, key = [0x7f] ∨ key = [0x08]) {overlay : PredictionOverlay} {back : ℕ}
    (hback : back = min keys.length (overlay.predictedCursor.col - overlay.epochStartCol)) :
    (overlay.onInputs width screen keys).predictedCursor =
        ⟨overlay.predictedCursor.row, overlay.predictedCursor.col - back⟩ ∧
      (overlay.onInputs width screen keys).pending =
        overlay.pending.filter fun pred =>
          !startsIn overlay.predictedCursor.row (overlay.predictedCursor.col - back)
            overlay.predictedCursor.col pred := by
  induction keys generalizing overlay back with
  | nil =>
      rw [List.length_nil, Nat.zero_min] at hback
      rw [hback]
      refine ⟨rfl, (List.filter_eq_self.mpr fun pred _ => ?_).symm⟩
      rw [Bool.not_eq_true', Bool.eq_false_iff]
      intro h
      exact absurd (startsIn_iff.mp h).2 (by omega)
  | cons key keys ih =>
      obtain ⟨hkey, hkeys⟩ := List.forall_mem_cons.mp hkeys
      rw [List.length_cons] at hback
      rw [onInputs, List.foldl_cons, ← onInputs, onInput, classifyInput_backspace width hkey]
      by_cases hcol : overlay.epochStartCol < overlay.predictedCursor.col
      · obtain ⟨hcursor, hpending, hstart⟩ := onAction_backspace screen hcol
        generalize overlay.onAction screen .predictBackspace = next at hcursor hpending hstart
        have hless : back - 1 =
            min keys.length (next.predictedCursor.col - next.epochStartCol) := by
          rw [hcursor, hstart]
          dsimp only
          omega
        obtain ⟨hlast, hleft⟩ := ih hkeys hless
        rw [hcursor] at hlast hleft
        dsimp only at hlast hleft
        have hcolumn : overlay.predictedCursor.col - 1 - (back - 1) =
            overlay.predictedCursor.col - back := by omega
        rw [hcolumn] at hlast hleft
        refine ⟨hlast, hleft.trans ?_⟩
        rw [hpending, List.filter_filter]
        refine List.filter_congr fun pred _ => ?_
        -- the last column, and then the ones before it
        rw [Bool.eq_iff_iff, Bool.and_eq_true, Bool.not_eq_true', Bool.not_eq_true',
          Bool.not_eq_true', ← Bool.not_eq_true, ← Bool.not_eq_true, ← Bool.not_eq_true,
          startsIn_iff, startsIn_iff, Bool.and_eq_true, beq_iff_eq, beq_iff_eq]
        omega
      · have hnone : back = 0 := by omega
        rw [onAction, if_neg hcol]
        exact ih hkeys (by omega)

/-- Inside a bracketed paste nothing is predicted. -/
theorem onInputs_paste (hcontrol : ∀ ch, isControl ch = true → width ch = none)
    {chars : List Char} (hchars : ∀ ch ∈ chars, Printable width ch) {overlay : PredictionOverlay}
    (hpaste : overlay.inBracketedPaste = true) :
    overlay.onInputs width screen (chars.map String.utf8EncodeChar) = overlay := by
  induction chars with
  | nil => rfl
  | cons ch chars ih =>
      obtain ⟨hch, hchars⟩ := List.forall_mem_cons.mp hchars
      have hfirst : overlay.onInput width (String.utf8EncodeChar ch) screen = overlay := by
        rw [onInput, classifyInput_char hcontrol hch, onAction, if_pos hpaste]
      rw [List.map_cons, onInputs, List.foldl_cons, ← onInputs, hfirst]
      exact ih hchars

theorem onInputs_append (overlay : PredictionOverlay) (first second : List (List UInt8)) :
    overlay.onInputs width screen (first ++ second) =
      (overlay.onInputs width screen first).onInputs width screen second :=
  List.foldl_append

/-- What is left of the columns stays. -/
theorem filter_startsIn_of_left {pending : List PendingPrediction} {row low : ℕ}
    (hleft : ∀ pred ∈ pending, pred.row = row → pred.col < low) (high : ℕ) :
    pending.filter (fun pred => !startsIn row low high pred) = pending := by
  refine List.filter_eq_self.mpr fun pred hpred => ?_
  rw [Bool.not_eq_true', Bool.eq_false_iff]
  intro h
  obtain ⟨hrow, hlow, -⟩ := startsIn_iff.mp h
  exact absurd (hleft pred hpred hrow) (Nat.not_lt.mpr hlow)

/-- As many columns as characters: all of them are one column wide. -/
theorem columns_eq_length_iff {chars : List Char} (hchars : ∀ ch ∈ chars, Printable width ch) :
    chars.length ≤ columns width chars ∧
      (columns width chars = chars.length ↔ ∀ ch ∈ chars, width ch = some 1) := by
  induction chars with
  | nil => exact ⟨le_rfl, fun _ _ hch => (List.not_mem_nil hch).elim, fun _ => rfl⟩
  | cons ch chars ih =>
      obtain ⟨hch, hchars⟩ := List.forall_mem_cons.mp hchars
      obtain ⟨hle, hiff⟩ := ih hchars
      rw [columns_cons, List.length_cons, List.forall_mem_cons, ← hiff]
      rcases hch with hone | htwo
      · rw [hone, Option.getD_some, and_iff_right rfl]
        omega
      · rw [htwo, Option.getD_some]
        have hne : (some 2 : Option ℕ) ≠ some 1 := by decide
        exact ⟨by omega, fun h => absurd h (by omega), fun h => absurd h.1 hne⟩

/-- The row of the cursor stays, so the cursor is where it was if its column is. -/
theorem predictedCursor_eq_iff (overlay : PredictionOverlay) (col : ℕ) :
    (⟨overlay.predictedCursor.row, col⟩ : CursorPos) = overlay.predictedCursor ↔
      col = overlay.predictedCursor.col :=
  ⟨fun h => congrArg CursorPos.col h, fun h => by rw [h]⟩

section Undo

variable {width : Char → Option ℕ} (screen : ClientScreen) {overlay : PredictionOverlay}
  {chars : List Char} {backspaces : List (List UInt8)}

variable (hcontrol : ∀ ch, isControl ch = true → width ch = none)
    (hright : ∀ pred ∈ overlay.pending, pred.row = overlay.predictedCursor.row →
      pred.col < overlay.predictedCursor.col)
    (hstart : overlay.epochStartCol ≤ overlay.predictedCursor.col)
    (hchars : ∀ ch ∈ chars, Printable width ch)
    (hbackspaces : ∀ key ∈ backspaces, key = [0x7f] ∨ key = [0x08])
    (hlength : backspaces.length = chars.length)

include hcontrol hright hstart hchars hbackspaces hlength

/-- Inside a bracketed paste Backspace moves the cursor and nothing was typed. -/
theorem undoes_in_paste_iff (hpaste : overlay.inBracketedPaste = true) :
    (((overlay.onInputs width screen (chars.map String.utf8EncodeChar)).onInputs width screen
          backspaces).pending = overlay.pending ∧
        ((overlay.onInputs width screen (chars.map String.utf8EncodeChar)).onInputs width screen
          backspaces).predictedCursor = overlay.predictedCursor) ↔
      chars = [] ∨ overlay.predictedCursor.col = overlay.epochStartCol := by
  rw [onInputs_paste screen hcontrol hchars hpaste]
  obtain ⟨hcursor, hpending⟩ := @onInputs_backspace width screen _ hbackspaces overlay _ rfl
  rw [hcursor, predictedCursor_eq_iff, hpending, hlength, ← List.length_eq_zero_iff]
  constructor
  · rintro ⟨-, hcol⟩
    omega
  · intro h
    have hnone : min chars.length
        (overlay.predictedCursor.col - overlay.epochStartCol) = 0 := by omega
    rw [hnone, Nat.sub_zero]
    exact ⟨filter_startsIn_of_left hright _, rfl⟩

/-- Outside of a bracketed paste each Backspace takes back one column. -/
theorem undoes_typed_iff (hcols : overlay.termCols ≤ 65535)
    (hfits : overlay.predictedCursor.col + columns width chars ≤ overlay.termCols)
    (hpaste : overlay.inBracketedPaste = false) :
    (((overlay.onInputs width screen (chars.map String.utf8EncodeChar)).onInputs width screen
          backspaces).pending = overlay.pending ∧
        ((overlay.onInputs width screen (chars.map String.utf8EncodeChar)).onInputs width screen
          backspaces).predictedCursor = overlay.predictedCursor) ↔
      ∀ ch ∈ chars, width ch = some 1 := by
  obtain ⟨new, htyped, hnew, hcursor, hfloor⟩ := onInputs_printable screen hcontrol hchars hpaste
    hcols hfits
  generalize overlay.onInputs width screen (chars.map String.utf8EncodeChar) = typed at *
  obtain ⟨hle, hiff⟩ := columns_eq_length_iff hchars
  -- every Backspace deletes a column, for there are at least as many of them as characters
  have hback : chars.length =
      min backspaces.length (typed.predictedCursor.col - typed.epochStartCol) := by
    rw [hcursor, hfloor]
    dsimp only
    omega
  obtain ⟨hlast, hpending⟩ := @onInputs_backspace width screen _ hbackspaces typed _ hback
  rw [hcursor] at hlast hpending
  dsimp only at hlast hpending
  rw [hlast, predictedCursor_eq_iff, hpending, ← hiff]
  constructor
  · rintro ⟨-, hcol⟩
    omega
  · intro hcolumns
    rw [hcolumns, Nat.add_sub_cancel, htyped, List.filter_append, filter_startsIn_of_left hright]
    refine ⟨?_, rfl⟩
    rw [List.filter_eq_nil_iff.mpr fun pred hpred => ?_, List.append_nil]
    rw [← hcolumns, hnew pred hpred]
    exact Bool.false_ne_true

end Undo

end PredictionOverlay

/-- **Backspace takes back what was typed exactly when all of it is one column wide.** Inside a
bracketed paste nothing is predicted, and Backspace moves the cursor unless it is at the beginning
of the input. -/
theorem backspace_undoes_iff {width : Char → Option ℕ}
    (hcontrol : ∀ ch, isControl ch = true → width ch = none) (screen : ClientScreen)
    {overlay : PredictionOverlay} {chars : List Char} {backspaces : List (List UInt8)}
    (hcols : overlay.termCols ≤ 65535)
    (hright : ∀ pred ∈ overlay.pending, pred.row = overlay.predictedCursor.row →
      pred.col < overlay.predictedCursor.col)
    (hstart : overlay.epochStartCol ≤ overlay.predictedCursor.col)
    (hchars : ∀ ch ∈ chars, Printable width ch)
    (hfits : overlay.predictedCursor.col + columns width chars ≤ overlay.termCols)
    (hbackspaces : ∀ key ∈ backspaces, key = [0x7f] ∨ key = [0x08])
    (hlength : backspaces.length = chars.length) :
    ((overlay.onInputs width screen (chars.map String.utf8EncodeChar ++ backspaces)).pending =
          overlay.pending ∧
        (overlay.onInputs width screen
          (chars.map String.utf8EncodeChar ++ backspaces)).predictedCursor =
          overlay.predictedCursor) ↔
      if overlay.inBracketedPaste then
        chars = [] ∨ overlay.predictedCursor.col = overlay.epochStartCol
      else ∀ ch ∈ chars, width ch = some 1 := by
  rw [onInputs_append]
  cases hpaste : overlay.inBracketedPaste with
  | true =>
      rw [if_pos rfl]
      exact undoes_in_paste_iff screen hcontrol hright hstart hchars hbackspaces hlength hpaste
  | false =>
      rw [if_neg Bool.false_ne_true]
      exact undoes_typed_iff screen hcontrol hright hstart hchars hbackspaces hlength hcols hfits
        hpaste

/-- One kana of two columns; everything else that is not a control character takes one. -/
def kana (ch : Char) : Option ℕ :=
  if isControl ch then none else if ch = 'あ' then some 2 else some 1

/-- Two letters and two deletions. -/
theorem backspace_undoes_letters :
    ((PredictionOverlay.new .always 10 2).onInputs kana (.new 10 2)
        [[0x61], [0x62], [0x7f], [0x08]]).pending = [] := by
  have hcontrol : ∀ ch, isControl ch = true → kana ch = none := fun _ hch => if_pos hch
  have hwidth : ∀ ch ∈ ['a', 'b'], kana ch = some 1 :=
    List.forall_mem_cons.mpr ⟨by decide, List.forall_mem_singleton.mpr (by decide)⟩
  have hundo := @backspace_undoes_iff kana hcontrol (.new 10 2) (.new .always 10 2) ['a', 'b']
    [[0x7f], [0x08]] (by decide) (by decide) (by decide) (fun ch hch => .inl (hwidth ch hch))
    (by decide) (by decide) rfl
  exact (hundo.mpr hwidth).1

/-- **A kana and one deletion**: the kana is still predicted, and the cursor is inside it. -/
theorem backspace_inside_kana :
    Printable kana 'あ' ∧
      ((PredictionOverlay.new .always 10 2).onInputs kana (.new 10 2)
        [String.utf8EncodeChar 'あ', [0x7f]]).pending.map PendingPrediction.predictedCh = ['あ'] ∧
      ((PredictionOverlay.new .always 10 2).onInputs kana (.new 10 2)
        [String.utf8EncodeChar 'あ', [0x7f]]).predictedCursor = ⟨0, 1⟩ :=
  ⟨.inr (by decide), by decide, by decide⟩

end Nosh.Client
