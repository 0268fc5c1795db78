import Nosh.Lib.Utf8
import Nosh.Proto.Message

/-!
# Re-emitted terminal controls

The pump writes what a `TerminalControl` frame carries back to the local terminal as one OSC
sequence, after removing the characters that would end it early. The clipboard arm drops the
query form, but looks at the raw data, before the removal.

## Main Definitions

* `terminalControl` — the bytes that the `TerminalControl` arm writes
* `IsOsc` — one complete OSC sequence
* `IsClipboardQuery` — the sequence that asks the terminal for its clipboard

## Main Results

* `terminalControl_isOsc` — every frame gives one complete sequence, or nothing.
* `clipboardQuery_iff` — which clipboard frames give the query form.
-/

namespace Nosh.Client

open Lib Proto

section Arm

/-- The characters that the clipboard arm keeps. -/
def keepsOsc (ch : Char) : Bool := ch != '\x07' && ch != '\x1b'

/-- The characters that the title and the hyperlink arm keep. -/
def keepsLine (ch : Char) : Bool := ch != '\x07' && ch != '\x1b' && ch != '\r' && ch != '\n'

/-- `is_allowed`: the selection designators of OSC 52. -/
def isAllowed (sel : List Char) : Bool :=
  match sel with
  | ['c'] | ['p'] | ['s'] | ['q'] => true
  | s => (Utf8.encode s).length == 1 && s.head?.any Char.isDigit

/-- The characters of `bytes` that the clipboard arm keeps. -/
def lossyKept (bytes : List UInt8) : List Char := (Utf8.decodeLossy bytes).filter keepsOsc

/-- An OSC sequence: its introducer, its text and BEL. -/
def osc (text : List Char) : List UInt8 := Utf8.encode (['\x1b', ']'] ++ text ++ ['\x07'])

-- `str::to_lowercase`
variable (toLowercase : List Char → List Char)

/-- `is_whitelisted`: the schemes of the hyperlinks that are re-emitted. -/
def isWhitelisted (uri : List Char) : Bool :=
  ['h', 't', 't', 'p', ':', '/', '/'].isPrefixOf (toLowercase uri) ||
    ['h', 't', 't', 'p', 's', ':', '/', '/'].isPrefixOf (toLowercase uri) ||
    ['m', 'a', 'i', 'l', 't', 'o', ':'].isPrefixOf (toLowercase uri) ||
    ['f', 'i', 'l', 'e', ':'].isPrefixOf (toLowercase uri)

/-- The `TerminalControl` arm of `run_pump`: what is written, if anything. -/
def terminalControl (status : Bool) : TerminalControlPayload → Option (List UInt8)
  | .clipboard selection data =>
      let sel := lossyKept selection
      -- the check reads the data as they came, the sequence takes them filtered
      if data = [0x3f] then none
      else if !isAllowed sel then none
      else some (osc (['5', '2', ';'] ++ sel ++ [';'] ++ lossyKept data))
  | .title title =>
      if status then none
      else some (osc (['0', ';'] ++ title.toList.filter keepsLine))
  | .hyperlink uri =>
      let cleanUri := uri.toList.filter keepsLine
      if isWhitelisted toLowercase cleanUri then some (osc (['8', ';', ';'] ++ cleanUri))
      else none

end Arm

/-- One complete OSC sequence: `ESC ]`, then a text without ESC and BEL, then BEL. -/
def IsOsc (out : List UInt8) : Prop :=
  ∃ body : List UInt8, out = [0x1b, 0x5d] ++ body ++ [0x07] ∧ 0x1b ∉ body ∧ 0x07 ∉ body

/-- OSC 52 with the single character `?` for its data: the terminal answers with its clipboard. -/
def IsClipboardQuery (out : List UInt8) : Prop :=
  ∃ selection : List UInt8, 0x3b ∉ selection ∧
    out = [0x1b, 0x5d, 0x35, 0x32, 0x3b] ++ selection ++ [0x3b, 0x3f, 0x07]

/-- The frame carries the query form, hidden from the check by a BEL or an ESC. -/
def HidesQuery : TerminalControlPayload → Prop
  | .clipboard selection data =>
      isAllowed (lossyKept selection) = true ∧ data ≠ [0x3f] ∧
        data.filter (fun byte => byte != 0x07 && byte != 0x1b) = [0x3f]
  | .title _ | .hyperlink _ => False

/-! ## One sequence -/

/-- A text without ESC and BEL makes one complete sequence. -/
theorem isOsc_osc {text : List Char} (htext : ∀ ch ∈ text, keepsOsc ch = true) :
    IsOsc (osc text) := by
  have hout : ∀ {byte : UInt8} {ch : Char}, ch.toNat = byte.toNat → byte.toNat < 0x80 →
      keepsOsc ch = false → byte ∉ Utf8.encode text := by
    intro byte ch hbyte hascii hkeeps hmem
    obtain ⟨other, hother, hcode⟩ := Utf8.exists_of_mem_encode hascii hmem
    obtain rfl : other = ch := Char.toNat_inj.mp (hcode.trans hbyte.symm)
    rw [htext other hother] at hkeeps
    cases hkeeps
  refine ⟨Utf8.encode text, ?_, ?_, ?_⟩
  · rw [osc, Utf8.encode_append, Utf8.encode_append]
    rfl
  · exact @hout 0x1b '\x1b' rfl (by decide) rfl
  · exact @hout 0x07 '\x07' rfl (by decide) rfl

theorem keepsOsc_of_mem_lossyKept {bytes : List UInt8} {ch : Char} (hch : ch ∈ lossyKept bytes) :
    keepsOsc ch = true :=
  (List.mem_filter.mp hch).2

theorem keepsOsc_of_keepsLine {ch : Char} (hch : keepsLine ch = true) : keepsOsc ch = true := by
  rw [keepsLine, Bool.and_assoc, Bool.and_eq_true] at hch
  exact hch.1

variable {toLowercase : List Char → List Char}

/-- **Every frame gives one complete sequence, or nothing.** -/
theorem terminalControl_isOsc {status : Bool} {payload : TerminalControlPayload}
    {out : List UInt8} (hout : terminalControl toLowercase status payload = some out) :
    IsOsc out := by
  have hline : ∀ text : List Char, ∀ ch ∈ text.filter keepsLine, keepsOsc ch = true :=
    fun text ch hch => keepsOsc_of_keepsLine (List.mem_filter.mp hch).2
  unfold terminalControl at hout
  cases payload with
  | clipboard selection data =>
      dsimp only at hout
      split at hout
      · cases hout
      split at hout
      · cases hout
      · cases hout
        refine isOsc_osc ?_
        simp only [List.forall_mem_append]
        exact ⟨⟨⟨List.all_eq_true.mp rfl, fun ch => keepsOsc_of_mem_lossyKept⟩,
          List.all_eq_true.mp rfl⟩, fun ch => keepsOsc_of_mem_lossyKept⟩
  | title title =>
      dsimp only at hout
      split at hout
      · cases hout
      · cases hout
        exact isOsc_osc (List.forall_mem_append.mpr ⟨List.all_eq_true.mp rfl, hline _⟩)
  | hyperlink uri =>
      dsimp only at hout
      split at hout
      · cases hout
        exact isOsc_osc (List.forall_mem_append.mpr ⟨List.all_eq_true.mp rfl, hline _⟩)
      · cases hout

/-! ## The query form -/

/-- An allowed selection is one byte, and not the separator. -/
theorem encode_of_isAllowed {sel : List Char} (hallowed : isAllowed sel = true) :
    ∃ byte : UInt8, Utf8.encode sel = [byte] ∧ byte ≠ 0x3b := by
  unfold isAllowed at hallowed
  split at hallowed
  · exact ⟨0x63, rfl, by decide⟩
  · exact ⟨0x70, rfl, by decide⟩
  · exact ⟨0x73, rfl, by decide⟩
  · exact ⟨0x71, rfl, by decide⟩
  · rw [Bool.and_eq_true, beq_iff_eq] at hallowed
    obtain ⟨hlength, hdigit⟩ := hallowed
    obtain ⟨byte, hbyte⟩ := List.length_eq_one_iff.mp hlength
    refine ⟨byte, hbyte, ?_⟩
    rintro rfl
    cases sel with
    | nil => cases hdigit
    | cons ch rest =>
        -- the one byte is that of the digit
        have hsplit : String.utf8EncodeChar ch ++ Utf8.encode rest = [0x3b] := hbyte
        have hmem : 0x3b ∈ String.utf8EncodeChar ch := by
          rw [List.append_eq_singleton_iff] at hsplit
          rcases hsplit with ⟨hnil, -⟩ | ⟨hone, -⟩
          · exact absurd hnil String.utf8EncodeChar_ne_nil
          · rw [hone]
            exact List.mem_singleton_self _
        have hcode : ch.toNat = (';').toNat := Utf8.toNat_of_mem_utf8EncodeChar (by decide) hmem
        obtain rfl : ch = ';' := Char.toNat_inj.mp hcode
        cases hdigit

/-- What an OSC 52 sequence with an allowed selection carries decides whether it is a query. -/
theorem isClipboardQuery_osc_iff {sel b64 : List Char} (hallowed : isAllowed sel = true) :
    IsClipboardQuery (osc (['5', '2', ';'] ++ sel ++ [';'] ++ b64)) ↔ b64 = ['?'] := by
  obtain ⟨byte, hsel, hbyte⟩ := encode_of_isAllowed hallowed
  have hosc : osc (['5', '2', ';'] ++ sel ++ [';'] ++ b64) =
      [0x1b, 0x5d, 0x35, 0x32, 0x3b] ++ (byte :: 0x3b :: (Utf8.encode b64 ++ [0x07])) := by
    simp only [osc, Utf8.encode_append, hsel, List.append_assoc]
    rfl
  have hquery : b64 = ['?'] ↔ Utf8.encode b64 = [0x3f] :=
    (Utf8.encode_injective.eq_iff (a := b64) (b := ['?'])).symm
  rw [hquery]
  constructor
  · rintro ⟨selection, hselection, hout⟩
    rw [hosc, List.append_assoc, List.append_cancel_left_eq] at hout
    -- both parts end at the first separator
    match selection, hselection, hout with
    | [], _, hout => exact absurd (List.cons.inj hout).1 hbyte
    | [_], _, hout =>
        have htail : Utf8.encode b64 ++ [0x07] = [0x3f] ++ [0x07] :=
          (List.cons.inj (List.cons.inj hout).2).2
        exact List.append_cancel_right htail
    | _ :: other :: rest, hselection, hout =>
        obtain rfl := (List.cons.inj (List.cons.inj hout).2).1
        exact absurd (List.mem_cons_of_mem _ List.mem_cons_self) hselection
  · intro hb64
    rw [hosc, hb64]
    refine ⟨[byte], ?_, rfl⟩
    rw [List.mem_singleton]
    exact hbyte.symm

/-- The filtered data are `?` exactly when the bytes without BEL and ESC are. -/
theorem lossyKept_eq_query_iff {data : List UInt8} :
    lossyKept data = ['?'] ↔ data.filter (fun byte => byte != 0x07 && byte != 0x1b) = [0x3f] := by
  have hkeeps : keepsOsc ∘ Char.ofUInt8 = fun byte => byte != 0x07 && byte != 0x1b := by
    funext byte
    have hcode : ∀ ch : Char, ∀ other : UInt8, Char.ofUInt8 other = ch →
        (Char.ofUInt8 byte != ch) = (byte != other) := by
      rintro _ other rfl
      rw [bne, bne, Bool.eq_iff_iff, Bool.not_eq_true', Bool.not_eq_true', beq_eq_false_iff_ne,
        beq_eq_false_iff_ne, Utf8.ofUInt8_injective.ne_iff]
    change (Char.ofUInt8 byte != '\x07' && Char.ofUInt8 byte != '\x1b') = _
    rw [hcode '\x07' 0x07 rfl, hcode '\x1b' 0x1b rfl]
  rw [← hkeeps]
  refine @Utf8.filter_decodeLossy_eq_iff keepsOsc ?_ data [0x3f]
    (List.forall_mem_singleton.mpr (by decide))
  intro ch habove
  rw [keepsOsc, Bool.and_eq_true, bne_iff_ne, bne_iff_ne]
  constructor
  · rintro rfl
    exact absurd habove (by decide)
  · rintro rfl
    exact absurd habove (by decide)

/-- Which clipboard frames re-emit the query form. -/
theorem clipboardQuery_iff {status : Bool} {selection data : List UInt8} :
    (∃ out ∈ terminalControl toLowercase status (.clipboard selection data),
        IsClipboardQuery out) ↔ HidesQuery (.clipboard selection data) := by
  rw [HidesQuery, ← lossyKept_eq_query_iff]
  by_cases hdata : data = [0x3f]
  · simp [terminalControl, hdata]
  · by_cases hallowed : isAllowed (lossyKept selection) = true
    · have hout : terminalControl toLowercase status (.clipboard selection data) =
          some (osc (['5', '2', ';'] ++ lossyKept selection ++ [';'] ++ lossyKept data)) := by
        simp [terminalControl, hdata, hallowed]
      rw [hout]
      simp only [Option.mem_some_iff, exists_eq_left', isClipboardQuery_osc_iff hallowed]
      exact ⟨fun h => ⟨hallowed, hdata, h⟩, fun h => h.2.2⟩
    · simp [terminalControl, hdata, hallowed]

/-- A sequence with another number is no query. -/
theorem not_isClipboardQuery_osc {number : Char} {byte : UInt8} {text : List Char}
    (hnumber : String.utf8EncodeChar number = [byte]) (hbyte : byte ≠ 0x35) :
    ¬ IsClipboardQuery (osc (number :: text)) := by
  rintro ⟨selection, -, hout⟩
  have hosc : osc (number :: text) = 0x1b :: 0x5d :: byte :: (Utf8.encode text ++ [0x07]) := by
    change String.utf8EncodeChar '\x1b' ++ (String.utf8EncodeChar ']' ++
      (String.utf8EncodeChar number ++ Utf8.encode (text ++ ['\x07']))) = _
    rw [hnumber, Utf8.encode_append]
    rfl
  rw [hosc] at hout
  exact hbyte (List.cons.inj (List.cons.inj (List.cons.inj hout).2).2).1

/-- **A control frame is confined to one sequence, and no clipboard query is among them exactly
when none is hidden in the frame.** -/
theorem terminalControl_confined (toLowercase : List Char → List Char) (status : Bool)
    (payload : TerminalControlPayload) :
    (∀ out ∈ terminalControl toLowercase status payload, IsOsc out) ∧
      ((∀ out ∈ terminalControl toLowercase status payload, ¬ IsClipboardQuery out) ↔
        ¬ HidesQuery payload) := by
  refine ⟨fun out => terminalControl_isOsc, ?_⟩
  cases payload with
  | clipboard selection data =>
      rw [← @clipboardQuery_iff toLowercase status, not_exists]
      exact forall_congr' fun out => not_and.symm
  | title title =>
      refine iff_of_true ?_ not_false
      intro out hout
      rw [terminalControl] at hout
      split at hout
      · cases hout
      · cases hout
        exact not_isClipboardQuery_osc rfl (by decide)
  | hyperlink uri =>
      refine iff_of_true ?_ not_false
      intro out hout
      rw [terminalControl] at hout
      split at hout
      · cases hout
        exact not_isClipboardQuery_osc rfl (by decide)
      · cases hout

/-- A BEL before the question mark: the terminal is asked for its clipboard. -/
theorem hidden_query_re_emitted :
    ∃ out ∈ terminalControl id false (.clipboard [0x63] [0x07, 0x3f]), IsClipboardQuery out :=
  ⟨[0x1b, 0x5d, 0x35, 0x32, 0x3b, 0x63, 0x3b, 0x3f, 0x07], rfl, [0x63], by decide, rfl⟩

end Nosh.Client
