import Nosh.Server.OscFilter
import Nosh.Server.Representation

/-!
# Texts in OSC strings

`vte` splits an OSC string at every `;`, and `osc_dispatch` takes the second parameter for the title
and the third one for the URI of a hyperlink. A text with a `;` in it is cut at the first one.

The sequence is given to `advance` in one piece, outside of another OSC string. The prefilter drops
sequences that are longer than `OSC_ACCUMULATION_MAX`, which concerns hyperlinks only: the parser
is reset before it has seen the end of the string, and dispatches nothing.

## Main Definitions

* `OscSequence`, `receiveOsc` — an OSC sequence, and what `advance` does with it
* `OscPayload` — the sequences that carry a title or a URI
* `OscState.drainTerminalControl` — what is taken out afterwards

## Main Results

* `fed_sequence_iff` — the prefilter passes on exactly the sequences within the limit.
* `osc_payload_drained_iff` — **the text that is drained is the complete one exactly when there is
  no `;` in it** and the sequence is within the limit.
-/

namespace Nosh.Server

open Lib Proto

/-! ## Sequences -/

/-- What ends an OSC string. -/
inductive OscTerminator
  | bel
  | st
  deriving DecidableEq, Repr

/-- The bytes of the terminator. -/
def OscTerminator.bytes : OscTerminator → List UInt8
  | .bel => [0x07]
  | .st => [0x1B, 0x5C]

/-- An OSC sequence. Control characters are no part of an OSC string. -/
structure OscSequence where
  string : List UInt8
  terminator : OscTerminator
  plain : ∀ byte ∈ string, 0x20 ≤ byte

/-- The bytes of a sequence. -/
def OscSequence.bytes (seq : OscSequence) : List UInt8 :=
  0x1B :: 0x5D :: (seq.string ++ seq.terminator.bytes)

/-- `vte` splits an OSC string at every `;`. -/
def oscParams (string : List UInt8) : List (List UInt8) := string.splitOn 0x3B

/-- A sequence that `advance` is given in one piece: the parser dispatches it unless the prefilter
cuts it short. -/
def receiveOsc (toLowercase : List Char → List Char) (t : OscTerminal) (osc : OscState)
    (seq : OscSequence) : OscState :=
  if t.fed seq.bytes = seq.bytes then oscDispatch toLowercase osc (oscParams seq.string) else osc

/-- `SessionSlot::drain_terminal_control`: the title, the clipboard and the hyperlink are taken. -/
def OscState.drainTerminalControl (osc : OscState) :
    (Option String × Option (List UInt8 × List UInt8) × Option String) × OscState :=
  ((osc.title, osc.osc52Pending, osc.osc8HyperlinkPending), .empty)

/-- Inside an OSC string the scanner passes everything on until it has counted to the limit. -/
theorem Shadow.scan_string_iff {string : List UInt8} (hplain : ∀ byte ∈ string, 0x20 ≤ byte)
    (terminator : OscTerminator) {count : ℕ} (hcount : count ≤ oscAccumulationMax) :
    ((Shadow.inside count).scan (string ++ terminator.bytes)).2 = string ++ terminator.bytes ↔
      count + string.length ≤ oscAccumulationMax := by
  induction string generalizing count with
  | nil =>
      refine iff_of_true ?_ hcount
      cases terminator <;> rfl
  | cons byte string ih =>
      obtain ⟨hbyte, hplain⟩ := List.forall_mem_cons.mp hplain
      have hbel : byte ≠ 0x07 := by
        rintro rfl
        exact absurd hbyte (by decide)
      have hesc : byte ≠ 0x1B := by
        rintro rfl
        exact absurd hbyte (by decide)
      have hstep : (Shadow.inside count).step byte =
          if oscAccumulationMax < count + 1 then none else some (.inside (count + 1)) := by
        rw [Shadow.step, Shadow.inStep, if_neg hbel, if_neg hesc]
      rw [List.cons_append, List.length_cons]
      by_cases hover : oscAccumulationMax < count + 1
      · rw [if_pos hover] at hstep
        rw [Shadow.scan_cons_overflow hstep]
        exact iff_of_false (List.cons_ne_nil _ _).symm (by omega)
      · rw [if_neg hover] at hstep
        rw [Shadow.scan_cons hstep, List.cons_inj_right, ih hplain (Nat.le_of_not_lt hover),
          Nat.add_right_comm, Nat.add_assoc]

/-- The prefilter passes on exactly the sequences within the limit. -/
theorem fed_sequence_iff {t : OscTerminal} (h : t.scanner.inOsc = false) (seq : OscSequence) :
    t.fed seq.bytes = seq.bytes ↔ seq.string.length ≤ oscAccumulationMax := by
  have hout : Shadow.ofScanner t.scanner = .out := by
    rw [Shadow.ofScanner, h, if_neg Bool.false_ne_true]
  have hscan := Shadow.scan_string_iff seq.plain seq.terminator (Nat.zero_le oscAccumulationMax)
  rw [fed_eq, hout, OscSequence.bytes]
  have hopen : Shadow.escOut.step 0x5D = some (.inside 0) := rfl
  have hesc : Shadow.out.step 0x1B = some .escOut := rfl
  rw [Shadow.scan_cons hesc, Shadow.scan_cons hopen, List.cons_inj_right, List.cons_inj_right,
    hscan, Nat.zero_add]

/-! ## Payloads -/

/-- A sequence that carries a text: OSC 0, OSC 2 or OSC 8. -/
inductive OscPayload
  | icon (text : List UInt8)
  | window (text : List UInt8)
  | hyperlink (params text : List UInt8)
  deriving DecidableEq, Repr

namespace OscPayload

/-- The OSC string. -/
def string : OscPayload → List UInt8
  | .icon text => 0x30 :: 0x3B :: text
  | .window text => 0x32 :: 0x3B :: text
  | .hyperlink params text => 0x38 :: 0x3B :: (params ++ 0x3B :: text)

/-- The text: the title, or the URI. -/
def text : OscPayload → List UInt8
  | .icon text | .window text | .hyperlink _ text => text

/-- The text that is drained. -/
def drained (osc : OscState) : OscPayload → Option String
  | .icon _ | .window _ => osc.drainTerminalControl.1.1
  | .hyperlink _ _ => osc.drainTerminalControl.1.2.2

/-- A title is not too long, and a URI has an admissible scheme. The URI begins behind the second
`;`. -/
def Admissible (toLowercase : List Char → List Char) (decoded : String) : OscPayload → Prop
  | .icon text | .window text => text.length ≤ maxTitleBytes
  | .hyperlink params _ => 0x3B ∉ params ∧ Client.isWhitelisted toLowercase decoded.toList = true

end OscPayload

/-- The first piece of a text is the text if there is no `;` in it. -/
theorem oscParams_head (text : List UInt8) :
    ∃ piece rest, oscParams text = piece :: rest ∧ (piece = text ↔ 0x3B ∉ text) := by
  unfold oscParams
  by_cases hmem : 0x3B ∈ text
  · obtain ⟨piece, rest, rfl, hpiece⟩ := List.eq_append_cons_of_mem hmem
    refine ⟨piece, _, List.splitOn_append_cons_self_of_not_mem hpiece rest, ?_⟩
    refine iff_of_false (fun heq => ?_) (not_not_intro hmem)
    have hlength := congrArg List.length heq
    rw [List.length_append, List.length_cons] at hlength
    omega
  · exact ⟨text, [], List.splitOn_eq_singleton hmem, iff_of_true rfl hmem⟩

namespace OscPayload

/-- The parameters in front of the text. -/
def head : OscPayload → List (List UInt8)
  | .icon _ => [[0x30]]
  | .window _ => [[0x32]]
  | .hyperlink params _ => [[0x38], params]

/-- What `osc_dispatch` takes a parameter for that stands in the place of the text. -/
def accept (toLowercase : List Char → List Char) (piece : List UInt8) :
    OscPayload → Option String
  | .icon _ | .window _ =>
      if piece.length ≤ maxTitleBytes then Postcard.ofUtf8Bytes piece else none
  | .hyperlink _ _ =>
      (Postcard.ofUtf8Bytes piece).filter fun uri => Client.isWhitelisted toLowercase uri.toList

variable {toLowercase : List Char → List Char} {decoded : String} {payload : OscPayload}

theorem oscParams_string (hadmissible : payload.Admissible toLowercase decoded) :
    oscParams payload.string = payload.head ++ oscParams payload.text := by
  have hsplit : ∀ (head tail : List UInt8), 0x3B ∉ head →
      oscParams (head ++ 0x3B :: tail) = head :: oscParams tail :=
    fun _ tail hhead => List.splitOn_append_cons_self_of_not_mem hhead tail
  cases payload with
  | icon text => exact hsplit [0x30] text (by decide)
  | window text => exact hsplit [0x32] text (by decide)
  | hyperlink params text =>
      have htail := hsplit params text hadmissible.1
      exact (hsplit [0x38] (params ++ 0x3B :: text) (by decide)).trans (by rw [htail]; rfl)

/-- **What `osc_dispatch` makes of a payload**: it takes the first piece of the text, and leaves
what was pending if that is not acceptable. -/
theorem drained_oscDispatch (payload : OscPayload) (osc : OscState) (piece : List UInt8)
    (rest : List (List UInt8)) :
    payload.drained (oscDispatch toLowercase osc (payload.head ++ piece :: rest)) =
      (payload.accept toLowercase piece).or (payload.drained osc) := by
  have htitle : ∀ code : List UInt8, code = [0x30] ∨ code = [0x32] →
      (oscDispatch toLowercase osc (code :: piece :: rest)).title =
        (if piece.length ≤ maxTitleBytes then Postcard.ofUtf8Bytes piece else none).or
          osc.title := by
    intro code hcode
    rw [oscDispatch, if_pos hcode]
    dsimp only [List.getElem?_cons_zero]
    split
    · split
      · rename_i htext
        rw [htext]
        rfl
      · rename_i htext
        rw [htext]
        rfl
    · rfl
  cases payload with
  | icon text => exact htitle [0x30] (.inl rfl)
  | window text => exact htitle [0x32] (.inr rfl)
  | hyperlink params text =>
      change
        (oscDispatch toLowercase osc ([0x38] :: params :: piece :: rest)).osc8HyperlinkPending =
          ((Postcard.ofUtf8Bytes piece).filter fun uri =>
            Client.isWhitelisted toLowercase uri.toList).or osc.osc8HyperlinkPending
      rw [oscDispatch, if_neg (by decide), if_neg (by decide), if_pos rfl]
      dsimp only [List.getElem?_cons_succ, List.getElem?_cons_zero]
      cases Postcard.ofUtf8Bytes piece with
      | none => rfl
      | some uri =>
          rw [Option.filter_some]
          dsimp only
          split <;> rfl

theorem utf8Bytes_of_accept {piece : List UInt8} {text : String}
    (h : payload.accept toLowercase piece = some text) : Postcard.utf8Bytes text = piece := by
  have hdecoded : Postcard.ofUtf8Bytes piece = some text := by
    cases payload with
    | icon | window =>
        rw [accept] at h
        split at h
        · exact h
        · cases h
    | hyperlink => exact (Option.filter_eq_some_iff.mp h).1
  exact Postcard.utf8Bytes_of_ofUtf8Bytes hdecoded

theorem Admissible.accept_text (h : payload.Admissible toLowercase decoded)
    (hdecoded : Postcard.ofUtf8Bytes payload.text = some decoded) :
    payload.accept toLowercase payload.text = some decoded := by
  cases payload with
  | icon text => exact (if_pos h).trans hdecoded
  | window text => exact (if_pos h).trans hdecoded
  | hyperlink params text => exact Option.filter_eq_some_iff.mpr ⟨hdecoded, h.2⟩

end OscPayload

/-- **The complete text is drained exactly when there is no `;` in it** and the sequence is within
the limit of the prefilter. -/
theorem osc_payload_drained_iff {toLowercase : List Char → List Char} {payload : OscPayload}
    {decoded : String} (hplain : ∀ byte ∈ payload.string, 0x20 ≤ byte)
    (hdecoded : Postcard.ofUtf8Bytes payload.text = some decoded)
    (hadmissible : payload.Admissible toLowercase decoded) :
    (∀ (t : OscTerminal) (osc : OscState) (terminator : OscTerminator),
      t.scanner.inOsc = false →
      payload.drained (receiveOsc toLowercase t osc ⟨payload.string, terminator, hplain⟩) =
        some decoded) ↔
      0x3B ∉ payload.text ∧ payload.string.length ≤ oscAccumulationMax := by
  obtain ⟨piece, rest, hpieces, hpiece⟩ := oscParams_head payload.text
  have hparams : oscParams payload.string = payload.head ++ piece :: rest := by
    rw [OscPayload.oscParams_string hadmissible, hpieces]
  rw [← hpiece]
  constructor
  · intro h
    have hnew := h .new .empty .bel rfl
    unfold receiveOsc at hnew
    have hnothing : payload.drained .empty = none := by cases payload <;> rfl
    split at hnew
    · rename_i hfed
      rw [hparams, OscPayload.drained_oscDispatch, hnothing, Option.or_none] at hnew
      refine ⟨?_, (fed_sequence_iff rfl _).mp hfed⟩
      rw [← OscPayload.utf8Bytes_of_accept hnew, Postcard.utf8Bytes_of_ofUtf8Bytes hdecoded]
    · rw [hnothing] at hnew
      cases hnew
  · rintro ⟨rfl, hlength⟩ t osc terminator ht
    unfold receiveOsc
    rw [if_pos ((fed_sequence_iff ht _).mpr hlength), hparams, OscPayload.drained_oscDispatch,
      hadmissible.accept_text hdecoded, Option.some_or]

/-- No byte of the string is a control byte of C0. -/
theorem plain_of_all {string : List UInt8} (h : string.all (0x20 ≤ ·) = true) :
    ∀ byte ∈ string, 0x20 ≤ byte :=
  fun byte hbyte => of_decide_eq_true (List.all_eq_true.mp h byte hbyte)

/-- A title without a `;`. -/
theorem osc_payload_drained_title :
    (OscPayload.window [0x76, 0x69]).drained
      (receiveOsc id .new .empty ⟨[0x32, 0x3B, 0x76, 0x69], .bel, plain_of_all rfl⟩) =
        some "vi" := by
  have hdecoded : Postcard.ofUtf8Bytes (OscPayload.window [0x76, 0x69]).text = some "vi" := by
    decide
  have hadmissible : (OscPayload.window [0x76, 0x69]).Admissible id "vi" := by
    change 2 ≤ maxTitleBytes
    decide
  exact (osc_payload_drained_iff (plain_of_all rfl) hdecoded hadmissible).mpr (by decide) .new
    .empty .bel rfl

/-- **The title `a;b`**: what is drained is `a`. -/
theorem semicolon_cuts_title :
    (OscPayload.window [0x61, 0x3B, 0x62]).Admissible id "a;b" ∧
      Postcard.ofUtf8Bytes (OscPayload.window [0x61, 0x3B, 0x62]).text = some "a;b" ∧
      (OscPayload.window [0x61, 0x3B, 0x62]).drained
        (receiveOsc id .new .empty ⟨[0x32, 0x3B, 0x61, 0x3B, 0x62], .bel, plain_of_all rfl⟩) =
          some "a" :=
  ⟨by change 3 ≤ maxTitleBytes; decide, by decide, by decide⟩

end Nosh.Server
