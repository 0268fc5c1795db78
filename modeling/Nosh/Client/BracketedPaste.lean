import Mathlib.Data.List.Chain
import Nosh.Client.Backspace
import Nosh.Client.LatestPrediction

/-!
# Bracketed paste

A terminal encloses what is pasted in `ESC [ 200 ~` and `ESC [ 201 ~`, and the overlay predicts
nothing in between. `classify_input` recognizes such a marker when it is a batch of its own. What
stdin delivers as one batch is up to the terminal and the kernel: a marker that comes together with
other bytes, or in two pieces, is not recognized.

Every byte of the stream carries its part in the stream. A batch keeps `in_bracketed_paste` right if
it is a marker, or if it begins and ends on the same side of the markers.

## Main Definitions

* `Segment`, `PastePart` — streams with pastes, and what their bytes are
* `Stdin` — an overlay and what it has read of the stream
* `KeepsSides` — what a batch has to keep to

## Main Results

* `Stdin.Tracked.step` — such a batch keeps `in_bracketed_paste` right.
* `paste_tracked` — **in every run of such batches nothing is predicted for the body of a paste**,
  and the paste has ended for the overlay when it has ended in the stream.
-/

namespace Nosh.Client

open Nosh.Lib Nosh.Proto PredictionOverlay

/-! ## Streams with pastes -/

/-- What a byte of the stream is. The last byte of a marker is the one that takes effect. -/
inductive PastePart
  | text
  | start
  | opened
  | body
  | stop
  | closed
  deriving DecidableEq, Repr

/-- The stream is inside a paste after this byte. -/
def PastePart.inside : PastePart → Bool
  | .opened | .body | .stop => true
  | .text | .start | .closed => false

/-- A byte and its part in the stream. -/
abbrev PasteByte := UInt8 × PastePart

/-- `ESC [ 200 ~`. -/
def openingMarker : List PasteByte :=
  [(0x1b, .start), (0x5b, .start), (0x32, .start), (0x30, .start), (0x30, .start), (0x7e, .opened)]

/-- `ESC [ 201 ~`. -/
def closingMarker : List PasteByte :=
  [(0x1b, .stop), (0x5b, .stop), (0x32, .stop), (0x30, .stop), (0x31, .stop), (0x7e, .closed)]

/-- A piece of a stream: what is typed, or pasted. -/
inductive Segment
  | typed (bytes : List UInt8)
  | pasted (body : List UInt8)

/-- The bytes of a segment. -/
def Segment.bytes : Segment → List PasteByte
  | .typed bytes => bytes.map fun byte => (byte, .text)
  | .pasted body => openingMarker ++ body.map (fun byte => (byte, .body)) ++ closingMarker

/-- The stream of some segments. -/
def pasteStream (segments : List Segment) : List PasteByte := segments.flatMap Segment.bytes

/-- The bytes without their parts. -/
def rawBytes (bytes : List PasteByte) : List UInt8 := bytes.map Prod.fst

/-- There are no markers in the stream but those of its pastes. -/
def Delimited (stream : List PasteByte) : Prop :=
  ∀ i < stream.length,
    rawBytes ((stream.drop i).take 6) = rawBytes openingMarker ∨
      rawBytes ((stream.drop i).take 6) = rawBytes closingMarker →
    (stream.drop i).take 6 = openingMarker ∨ (stream.drop i).take 6 = closingMarker

instance (stream : List PasteByte) : Decidable (Delimited stream) :=
  inferInstanceAs (Decidable (∀ i < stream.length, _))

theorem Delimited.of_piece {stream piece : List PasteByte} (h : Delimited stream)
    (hpiece : piece <:+: stream)
    (hmarker : rawBytes piece = rawBytes openingMarker ∨ rawBytes piece = rawBytes closingMarker) :
    piece = openingMarker ∨ piece = closingMarker := by
  obtain ⟨before, after, rfl⟩ := hpiece
  have hlength : piece.length = 6 := by
    rcases hmarker with hraw | hraw
    · exact (List.length_map Prod.fst).symm.trans (congrArg List.length hraw)
    · exact (List.length_map Prod.fst).symm.trans (congrArg List.length hraw)
  have hplace : ((before ++ piece ++ after).drop before.length).take 6 = piece := by
    rw [List.append_assoc, List.drop_left, ← hlength, List.take_left]
  have hbefore : before.length < (before ++ piece ++ after).length := by
    rw [List.length_append, List.length_append]
    omega
  have hthere := h before.length hbefore
  rw [hplace] at hthere
  exact hthere hmarker

/-- A byte of a body is followed by another one, or by the ESC of the closing marker. -/
def AfterBody (x y : PasteByte) : Prop := x.2 = .body → y.2 = .body ∨ y = (0x1b, .stop)

theorem isChain_of_no_body {bytes : List PasteByte} (h : ∀ x ∈ bytes, x.2 ≠ .body) :
    bytes.IsChain AfterBody := by
  induction bytes with
  | nil => exact .nil
  | cons x bytes ih =>
      obtain ⟨hx, hbytes⟩ := List.forall_mem_cons.mp h
      exact (ih hbytes).cons fun _ _ hbody => (hx hbody).elim

theorem isChain_body (body : List UInt8) :
    (body.map (fun byte => ((byte, .body) : PasteByte)) ++ closingMarker).IsChain AfterBody := by
  induction body with
  | nil => exact isChain_of_no_body (by decide)
  | cons byte body ih =>
      refine ih.cons fun y hy _ => ?_
      cases body with
      | nil => exact .inr (Option.some.inj hy).symm
      | cons next body => exact .inl (congrArg Prod.snd (Option.some.inj hy)).symm

theorem Segment.isChain_bytes (segment : Segment) : segment.bytes.IsChain AfterBody := by
  cases segment with
  | typed bytes =>
      refine isChain_of_no_body fun x hx => ?_
      obtain ⟨byte, -, rfl⟩ := List.mem_map.mp hx
      exact nofun
  | pasted body =>
      rw [bytes, List.append_assoc]
      have hopening : openingMarker.IsChain AfterBody := isChain_of_no_body (by decide)
      refine hopening.append (isChain_body body) fun x hx _ _ hbody => ?_
      cases hx
      cases hbody

theorem Segment.getLast_bytes (segment : Segment) {x : PasteByte}
    (hx : x ∈ segment.bytes.getLast?) : x.2 ≠ .body := by
  cases segment with
  | typed bytes =>
      obtain ⟨byte, -, rfl⟩ := List.mem_map.mp (List.mem_of_getLast? hx)
      exact nofun
  | pasted body =>
      have hclosing : closingMarker ≠ [] := by decide
      rw [bytes, List.getLast?_append_of_ne_nil _ hclosing] at hx
      cases hx
      exact nofun

/-- In a stream the bodies of the pastes are closed. -/
theorem isChain_pasteStream (segments : List Segment) :
    (pasteStream segments).IsChain AfterBody := by
  induction segments with
  | nil => exact .nil
  | cons segment segments ih =>
      refine segment.isChain_bytes.append ih fun x hx _ _ hbody => ?_
      exact (segment.getLast_bytes hx hbody).elim

/-- A piece that holds a byte of a body and ends outside of a paste holds the ESC of a closing
marker. -/
theorem esc_mem_of_body {piece : List PasteByte} (hchain : piece.IsChain AfterBody)
    {x last : PasteByte} (hx : x ∈ piece) (hbody : x.2 = .body) (hlast : last ∈ piece.getLast?)
    (houtside : last.2.inside = false) : (0x1b : UInt8) ∈ rawBytes piece := by
  induction piece generalizing x with
  | nil => exact (List.not_mem_nil hx).elim
  | cons y piece ih =>
      obtain ⟨hnext, hrest⟩ := List.isChain_cons.mp hchain
      cases piece with
      | nil =>
          rw [List.getLast?_singleton, Option.mem_some_iff] at hlast
          rw [← hlast, ← List.mem_singleton.mp hx, hbody] at houtside
          cases houtside
      | cons z piece =>
          rw [List.getLast?_cons_cons] at hlast
          rcases List.mem_cons.mp hx with rfl | hx
          · rcases hnext z rfl hbody with hz | rfl
            · exact List.mem_cons_of_mem _ (ih hrest List.mem_cons_self hz hlast)
            · exact List.mem_cons_of_mem _ List.mem_cons_self
          · exact List.mem_cons_of_mem _ (ih hrest hx hbody hlast)

/-! ## What a batch does -/

section Batch

variable (width : Char → Option ℕ)

theorem classifyPrintable_typed (bytes : List UInt8) :
    (classifyPrintable width bytes).typed = [] ∨
      bytes = Utf8.encode ((classifyPrintable width bytes).typed.map Prod.fst) := by
  unfold classifyPrintable
  split
  · rename_i ch htext
    split
    · exact .inr (Utf8.decoded_iff.mp htext)
    · split
      · exact .inr (Utf8.decoded_iff.mp htext)
      · exact .inl rfl
  · exact .inl rfl

theorem classifyBulk_typed (bytes : List UInt8) :
    (classifyBulk width bytes).typed = [] ∨
      bytes = Utf8.encode ((classifyBulk width bytes).typed.map Prod.fst) := by
  unfold classifyBulk
  split
  · rename_i chars htext
    split
    · right
      rw [InputAction.typed, List.map_map]
      change bytes = Utf8.encode (chars.map id)
      rw [List.map_id]
      exact Utf8.decoded_iff.mp htext
    · exact .inl rfl
  · exact .inl rfl

/-- A batch types nothing, or it is the text that it types. -/
theorem classifyInput_typed (bytes : List UInt8) :
    (classifyInput width bytes).typed = [] ∨
      bytes = Utf8.encode ((classifyInput width bytes).typed.map Prod.fst) := by
  refine classifyInput_cases
    (motive := fun action => action.typed = [] ∨ bytes = Utf8.encode (action.typed.map Prod.fst))
    (fun _ => .inl rfl) (fun _ => .inl rfl) (fun _ => classifyBulk_typed width bytes) ?_
    (classifyPrintable_typed width bytes)
  intro action hcontrol _
  cases action with
  | predictChar ch colWidth => cases hcontrol
  | predictBatch chars => cases hcontrol
  | _ => exact .inl rfl

variable {width}

theorem InputAction.Predicts.typed {action : InputAction} (h : action.Predicts width) :
    ∀ pair ∈ action.typed, Printable width pair.1 := by
  cases action with
  | predictChar ch colWidth => exact List.forall_mem_singleton.mpr h
  | predictBatch chars => exact h
  | _ => exact fun _ hpair => (List.not_mem_nil hpair).elim

/-- A batch with an ESC in it types nothing. -/
theorem typed_eq_nil_of_esc (hesc : width '\x1b' = none) {bytes : List UInt8}
    (hmem : (0x1b : UInt8) ∈ bytes) : (classifyInput width bytes).typed = [] := by
  refine (classifyInput_typed width bytes).resolve_right fun hbytes => ?_
  have hpredicts := classifyInput_predicts width bytes
  rw [hbytes] at hmem
  obtain ⟨ch, hch, hnat⟩ := Utf8.exists_of_mem_encode (by decide) hmem
  obtain ⟨pair, hpair, rfl⟩ := List.mem_map.mp hch
  have hprintable := hpredicts.typed pair hpair
  have hsame : pair.1 = '\x1b' := Char.toNat_inj.mp hnat
  rw [Printable, hsame, hesc] at hprintable
  rcases hprintable with h | h <;> cases h

/-- The action is that of a marker. -/
def InputAction.isMarker : InputAction → Bool
  | .bracketedPasteStart | .bracketedPasteEnd => true
  | _ => false

/-- Only a batch that is a marker is taken for one. -/
theorem isMarker_classifyInput {bytes : List UInt8} (hopening : bytes ≠ rawBytes openingMarker)
    (hclosing : bytes ≠ rawBytes closingMarker) : (classifyInput width bytes).isMarker = false := by
  have hprintable : (classifyPrintable width bytes).isMarker = false := by
    unfold classifyPrintable
    split
    · split
      · rfl
      · split <;> rfl
    · rfl
  have hbulk : (classifyBulk width bytes).isMarker = false := by
    unfold classifyBulk
    split
    · split <;> rfl
    · rfl
  refine classifyInput_cases (motive := fun action => action.isMarker = false)
    (fun h => (hopening h).elim) (fun h => (hclosing h).elim) (fun _ => hbulk) ?_ hprintable
  intro action hcontrol _
  cases action with
  | bracketedPasteStart => cases hcontrol
  | bracketedPasteEnd => cases hcontrol
  | _ => rfl

end Batch

namespace PredictionOverlay

theorem predictChar_inBracketedPaste (overlay : PredictionOverlay) (screen : ClientScreen)
    (ch : Char) (colWidth : ℕ) :
    (overlay.predictChar screen ch colWidth).2.inBracketedPaste = overlay.inBracketedPaste := by
  unfold predictChar
  dsimp only
  split <;> rfl

theorem predictBatch_inBracketedPaste (screen : ClientScreen) (chars : List (Char × ℕ))
    (overlay : PredictionOverlay) :
    (predictBatch screen chars overlay).inBracketedPaste = overlay.inBracketedPaste := by
  induction chars generalizing overlay with
  | nil => rfl
  | cons pair chars ih =>
      obtain ⟨ch, colWidth⟩ := pair
      have hnext := overlay.predictChar_inBracketedPaste screen ch colWidth
      rw [predictBatch]
      split
      · rename_i overlay' hpredict
        rw [hpredict] at hnext
        exact (ih overlay').trans hnext
      · rename_i overlay' hpredict
        rw [hpredict] at hnext
        exact hnext

/-- Only the markers change `in_bracketed_paste`. -/
theorem onAction_inBracketedPaste (overlay : PredictionOverlay) (screen : ClientScreen)
    {action : InputAction} (haction : action.isMarker = false) :
    (overlay.onAction screen action).inBracketedPaste = overlay.inBracketedPaste := by
  cases action with
  | predictChar ch colWidth =>
      rw [onAction]
      split
      · rfl
      · exact overlay.predictChar_inBracketedPaste screen ch colWidth
  | predictBatch chars =>
      rw [onAction]
      split
      · rfl
      · exact predictBatch_inBracketedPaste screen chars overlay
  | predictBackspace | bulkSuppressed =>
      rw [onAction]
      split <;> rfl
  | bracketedPasteStart | bracketedPasteEnd => cases haction
  | _ => rfl

/-- Inside a paste, or without a character, an action adds no prediction. -/
theorem onAction_sublist {overlay : PredictionOverlay} {action : InputAction}
    (h : overlay.inBracketedPaste = true ∨ action.typed = []) (screen : ClientScreen) :
    (overlay.onAction screen action).pending.Sublist overlay.pending := by
  cases action with
  | predictChar ch colWidth =>
      have hpaste := h.resolve_right (List.cons_ne_nil _ _)
      rw [onAction, if_pos hpaste]
  | predictBatch chars =>
      rw [onAction]
      split
      · exact .refl _
      · rename_i hpaste
        have hchars : chars = [] := h.resolve_left hpaste
        rw [hchars]
        exact .refl _
  | predictBackspace =>
      rw [onAction]
      split
      · exact List.filter_sublist
      · exact .refl _
  | bulkSuppressed =>
      rw [onAction]
      split
      · exact List.nil_sublist _
      · exact .refl _
  | predictCursorLeft | predictCursorRight | predictLineStart | predictLineEnd |
    bracketedPasteEnd => exact .refl _
  | epochReset | predictEnter | bracketedPasteStart => exact List.nil_sublist _

end PredictionOverlay

/-! ## Runs -/

/-- An overlay, and what it has read of the stream. -/
structure Stdin where
  overlay : PredictionOverlay
  read : List PasteByte

/-- A batch of bytes, or another operation on the overlay. -/
inductive StdinEvent
  | batch (bytes : List PasteByte) (screen : ClientScreen)
  | other (action : OverlayAction)

namespace Stdin

/-- One event. The other operations are those that read nothing. -/
def step (width : Char → Option ℕ) (s : Stdin) : StdinEvent → Option Stdin
  | .batch bytes screen =>
      some ⟨s.overlay.onInput width (rawBytes bytes) screen, s.read ++ bytes⟩
  | .other (.input _ _) => none
  | .other action => some ⟨s.overlay.act width action, s.read⟩

/-- Batches and other operations, in any order. -/
def life (width : Char → Option ℕ) : Machine Stdin StdinEvent := ⟨step width⟩

/-- The part of what was read that decides where the stream is. -/
def inside (read : List PasteByte) : Bool :=
  match read.getLast? with
  | some byte => byte.2.inside
  | none => false

/-- The batch is a marker, or it begins and ends on the same side of the markers. -/
def KeepsSides (s : Stdin) (bytes : List PasteByte) : Prop :=
  bytes = openingMarker ∨ bytes = closingMarker ∨ inside (s.read ++ bytes) = inside s.read

/-- The event delivers the next bytes of the stream. -/
def Delivers (stream : List PasteByte) (s : Stdin) : StdinEvent → Prop
  | .batch bytes _ => s.read ++ bytes <+: stream
  | .other _ => True

/-- The event keeps to the sides of the markers. -/
def Aligned (s : Stdin) : StdinEvent → Prop
  | .batch bytes _ => s.KeepsSides bytes
  | .other _ => True

/-- The overlay knows whether the stream is inside a paste. -/
def Tracked (s : Stdin) : Prop := s.overlay.inBracketedPaste = inside s.read

variable {width : Char → Option ℕ} {stream : List PasteByte} {s : Stdin}

/-- A batch of the stream keeps `in_bracketed_paste` right. -/
theorem Tracked.batch (hdelimited : Delimited stream) (h : s.Tracked) {bytes : List PasteByte}
    (hdelivers : s.read ++ bytes <+: stream) (hsides : s.KeepsSides bytes) (screen : ClientScreen) :
    (s.overlay.onInput width (rawBytes bytes) screen).inBracketedPaste =
      inside (s.read ++ bytes) := by
  by_cases hopening : bytes = openingMarker
  · rw [hopening, inside, List.getLast?_append_of_ne_nil _ (by decide)]
    rfl
  by_cases hclosing : bytes = closingMarker
  · rw [hclosing, inside, List.getLast?_append_of_ne_nil _ (by decide)]
    rfl
  have hsame := (hsides.resolve_left hopening).resolve_left hclosing
  have hpiece : bytes <:+: stream :=
    (List.suffix_append s.read bytes).isInfix.trans hdelivers.isInfix
  have hnot : ∀ marker, rawBytes bytes = rawBytes marker →
      marker ≠ openingMarker ∧ marker ≠ closingMarker := by
    rintro marker hraw
    refine ⟨?_, ?_⟩ <;> rintro rfl
    · exact (hdelimited.of_piece hpiece (.inl hraw)).elim hopening hclosing
    · exact (hdelimited.of_piece hpiece (.inr hraw)).elim hopening hclosing
  have hmarker : (classifyInput width (rawBytes bytes)).isMarker = false :=
    isMarker_classifyInput (fun hraw => (hnot _ hraw).1 rfl) fun hraw => (hnot _ hraw).2 rfl
  rw [hsame, onInput, onAction_inBracketedPaste _ _ hmarker]
  exact h

/-- **An aligned event keeps `in_bracketed_paste` right.** -/
theorem Tracked.step (hdelimited : Delimited stream) (h : s.Tracked) {event : StdinEvent}
    {s' : Stdin} (hdelivers : s.Delivers stream event) (haligned : s.Aligned event)
    (hstep : s.step width event = some s') : s'.Tracked := by
  cases event with
  | batch bytes screen =>
      cases hstep
      exact h.batch hdelimited hdelivers haligned screen
  | other action =>
      cases action with
      | input => cases hstep
      | cull screen newEpoch rttMs =>
          cases hstep
          unfold Tracked PredictionOverlay.act PredictionOverlay.cull
          dsimp only
          split <;> exact h
      | sync confirmed =>
          cases hstep
          unfold Tracked PredictionOverlay.act syncCursorFromConfirmed
          dsimp only
          split <;> exact h
      | setSize | reset | resetWithCursor =>
          cases hstep
          exact h

end Stdin

open Stdin in
/-- **Pastes are tracked** in every run whose batches are markers or keep to one side of them:
no batch with a byte of a body adds a prediction, and after a batch that ends outside of a paste
`in_bracketed_paste` is false. -/
theorem paste_tracked {width : Char → Option ℕ} (hesc : width '\x1b' = none)
    {segments : List Segment} (hdelimited : Delimited (pasteStream segments))
    {overlay : PredictionOverlay} (hoverlay : overlay.inBracketedPaste = false)
    {events : List StdinEvent} {s : Stdin}
    (hdelivers : (life width).Along (Delivers (pasteStream segments)) ⟨overlay, []⟩ events)
    (haligned : (life width).Along Aligned ⟨overlay, []⟩ events)
    (hrun : (life width).run ⟨overlay, []⟩ events = some s) {bytes : List PasteByte}
    (hnext : s.read ++ bytes <+: pasteStream segments) (hsides : s.KeepsSides bytes)
    (screen : ClientScreen) :
    ((∃ x ∈ bytes, x.2 = .body) →
      (s.overlay.onInput width (rawBytes bytes) screen).pending.Sublist s.overlay.pending) ∧
    (∀ last ∈ bytes.getLast?, last.2.inside = false →
      (s.overlay.onInput width (rawBytes bytes) screen).inBracketedPaste = false) := by
  have hfirst : (⟨overlay, []⟩ : Stdin).Tracked := hoverlay
  have htracked : s.Tracked := by
    refine (life width).invariant_along Tracked ?_ hfirst
      ((life width).along_and.mpr ⟨hdelivers, haligned⟩) hrun
    exact fun _ _ _ h hok hstep => h.step hdelimited hok.1 hok.2 hstep
  have hafter : (s.overlay.onInput width (rawBytes bytes) screen).inBracketedPaste =
      inside (s.read ++ bytes) := htracked.batch hdelimited hnext hsides screen
  have hinside : ∀ last ∈ bytes.getLast?, inside (s.read ++ bytes) = last.2.inside := by
    intro last hlast
    have hne : bytes ≠ [] := by
      rintro rfl
      cases hlast
    rw [inside, List.getLast?_append_of_ne_nil _ hne, hlast]
  refine ⟨?_, fun last hlast houtside => ?_⟩
  · rintro ⟨x, hx, hbody⟩
    refine onAction_sublist ?_ screen
    by_cases hpaste : s.overlay.inBracketedPaste = true
    · exact .inl hpaste
    · -- the body was opened in this batch, and it was closed in it
      right
      have hne : bytes ≠ openingMarker ∧ bytes ≠ closingMarker := by
        have hmarkers : (∀ y ∈ openingMarker, y.2 ≠ .body) ∧ ∀ y ∈ closingMarker, y.2 ≠ .body := by
          decide
        refine ⟨?_, ?_⟩ <;> rintro rfl
        · exact hmarkers.1 x hx hbody
        · exact hmarkers.2 x hx hbody
      have hsame := (hsides.resolve_left hne.1).resolve_left hne.2
      have hlast := List.getLast?_eq_some_getLast (List.ne_nil_of_mem hx)
      rw [hinside _ hlast, ← htracked, Bool.eq_false_iff.mpr hpaste] at hsame
      have hpiece : bytes <:+: pasteStream segments :=
        (List.suffix_append s.read bytes).isInfix.trans hnext.isInfix
      have hchain := List.IsChain.infix (isChain_pasteStream segments) hpiece
      exact typed_eq_nil_of_esc hesc (esc_mem_of_body hchain hx hbody hlast hsame)
  · rw [hafter, hinside last hlast, houtside]

/-- Markers that are batches of their own. -/
theorem paste_tracked_separate :
    ∃ s, (Stdin.life narrow).run ⟨.new .always 10 2, []⟩
        [.batch openingMarker (.new 10 2), .batch [(0x62, .body)] (.new 10 2)] = some s ∧
      (s.overlay.onInput narrow (rawBytes closingMarker) (.new 10 2)).inBracketedPaste = false := by
  have hdelimited : Delimited (pasteStream [.pasted [0x62]]) := by decide
  refine ⟨_, rfl, ?_⟩
  exact (@paste_tracked narrow (by decide) _ hdelimited (.new .always 10 2) rfl
    [.batch openingMarker (.new 10 2), .batch [(0x62, .body)] (.new 10 2)] _
    ⟨⟨_, rfl⟩, ⟨_, rfl⟩, trivial⟩ ⟨.inl rfl, .inr (.inr rfl), trivial⟩ rfl closingMarker
    (by decide) (.inr (.inl rfl)) (.new 10 2)).2 (0x7e, .closed) rfl rfl

/-- **The paste `ab` in unlucky batches.** If the opening marker comes with the `a`, the `b` is
predicted; if the closing marker comes with the `b`, the paste never ends. -/
theorem paste_missed :
    Delimited (pasteStream [.pasted [0x61, 0x62]]) ∧
      openingMarker ++ [(0x61, .body)] ++ [(0x62, .body)] ++ closingMarker =
        pasteStream [.pasted [0x61, 0x62]] ∧
      ((PredictionOverlay.new .always 10 2).onInputs narrow (.new 10 2)
        [rawBytes (openingMarker ++ [(0x61, .body)]), rawBytes [(0x62, .body)]]).pending.map
          PendingPrediction.predictedCh = ['b'] ∧
      ((PredictionOverlay.new .always 10 2).onInputs narrow (.new 10 2)
        [rawBytes openingMarker, rawBytes [(0x61, .body)],
          rawBytes ((0x62, .body) :: closingMarker)]).inBracketedPaste = true :=
  ⟨by decide, rfl, by decide, by decide⟩

end Nosh.Client
