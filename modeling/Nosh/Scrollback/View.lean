import Nosh.Client.Pump
import Nosh.Scrollback.Page

/-!
# The scrollback view

The client asks for pages by their distance from the newest line, and puts every page that arrives
while the view is `Active` in front of the lines it holds. On the server the distance is resolved
when the sender task gets to the request. The model carries requests and pages in order, and
numbers the views: each request and its page belong to the view that asked for it.

Two things go wrong. Lines that are pushed between two pages of a view shift the count, and the
second page repeats lines of the first. A page that was asked for before the view was left arrives
after it was entered again, and is taken for an older page of the new view.

## Main Definitions

* `Paging.step` — output, requests, pages, and the client
* `Paging.Fits` — a page arrives at the view that asked for it, and no line was pushed between the
  snapshots of the view's first page and of this one

## Main Results

* `ClientPump.stdin_held` — what a keystroke does to the held lines and which page it asks for.
* `holds_block` — if every page fits, the view holds a contiguous block of the lines ever pushed.
-/

namespace Nosh.Client

open Proto

/-- What an `Active` view holds: its lines, and whether a request is pending. -/
def ScrollbackView.held : ScrollbackView → Option (List ScrollbackLine × Bool)
  | .live => none
  | .active lines _ pendingRequest _ _ => some (lines, pendingRequest)

namespace ClientPump

variable (pump : ClientPump)

/-- A datagram leaves the held lines alone or ends the view. -/
theorem recvDatagram_held (width : Char → Option ℕ) (diff : StateDiff) :
    (pump.recvDatagram width diff).1.view.held = none ∨
      (pump.recvDatagram width diff).1.view.held = pump.view.held := by
  unfold recvDatagram
  split
  · split
    · split
      · exact Or.inr rfl
      · exact Or.inl rfl
    · rename_i hlive
      left
      change pump.view.held = none
      rw [hlive]
      rfl
  · exact Or.inr rfl

theorem serverResize_view (cols rows : ℕ) (limited : Bool) :
    (pump.serverResize cols rows limited).view = pump.view := by
  unfold serverResize
  split <;> rfl

theorem recvPage_held (newLines : List ScrollbackLine) (total epoch : ℕ) :
    (pump.recvPage newLines total epoch).view.held =
      pump.view.held.map fun held => (newLines ++ held.1, false) := by
  unfold recvPage
  split
  · rename_i hview
    rw [hview]
    rfl
  · rename_i hview
    rw [hview]
    rfl

theorem shiftPagedown_held :
    pump.shiftPagedown.view.held = none ∨ pump.shiftPagedown.view.held = pump.view.held := by
  unfold shiftPagedown
  split
  · rename_i hview
    split
    · exact Or.inl rfl
    · rw [hview]
      exact Or.inr rfl
  · exact Or.inr rfl

/-- The request that page up sends, and the held lines after it. -/
theorem shiftPageup_held :
    (pump.shiftPageup.2 = none ∧ pump.shiftPageup.1.view.held = pump.view.held) ∨
    (pump.view.held = none ∧ pump.shiftPageup.2 = some ⟨0, 256⟩ ∧
      pump.shiftPageup.1.view.held = some ([], true)) ∨
    (∃ lines, pump.view.held = some (lines, false) ∧
      pump.shiftPageup.2 = some ⟨lines.length, 256⟩ ∧
      pump.shiftPageup.1.view.held = some (lines, true)) := by
  unfold shiftPageup
  split
  · rename_i hview
    split
    · rw [hview]
      exact Or.inr (Or.inl ⟨rfl, rfl, rfl⟩)
    · exact Or.inl ⟨rfl, rfl⟩
  · rename_i lines offset pending epochAtSnapshot total hview
    dsimp only
    split
    · rename_i hprefetch
      rw [hview, hprefetch.1]
      exact Or.inr (Or.inr ⟨lines, rfl, rfl, rfl⟩)
    · rw [hview]
      exact Or.inl ⟨rfl, rfl⟩

/-- **What a keystroke does.** It asks for nothing and leaves the held lines alone or ends the
view; it enters a new view and asks for the newest lines; or it asks for the lines before the
held ones. A view may end in the same read of stdin in which it asks. -/
theorem stdin_held (csi : CsiResult) :
    ((pump.stdin csi).2 = none ∧ ((pump.stdin csi).1.view.held = none ∨
      (pump.stdin csi).1.view.held = pump.view.held)) ∨
    (pump.view.held = none ∧ (pump.stdin csi).2 = some ⟨0, 256⟩ ∧
      ((pump.stdin csi).1.view.held = none ∨ (pump.stdin csi).1.view.held = some ([], true))) ∨
    (∃ lines, pump.view.held = some (lines, false) ∧
      (pump.stdin csi).2 = some ⟨lines.length, 256⟩ ∧
      ((pump.stdin csi).1.view.held = none ∨
        (pump.stdin csi).1.view.held = some (lines, true))) := by
  have htail : ∀ up : ClientPump × Option PageRequest,
      up = (if csi.shiftPageup then pump.shiftPageup else (pump, none)) →
      (pump.stdin csi).2 = up.2 ∧
        ((pump.stdin csi).1.view.held = none ∨
          (pump.stdin csi).1.view.held = up.1.view.held) := by
    rintro up rfl
    refine ⟨rfl, ?_⟩
    unfold stdin
    dsimp only
    split
    · split
      · exact shiftPagedown_held _
      · exact Or.inr rfl
    · exact Or.inl rfl
  cases hup : csi.shiftPageup with
  | false =>
      obtain ⟨hreq, hheld⟩ := htail (pump, none) (by rw [hup]; rfl)
      exact Or.inl ⟨hreq, hheld⟩
  | true =>
      obtain ⟨hreq, hheld⟩ := htail pump.shiftPageup (by rw [hup]; rfl)
      rw [hreq]
      rcases pump.shiftPageup_held with ⟨hnone, hsame⟩ | ⟨hlive, hsome, hnew⟩ |
        ⟨lines, hactive, hsome, hsame⟩
      · rw [hsame] at hheld
        exact Or.inl ⟨hnone, hheld⟩
      · rw [hnew] at hheld
        exact Or.inr (Or.inl ⟨hlive, hsome, hheld⟩)
      · rw [hsame] at hheld
        exact Or.inr (Or.inr ⟨lines, hactive, hsome, hheld⟩)

end ClientPump

end Nosh.Client

namespace Nosh.Scrollback

open Lib Proto Server Client

/-- A page on its way, with the view that asked for it and the number of lines the server had
pushed when the page was read. -/
structure SentPage where
  view : ℕ
  fromLine : ℕ
  pushed : ℕ
  lines : List ScrollbackLine
  total : ℕ
  epoch : ℕ
  deriving DecidableEq

/-- The terminal of the server, the client, and what is on its way between them. -/
structure Paging where
  history : TerminalHistory
  client : ClientPump
  /-- How often a view was entered; the number of the current view. -/
  entered : ℕ
  /-- The number of lines pushed when the first page of the current view was read. -/
  base : ℕ
  requests : List (ℕ × PageRequest)
  pages : List SentPage
  deriving DecidableEq

/-- What happens on either side. -/
inductive PagingAction
  /-- Output or a resize reaches the terminal. -/
  | terminal (ev : TerminalEvent)
  /-- The sender task answers the next request, with some epoch. -/
  | answer (epoch : ℕ)
  /-- The next page reaches the client. -/
  | deliver
  /-- The drain task drops the next page, because the queue to the client pump is full. -/
  | discard
  | datagram (diff : StateDiff)
  | serverResize (cols rows : ℕ) (limited : Bool)
  /-- Keystrokes; `queued` says that the request queue had room. -/
  | stdin (csi : CsiResult) (queued : Bool)

namespace Paging

variable {s s' : Paging} {rest : List SentPage}

/-- A new session, in `Live`. -/
def new (cols rows : ℕ) (client : ClientPump) : Paging :=
  ⟨.new cols rows, { client with view := .live }, 0, 0, [], []⟩

/-- The page that the terminal answers to a request. -/
def page (s : Paging) (view : ℕ) (request : PageRequest) (epoch : ℕ) : SentPage where
  view := view
  fromLine := request.fromLine
  pushed := s.history.pushed.length
  lines := pageLines s.history.terminal request.fromLine request.count
  total := (s.history.terminal.scrollbackLines request.fromLine
    (min request.count maxPageSize)).2
  epoch := epoch

/-- The keystrokes of one read: a request from `Live` enters a view. -/
def keystrokes (s : Paging) (csi : CsiResult) (queued : Bool) : Paging :=
  let out := s.client.stdin csi
  let entered := if s.client.view.held = none ∧ out.2.isSome then s.entered + 1 else s.entered
  { s with
    client := out.1
    entered := entered
    requests := if queued then s.requests ++ out.2.toList.map (entered, ·) else s.requests }

/-- A page reaches the client. -/
def recvPage (s : Paging) (page : SentPage) (rest : List SentPage) : Paging :=
  { s with
    client := s.client.recvPage page.lines page.total page.epoch
    base := if page.fromLine = 0 then page.pushed else s.base
    pages := rest }

/-- One action. -/
def step (width : Char → Option ℕ) (s : Paging) : PagingAction → Option Paging
  | .terminal ev => (s.history.step width ev).map fun h => { s with history := h }
  | .answer epoch =>
      match s.requests with
      | [] => none
      | (view, request) :: rest =>
          some { s with requests := rest, pages := s.pages ++ [s.page view request epoch] }
  | .deliver =>
      match s.pages with
      | [] => none
      | page :: rest => some (s.recvPage page rest)
  | .discard =>
      match s.pages with
      | [] => none
      | _ :: rest => some { s with pages := rest }
  | .datagram diff => some { s with client := (s.client.recvDatagram width diff).1 }
  | .serverResize cols rows limited =>
      some { s with client := s.client.serverResize cols rows limited }
  | .stdin csi queued => some (s.keystrokes csi queued)

/-- A session that pages. -/
def life (width : Char → Option ℕ) : Machine Paging PagingAction := ⟨step width⟩

/-- The view holds a contiguous block of the lines that the server has ever pushed, oldest line
first and each line once. -/
def HoldsBlock (s : Paging) : Prop :=
  ∀ held ∈ s.client.view.held, held.1 <:+: s.history.pushed.map scrollbackLine

/-- A page that reaches an `Active` view was asked for by this view, and no line was pushed
between the snapshot of the view's first page and its own. -/
def Fits (s : Paging) : PagingAction → Prop
  | .deliver => ∀ page ∈ s.pages.head?, ∀ held ∈ s.client.view.held,
      page.view = s.entered ∧ (held.1 = [] ∨ page.pushed = s.base)
  | _ => True

instance (s : Paging) (a : PagingAction) : Decidable (s.Fits a) :=
  match a with
  | .deliver => inferInstanceAs (Decidable (∀ page ∈ s.pages.head?, ∀ held ∈ s.client.view.held,
      page.view = s.entered ∧ (held.1 = [] ∨ page.pushed = s.base)))
  | .terminal _ | .answer _ | .discard | .datagram _ | .serverResize _ _ _ | .stdin _ _
      => instDecidableTrue

/-! ## Pages and the history -/

/-- The first `n` lines of the history, as they are sent. -/
def sentLines (s : Paging) (n : ℕ) : List ScrollbackLine :=
  (s.history.pushed.map scrollbackLine).take n

/-- The scrollback is the end of the history; a page holds the lines before the newest
`fromLine` at the time it was read; the held lines end where they did when the first page of the
view was read. -/
structure Consistent (s : Paging) : Prop where
  scrollback : s.history.terminal.scrollback <:+ s.history.pushed
  pages : ∀ page ∈ s.pages, page.pushed ≤ s.history.pushed.length ∧
    page.lines <:+ (s.sentLines page.pushed).rdrop page.fromLine
  base : s.base ≤ s.history.pushed.length
  held : ∀ held ∈ s.client.view.held, held.1 <:+ s.sentLines s.base

theorem consistent_new (cols rows : ℕ) (client : ClientPump) :
    (new cols rows client).Consistent where
  scrollback := List.nil_suffix
  pages := fun _ h => (List.not_mem_nil h).elim
  base := Nat.le_refl 0
  held := by
    rintro held ⟨⟩

/-- Lines that have been sent stay where they are. -/
theorem sentLines_of_prefix (hpre : s.history.pushed <+: s'.history.pushed) {n : ℕ}
    (hn : n ≤ s.history.pushed.length) : s'.sentLines n = s.sentLines n := by
  unfold sentLines
  obtain ⟨more, hmore⟩ := hpre
  rw [← hmore, List.map_append, List.take_append_of_le_length]
  rwa [List.length_map]

/-- The terminal moves on. -/
theorem Consistent.terminal {width : Char → Option ℕ} (h : s.Consistent) {ev : TerminalEvent}
    {history : TerminalHistory} (hstep : s.history.step width ev = some history) :
    Consistent { s with history := history } := by
  have hpre : s.history.pushed <+: history.pushed := TerminalHistory.step_prefix hstep
  have hlen := hpre.length_le
  have hsame : ∀ n ≤ s.history.pushed.length,
      sentLines { s with history := history } n = s.sentLines n :=
    fun n hn => sentLines_of_prefix hpre hn
  refine ⟨TerminalHistory.step_suffix h.scrollback hstep, ?_, h.base.trans hlen, ?_⟩
  · intro page hpage
    obtain ⟨hle, hlines⟩ := h.pages page hpage
    rw [hsame page.pushed hle]
    exact ⟨hle.trans hlen, hlines⟩
  · rw [hsame s.base h.base]
    exact h.held

/-- A page is read. -/
theorem page_lines_suffix (h : s.history.terminal.scrollback <:+ s.history.pushed) (view : ℕ)
    (request : PageRequest) (epoch : ℕ) :
    (s.page view request epoch).lines <:+
      (s.sentLines s.history.pushed.length).rdrop request.fromLine := by
  have hpage := TerminalHistory.pushed_page h request.fromLine (min request.count maxPageSize)
  have hall : s.sentLines s.history.pushed.length = s.history.pushed.map scrollbackLine := by
    unfold sentLines
    exact List.take_of_length_le (List.length_map _).le
  have hmap : (s.history.pushed.map scrollbackLine).rdrop request.fromLine =
      (s.history.pushed.rdrop request.fromLine).map scrollbackLine := by
    simp only [List.rdrop, List.length_map, List.map_take]
  rw [hall, hmap]
  exact hpage.map scrollbackLine

/-- The held lines change only by leaving the view. -/
theorem Consistent.client (h : s.Consistent) {client : ClientPump}
    (hheld : client.view.held = none ∨ client.view.held = s.client.view.held) (entered : ℕ)
    (requests : List (ℕ × PageRequest)) :
    Consistent { s with client := client, entered := entered, requests := requests } := by
  refine ⟨h.scrollback, h.pages, h.base, fun held hmem => ?_⟩
  rcases hheld with hnone | hsame
  · rw [hnone] at hmem
    cases hmem
  · rw [hsame] at hmem
    exact h.held held hmem

/-- Older lines in front of a block make a longer block. -/
theorem append_suffix_of_rdrop {α : Type} {older held l : List α} (hheld : held <:+ l)
    (holder : older <:+ l.rdrop held.length) : older ++ held <:+ l := by
  obtain ⟨before, rfl⟩ := hheld
  have hrest : (before ++ held).rdrop held.length = before := by
    unfold List.rdrop
    rw [List.length_append, Nat.add_sub_cancel]
    exact List.take_left
  rw [hrest] at holder
  obtain ⟨pre, rfl⟩ := holder
  exact ⟨pre, (List.append_assoc ..).symm⟩

/-! ## One page at a time -/

/-- What has been asked for and has not arrived, oldest first: view and first line. -/
def asked (s : Paging) : List (ℕ × ℕ) :=
  s.pages.map (fun page => (page.view, page.fromLine)) ++
    s.requests.map fun request => (request.1, request.2.fromLine)

/-- What the current view has asked for. -/
def current (entered : ℕ) (asked : List (ℕ × ℕ)) : List (ℕ × ℕ) :=
  asked.filter fun question => question.1 = entered

/-- Nothing is asked for by a view to come, and the current view has asked for at most one page,
the one before its held lines. -/
structure Sequential (s : Paging) : Prop where
  past : ∀ question ∈ s.asked, question.1 ≤ s.entered
  single : ∀ held ∈ s.client.view.held, current s.entered s.asked = [] ∨
    held.2 = true ∧ current s.entered s.asked = [(s.entered, held.1.length)]

theorem sequential_new (cols rows : ℕ) (client : ClientPump) :
    (new cols rows client).Sequential where
  past := fun _ h => (List.not_mem_nil h).elim
  single := by
    rintro held ⟨⟩

/-- A change that neither asks nor touches the held lines, unless it ends the view. -/
theorem Sequential.of_same (h : s.Sequential) (hasked : s'.asked = s.asked)
    (hentered : s'.entered = s.entered)
    (hheld : s'.client.view.held = none ∨ s'.client.view.held = s.client.view.held) :
    s'.Sequential := by
  refine ⟨?_, fun held hmem => ?_⟩
  · rw [hasked, hentered]
    exact h.past
  · rw [hasked, hentered]
    rcases hheld with hnone | hsame
    · rw [hnone] at hmem
      cases hmem
    · rw [hsame] at hmem
      exact h.single held hmem

/-- An answer takes the place of its request. -/
theorem asked_answer {view : ℕ} {request : PageRequest} {rest : List (ℕ × PageRequest)}
    (hrequests : s.requests = (view, request) :: rest) (epoch : ℕ) :
    asked { s with requests := rest, pages := s.pages ++ [s.page view request epoch] } =
      s.asked := by
  unfold asked
  rw [hrequests, List.map_append, List.map_cons, List.append_assoc]
  rfl

theorem asked_cons {page : SentPage} (hpages : s.pages = page :: rest) :
    s.asked = (page.view, page.fromLine) :: asked { s with pages := rest } := by
  unfold asked
  rw [hpages]
  rfl

/-- A page leaves the queue without reaching the view. -/
theorem Sequential.discard (h : s.Sequential) {page : SentPage} (hpages : s.pages = page :: rest) :
    Sequential { s with pages := rest } := by
  have hasked := asked_cons hpages
  refine ⟨fun question hmem => ?_, fun held hmem => ?_⟩
  · refine h.past question ?_
    rw [hasked]
    exact List.mem_cons_of_mem _ hmem
  · have hsub : current s.entered (asked { s with pages := rest }) <:+
        current s.entered s.asked := by
      rw [hasked]
      exact (List.suffix_cons _ _).filter _
    rcases h.single held hmem with hnone | ⟨hpending, hone⟩
    · rw [hnone] at hsub
      exact Or.inl (List.suffix_nil.mp hsub)
    · rw [hone] at hsub
      rcases List.suffix_cons_iff.mp hsub with hsame | hnil
      · exact Or.inr ⟨hpending, hsame⟩
      · exact Or.inl (List.suffix_nil.mp hnil)

/-- A page that its own view has asked for is the only one, and lies before the held lines. -/
theorem Sequential.own_page (h : s.Sequential) {page : SentPage} (hpages : s.pages = page :: rest)
    {held : List ScrollbackLine × Bool} (hheld : held ∈ s.client.view.held)
    (hown : page.view = s.entered) :
    page.fromLine = held.1.length ∧ current s.entered (asked { s with pages := rest }) = [] := by
  have hcurrent : current s.entered s.asked =
      (page.view, page.fromLine) :: current s.entered (asked { s with pages := rest }) := by
    rw [asked_cons hpages]
    exact List.filter_cons_of_pos (decide_eq_true hown)
  rcases h.single held hheld with hnone | ⟨-, hone⟩
  · rw [hnone] at hcurrent
    cases hcurrent
  · rw [hone] at hcurrent
    injection hcurrent with hpage hrest
    exact ⟨(congrArg Prod.snd hpage).symm, hrest.symm⟩

/-- A request is put in the queue, or is lost because the queue is full. -/
theorem asked_keystrokes (s : Paging) (csi : CsiResult) (queued : Bool) :
    (s.keystrokes csi queued).asked = s.asked ∨
      (s.keystrokes csi queued).asked = s.asked ++
        (s.client.stdin csi).2.toList.map fun request =>
          ((s.keystrokes csi queued).entered, request.fromLine) := by
  cases queued with
  | false => exact Or.inl rfl
  | true =>
      right
      unfold asked keystrokes
      simp only [if_true, List.map_append, List.map_map, List.append_assoc]
      rfl

/-- A view for which nothing is on its way asks for the page before its held lines. -/
theorem Sequential.of_asked (lines : List ScrollbackLine)
    (hpast : ∀ question ∈ s.asked, question.1 ≤ s'.entered)
    (hidle : current s'.entered s.asked = [])
    (hasked : s'.asked = s.asked ∨ s'.asked = s.asked ++ [(s'.entered, lines.length)])
    (hheld : s'.client.view.held = none ∨ s'.client.view.held = some (lines, true)) :
    s'.Sequential := by
  refine ⟨fun question hmem => ?_, fun held hmem => ?_⟩
  · rcases hasked with hasked | hasked
    · rw [hasked] at hmem
      exact hpast question hmem
    · rw [hasked] at hmem
      rcases List.mem_append.mp hmem with hmem | hmem
      · exact hpast question hmem
      · rw [List.mem_singleton.mp hmem]
  · rcases hheld with hgone | hsame
    · rw [hgone] at hmem
      cases hmem
    · rw [hsame] at hmem
      cases hmem
      rcases hasked with hasked | hasked
      · rw [hasked]
        exact Or.inl hidle
      · refine Or.inr ⟨rfl, ?_⟩
        rw [hasked, current, List.filter_append]
        change current s'.entered s.asked ++ _ = _
        rw [hidle, List.nil_append]
        exact List.filter_cons_of_pos (decide_eq_true rfl)

theorem Sequential.keystrokes (h : s.Sequential) (csi : CsiResult) (queued : Bool) :
    (s.keystrokes csi queued).Sequential := by
  have hasked := s.asked_keystrokes csi queued
  rcases s.client.stdin_held csi with ⟨hnone, hheld⟩ | ⟨hlive, hsome, hheld⟩ |
    ⟨lines, hactive, hsome, hheld⟩
  · -- nothing is asked
    rw [hnone, Option.toList_none, List.map_nil, List.append_nil, or_self] at hasked
    refine h.of_same hasked ?_ hheld
    exact if_neg fun hask => by simp [hnone] at hask
  · -- a new view: all earlier questions belong to earlier views
    have hentered : (s.keystrokes csi queued).entered = s.entered + 1 :=
      if_pos ⟨hlive, by rw [hsome]; rfl⟩
    rw [hsome] at hasked
    refine Sequential.of_asked [] (s := s) (fun question hmem => ?_) ?_ hasked hheld
    · rw [hentered]
      exact (h.past question hmem).trans (Nat.le_succ _)
    · refine List.filter_eq_nil_iff.mpr fun question hmem => ?_
      have := h.past question hmem
      rw [decide_eq_true_eq, hentered]
      omega
  · -- the page before the held lines, when nothing else is asked
    have hentered : (s.keystrokes csi queued).entered = s.entered :=
      if_neg fun hask => by simp [hactive] at hask
    rw [hsome] at hasked
    refine Sequential.of_asked lines (s := s) (fun question hmem => ?_) ?_ hasked hheld
    · rw [hentered]
      exact h.past question hmem
    · rw [hentered]
      rcases h.single (lines, false) hactive with hnone | ⟨⟨⟩, -⟩
      exact hnone

theorem Consistent.keystrokes (h : s.Consistent) (csi : CsiResult) (queued : Bool) :
    (s.keystrokes csi queued).Consistent := by
  rcases s.client.stdin_held csi with ⟨-, hheld⟩ | ⟨-, -, hheld⟩ | ⟨lines, hactive, -, hheld⟩
  · exact h.client hheld _ _
  · refine ⟨h.scrollback, h.pages, h.base, fun held hmem => ?_⟩
    have hmem' : held ∈ (s.client.stdin csi).1.view.held := hmem
    rcases hheld with hgone | hnew
    · rw [hgone] at hmem'
      cases hmem'
    · rw [hnew] at hmem'
      cases hmem'
      exact List.nil_suffix
  · refine ⟨h.scrollback, h.pages, h.base, fun held hmem => ?_⟩
    have hmem' : held ∈ (s.client.stdin csi).1.view.held := hmem
    rcases hheld with hgone | hsame
    · rw [hgone] at hmem'
      cases hmem'
    · rw [hsame] at hmem'
      cases hmem'
      exact h.held (lines, false) hactive

/-- A page that fits reaches the client. -/
theorem Consistent.recvPage (h : s.Consistent) (hseq : s.Sequential) {page : SentPage}
    (hpages : s.pages = page :: rest) (hfits : s.Fits .deliver) :
    (s.recvPage page rest).Consistent := by
  have hmem : page ∈ s.pages := by
    rw [hpages]
    exact List.mem_cons_self
  obtain ⟨hpushed, hlines⟩ := h.pages page hmem
  refine ⟨h.scrollback, fun other hother => ?_, ?_, fun held' hheld' => ?_⟩
  · refine h.pages other ?_
    rw [hpages]
    exact List.mem_cons_of_mem _ hother
  · dsimp only [Paging.recvPage]
    split
    · exact hpushed
    · exact h.base
  · have hheld : held' ∈ (s.client.recvPage page.lines page.total page.epoch).view.held := hheld'
    rw [ClientPump.recvPage_held] at hheld
    obtain ⟨held, hold, rfl⟩ := Option.map_eq_some_iff.mp hheld
    have hfit := hfits page (by rw [hpages]; rfl) held hold
    obtain ⟨hfrom, -⟩ := hseq.own_page hpages hold hfit.1
    by_cases hempty : held.1 = []
    · -- the first page of the view
      have hzero : page.fromLine = 0 := by
        rw [hfrom, hempty]
        rfl
      rw [hzero, List.rdrop_zero] at hlines
      dsimp only [Paging.recvPage]
      rw [if_pos hzero, hempty, List.append_nil]
      exact hlines
    · -- the page before the held lines, read when they were still the newest ones
      have hnonzero : page.fromLine ≠ 0 := by
        rw [hfrom]
        exact fun hzero => hempty (List.length_eq_zero_iff.mp hzero)
      have hbase : page.pushed = s.base := hfit.2.resolve_left hempty
      rw [hbase, hfrom] at hlines
      dsimp only [Paging.recvPage]
      rw [if_neg hnonzero]
      exact append_suffix_of_rdrop (h.held held hold) hlines

theorem Sequential.recvPage (h : s.Sequential) {page : SentPage} (hpages : s.pages = page :: rest)
    (hfits : s.Fits .deliver) : (s.recvPage page rest).Sequential := by
  refine ⟨(h.discard hpages).past, fun held' hheld' => Or.inl ?_⟩
  have hheld : held' ∈ (s.client.recvPage page.lines page.total page.epoch).view.held := hheld'
  rw [ClientPump.recvPage_held] at hheld
  obtain ⟨held, hold, -⟩ := Option.map_eq_some_iff.mp hheld
  have hfit := hfits page (by rw [hpages]; rfl) held hold
  exact (h.own_page hpages hold hfit.1).2

/-- One action of a session in which every page fits. -/
theorem step_consistent {width : Char → Option ℕ} {a : PagingAction} (h : s.Consistent)
    (hseq : s.Sequential) (hfits : s.Fits a) (hs : s.step width a = some s') :
    s'.Consistent ∧ s'.Sequential := by
  cases a with
  | terminal ev =>
      obtain ⟨history, hstep, rfl⟩ := Option.map_eq_some_iff.mp hs
      exact ⟨h.terminal hstep, hseq.of_same rfl rfl (Or.inr rfl)⟩
  | answer epoch =>
      dsimp only [step] at hs
      split at hs
      · cases hs
      · rename_i view request rest hrequests
        cases hs
        refine ⟨⟨h.scrollback, ?_, h.base, h.held⟩,
          hseq.of_same (asked_answer hrequests epoch) rfl (Or.inr rfl)⟩
        refine List.forall_mem_append.mpr ⟨h.pages, List.forall_mem_singleton.mpr ?_⟩
        exact ⟨le_rfl, page_lines_suffix h.scrollback view request epoch⟩
  | deliver =>
      dsimp only [step] at hs
      split at hs
      · cases hs
      · rename_i page rest hpages
        cases hs
        exact ⟨h.recvPage hseq hpages hfits, hseq.recvPage hpages hfits⟩
  | discard =>
      dsimp only [step] at hs
      split at hs
      · cases hs
      · rename_i page rest hpages
        cases hs
        refine ⟨⟨h.scrollback, fun other hother => h.pages other ?_, h.base, h.held⟩,
          hseq.discard hpages⟩
        rw [hpages]
        exact List.mem_cons_of_mem _ hother
  | datagram diff =>
      cases hs
      have hheld := s.client.recvDatagram_held width diff
      exact ⟨h.client hheld _ _, hseq.of_same rfl rfl hheld⟩
  | serverResize cols rows limited =>
      cases hs
      have hheld : (s.client.serverResize cols rows limited).view.held = s.client.view.held :=
        congrArg _ (s.client.serverResize_view cols rows limited)
      exact ⟨h.client (Or.inr hheld) _ _, hseq.of_same rfl rfl (Or.inr hheld)⟩
  | stdin csi queued =>
      cases hs
      exact ⟨h.keystrokes csi queued, hseq.keystrokes csi queued⟩

theorem Consistent.holdsBlock (h : s.Consistent) : s.HoldsBlock := by
  intro held hheld
  exact (h.held held hheld).isInfix.trans (List.take_prefix _ _).isInfix

/-- **What the view holds.** In every interleaving of keystrokes, output and pages in which every
page that reaches the view was asked for by it and read before a line was pushed since the first
one, the view holds a contiguous block of the history. -/
theorem holds_block {width : Char → Option ℕ} {cols rows : ℕ} {client : ClientPump}
    {actions : List PagingAction} {s : Paging}
    (hfits : (life width).Along Fits (new cols rows client) actions)
    (hrun : (life width).run (new cols rows client) actions = some s) : s.HoldsBlock := by
  have h := (life width).invariant_along (fun s => s.Consistent ∧ s.Sequential)
    (fun s a s' h hfit hs => step_consistent h.1 h.2 hfit hs)
    ⟨consistent_new cols rows client, sequential_new cols rows client⟩ hfits hrun
  exact h.1.holdsBlock

/-- The keystroke Shift-PageUp. -/
def pageup : PagingAction := .stdin ⟨true, false, []⟩ true

/-- Any other keystroke. -/
def key : PagingAction := .stdin ⟨false, false, [0x61]⟩ true

/-- 257 lines are pushed, the first of them an `a`, and the view reads two pages. -/
def twoPages : List PagingAction :=
  .terminal (.dispatch (.print 'a')) ::
    List.replicate 256 (.terminal (.dispatch (.execute 0x0A))) ++
    [pageup, .answer 1, .deliver, pageup, .answer 1, .deliver]

theorem holds_block_twoPages :
    ∃ s, (life fun _ => some 1).run (new 1 1 (.new 80 24 true)) twoPages = some s ∧
      s.client.view.held = some (scrollbackLine [{ Cell.blank with ch := 'a' }] ::
        List.replicate 256 (scrollbackLine [Cell.blank]), false) ∧ s.HoldsBlock := by
  have hfits : (life fun _ => some 1).Along Fits (new 1 1 (.new 80 24 true)) twoPages := by
    decide +kernel
  have hrun : ∃ s ∈ (life fun _ => some 1).run (new 1 1 (.new 80 24 true)) twoPages,
      s.client.view.held = some (scrollbackLine [{ Cell.blank with ch := 'a' }] ::
        List.replicate 256 (scrollbackLine [Cell.blank]), false) := by
    decide +kernel
  obtain ⟨s, hs, hheld⟩ := hrun
  exact ⟨s, hs, hheld, holds_block hfits hs⟩

/-- **A page for a view that is gone.** One line has been pushed. The view is entered, left by a
keystroke and entered again before the first page arrives. Both pages reach the second view, and it
holds the one line twice. -/
theorem line_held_twice :
    ∃ s, (life fun _ => some 1).run (new 1 1 (.new 80 24 true))
        [.terminal (.dispatch (.execute 0x0A)), pageup, key, pageup, .answer 1, .answer 1,
          .deliver, .deliver] = some s ∧
      s.history.pushed = [[Cell.blank]] ∧
      s.client.view.held =
        some ([scrollbackLine [Cell.blank], scrollbackLine [Cell.blank]], false) ∧
      ¬ s.HoldsBlock := by
  refine ⟨_, rfl, rfl, rfl, fun h => ?_⟩
  have hlen := (h _ rfl).length_le
  exact absurd hlen (by decide)

end Paging

end Nosh.Scrollback
