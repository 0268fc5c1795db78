import Nosh.Lib.Machine
import Nosh.Proto.Message

/-!
# Token rotation

A reattach replaces the token of the slot.  The server mints a candidate, writes it to
the client in `ReattachOk`, and commits it when the write has returned.  That the
write has returned does not mean that the client has the frame.

The model follows one slot and the client that owns it.  Each end notices the loss of
a connection by itself, so a server may still be busy with a connection that the
client has given up, and a `Reattach` may reach it after that.

## Main results

* `Agreed.step` — what one step keeps: the client holds the token that the slot has or
  is about to commit, or has it unread in front of it.
* `tokens_agree` — **if no `ReattachOk` is written to, or lost with, a connection the
  client has given up, and no `Reattach` comes too early, client and orphaned slot
  agree on the token.**
* `unread_rotation_strands` — a `ReattachOk` that is written, committed and never read
  leaves the client with a token that is refused.
-/

namespace Nosh.Reattach

open Nosh.Lib Nosh.Proto

/-- A reattach token. -/
abbrev Token := ByteArr 16

/-- What the server does for the slot. -/
inductive SlotPhase
  /-- `SlotState::Orphaned`. -/
  | orphaned
  /-- `SlotState::Reconnecting`, writing `ReattachOk` with a minted candidate. -/
  | writing (candidate : Token)
  /-- The write has returned; the commit comes next. -/
  | committing (candidate : Token)
  /-- Replaying, or `SlotState::Active`. -/
  | attached
  deriving DecidableEq

/-- The frames to the client that concern the token. -/
inductive TokenFrame
  | sessionOpened (token : Token)
  | reattachOk (newToken : Token)
  | reattachErr
  deriving DecidableEq

/-- The token of a `ReattachOk`. -/
def TokenFrame.newToken? : TokenFrame → Option Token
  | .reattachOk newToken => some newToken
  | _ => none

/-- Where the client is with its present connection. -/
inductive Endpoint
  /-- `SessionOpen` is sent. -/
  | opening
  /-- `Reattach` is sent. -/
  | reattaching
  | attached
  | disconnected
  /-- After `ReattachErr`: it does not try again. -/
  | exited
  deriving DecidableEq

/-- The client has no connection. -/
def Endpoint.Down (client : Endpoint) : Prop := client = .disconnected ∨ client = .exited

instance (client : Endpoint) : Decidable client.Down := inferInstanceAs (Decidable (_ ∨ _))

/-- One slot and the client that owns it. -/
structure Rotation where
  slotToken : Token
  slot : SlotPhase
  /-- The server's attachment is on the client's present connection. -/
  linked : Bool
  /-- Frames unread on the client's present connection. -/
  toClient : List TokenFrame
  /-- The `Reattach` of the present connection, until the server has read it. -/
  request : Option Token
  /-- The `Reattach` frames of connections the client has given up. -/
  stale : List Token
  client : Endpoint
  token : Option Token
  /-- History: the client has stored a token of the slot. -/
  held : Bool
  deriving DecidableEq

/-- A fresh session: the slot is Active and `SessionOpened` is sent. -/
def Rotation.start (token : Token) : Rotation where
  slotToken := token
  slot := .attached
  linked := true
  toClient := [.sessionOpened token]
  request := none
  stale := []
  client := .opening
  token := none
  held := false

/-- The steps; a `candidate` is what `mint_token_candidate` gives. -/
inductive RotationAction
  /-- The server handles the `Reattach` of the present connection. -/
  | reattach (candidate : Token)
  /-- The server handles a `Reattach` of a connection that the client has given up. -/
  | reattachStale (i : ℕ) (candidate : Token)
  /-- The write of `ReattachOk` returns. -/
  | write (sent : Bool)
  | commit
  /-- A replay or the pump ends in `registry.orphan`. -/
  | serverLost
  | read
  | connect
  | clientLost

namespace Rotation

/-- `registry.reattach`: the token is the slot's and the slot is Orphaned. -/
def Authorized (s : Rotation) (token : Token) : Prop := token = s.slotToken ∧ s.slot = .orphaned

instance (s : Rotation) (token : Token) : Decidable (s.Authorized token) :=
  inferInstanceAs (Decidable (_ ∧ _))

/-- The client gives its connection up; the server may still read a `Reattach` of it. -/
def leave (s : Rotation) (client : Endpoint) : Rotation :=
  { s with
    client := client
    linked := false
    toClient := []
    request := none
    stale := s.stale ++ s.request.toList }

/-- The client stores a token it has read, and `rest` stays unread. -/
def adopt (s : Rotation) (token : Token) (rest : List TokenFrame) : Rotation :=
  { s with client := .attached, token := some token, held := true, toClient := rest }

/-- The client reads `frame`; one it does not expect ends the attempt. -/
def readFrame (s : Rotation) (frame : TokenFrame) (rest : List TokenFrame) : Rotation :=
  match s.client, frame with
  | .opening, .sessionOpened token => s.adopt token rest
  | .reattaching, .reattachOk newToken => s.adopt newToken rest
  | .reattaching, .reattachErr => { s.leave .exited with token := none }
  | _, _ => s.leave .disconnected

/-- One step of server, client or connection. -/
def step (s : Rotation) : RotationAction → Option Rotation
  | .reattach candidate =>
      s.request.map fun token =>
        if s.Authorized token then
          { s with request := none, slot := .writing candidate, linked := true }
        else { s with request := none, toClient := s.toClient ++ [.reattachErr] }
  | .reattachStale i candidate =>
      s.stale[i]?.map fun token =>
        if s.Authorized token then
          { s with stale := s.stale.eraseIdx i, slot := .writing candidate, linked := false }
        else { s with stale := s.stale.eraseIdx i }
  | .write sent =>
      match s.slot with
      | .writing candidate =>
          -- a failed write leaves the prior token valid; a write to a connection the
          -- client has left may return without an error
          some (if sent then
            { s with
              slot := .committing candidate
              toClient := if s.linked then s.toClient ++ [.reattachOk candidate] else s.toClient }
          else { s with slot := .orphaned, linked := false })
      | _ => none
  | .commit =>
      match s.slot with
      | .committing candidate => some { s with slotToken := candidate, slot := .attached }
      | _ => none
  | .serverLost =>
      if s.slot = .attached then some { s with slot := .orphaned, linked := false } else none
  | .read =>
      match s.toClient with
      | [] => none
      | frame :: rest => some (s.readFrame frame rest)
  | .connect =>
      match s.client, s.token with
      | .disconnected, some token =>
          some { s with client := .reattaching, request := some token, toClient := [] }
      | _, _ => none
  | .clientLost =>
      if s.client.Down then none else some (s.leave .disconnected)

/-- What a step must respect for the tokens to agree: the write of `ReattachOk` succeeds
only towards a client that is still there, the client does not leave with the frame
unread, and its `Reattach` meets an Orphaned slot. -/
def Confirmed (s : Rotation) : RotationAction → Prop
  | .write sent => sent = true → s.linked = true
  | .clientLost => ∀ frame ∈ s.toClient, frame.newToken? = none
  | .reattach _ => s.slot = .orphaned
  | _ => True

instance (s : Rotation) (a : RotationAction) : Decidable (s.Confirmed a) :=
  match a with
  | .write _ => inferInstanceAs (Decidable (_ → _))
  | .clientLost => inferInstanceAs (Decidable (∀ frame ∈ s.toClient, _))
  | .reattach _ => inferInstanceAs (Decidable (_ = _))
  | .reattachStale _ _ | .commit | .serverLost | .read | .connect =>
      inferInstanceAs (Decidable True)

/-- The token the slot has, or is about to commit. -/
def expected (s : Rotation) : Token :=
  match s.slot with
  | .committing candidate => candidate
  | _ => s.slotToken

end Rotation

/-- The rotation as a machine. -/
def rotation : Machine Rotation RotationAction := ⟨Rotation.step⟩

/-- What is in front of the client: nothing, and it holds the expected token if it ever
held one, or the frame that brings it the expected token. -/
inductive Offers (s : Rotation) : Prop
  | nothing (hnil : s.toClient = []) (htoken : s.held = true → s.token = some s.expected)
  | opened (hclient : s.client = .opening) (hheld : s.held = false)
      (hframe : s.toClient = [.sessionOpened s.expected])
  | rotated (hclient : s.client = .reattaching)
      (hframe : s.toClient = [.reattachOk s.expected])

/-- The invariant of confirmed runs. -/
structure Agreed (s : Rotation) : Prop where
  offers : Offers s
  unheld : s.held = false → s.token = none
  request : ∀ token ∈ s.request,
    s.client = .reattaching ∧ s.toClient = [] ∧ token = s.expected
  writing : ∀ candidate, s.slot = .writing candidate → s.linked = true →
    s.client = .reattaching ∧ s.toClient = [] ∧ s.request = none

theorem agreed_start (token : Token) : Agreed (.start token) :=
  ⟨.opened rfl rfl rfl, fun _ => rfl, nofun, nofun⟩

variable {s : Rotation}

/-- A client that once held a token holds the expected one, unless it awaits the reply to
a `Reattach` and has a new token unread. -/
theorem Agreed.token_eq (h : Agreed s) (hheld : s.held = true)
    (hread : s.client = .reattaching → ∀ frame ∈ s.toClient, frame.newToken? = none) :
    s.token = some s.expected := by
  cases h.offers with
  | nothing _ htoken => exact htoken hheld
  | opened _ hunheld =>
      rw [hunheld] at hheld
      cases hheld
  | rotated hclient hframe =>
      have hnone :=
        hread hclient (.reattachOk s.expected) (by rw [hframe]; exact List.mem_cons_self)
      cases hnone

/-- The slot moves on under the same expected token. -/
theorem Agreed.withSlot (h : Agreed s) {slotToken : Token} {slot : SlotPhase} {linked : Bool}
    {stale : List Token}
    (hexpected : Rotation.expected { s with slotToken := slotToken, slot := slot } = s.expected)
    (hwriting : ∀ candidate, slot = .writing candidate → linked = true →
      s.slot = .writing candidate ∧ s.linked = true) :
    Agreed { s with slotToken := slotToken, slot := slot, linked := linked, stale := stale } := by
  have hexpected' : Rotation.expected { s with
      slotToken := slotToken, slot := slot, linked := linked, stale := stale } = s.expected :=
    hexpected
  refine ⟨?_, h.unheld, fun token htoken => ?_, fun candidate hslot hlinked => ?_⟩
  · cases h.offers with
    | nothing hnil htoken =>
        refine .nothing hnil fun hheld => ?_
        rw [hexpected']
        exact htoken hheld
    | opened hclient hheld hframe =>
        refine .opened hclient hheld ?_
        rw [hexpected']
        exact hframe
    | rotated hclient hframe =>
        refine .rotated hclient ?_
        rw [hexpected']
        exact hframe
  · rw [hexpected']
    exact h.request token htoken
  · obtain ⟨hslot, hlinked⟩ := hwriting candidate hslot hlinked
    exact h.writing candidate hslot hlinked

/-- A `Reattach` that meets an Orphaned slot is accepted. -/
theorem Agreed.reattach (h : Agreed s) {token : Token} (hrequest : s.request = some token)
    (horphaned : s.slot = .orphaned) (candidate : Token) :
    Agreed (if s.Authorized token then
        { s with request := none, slot := .writing candidate, linked := true }
      else { s with request := none, toClient := s.toClient ++ [.reattachErr] }) := by
  obtain ⟨hclient, hnil, htoken⟩ := h.request token hrequest
  have hexpected : s.expected = s.slotToken := by
    rw [Rotation.expected, horphaned]
  rw [if_pos ⟨htoken.trans hexpected, horphaned⟩]
  refine ⟨.nothing hnil fun hheld => ?_, h.unheld, nofun, fun _ _ _ => ⟨hclient, hnil, rfl⟩⟩
  show s.token = some s.slotToken
  rw [← hexpected]
  exact h.token_eq hheld fun _ => by simp [hnil]

/-- A successful write puts the candidate in front of the client. -/
theorem Agreed.write {s : Rotation} (h : Agreed s) {candidate : Token}
    (hslot : s.slot = .writing candidate) (hlinked : s.linked = true) :
    Agreed { s with
      slot := .committing candidate
      toClient := if s.linked then s.toClient ++ [.reattachOk candidate] else s.toClient } := by
  obtain ⟨hclient, hnil, hrequest⟩ := h.writing candidate hslot hlinked
  rw [if_pos hlinked, hnil]
  refine ⟨.rotated hclient rfl, h.unheld, fun token htoken => ?_, nofun⟩
  have htoken : s.request = some token := htoken
  rw [hrequest] at htoken
  cases htoken

/-- The client reads the frame in front of it. -/
theorem Agreed.readFrame (h : Agreed s) {frame : TokenFrame} {rest : List TokenFrame}
    (hhead : s.toClient = frame :: rest) : Agreed (s.readFrame frame rest) := by
  have hadopt : Agreed (s.adopt s.expected []) := by
    refine ⟨.nothing rfl fun _ => rfl, nofun, fun token htoken => ?_, fun candidate hslot hl => ?_⟩
    · have hnil := (h.request token htoken).2.1
      rw [hhead] at hnil
      cases hnil
    · have hnil := (h.writing candidate hslot hl).2.1
      rw [hhead] at hnil
      cases hnil
  cases h.offers with
  | nothing hnil _ =>
      rw [hhead] at hnil
      cases hnil
  | opened hclient _ hframe =>
      rw [hhead] at hframe
      obtain ⟨rfl, rfl⟩ := List.cons.inj hframe
      unfold Rotation.readFrame
      rw [hclient]
      exact hadopt
  | rotated hclient hframe =>
      rw [hhead] at hframe
      obtain ⟨rfl, rfl⟩ := List.cons.inj hframe
      unfold Rotation.readFrame
      rw [hclient]
      exact hadopt

/-- The client leaves with no `ReattachOk` unread. -/
theorem Agreed.leave (h : Agreed s) (hread : ∀ frame ∈ s.toClient, frame.newToken? = none) :
    Agreed (s.leave .disconnected) := by
  refine ⟨.nothing rfl fun hheld => ?_, h.unheld, nofun, nofun⟩
  exact h.token_eq hheld fun _ => hread

theorem Agreed.connect (h : Agreed s) (hclient : s.client = .disconnected) {token : Token}
    (htoken : s.token = some token) :
    Agreed { s with client := .reattaching, request := some token, toClient := [] } := by
  have hheld : s.held = true := by
    rw [← Bool.not_eq_false]
    intro hunheld
    rw [h.unheld hunheld] at htoken
    cases htoken
  have hexpected : s.token = some s.expected := h.token_eq hheld fun hreattaching => by
    rw [hclient] at hreattaching
    cases hreattaching
  refine ⟨.nothing rfl fun _ => hexpected, h.unheld, fun token' htoken' => ⟨rfl, rfl, ?_⟩,
    fun candidate hslot hlinked => ?_⟩
  · obtain rfl : token = token' := Option.some.inj htoken'
    rw [htoken] at hexpected
    exact Option.some.inj hexpected
  · have hreattaching := (h.writing candidate hslot hlinked).1
    rw [hclient] at hreattaching
    cases hreattaching

/-! What the actions that can fail leave behind. -/

namespace Rotation

variable {s' : Rotation}

theorem step_write {sent : Bool} (hstep : s.step (.write sent) = some s') :
    ∃ candidate, s.slot = .writing candidate ∧
      s' = if sent then
          { s with
            slot := .committing candidate
            toClient := if s.linked then s.toClient ++ [.reattachOk candidate] else s.toClient }
        else { s with slot := .orphaned, linked := false } := by
  rw [step] at hstep
  split at hstep
  · rename_i candidate hslot
    cases hstep
    exact ⟨candidate, hslot, rfl⟩
  · cases hstep

theorem step_commit (hstep : s.step .commit = some s') :
    ∃ candidate, s.slot = .committing candidate ∧
      s' = { s with slotToken := candidate, slot := .attached } := by
  rw [step] at hstep
  split at hstep
  · rename_i candidate hslot
    cases hstep
    exact ⟨candidate, hslot, rfl⟩
  · cases hstep

theorem step_serverLost (hstep : s.step .serverLost = some s') :
    s.slot = .attached ∧ s' = { s with slot := .orphaned, linked := false } := by
  rw [step] at hstep
  split at hstep
  · rename_i hslot
    cases hstep
    exact ⟨hslot, rfl⟩
  · cases hstep

theorem step_read (hstep : s.step .read = some s') :
    ∃ frame rest, s.toClient = frame :: rest ∧ s' = s.readFrame frame rest := by
  rw [step] at hstep
  split at hstep
  · cases hstep
  · rename_i frame rest hhead
    cases hstep
    exact ⟨frame, rest, hhead, rfl⟩

theorem step_connect (hstep : s.step .connect = some s') :
    ∃ token, s.client = .disconnected ∧ s.token = some token ∧
      s' = { s with client := .reattaching, request := some token, toClient := [] } := by
  rw [step] at hstep
  split at hstep
  · rename_i token hclient htoken
    cases hstep
    exact ⟨token, hclient, htoken, rfl⟩
  · cases hstep

theorem step_clientLost (hstep : s.step .clientLost = some s') :
    s' = s.leave .disconnected := by
  rw [step] at hstep
  split at hstep
  · cases hstep
  · cases hstep
    rfl

end Rotation

/-- Every confirmed step keeps the agreement. -/
theorem Agreed.step {s' : Rotation} {a : RotationAction} (h : Agreed s) (hok : s.Confirmed a)
    (hstep : s.step a = some s') : Agreed s' := by
  cases a with
  | reattach candidate =>
      obtain ⟨token, hrequest, rfl⟩ := Option.map_eq_some_iff.mp hstep
      exact h.reattach hrequest hok candidate
  | reattachStale i candidate =>
      obtain ⟨token, -, rfl⟩ := Option.map_eq_some_iff.mp hstep
      split
      · rename_i hauthorized
        refine h.withSlot ?_ nofun
        rw [Rotation.expected, Rotation.expected, hauthorized.2]
      · exact h.withSlot rfl fun _ hslot hlinked => ⟨hslot, hlinked⟩
  | write sent =>
      obtain ⟨candidate, hslot, rfl⟩ := Rotation.step_write hstep
      split
      · rename_i hsent
        exact h.write hslot (hok hsent)
      · refine h.withSlot ?_ nofun
        rw [Rotation.expected, Rotation.expected, hslot]
  | commit =>
      obtain ⟨candidate, hslot, rfl⟩ := Rotation.step_commit hstep
      refine h.withSlot ?_ nofun
      rw [Rotation.expected, Rotation.expected, hslot]
  | serverLost =>
      obtain ⟨hslot, rfl⟩ := Rotation.step_serverLost hstep
      refine h.withSlot ?_ nofun
      rw [Rotation.expected, Rotation.expected, hslot]
  | read =>
      obtain ⟨frame, rest, hhead, rfl⟩ := Rotation.step_read hstep
      exact h.readFrame hhead
  | connect =>
      obtain ⟨token, hclient, htoken, rfl⟩ := Rotation.step_connect hstep
      exact h.connect hclient htoken
  | clientLost =>
      obtain rfl := Rotation.step_clientLost hstep
      exact h.leave hok

/-- **Token agreement.**  Take any run of a slot and its owner in which the write of a
`ReattachOk` succeeds only on a connection the client still has, the client loses no
connection with a `ReattachOk` unread on it, and each `Reattach` of the client's
present connection meets an Orphaned slot.  Whenever the slot is Orphaned and the
client, having held a token of it, has no connection, the client holds the token of
the slot. -/
theorem tokens_agree {token : Token} {as : List RotationAction} {s : Rotation}
    (hok : rotation.Along Rotation.Confirmed (.start token) as)
    (hrun : rotation.run (.start token) as = some s) :
    s.slot = .orphaned → s.client.Down → s.held = true → s.token = some s.slotToken := by
  have hinv : Agreed s :=
    rotation.invariant_along _ (fun s a s' hs ha hstep => Agreed.step hs ha hstep)
      (agreed_start token) hok hrun
  intro horphaned hdown hheld
  have hexpected : s.expected = s.slotToken := by
    rw [Rotation.expected, horphaned]
  rw [← hexpected]
  refine hinv.token_eq hheld fun hclient => ?_
  rw [hclient] at hdown
  rcases hdown with hdown | hdown <;> cases hdown

/-- The token of sixteen equal bytes. -/
def tokenOf (b : UInt8) : Token := ⟨List.replicate 16 b, List.length_replicate⟩

/-- The session is reattached once, with every frame read, and lost again. -/
def confirmedRun : List RotationAction :=
  [.read, .clientLost, .serverLost, .connect, .reattach (tokenOf 1), .write true, .read, .commit,
    .clientLost, .serverLost]

/-- The slot and its owner after `confirmedRun`. -/
def confirmed : Rotation :=
  (rotation.run (.start (tokenOf 0)) confirmedRun).getD (.start (tokenOf 0))

theorem tokens_agree_confirmed :
    confirmed.slotToken = tokenOf 1 ∧ confirmed.token = some confirmed.slotToken := by
  have hrun : rotation.run (.start (tokenOf 0)) confirmedRun = some confirmed := by
    decide
  exact ⟨by decide, tokens_agree (by decide) hrun (by decide) (by decide) (by decide)⟩

/-- The connection is lost between the write of `ReattachOk` and its arrival. -/
def unreadRun : List RotationAction :=
  [.read, .clientLost, .serverLost, .connect, .reattach (tokenOf 1), .write true, .commit,
    .clientLost, .serverLost]

/-- **An unread rotation strands the client.**  The slot has rotated to a token the
client never saw, and the next reattach is refused, upon which the client gives up
its token. -/
theorem unread_rotation_strands :
    (∃ s ∈ rotation.run (.start (tokenOf 0)) unreadRun,
      s.slot = .orphaned ∧ s.client.Down ∧ s.held = true ∧ s.token = some (tokenOf 0) ∧
        s.slotToken = tokenOf 1) ∧
    ∃ s ∈ rotation.run (.start (tokenOf 0)) (unreadRun ++ [.connect, .reattach (tokenOf 2), .read]),
      s.slot = .orphaned ∧ s.client = .exited ∧ s.token = none := by
  decide

end Nosh.Reattach
