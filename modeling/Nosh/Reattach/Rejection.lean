import Nosh.Reattach.Token
import Nosh.Server.RegistryRuns

/-!
# What a rejected reattach means

A client that reads `ReattachErr` takes its session for gone: it drops its token and does
not try again.  The registry, however, refuses a reattach for three reasons of which only one
is that the session is gone.

The model joins the token protocol of one client and its slot (`Rotation`) with the registry:
the answer to a `Reattach` is that of `SessionRegistry.reattach`, and everybody else uses the
registry meanwhile.  Nobody else changes the slot, but anybody can take it out of the
registry: the watcher of its shell, the reaper, the eviction by another session of the
identity.

## Main results

* `Coupled.sim` — while the slot is registered, a step of the client or its server is a step of
  the token protocol.
* `rejected_unregistered` — **if the server has noticed the loss of the old connection whenever
  it handles a `Reattach`, and no `ReattachOk` is written to, or lost with, a connection the
  client has given up, then a rejected client's slot is not registered.**
* `early_reattach_rejected` — a client that is back before the server has noticed.
-/

namespace Nosh.Reattach

open Nosh.Lib Nosh.Proto Nosh.Auth Nosh.Server

/-- The token that the slot is about to get. -/
def SlotPhase.candidate? : SlotPhase → Option Token
  | .writing candidate | .committing candidate => some candidate
  | .orphaned | .attached => none

/-- One client and its slot, and the registry that all use. -/
structure Rejoin where
  shared : Sessions
  identity : NoshPublicKey
  ref : SlotRef
  rotation : Rotation

/-- The steps. -/
inductive RejoinAction
  /-- A step of the client, or of the task that handles its connection. -/
  | protocol (a : RotationAction) (task : TaskId) (now : Instant)
  /-- The replay is over. -/
  | markActive (task : TaskId) (now : Instant)
  /-- Somebody else uses the registry. -/
  | other (a : Server.SessionAction)

namespace Rejoin

/-- The session is opened in a registry that may be in use already. -/
def start (opened : Sessions) (identity : NoshPublicKey) (ref : SlotRef) (token : Token) :
    Rejoin where
  shared := opened
  identity := identity
  ref := ref
  rotation := .start token

/-- The token is new: no slot has it, or is about to. -/
def Unused (s : Rejoin) (token : Token) : Prop :=
  token ∉ s.shared.registry.slots.map (·.token) ∧ s.rotation.slot.candidate? ≠ some token

instance (s : Rejoin) (token : Token) : Decidable (s.Unused token) :=
  inferInstanceAs (Decidable (_ ∧ _))

/-- What others do: they take new tokens, do not change the slot, and do not reattach to it. -/
def Foreign (s : Rejoin) : Server.SessionAction → Prop
  | .registerActive _ _ _ token _ => s.Unused token
  | .commitToken ref token => ref ≠ s.ref ∧ s.Unused token
  | .markOrphaned _ ref _ | .markActive _ ref _ => ref ≠ s.ref
  | .reattach _ token identity =>
      (s.shared.registry.reattach token identity).1.toOption ≠ some s.ref
  | .orphanLocked _ _ | .touch _ _ | .remove _ _ | .removeSlot _ | .reapOnce _ _ | .detach _ _ =>
      True

instance (s : Rejoin) (a : Server.SessionAction) : Decidable (s.Foreign a) :=
  match a with
  | .registerActive _ _ _ _ _ => inferInstanceAs (Decidable (Unused _ _))
  | .commitToken _ _ => inferInstanceAs (Decidable (_ ∧ _))
  | .markOrphaned _ _ _ | .markActive _ _ _ => inferInstanceAs (Decidable (_ ≠ _))
  | .reattach _ _ _ => inferInstanceAs (Decidable (_ ≠ _))
  | .orphanLocked _ _ | .touch _ _ | .remove _ _ | .removeSlot _ | .reapOnce _ _ | .detach _ _ =>
      inferInstanceAs (Decidable True)

/-- A section of the registry, with the protocol at `rotation` afterwards. -/
def take (s : Rejoin) (a : Server.SessionAction) (rotation : Rotation) : Option Rejoin :=
  (s.shared.step a).map fun shared => { s with shared := shared, rotation := rotation }

/-- The answer of the registry to a `Reattach` under the client's identity. -/
def answer (s : Rejoin) (task : TaskId) (token candidate : Token) (accepted refused : Rotation) :
    Option Rejoin :=
  if ¬ s.Unused candidate then none
  else
    match (s.shared.registry.reattach token s.identity).1 with
    | .ok ref =>
        -- another slot cannot have the token: tokens do not repeat
        if ref = s.ref then s.take (.reattach task token s.identity) accepted else none
    | .error _ => s.take (.reattach task token s.identity) refused

/-- One step. -/
def step (s : Rejoin) : RejoinAction → Option Rejoin
  | .protocol (.reattach candidate) task _ =>
      s.rotation.request.bind fun token =>
        s.answer task token candidate
          { s.rotation with request := none, slot := .writing candidate, linked := true }
          { s.rotation with request := none, toClient := s.rotation.toClient ++ [.reattachErr] }
  | .protocol (.reattachStale i candidate) task _ =>
      s.rotation.stale[i]?.bind fun token =>
        s.answer task token candidate
          { s.rotation with
            stale := s.rotation.stale.eraseIdx i, slot := .writing candidate, linked := false }
          { s.rotation with stale := s.rotation.stale.eraseIdx i }
  | .protocol (.write sent) task now =>
      (s.rotation.step (.write sent)).bind fun rotation =>
        if sent then some { s with rotation := rotation }
        else s.take (.markOrphaned task s.ref now) rotation
  | .protocol .commit _ _ =>
      (s.rotation.step .commit).bind fun rotation =>
        s.take (.commitToken s.ref rotation.slotToken) rotation
  | .protocol .serverLost task now =>
      (s.rotation.step .serverLost).bind fun rotation =>
        s.take (.markOrphaned task s.ref now) rotation
  | .protocol .read _ _ =>
      (s.rotation.step .read).map fun rotation => { s with rotation := rotation }
  | .protocol .connect _ _ =>
      (s.rotation.step .connect).map fun rotation => { s with rotation := rotation }
  | .protocol .clientLost _ _ =>
      (s.rotation.step .clientLost).map fun rotation => { s with rotation := rotation }
  | .markActive task now =>
      if s.rotation.slot = .attached then s.take (.markActive task s.ref now) s.rotation else none
  | .other a => if s.Foreign a then s.take a s.rotation else none

/-- What a step must respect while the slot is registered: that of the token protocol, which is
that the server has noticed the loss of the old connection when it handles a `Reattach`, and
that no `ReattachOk` is written to, or lost with, a connection the client has given up. -/
def Timely (s : Rejoin) : RejoinAction → Prop
  | .protocol a _ _ => s.shared.registry.Registered s.ref → s.rotation.Confirmed a
  | _ => True

instance (s : Rejoin) (a : RejoinAction) : Decidable (s.Timely a) :=
  match a with
  | .protocol _ _ _ => inferInstanceAs (Decidable (_ → _))
  | .markActive _ _ | .other _ => inferInstanceAs (Decidable True)

end Rejoin

/-- The client, its slot and the registry as a machine. -/
def rejoin : Machine Rejoin RejoinAction := ⟨Rejoin.step⟩

/-! ## The token protocol under the registry -/

/-- What the registry has for the slot, and what the token protocol says of it. -/
structure Coupled (s : Rejoin) : Prop where
  identity : s.shared.registry.identityOf s.ref = some s.identity
  token : s.shared.registry.tokenOf s.ref = some s.rotation.slotToken
  state : s.shared.registry.IsOrphaned s.ref ↔ s.rotation.slot = .orphaned
  unique : ∀ other, other ≠ s.ref → ∀ token, s.shared.registry.tokenOf other = some token →
    token ≠ s.rotation.slotToken ∧ s.rotation.slot.candidate? ≠ some token
  agreed : Agreed s.rotation
  exited : s.rotation.client ≠ .exited

/-- A client under agreement is not told to give up. -/
theorem Agreed.step_exited {s s' : Rotation} {a : RotationAction} (h : Agreed s)
    (hclient : s.client ≠ .exited) (hstep : s.step a = some s') : s'.client ≠ .exited := by
  cases a with
  | reattach candidate =>
      obtain ⟨token, -, rfl⟩ := Option.map_eq_some_iff.mp hstep
      split <;> exact hclient
  | reattachStale i candidate =>
      obtain ⟨token, -, rfl⟩ := Option.map_eq_some_iff.mp hstep
      split <;> exact hclient
  | write sent =>
      obtain ⟨candidate, -, rfl⟩ := Rotation.step_write hstep
      split <;> exact hclient
  | commit =>
      obtain ⟨candidate, -, rfl⟩ := Rotation.step_commit hstep
      exact hclient
  | serverLost =>
      obtain ⟨-, rfl⟩ := Rotation.step_serverLost hstep
      exact hclient
  | read =>
      obtain ⟨frame, rest, hhead, rfl⟩ := Rotation.step_read hstep
      -- what is in front of the client is a token
      cases h.offers with
      | nothing hnil _ =>
          rw [hhead] at hnil
          cases hnil
      | opened hopening _ hframe =>
          rw [hhead] at hframe
          obtain ⟨rfl, rfl⟩ := List.cons.inj hframe
          unfold Rotation.readFrame
          rw [hopening]
          rintro ⟨⟩
      | rotated hreattaching hframe =>
          rw [hhead] at hframe
          obtain ⟨rfl, rfl⟩ := List.cons.inj hframe
          unfold Rotation.readFrame
          rw [hreattaching]
          rintro ⟨⟩
  | connect =>
      obtain ⟨token, -, -, rfl⟩ := Rotation.step_connect hstep
      rintro ⟨⟩
  | clientLost =>
      obtain rfl := Rotation.step_clientLost hstep
      rintro ⟨⟩

/-- Reading a frame is the client's affair. -/
theorem Rotation.readFrame_slot (s : Rotation) (frame : TokenFrame) (rest : List TokenFrame) :
    (s.readFrame frame rest).slotToken = s.slotToken ∧ (s.readFrame frame rest).slot = s.slot := by
  unfold Rotation.readFrame
  split <;> exact ⟨rfl, rfl⟩

variable {s : Rejoin} {a : Server.SessionAction}

theorem Rejoin.take_eq_some {s' : Rejoin} {rotation : Rotation} :
    s.take a rotation = some s' ↔ ∃ shared, s.shared.step a = some shared ∧
      s' = { s with shared := shared, rotation := rotation } := by
  unfold Rejoin.take
  rw [Option.map_eq_some_iff]
  constructor
  · rintro ⟨shared, hstep, rfl⟩
    exact ⟨shared, hstep, rfl⟩
  · rintro ⟨shared, hstep, rfl⟩
    exact ⟨shared, hstep, rfl⟩

namespace Coupled

variable {rotation : Rotation}

/-- The registry answers as the token protocol says. -/
theorem reattach_iff (h : Coupled s) (hreg : s.shared.registry.Registered s.ref) (token : Token) :
    (s.shared.registry.reattach token s.identity).1 = .ok s.ref ↔ s.rotation.Authorized token := by
  constructor
  · intro hok
    obtain ⟨-, -, htoken, horphan, -⟩ := SessionRegistry.reattach_eq_ok (Prod.ext hok rfl)
    refine ⟨?_, h.state.mp horphan⟩
    exact Option.some.inj (htoken.symm.trans h.token)
  · rintro ⟨rfl, hslot⟩
    refine SessionRegistry.reattach_of_registered hreg h.identity h.token (fun other hother => ?_)
      (h.state.mpr hslot)
    by_contra hne
    exact (h.unique other hne _ hother).1 rfl

/-- The protocol moves on, and the registry stays. -/
theorem still (h : Coupled s) (htoken : rotation.slotToken = s.rotation.slotToken)
    (hslot : rotation.slot = .orphaned ↔ s.rotation.slot = .orphaned)
    (hcandidate : rotation.slot.candidate? = s.rotation.slot.candidate?)
    (hagreed : Agreed rotation) (hexited : rotation.client ≠ .exited) :
    Coupled { s with rotation := rotation } where
  identity := h.identity
  token := by
    rw [h.token]
    exact congrArg some htoken.symm
  state := h.state.trans hslot.symm
  unique other hne token hother := by
    show token ≠ rotation.slotToken ∧ rotation.slot.candidate? ≠ some token
    rw [htoken, hcandidate]
    exact h.unique other hne token hother
  agreed := hagreed
  exited := hexited

/-- The server changes the slot. -/
theorem own (h : Coupled s) {shared : Sessions} {change : SessionSlot → SessionSlot}
    (hshared : shared.registry = s.shared.registry.update s.ref change)
    (hidentity : ∀ slot, (change slot).identity = slot.identity)
    (htoken : shared.registry.tokenOf s.ref = some rotation.slotToken)
    (hstate : shared.registry.IsOrphaned s.ref ↔ rotation.slot = .orphaned)
    (hunique : ∀ token ∈ s.shared.registry.slots.map (·.token),
      token ≠ s.rotation.slotToken → s.rotation.slot.candidate? ≠ some token →
      token ≠ rotation.slotToken ∧ rotation.slot.candidate? ≠ some token)
    (hagreed : Agreed rotation) (hexited : rotation.client ≠ .exited) :
    Coupled { s with shared := shared, rotation := rotation } where
  identity := by
    rw [← h.identity]
    show shared.registry.identityOf s.ref = _
    rw [hshared]
    exact SessionRegistry.field_update hidentity
  token := htoken
  state := hstate
  unique other hne token hother := by
    have hbefore : s.shared.registry.tokenOf other = some token := by
      rw [← hother]
      show _ = shared.registry.tokenOf other
      rw [hshared]
      exact (SessionRegistry.field_update_of_ne hne).symm
    obtain ⟨hslot, hcandidate⟩ := h.unique other hne token hbefore
    obtain ⟨slot, hget, rfl⟩ := Option.map_eq_some_iff.mp hbefore
    exact hunique _ (List.mem_map_of_mem (List.mem_of_getElem? hget)) hslot hcandidate
  agreed := hagreed
  exited := hexited

end Coupled

/-- What the answer to a `Reattach` can be. -/
theorem Rejoin.answer_cases {s' : Rejoin} {task : TaskId} {token candidate : Token}
    {accepted refused : Rotation} (h : s.answer task token candidate accepted refused = some s') :
    s.Unused candidate ∧
      (((s.shared.registry.reattach token s.identity).1 = .ok s.ref ∧
          ∃ shared, s.shared.step (.reattach task token s.identity) = some shared ∧
            shared.registry = s.shared.registry.update s.ref .markReconnecting ∧
            s' = { s with shared := shared, rotation := accepted }) ∨
        ((s.shared.registry.reattach token s.identity).1 ≠ .ok s.ref ∧
          s' = { s with rotation := refused })) := by
  unfold Rejoin.answer at h
  split at h
  · cases h
  · rename_i hunused
    refine ⟨not_not.mp hunused, ?_⟩
    split at h
    · rename_i ref hok
      split at h
      · rename_i href
        subst href
        obtain ⟨shared, hstep, rfl⟩ := Rejoin.take_eq_some.mp h
        refine Or.inl ⟨hok, shared, hstep, ?_, rfl⟩
        obtain ⟨ref, hgot, rfl⟩ | ⟨reject, hgot, -⟩ := Sessions.step_reattach hstep
        · rw [hgot] at hok
          cases hok
          rfl
        · rw [hgot] at hok
          cases hok
      · cases h
    · rename_i reject herror
      obtain ⟨shared, hstep, rfl⟩ := Rejoin.take_eq_some.mp h
      refine Or.inr ⟨by rw [herror]; rintro ⟨⟩, ?_⟩
      obtain ⟨ref, hgot, -⟩ | ⟨reject', -, rfl⟩ := Sessions.step_reattach hstep
      · rw [hgot] at herror
        cases herror
      · rfl

namespace Coupled

variable {s' : Rejoin} {task : TaskId} {now : Instant}
variable {rotation : Rotation}

/-- The slot is reattached. -/
theorem accept (h : Coupled s) {shared : Sessions} {candidate : Token}
    (halloc : s.ref < s.shared.registry.slots.length) (hunused : s.Unused candidate)
    (hshared : shared.registry = s.shared.registry.update s.ref .markReconnecting)
    (htoken : rotation.slotToken = s.rotation.slotToken)
    (hslot : rotation.slot = .writing candidate) (hagreed : Agreed rotation)
    (hexited : rotation.client ≠ .exited) :
    Coupled { s with shared := shared, rotation := rotation } := by
  refine h.own hshared (fun _ => rfl) ?_ ?_ (fun token hmem hne _ => ?_) hagreed hexited
  · rw [hshared, htoken, ← h.token]
    exact SessionRegistry.field_update fun _ => rfl
  · have hstate : shared.registry.stateOf s.ref = some .reconnecting := by
      rw [hshared]
      exact SessionRegistry.stateOf_update_self (fun _ => rfl) halloc
    rw [SessionRegistry.IsOrphaned, hstate, hslot]
    exact iff_of_false (by rintro ⟨⟩) (by rintro ⟨⟩)
  · rw [htoken, hslot]
    refine ⟨hne, fun hsame => hunused.1 ?_⟩
    obtain rfl : candidate = token := Option.some.inj hsame
    exact hmem

/-- The slot is orphaned. -/
theorem orphan (h : Coupled s) (htake : s.take (.markOrphaned task s.ref now) rotation = some s')
    (htoken : rotation.slotToken = s.rotation.slotToken) (hslot : rotation.slot = .orphaned)
    (hagreed : Agreed rotation) (hexited : rotation.client ≠ .exited) : Coupled s' := by
  obtain ⟨shared, hstep, rfl⟩ := Rejoin.take_eq_some.mp htake
  obtain ⟨halloc, rfl⟩ := Sessions.step_markOrphaned hstep
  refine h.own rfl (fun _ => rfl) ?_ ?_ (fun token _ hne _ => ?_) hagreed hexited
  · rw [htoken, ← h.token]
    exact SessionRegistry.field_update fun _ => rfl
  · exact iff_of_true (SessionRegistry.stateOf_update_self (fun _ => rfl) halloc) hslot
  · rw [htoken, hslot]
    exact ⟨hne, by rintro ⟨⟩⟩

/-- The new token is committed. -/
theorem commit (h : Coupled s) (halloc : s.ref < s.shared.registry.slots.length)
    (htake : s.take (.commitToken s.ref rotation.slotToken) rotation = some s')
    (hbefore : s.rotation.slot = .committing rotation.slotToken) (hslot : rotation.slot = .attached)
    (hagreed : Agreed rotation) (hexited : rotation.client ≠ .exited) : Coupled s' := by
  obtain ⟨shared, hstep, rfl⟩ := Rejoin.take_eq_some.mp htake
  cases hstep
  refine h.own rfl (fun _ => rfl) ?_ ?_ (fun token _ _ hne => ?_) hagreed hexited
  · exact SessionRegistry.field_update_self (fun _ => rfl) halloc
  · have hstate : (s.shared.registry.update s.ref
        (.commitToken rotation.slotToken)).stateOf s.ref = s.shared.registry.stateOf s.ref :=
      SessionRegistry.field_update fun _ => rfl
    show SessionRegistry.stateOf _ _ = _ ↔ _
    rw [hstate, hslot]
    refine iff_of_false (fun horphan => ?_) (by rintro ⟨⟩)
    have horphaned := h.state.mp horphan
    rw [hbefore] at horphaned
    cases horphaned
  · rw [hbefore] at hne
    rw [hslot]
    exact ⟨fun hsame => hne (congrArg some hsame.symm), by rintro ⟨⟩⟩

/-- **The simulation.**  While the slot is registered, a step of the client or of its server is a
step of the token protocol, and the registry follows it. -/
theorem sim {a : RotationAction} (h : Coupled s) (hreg : s.shared.registry.Registered s.ref)
    (halloc : s.ref < s.shared.registry.slots.length) (hok : s.rotation.Confirmed a)
    (hstep : s.step (.protocol a task now) = some s') : Coupled s' := by
  -- the protocol keeps the agreement; each case says which step it takes
  have hprotocol : ∀ rotation, s.rotation.step a = some rotation →
      Agreed rotation ∧ rotation.client ≠ .exited := fun rotation hrotation =>
    ⟨h.agreed.step hok hrotation, h.agreed.step_exited h.exited hrotation⟩
  cases a with
  | reattach candidate =>
      obtain ⟨token, hrequest, hanswer⟩ := Option.bind_eq_some_iff.mp hstep
      obtain ⟨hunused, ⟨hresult, shared, -, hshared, rfl⟩ | ⟨hresult, rfl⟩⟩ :=
        Rejoin.answer_cases hanswer
      · obtain ⟨hagreed, hexited⟩ := hprotocol _ (Option.map_eq_some_iff.mpr
          ⟨token, hrequest, if_pos ((h.reattach_iff hreg token).mp hresult)⟩)
        exact h.accept halloc hunused hshared rfl rfl hagreed hexited
      · obtain ⟨hagreed, hexited⟩ := hprotocol _ (Option.map_eq_some_iff.mpr
          ⟨token, hrequest, if_neg fun hauthorized =>
            hresult ((h.reattach_iff hreg token).mpr hauthorized)⟩)
        exact h.still rfl Iff.rfl rfl hagreed hexited
  | reattachStale i candidate =>
      obtain ⟨token, hstale, hanswer⟩ := Option.bind_eq_some_iff.mp hstep
      obtain ⟨hunused, ⟨hresult, shared, -, hshared, rfl⟩ | ⟨hresult, rfl⟩⟩ :=
        Rejoin.answer_cases hanswer
      · obtain ⟨hagreed, hexited⟩ := hprotocol _ (Option.map_eq_some_iff.mpr
          ⟨token, hstale, if_pos ((h.reattach_iff hreg token).mp hresult)⟩)
        exact h.accept halloc hunused hshared rfl rfl hagreed hexited
      · obtain ⟨hagreed, hexited⟩ := hprotocol _ (Option.map_eq_some_iff.mpr
          ⟨token, hstale, if_neg fun hauthorized =>
            hresult ((h.reattach_iff hreg token).mpr hauthorized)⟩)
        exact h.still rfl Iff.rfl rfl hagreed hexited
  | write sent =>
      obtain ⟨rotation, hrotation, htake⟩ := Option.bind_eq_some_iff.mp hstep
      obtain ⟨hagreed, hexited⟩ := hprotocol rotation hrotation
      obtain ⟨candidate, hslot, rfl⟩ := Rotation.step_write hrotation
      split at htake
      · rename_i hsent
        cases htake
        rw [if_pos hsent] at hagreed hexited
        refine h.still rfl ?_ ?_ hagreed hexited
        · rw [hslot]
          exact iff_of_false (by rintro ⟨⟩) (by rintro ⟨⟩)
        · rw [hslot]
          rfl
      · rename_i hsent
        rw [if_neg hsent] at hagreed hexited
        exact h.orphan htake rfl rfl hagreed hexited
  | commit =>
      obtain ⟨rotation, hrotation, htake⟩ := Option.bind_eq_some_iff.mp hstep
      obtain ⟨hagreed, hexited⟩ := hprotocol rotation hrotation
      obtain ⟨candidate, hslot, rfl⟩ := Rotation.step_commit hrotation
      exact h.commit halloc htake hslot rfl hagreed hexited
  | serverLost =>
      obtain ⟨rotation, hrotation, htake⟩ := Option.bind_eq_some_iff.mp hstep
      obtain ⟨hagreed, hexited⟩ := hprotocol rotation hrotation
      obtain ⟨-, rfl⟩ := Rotation.step_serverLost hrotation
      exact h.orphan htake rfl rfl hagreed hexited
  | read =>
      obtain ⟨rotation, hrotation, rfl⟩ := Option.map_eq_some_iff.mp hstep
      obtain ⟨hagreed, hexited⟩ := hprotocol rotation hrotation
      obtain ⟨frame, rest, -, rfl⟩ := Rotation.step_read hrotation
      obtain ⟨htoken, hslot⟩ := Rotation.readFrame_slot s.rotation frame rest
      exact h.still htoken (by rw [hslot]) (by rw [hslot]) hagreed hexited
  | connect =>
      obtain ⟨rotation, hrotation, rfl⟩ := Option.map_eq_some_iff.mp hstep
      obtain ⟨hagreed, hexited⟩ := hprotocol rotation hrotation
      obtain ⟨token, -, -, rfl⟩ := Rotation.step_connect hrotation
      exact h.still rfl Iff.rfl rfl hagreed hexited
  | clientLost =>
      obtain ⟨rotation, hrotation, rfl⟩ := Option.map_eq_some_iff.mp hstep
      obtain ⟨hagreed, hexited⟩ := hprotocol rotation hrotation
      obtain rfl := Rotation.step_clientLost hrotation
      exact h.still rfl Iff.rfl rfl hagreed hexited

end Coupled

/-! ## The others -/

/-- What others do is not seen in the identity, the state or the token of the slot. -/
theorem Rejoin.Foreign.field {shared : Sessions} {β : Type} {get : SessionSlot → β}
    (hforeign : s.Foreign a) (halloc : s.ref < s.shared.registry.slots.length)
    (htouch : ∀ now slot, get (SessionSlot.touch now slot) = get slot)
    (hstep : s.shared.step a = some shared) :
    shared.registry.field get s.ref = s.shared.registry.field get s.ref := by
  cases a with
  | registerActive task identity sessionId token now =>
      obtain ⟨-, rfl⟩ := Sessions.step_registerActive hstep
      exact SessionRegistry.field_registerActive_of_lt halloc
  | markOrphaned task ref now =>
      obtain ⟨-, rfl⟩ := Sessions.step_markOrphaned hstep
      exact SessionRegistry.field_update_of_ne (Ne.symm hforeign)
  | orphanLocked task ref =>
      obtain ⟨-, rfl⟩ := Sessions.step_orphanLocked hstep
      exact (SessionRegistry.shrinks_orphanLocked ref).field get s.ref
  | reattach task token identity =>
      obtain ⟨ref, hok, rfl⟩ | ⟨reject, -, rfl⟩ := Sessions.step_reattach hstep
      · have hne : s.ref ≠ ref := by
          rintro rfl
          refine hforeign ?_
          rw [hok]
          rfl
        exact SessionRegistry.field_update_of_ne hne
      · rfl
  | commitToken ref token =>
      cases hstep
      exact SessionRegistry.field_update_of_ne (Ne.symm hforeign.1)
  | markActive task ref now =>
      cases hstep
      exact SessionRegistry.field_update_of_ne (Ne.symm hforeign)
  | touch ref now =>
      cases hstep
      exact SessionRegistry.field_update (htouch now)
  | remove identityRaw sessionId =>
      cases hstep
      exact (SessionRegistry.shrinks_remove identityRaw sessionId).field get s.ref
  | removeSlot ref =>
      cases hstep
      exact (SessionRegistry.shrinks_removeSlot ref).field get s.ref
  | reapOnce now exited =>
      cases hstep
      exact (SessionRegistry.shrinks_reapOnce now exited).field get s.ref
  | detach task ref =>
      cases hstep
      rfl

/-- A token that another slot has after a step of the others is one it had, or a new one. -/
theorem Rejoin.Foreign.token {shared : Sessions} {other : SlotRef} {token : Token}
    (hforeign : s.Foreign a) (hstep : s.shared.step a = some shared)
    (hother : shared.registry.tokenOf other = some token) :
    s.shared.registry.tokenOf other = some token ∨ s.Unused token := by
  have hupdate : ∀ {ref : SlotRef} {change : SessionSlot → SessionSlot},
      (s.shared.registry.update ref change).tokenOf other = some token →
      (∀ slot, (change slot).token = slot.token) →
      s.shared.registry.tokenOf other = some token := fun hupdated hchange =>
    (SessionRegistry.field_update hchange).symm.trans hupdated
  cases a with
  | registerActive task identity sessionId new now =>
      obtain ⟨-, rfl⟩ := Sessions.step_registerActive hstep
      have hlt : other < s.shared.registry.slots.length + 1 := by
        rw [← List.length_singleton (a := SessionSlot.new identity sessionId new now),
          ← List.length_append]
        exact SessionRegistry.lt_length_of_field hother
      rcases Nat.lt_succ_iff_lt_or_eq.mp hlt with hold | rfl
      · exact Or.inl ((SessionRegistry.field_registerActive_of_lt hold).symm.trans hother)
      · right
        have hnew := hother.symm.trans SessionRegistry.field_registerActive_new
        cases hnew
        exact hforeign
  | markOrphaned task ref now =>
      obtain ⟨-, rfl⟩ := Sessions.step_markOrphaned hstep
      exact Or.inl (hupdate hother fun _ => rfl)
  | orphanLocked task ref =>
      obtain ⟨-, rfl⟩ := Sessions.step_orphanLocked hstep
      exact Or.inl (((SessionRegistry.shrinks_orphanLocked ref).field _ other).symm.trans hother)
  | reattach task presented identity =>
      obtain ⟨ref, -, rfl⟩ | ⟨reject, -, rfl⟩ := Sessions.step_reattach hstep
      · exact Or.inl (hupdate hother fun _ => rfl)
      · exact Or.inl hother
  | commitToken ref new =>
      cases hstep
      by_cases hsame : other = ref
      · subst hsame
        have halloc : other < s.shared.registry.slots.length := by
          rw [← List.length_modify (SessionSlot.commitToken new) s.shared.registry.slots other]
          exact SessionRegistry.lt_length_of_field hother
        have hnew := hother.symm.trans
          (SessionRegistry.field_update_self (fun _ => rfl) halloc)
        cases hnew
        exact Or.inr hforeign.2
      · exact Or.inl ((SessionRegistry.field_update_of_ne hsame).symm.trans hother)
  | markActive task ref now =>
      cases hstep
      exact Or.inl (hupdate hother fun _ => rfl)
  | touch ref now =>
      cases hstep
      exact Or.inl (hupdate hother fun _ => rfl)
  | remove identityRaw sessionId =>
      cases hstep
      exact Or.inl (((SessionRegistry.shrinks_remove _ _).field _ other).symm.trans hother)
  | removeSlot ref =>
      cases hstep
      exact Or.inl (((SessionRegistry.shrinks_removeSlot ref).field _ other).symm.trans hother)
  | reapOnce now exited =>
      cases hstep
      exact Or.inl hother
  | detach task ref =>
      cases hstep
      exact Or.inl hother

namespace Coupled

variable {s' : Rejoin}

/-- What others do leaves the slot and the token protocol alone. -/
theorem foreign (h : Coupled s) {shared : Sessions} (hforeign : s.Foreign a)
    (halloc : s.ref < s.shared.registry.slots.length) (hstep : s.shared.step a = some shared) :
    Coupled { s with shared := shared } where
  identity := (hforeign.field halloc (fun _ _ => rfl) hstep).trans h.identity
  token := (hforeign.field halloc (fun _ _ => rfl) hstep).trans h.token
  state := by
    have hstate : shared.registry.stateOf s.ref = s.shared.registry.stateOf s.ref :=
      hforeign.field halloc (fun _ _ => rfl) hstep
    show shared.registry.stateOf s.ref = some .orphaned ↔ s.rotation.slot = .orphaned
    rw [hstate]
    exact h.state
  unique other hne token hother := by
    rcases hforeign.token hstep hother with hbefore | hunused
    · exact h.unique other hne token hbefore
    · refine ⟨?_, hunused.2⟩
      rintro rfl
      refine hunused.1 ?_
      obtain ⟨slot, hget, hslot⟩ := Option.map_eq_some_iff.mp h.token
      rw [← hslot]
      exact List.mem_map_of_mem (List.mem_of_getElem? hget)
  agreed := h.agreed
  exited := h.exited

/-- The server marks the slot Active. -/
theorem markActive (h : Coupled s) {task : TaskId} {now : Instant}
    (halloc : s.ref < s.shared.registry.slots.length) (hslot : s.rotation.slot = .attached)
    (htake : s.take (.markActive task s.ref now) s.rotation = some s') : Coupled s' := by
  obtain ⟨shared, hstep, rfl⟩ := Rejoin.take_eq_some.mp htake
  cases hstep
  refine h.own rfl (fun _ => rfl) ?_ ?_ (fun token _ hne hcandidate => ⟨hne, hcandidate⟩)
    h.agreed h.exited
  · rw [← h.token]
    exact SessionRegistry.field_update fun _ => rfl
  · have hstate : (s.shared.registry.update s.ref (.markActive now)).stateOf s.ref =
        some .active := SessionRegistry.stateOf_update_self (fun _ => rfl) halloc
    show SessionRegistry.stateOf _ _ = _ ↔ _
    rw [hstate, hslot]
    exact iff_of_false (by rintro ⟨⟩) (by rintro ⟨⟩)

end Coupled

/-! ## Runs -/

/-- The invariant of timely runs: as long as the slot is registered, registry and token protocol
are coupled. -/
structure Joined (s : Rejoin) : Prop where
  allocated : s.ref < s.shared.registry.slots.length
  coupled : s.shared.registry.Registered s.ref → Coupled s

namespace Joined

variable {s' : Rejoin}

/-- The slot is there, and registered before a step if after it. -/
theorem of_effect (h : Joined s) {marked : Option SlotRef}
    (heffect : Effect s.shared.registry s'.shared.registry marked) (href : s'.ref = s.ref)
    (hcoupled : s.shared.registry.Registered s.ref → Coupled s') : Joined s' := by
  refine ⟨?_, fun hreg => hcoupled ?_⟩
  · rw [href]
    exact h.allocated.trans_le heffect.length_le
  · rw [href] at hreg
    exact heffect.registered h.allocated hreg

/-- A step goes through the registry, or leaves it. -/
theorem step_effect {a : RejoinAction} (hstep : s.step a = some s') :
    (∃ marked, Effect s.shared.registry s'.shared.registry marked) ∧ s'.ref = s.ref := by
  have htake : ∀ {b : Server.SessionAction} {rotation : Rotation}, s.take b rotation = some s' →
      (∃ marked, Effect s.shared.registry s'.shared.registry marked) ∧ s'.ref = s.ref := by
    intro b rotation htake
    obtain ⟨shared, hshared, rfl⟩ := Rejoin.take_eq_some.mp htake
    exact ⟨⟨_, Sessions.step_effect hshared⟩, rfl⟩
  have hanswer : ∀ {task : TaskId} {token candidate : Token} {accepted refused : Rotation},
      s.answer task token candidate accepted refused = some s' →
      (∃ marked, Effect s.shared.registry s'.shared.registry marked) ∧ s'.ref = s.ref := by
    intro task token candidate accepted refused hanswer
    obtain ⟨-, ⟨-, shared, hshared, -, rfl⟩ | ⟨-, rfl⟩⟩ := Rejoin.answer_cases hanswer
    · exact ⟨⟨_, Sessions.step_effect hshared⟩, rfl⟩
    · exact ⟨⟨_, Effect.refl _⟩, rfl⟩
  cases a with
  | protocol a task now =>
      cases a with
      | reattach candidate =>
          obtain ⟨token, -, h⟩ := Option.bind_eq_some_iff.mp hstep
          exact hanswer h
      | reattachStale i candidate =>
          obtain ⟨token, -, h⟩ := Option.bind_eq_some_iff.mp hstep
          exact hanswer h
      | write sent =>
          obtain ⟨rotation, -, h⟩ := Option.bind_eq_some_iff.mp hstep
          split at h
          · cases h
            exact ⟨⟨_, Effect.refl _⟩, rfl⟩
          · exact htake h
      | commit =>
          obtain ⟨rotation, -, h⟩ := Option.bind_eq_some_iff.mp hstep
          exact htake h
      | serverLost =>
          obtain ⟨rotation, -, h⟩ := Option.bind_eq_some_iff.mp hstep
          exact htake h
      | read =>
          obtain ⟨rotation, -, rfl⟩ := Option.map_eq_some_iff.mp hstep
          exact ⟨⟨_, Effect.refl _⟩, rfl⟩
      | connect =>
          obtain ⟨rotation, -, rfl⟩ := Option.map_eq_some_iff.mp hstep
          exact ⟨⟨_, Effect.refl _⟩, rfl⟩
      | clientLost =>
          obtain ⟨rotation, -, rfl⟩ := Option.map_eq_some_iff.mp hstep
          exact ⟨⟨_, Effect.refl _⟩, rfl⟩
  | markActive task now =>
      rw [Rejoin.step] at hstep
      split at hstep
      · exact htake hstep
      · cases hstep
  | other a =>
      rw [Rejoin.step] at hstep
      split at hstep
      · exact htake hstep
      · cases hstep

/-- Every timely step keeps the invariant. -/
theorem step {a : RejoinAction} (h : Joined s) (hok : s.Timely a)
    (hstep : s.step a = some s') : Joined s' := by
  obtain ⟨⟨marked, heffect⟩, href⟩ := step_effect hstep
  refine h.of_effect heffect href fun hreg => ?_
  have hcoupled := h.coupled hreg
  cases a with
  | protocol a task now => exact hcoupled.sim hreg h.allocated (hok hreg) hstep
  | markActive task now =>
      rw [Rejoin.step] at hstep
      split at hstep
      · rename_i hslot
        exact hcoupled.markActive h.allocated hslot hstep
      · cases hstep
  | other a =>
      rw [Rejoin.step] at hstep
      split at hstep
      · rename_i hforeign
        obtain ⟨shared, hshared, rfl⟩ := Rejoin.take_eq_some.mp hstep
        exact hcoupled.foreign hforeign h.allocated hshared
      · cases hstep

/-- A session just opened, in whatever registry, with a token no slot has. -/
theorem start {before opened : Sessions} {task : TaskId} {identity : NoshPublicKey}
    {sessionId : Uuid} {token : Token} {now : Instant}
    (hopen : before.step (.registerActive task identity sessionId token now) = some opened)
    (htoken : token ∉ before.registry.slots.map (·.token)) :
    Joined (.start opened identity before.registry.slots.length token) := by
  obtain ⟨-, rfl⟩ := Sessions.step_registerActive hopen
  refine ⟨?_, fun _ => ⟨?_, ?_, ?_, fun other hne token' hother => ?_, agreed_start token,
    by rintro ⟨⟩⟩⟩
  · show _ < (before.registry.slots ++ [_]).length
    rw [List.length_append]
    exact Nat.lt_succ_self _
  · exact SessionRegistry.field_registerActive_new
  · exact SessionRegistry.field_registerActive_new
  · refine iff_of_false (fun horphan => ?_) (by rintro ⟨⟩)
    cases horphan.symm.trans SessionRegistry.field_registerActive_new
  · refine ⟨?_, by rintro ⟨⟩⟩
    rintro rfl
    have hlt : other < before.registry.slots.length + 1 := by
      rw [← List.length_singleton (a := SessionSlot.new identity sessionId token' now),
        ← List.length_append]
      exact SessionRegistry.lt_length_of_field hother
    have hold : other < before.registry.slots.length :=
      lt_of_le_of_ne (Nat.le_of_lt_succ hlt) hne
    have hbefore : before.registry.tokenOf other = some token' :=
      (SessionRegistry.field_registerActive_of_lt hold).symm.trans hother
    obtain ⟨slot, hget, rfl⟩ := Option.map_eq_some_iff.mp hbefore
    exact htoken (List.mem_map_of_mem (List.mem_of_getElem? hget))

end Joined

/-- **A rejected client's session is gone.**  Take any use of the registry before and beside the
session, and any run of the client and its connections in which, as long as the slot is
registered: each `Reattach` of the client's present connection is handled after the server has
noticed the loss of the old one, a `ReattachOk` is written successfully only to a connection
the client still has, and the client loses no connection with a `ReattachOk` unread on it.
Then, whenever `ReattachErr` is on its way to the client, or the client has read it and given
up, the slot is not registered. -/
theorem rejected_unregistered {before opened : Sessions} {task : TaskId} {identity : NoshPublicKey}
    {sessionId : Uuid} {token : Token} {now : Instant} {schedule : List RejoinAction} {s : Rejoin}
    (hopen : before.step (.registerActive task identity sessionId token now) = some opened)
    (htoken : token ∉ before.registry.slots.map (·.token))
    (hok : rejoin.Along Rejoin.Timely
      (.start opened identity before.registry.slots.length token) schedule)
    (hrun : rejoin.run (.start opened identity before.registry.slots.length token) schedule =
      some s)
    (hrejected : .reattachErr ∈ s.rotation.toClient ∨ s.rotation.client = .exited) :
    ¬ s.shared.registry.Registered s.ref := by
  have hjoined : Joined s :=
    rejoin.invariant_along Joined (fun _ _ _ h hok hstep => h.step hok hstep)
      (.start hopen htoken) hok hrun
  intro hreg
  have hcoupled := hjoined.coupled hreg
  rcases hrejected with hmem | hexited
  · cases hcoupled.agreed.offers with
    | nothing hnil _ =>
        rw [hnil] at hmem
        cases hmem
    | opened _ _ hframe =>
        rw [hframe, List.mem_singleton] at hmem
        cases hmem
    | rotated _ hframe =>
        rw [hframe, List.mem_singleton] at hmem
        cases hmem
  · exact hcoupled.exited hexited

/-- The identity of thirty-two equal bytes. -/
def identityOf (b : UInt8) : NoshPublicKey := ⟨.replicate 32 b⟩

/-- The registry with one session, just opened. -/
def openedSession : Sessions :=
  ((Sessions.start 5 0).step (.registerActive 0 (identityOf 1) 7 (tokenOf 0) 1)).getD (.start 5 0)

/-- The shell exits while the session is orphaned, and the client comes back to be told so. -/
def exitedRun : List RejoinAction :=
  [.protocol .read 0 2, .protocol .clientLost 0 3, .protocol .serverLost 0 4,
    .other (.removeSlot 0), .protocol .connect 1 5, .protocol (.reattach (tokenOf 1)) 1 6,
    .protocol .read 1 7]

/-- The client has given up, and its slot is not registered. -/
theorem rejected_unregistered_exitedRun :
    ∃ s ∈ rejoin.run (.start openedSession (identityOf 1) 0 (tokenOf 0)) exitedRun,
      s.rotation.client = .exited ∧ ¬ s.shared.registry.Registered s.ref := by
  have hopen : (Sessions.start 5 0).step (.registerActive 0 (identityOf 1) 7 (tokenOf 0) 1) =
      some openedSession := rfl
  have hok : rejoin.Along Rejoin.Timely (.start openedSession (identityOf 1) 0 (tokenOf 0))
      exitedRun := by decide
  exact ⟨_, rfl, rfl, rejected_unregistered hopen nofun hok rfl (Or.inr rfl)⟩

/-- The client is back before the server has noticed that it was gone. -/
def earlyRun : List RejoinAction :=
  [.protocol .read 0 2, .protocol .clientLost 0 3, .protocol .connect 1 4,
    .protocol (.reattach (tokenOf 1)) 1 5, .protocol .read 1 6]

/-- **An early reattach is rejected.**  The client presented the current token of the slot under its
own identity; it has dropped the token and given up, and the slot is registered and Active. -/
theorem early_reattach_rejected :
    ∃ s ∈ rejoin.run (.start openedSession (identityOf 1) 0 (tokenOf 0)) earlyRun,
      s.rotation.client = .exited ∧ s.rotation.token = none ∧ s.rotation.slotToken = tokenOf 0 ∧
        s.shared.registry.Registered s.ref ∧
        s.shared.registry.stateOf s.ref = some .active :=
  ⟨_, rfl, rfl, rfl, rfl, by decide, rfl⟩

end Nosh.Reattach
