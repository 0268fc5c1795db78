import Nosh.Server.RegistryRuns

/-!
# Connection tasks

A server runs one accept loop, native or WebTransport.  The loop takes a permit for each
connection it accepts and spawns a task for it; the task authenticates the peer, reads one
frame, and runs `run_session` or `run_reattach_session`.  A `Phase` is a point at which a
task is suspended, so a schedule of the machine `acceptLoop` is an interleaving of the tasks at
their await points.  `orphaning` is the one phase that is not an await point: it lies between
the two atomic sections of `orphan`.

The two loops place their timeout differently.  The native one is around the TLS handshake
alone.  The WebTransport one is around the whole handler, `run_session` included, and when it
fires the task is dropped where it stands.

A task can also die of a panic: `run_session` and `run_reattach_session` expect the start of
the PTY reader to succeed, and `push_output_and_parse` panics on some output.  (They also
expect a child, a file descriptor and a writer, which are there.)

## Main results

* `AcceptLoop.step_task_eq_some`, `moved_of_move` — what a step of a task is made of.
* `Served.step`, `acceptLoop_owned` — **the tasks orphan and mark only slots that they serve**,
  so that the registry under an accept loop has the properties of `RegistryRuns`.
-/

namespace Nosh.Server

open Nosh.Lib Nosh.Proto Nosh.Auth

/-- The accept loop of the server. -/
inductive Transport
  | native
  | webTransport
  deriving DecidableEq

/-- `InnerAuthMode`. -/
inductive InnerAuthMode
  | required
  | testBypass
  deriving DecidableEq

/-- The parameters of an accept loop. -/
structure LoopConfig where
  transport : Transport
  authMode : InnerAuthMode
  maxConcurrent : ℕ
  maxPerIdentity : ℕ
  idleTimeout : ℕ
  deriving DecidableEq

/-- `SessionEnd`. -/
inductive SessionEnd
  | shellExited
  | clientClosed
  | transportLost
  deriving DecidableEq

/-- Where a task is in `run_session` or `run_reattach_session`. -/
inductive Stage
  /-- `run_session`: writing `SessionOpened`. -/
  | writingOpened
  /-- `run_reattach_session`: writing `ReattachOk` with a token candidate. -/
  | writingReattachOk (candidate : ByteArr 16)
  | replaying
  /-- In the loop over `select!`. -/
  | pumping (reattached : Bool)
  /-- Past the loop: draining output, closing the connection, waiting for the pumps. -/
  | leaving (reattached : Bool) (how : SessionEnd)
  deriving DecidableEq

/-- Where a task is suspended. -/
inductive Phase
  /-- Awaiting the handshake. -/
  | handshake
  /-- WebTransport: awaiting `session_request.accept()`. -/
  | accepting
  /-- Awaiting `accept_bi`; the native handshake has given the identity. -/
  | openingStream (identity : Option NoshPublicKey)
  /-- WebTransport: in `run_inner_auth_server`. -/
  | innerAuth
  /-- Awaiting the first frame. -/
  | firstFrame (identity : NoshPublicKey)
  /-- Writing `ReattachErr`. -/
  | rejecting
  | serving (ref : SlotRef) (stage : Stage)
  /-- Between the two sections of `orphan`. -/
  | orphaning (ref : SlotRef)
  | done
  deriving DecidableEq

namespace Phase

/-- The task holds its permit. -/
def holdsPermit : Phase → Bool
  | .handshake | .accepting => true
  | _ => false

/-- The task has given its permit back and does not know its peer. -/
def ungated : Phase → Bool
  | .openingStream none | .innerAuth => true
  | _ => false

/-- The peer is neither authenticated nor refused. -/
def unauthenticated (phase : Phase) : Bool := phase.holdsPermit || phase.ungated

/-- The slot that the task serves. -/
def serves : Phase → Option SlotRef
  | .serving ref _ => some ref
  | _ => none

/-- The task is suspended at an await point. -/
def awaits : Phase → Bool
  | .orphaning _ | .done => false
  | _ => true

end Phase

/-- What happens to a task. -/
inductive TaskEvent
  /-- The handshake resolves; the native one with the identity of the peer. -/
  | resolved (identity : NoshPublicKey)
  | accepted
  | streamOpened
  | authenticated (identity : NoshPublicKey)
  /-- The first frame is `SessionOpen`, and the shell starts. -/
  | sessionOpen (sessionId : Uuid) (token : ByteArr 16) (now : Instant)
  /-- The first frame is `Reattach`; `candidate` is what `mint_token_candidate` gives. -/
  | reattach (token candidate : ByteArr 16)
  /-- The write of `SessionOpened` or `ReattachOk` returns without an error. -/
  | written
  /-- Everything is replayed and the PTY is reclaimed. -/
  | replayed (now : Instant)
  | ended (how : SessionEnd)
  /-- What was awaited past the loop is done. -/
  | left (now : Instant)
  /-- The task has the lock of the registry. -/
  | locked
  /-- What is awaited fails. -/
  | failed (now : Instant)
  /-- The PTY reader does not start, and `expect` panics. -/
  | readerFails (now : Instant)
  /-- `push_output_and_parse` panics on output of the shell. -/
  | outputPanics
  /-- The timeout of the accept loop fires. -/
  | timeout
  deriving DecidableEq

/-- The timeout and the panics: they end a task where it stands. -/
def TaskEvent.cuts : TaskEvent → Bool
  | .timeout | .readerFails _ | .outputPanics => true
  | _ => false

/-- `registry.remove` with the key and the session id of the slot. -/
def removal (registry : SessionRegistry) (ref : SlotRef) : List SessionAction :=
  registry.slots[ref]?.toList.map fun slot => .remove slot.identity.key32 slot.sessionId

/-- What a task does to the registry, and where it is next. -/
def move (config : LoopConfig) (registry : SessionRegistry) (task : TaskId) (phase : Phase) :
    TaskEvent → Option (List SessionAction × Phase)
  | .resolved identity =>
      match config.transport, phase with
      | .native, .handshake => some ([], .openingStream (some identity))
      | .webTransport, .handshake => some ([], .accepting)
      | _, _ => none
  | .accepted =>
      match phase with
      | .accepting => some ([], .openingStream none)
      | _ => none
  | .streamOpened =>
      match phase, config.authMode with
      | .openingStream (some identity), _ => some ([], .firstFrame identity)
      | .openingStream none, .required => some ([], .innerAuth)
      | .openingStream none, .testBypass => some ([], .firstFrame ⟨.replicate 32 0, rfl⟩)
      | _, _ => none
  | .authenticated identity =>
      match phase with
      | .innerAuth => some ([], .firstFrame identity)
      | _ => none
  | .sessionOpen sessionId token now =>
      match phase with
      | .firstFrame identity =>
          some ([.registerActive task identity sessionId token now],
            .serving registry.slots.length .writingOpened)
      | _ => none
  | .reattach token candidate =>
      match phase with
      | .firstFrame identity =>
          match (registry.reattach token identity).1 with
          | .ok ref =>
              some ([.reattach task token identity], .serving ref (.writingReattachOk candidate))
          | .error _ => some ([.reattach task token identity], .rejecting)
      | _ => none
  | .written =>
      match phase with
      | .serving ref .writingOpened => some ([], .serving ref (.pumping false))
      | .serving ref (.writingReattachOk candidate) =>
          some ([.commitToken ref candidate], .serving ref .replaying)
      | _ => none
  | .replayed now =>
      match phase with
      | .serving ref .replaying =>
          some ([.markActive task ref now], .serving ref (.pumping true))
      | _ => none
  | .ended how =>
      match phase with
      | .serving ref (.pumping reattached) => some ([], .serving ref (.leaving reattached how))
      | _ => none
  | .left now =>
      match phase with
      | .serving ref (.leaving _ .transportLost) =>
          some ([.markOrphaned task ref now], .orphaning ref)
      | .serving ref (.leaving false _) => some (removal registry ref ++ [.detach task ref], .done)
      | .serving ref (.leaving true _) => some ([.removeSlot ref, .detach task ref], .done)
      | .rejecting => some ([], .done)
      | _ => none
  | .locked =>
      match phase with
      | .orphaning ref => some ([.orphanLocked task ref], .done)
      | _ => none
  | .failed now =>
      match phase with
      | .handshake | .accepting | .openingStream _ | .innerAuth | .firstFrame _ => some ([], .done)
      | .serving ref .writingOpened => some (removal registry ref ++ [.detach task ref], .done)
      | .serving ref (.writingReattachOk _) | .serving ref .replaying =>
          some ([.markOrphaned task ref now], .orphaning ref)
      | _ => none
  | .readerFails now =>
      match phase with
      | .serving ref .writingOpened => some ([.detach task ref], .done)
      | .serving ref .replaying =>
          some ([.markActive task ref now, .detach task ref], .done)
      | _ => none
  | .outputPanics =>
      match phase with
      -- in the loop, or while the last output is drained
      | .serving ref (.pumping _) | .serving ref (.leaving false .shellExited) =>
          some ([.detach task ref], .done)
      | _ => none
  | .timeout =>
      match config.transport, phase with
      | .native, .handshake => some ([], .done)
      | .native, _ => none
      | .webTransport, phase =>
          if phase.awaits then
            some (phase.serves.toList.map (.detach task), .done)
          else none

/-- An accept loop: the free permits, the tasks, and the registry they use. -/
structure AcceptLoop where
  permits : ℕ
  conns : List Phase
  shared : Sessions

/-- The steps of an accept loop. -/
inductive LoopAction
  /-- A connection comes in. -/
  | accept
  | task (task : TaskId) (event : TaskEvent)
  /-- The watcher of an orphaned session sees the shell exit. -/
  | watcher (ref : SlotRef)
  | reaper (now : Instant) (exited : SlotRef → Bool)
  | touch (ref : SlotRef) (now : Instant)

namespace AcceptLoop

def start (config : LoopConfig) : AcceptLoop where
  permits := config.maxConcurrent
  conns := []
  shared := .start config.maxPerIdentity config.idleTimeout

/-- Take sections of the registry. -/
def perform (s : AcceptLoop) (actions : List SessionAction) : Option AcceptLoop :=
  (sessions.run s.shared actions).map fun shared => { s with shared := shared }

/-- Put a task in another phase; a permit goes back when it is dropped. -/
def enter (s : AcceptLoop) (task : TaskId) (before after : Phase) : AcceptLoop :=
  { s with
    permits := s.permits + if before.holdsPermit ∧ ¬ after.holdsPermit then 1 else 0
    conns := s.conns.set task after }

/-- One step. -/
def step (config : LoopConfig) (s : AcceptLoop) : LoopAction → Option AcceptLoop
  | .accept =>
      -- `try_acquire_owned`; without a permit the connection is dropped
      some (if s.permits = 0 then s
        else { s with permits := s.permits - 1, conns := s.conns ++ [.handshake] })
  | .task task event =>
      s.conns[task]?.bind fun before =>
        (move config s.shared.registry task before event).bind fun (actions, after) =>
          (s.perform actions).map fun s' => s'.enter task before after
  | .watcher ref => s.perform [.removeSlot ref]
  | .reaper now exited => s.perform [.reapOnce now exited]
  | .touch ref now => s.perform [.touch ref now]

end AcceptLoop

/-- The accept loop as a machine. -/
def acceptLoop (config : LoopConfig) : Machine AcceptLoop LoopAction := ⟨AcceptLoop.step config⟩

variable {config : LoopConfig}

variable {actions : List SessionAction} {task : TaskId} {event : TaskEvent}

theorem AcceptLoop.perform_eq_some {s s' : AcceptLoop} :
    s.perform actions = some s' ↔ ∃ after, sessions.run s.shared actions = some after ∧
      s' = { s with shared := after } := by
  unfold AcceptLoop.perform
  rw [Option.map_eq_some_iff]
  constructor
  · rintro ⟨after, hrun, rfl⟩
    exact ⟨after, hrun, rfl⟩
  · rintro ⟨after, hrun, rfl⟩
    exact ⟨after, hrun, rfl⟩

/-- What a step of a task is made of. -/
theorem AcceptLoop.step_task_eq_some {s s' : AcceptLoop}
    (hstep : s.step config (.task task event) = some s') :
    ∃ before actions after shared, s.conns[task]? = some before ∧
      move config s.shared.registry task before event = some (actions, after) ∧
      sessions.run s.shared actions = some shared ∧
      s' = AcceptLoop.enter { s with shared := shared } task before after := by
  rw [AcceptLoop.step, Option.bind_eq_some_iff] at hstep
  obtain ⟨before, hbefore, hstep⟩ := hstep
  rw [Option.bind_eq_some_iff] at hstep
  obtain ⟨⟨actions, after⟩, hmove, hstep⟩ := hstep
  rw [Option.map_eq_some_iff] at hstep
  obtain ⟨mid, hmid, rfl⟩ := hstep
  obtain ⟨shared, hrun, rfl⟩ := AcceptLoop.perform_eq_some.mp hmid
  exact ⟨before, actions, after, shared, hbefore, hmove, hrun, rfl⟩

/-! ## What a task can do -/

/-- The kinds of moves of a task. -/
inductive Moved (registry : SessionRegistry) (task : TaskId) (event : TaskEvent) :
    Phase → List SessionAction → Phase → Prop
  /-- A task without a slot goes on, or ends. -/
  | slotless {before after : Phase} (hbefore : before.serves = none)
      (hafter : after.serves = none) :
      Moved registry task event before [] after
  | goesOn (ref : SlotRef) (stage stage' : Stage) :
      Moved registry task event (.serving ref stage) [] (.serving ref stage')
  | opens (identity : NoshPublicKey) (sessionId : Uuid) (token : ByteArr 16) (now : Instant) :
      Moved registry task event (.firstFrame identity)
        [.registerActive task identity sessionId token now]
        (.serving registry.slots.length .writingOpened)
  | reattaches (identity : NoshPublicKey) (token candidate : ByteArr 16) (ref : SlotRef)
      (hok : (registry.reattach token identity).1 = .ok ref) :
      Moved registry task event (.firstFrame identity) [.reattach task token identity]
        (.serving ref (.writingReattachOk candidate))
  | refused (identity : NoshPublicKey) (token : ByteArr 16) (reject : ReattachReject)
      (herror : (registry.reattach token identity).1 = .error reject) :
      Moved registry task event (.firstFrame identity) [.reattach task token identity] .rejecting
  | commits (ref : SlotRef) (candidate : ByteArr 16) :
      Moved registry task event (.serving ref (.writingReattachOk candidate))
        [.commitToken ref candidate] (.serving ref .replaying)
  | activates (ref : SlotRef) (now : Instant) :
      Moved registry task event (.serving ref .replaying) [.markActive task ref now]
        (.serving ref (.pumping true))
  | orphans (ref : SlotRef) (stage : Stage) (now : Instant) :
      Moved registry task event (.serving ref stage) [.markOrphaned task ref now] (.orphaning ref)
  | removes (ref : SlotRef) (stage : Stage) :
      Moved registry task event (.serving ref stage) (removal registry ref ++ [.detach task ref])
        .done
  | removesSlot (ref : SlotRef) (stage : Stage) :
      Moved registry task event (.serving ref stage) [.removeSlot ref, .detach task ref] .done
  | locks (ref : SlotRef) :
      Moved registry task event (.orphaning ref) [.orphanLocked task ref] .done
  /-- The task is dropped, or panics. -/
  | dropped (ref : SlotRef) (stage : Stage) (hcut : event.cuts = true) :
      Moved registry task event (.serving ref stage) [.detach task ref] .done
  /-- The task panics before the pump of a reattached session. -/
  | panics (ref : SlotRef) (now : Instant) (hcut : event.cuts = true) :
      Moved registry task event (.serving ref .replaying)
        [.markActive task ref now, .detach task ref] .done

/-- **Every move is of one of these kinds.** -/
theorem moved_of_move {registry : SessionRegistry} {before after : Phase}
    (hmove : move config registry task before event = some (actions, after)) :
    Moved registry task event before actions after := by
  unfold move at hmove
  cases event with
  | resolved identity =>
      dsimp only at hmove
      split at hmove <;> cases hmove <;> exact .slotless rfl rfl
  | accepted =>
      dsimp only at hmove
      split at hmove <;> cases hmove
      exact .slotless rfl rfl
  | streamOpened =>
      dsimp only at hmove
      split at hmove <;> cases hmove <;> exact .slotless rfl rfl
  | authenticated identity =>
      dsimp only at hmove
      split at hmove <;> cases hmove
      exact .slotless rfl rfl
  | sessionOpen sessionId token now =>
      dsimp only at hmove
      split at hmove <;> cases hmove
      exact .opens _ sessionId token now
  | reattach token candidate =>
      dsimp only at hmove
      split at hmove
      · split at hmove
        · rename_i ref hok
          cases hmove
          exact .reattaches _ token candidate ref hok
        · rename_i reject herror
          cases hmove
          exact .refused _ token reject herror
      · cases hmove
  | written =>
      dsimp only at hmove
      split at hmove <;> cases hmove
      · exact .goesOn _ _ _
      · exact .commits _ _
  | replayed now =>
      dsimp only at hmove
      split at hmove <;> cases hmove
      exact .activates _ now
  | ended how =>
      dsimp only at hmove
      split at hmove <;> cases hmove
      exact .goesOn _ _ _
  | left now =>
      dsimp only at hmove
      split at hmove <;> cases hmove
      · exact .orphans _ _ now
      · exact .removes _ _
      · exact .removesSlot _ _
      · exact .slotless rfl rfl
  | locked =>
      dsimp only at hmove
      split at hmove <;> cases hmove
      exact .locks _
  | failed now =>
      dsimp only at hmove
      split at hmove <;> cases hmove
      -- before the session functions a failure only ends the task
      iterate 5 exact .slotless rfl rfl
      · exact .removes _ _
      · exact .orphans _ _ now
      · exact .orphans _ _ now
  | readerFails now =>
      dsimp only at hmove
      split at hmove <;> cases hmove
      · exact .dropped _ _ rfl
      · exact .panics _ now rfl
  | outputPanics =>
      dsimp only at hmove
      split at hmove <;> cases hmove <;> exact .dropped _ _ rfl
  | timeout =>
      dsimp only at hmove
      split at hmove
      · cases hmove
        exact .slotless rfl rfl
      · cases hmove
      · split at hmove
        · rename_i phase _ _ _ hawaits
          cases hmove
          cases phase with
          | serving ref stage => exact .dropped ref stage rfl
          | orphaning ref => cases hawaits
          | _ => exact .slotless rfl rfl
        · cases hmove

/-! ## The tasks keep to their own slots -/

/-- What a move of a task does to the record of who serves what: it takes owned sections only,
it serves the slot it says, and it leaves the other tasks alone. -/
structure Keeps (task : TaskId) (after : Phase) (actions : List SessionAction)
    (shared shared' : Sessions) : Prop where
  owned : sessions.Along Sessions.Owned shared actions
  served : ∀ ref, after.serves = some ref → (task, ref) ∈ shared'.attached
  others : ∀ other ref, other ≠ task → (other, ref) ∈ shared.attached →
    (other, ref) ∈ shared'.attached

namespace Keeps

variable {after : Phase} {shared shared' : Sessions} {ref : SlotRef}

section

variable (howned : sessions.Along Sessions.Owned shared actions)

include howned

/-- One section that is not about serving. -/
theorem quiet (hattached : shared'.attached = shared.attached)
    (hserved : ∀ ref, after.serves = some ref → (task, ref) ∈ shared.attached) :
    Keeps task after actions shared shared' :=
  ⟨howned, by rw [hattached]; exact hserved, fun _ _ _ hmem => by rw [hattached]; exact hmem⟩

/-- The task comes to serve a slot. -/
theorem attach (hattached : shared'.attached = (task, ref) :: shared.attached)
    (hserves : ∀ other, after.serves = some other → other = ref) :
    Keeps task after actions shared shared' := by
  refine ⟨howned, fun other hother => ?_, fun other other' _ hmem => ?_⟩
  · rw [hserves other hother, hattached]
    exact List.mem_cons_self
  · rw [hattached]
    exact List.mem_cons_of_mem _ hmem

/-- The task stops serving its slot. -/
theorem release (hattached : shared'.attached = shared.attached.erase (task, ref))
    (hserves : after.serves = none) : Keeps task after actions shared shared' := by
  refine ⟨howned, fun other hother => ?_, fun other other' hne hmem => ?_⟩
  · rw [hserves] at hother
    cases hother
  · rw [hattached]
    refine (List.mem_erase_of_ne ?_).mpr hmem
    exact fun heq => hne (Prod.ext_iff.mp heq).1

end

theorem orphan {now : Instant} (hmem : (task, ref) ∈ shared.attached)
    (hrun : sessions.run shared [.markOrphaned task ref now] = some shared') :
    Keeps task (.orphaning ref) [.markOrphaned task ref now] shared shared' := by
  rw [Machine.run_singleton] at hrun
  have hstep : shared.step (.markOrphaned task ref now) = some shared' := hrun
  obtain ⟨-, rfl⟩ := Sessions.step_markOrphaned hstep
  exact release (sessions.along_singleton.mpr hmem) rfl rfl

theorem remove
    (hrun : sessions.run shared (removal shared.registry ref ++ [.detach task ref]) =
      some shared') :
    Keeps task .done (removal shared.registry ref ++ [.detach task ref]) shared shared' := by
  unfold removal at hrun ⊢
  cases hslot : shared.registry.slots[ref]? with
  | none =>
      rw [hslot] at hrun
      cases hrun
      exact release (sessions.along_singleton.mpr trivial) rfl rfl
  | some slot =>
      rw [hslot] at hrun
      cases hrun
      exact release ⟨trivial, trivial, trivial⟩ rfl rfl

end Keeps

/-- **The tasks keep to their own slots**, whatever happens to them. -/
theorem Moved.keeps {before after : Phase} {shared shared' : Sessions}
    (hmoved : Moved shared.registry task event before actions after)
    (hserved : ∀ ref, before.serves = some ref → (task, ref) ∈ shared.attached)
    (hrun : sessions.run shared actions = some shared') :
    Keeps task after actions shared shared' := by
  have hone : ∀ {a : SessionAction}, actions = [a] → shared.step a = some shared' := by
    rintro a rfl
    rw [Machine.run_singleton] at hrun
    exact hrun
  cases hmoved with
  | slotless _ hafter =>
      cases hrun
      exact .quiet trivial rfl fun ref href => by rw [hafter] at href; cases href
  | goesOn ref stage stage' =>
      cases hrun
      exact .quiet trivial rfl hserved
  | opens identity sessionId token now =>
      obtain ⟨-, rfl⟩ := Sessions.step_registerActive (hone rfl)
      exact .attach (sessions.along_singleton.mpr trivial) rfl
        fun other hother => (Option.some.inj hother).symm
  | reattaches identity token candidate ref hok =>
      obtain ⟨got, hgot, rfl⟩ | ⟨reject, hgot, -⟩ := Sessions.step_reattach (hone rfl)
      · rw [hgot] at hok
        cases hok
        exact .attach (sessions.along_singleton.mpr trivial) rfl
          fun other hother => (Option.some.inj hother).symm
      · rw [hgot] at hok
        cases hok
  | refused identity token reject herror =>
      obtain ⟨got, hgot, -⟩ | ⟨reject', -, rfl⟩ := Sessions.step_reattach (hone rfl)
      · rw [hgot] at herror
        cases herror
      · exact .quiet (sessions.along_singleton.mpr trivial) rfl fun _ hserves => by cases hserves
  | commits ref candidate =>
      cases hrun
      exact .quiet (sessions.along_singleton.mpr trivial) rfl hserved
  | activates ref now =>
      cases hrun
      exact .quiet (sessions.along_singleton.mpr (hserved ref rfl)) rfl hserved
  | orphans ref stage now => exact .orphan (hserved ref rfl) hrun
  | removes ref stage => exact .remove hrun
  | removesSlot ref stage =>
      cases hrun
      exact .release ⟨trivial, trivial, trivial⟩ rfl rfl
  | locks ref =>
      obtain ⟨-, rfl⟩ := Sessions.step_orphanLocked (hone rfl)
      exact .quiet (sessions.along_singleton.mpr trivial) rfl fun _ hserves => by cases hserves
  | dropped ref stage _ =>
      cases hrun
      exact .release (sessions.along_singleton.mpr trivial) rfl rfl
  | panics ref now _ =>
      cases hrun
      exact .release ⟨hserved ref rfl, trivial, trivial⟩ rfl rfl

/-- The tasks serve the slots that they are recorded for, and the registry was brought where it is
by owned sections. -/
structure Served (config : LoopConfig) (s : AcceptLoop) : Prop where
  served : ∀ task phase ref, s.conns[task]? = some phase → phase.serves = some ref →
    (task, ref) ∈ s.shared.attached
  owned : ∃ sections, sessions.run (.start config.maxPerIdentity config.idleTimeout) sections =
    some s.shared ∧ sessions.Along Sessions.Owned
      (.start config.maxPerIdentity config.idleTimeout) sections

namespace Served

variable {s s' : AcceptLoop}

theorem start (config : LoopConfig) : Served config (.start config) :=
  ⟨nofun, [], rfl, trivial⟩

/-- Owned sections follow owned sections. -/
theorem append (h : Served config s) {shared : Sessions}
    (hrun : sessions.run s.shared actions = some shared)
    (howned : sessions.Along Sessions.Owned s.shared actions) :
    ∃ sections, sessions.run (.start config.maxPerIdentity config.idleTimeout) sections =
      some shared ∧ sessions.Along Sessions.Owned
        (.start config.maxPerIdentity config.idleTimeout) sections := by
  obtain ⟨sections, hsections, hall⟩ := h.owned
  refine ⟨sections ++ actions, ?_, (sessions.along_append hsections).mpr ⟨hall, howned⟩⟩
  rw [Machine.run_append, hsections]
  exact hrun

/-- A section of the watcher, the reaper or the pump. -/
theorem perform (h : Served config s) {a : SessionAction}
    (hperform : s.perform [a] = some s') (howned : s.shared.Owned a)
    (hattached : ∀ shared, s.shared.step a = some shared →
      shared.attached = s.shared.attached) : Served config s' := by
  obtain ⟨shared, hrun, rfl⟩ := AcceptLoop.perform_eq_some.mp hperform
  refine ⟨fun task phase ref hphase hserves => ?_,
    h.append hrun (sessions.along_singleton.mpr howned)⟩
  rw [Machine.run_singleton] at hrun
  show (task, ref) ∈ shared.attached
  rw [hattached shared hrun]
  exact h.served task phase ref hphase hserves

theorem step {a : LoopAction} (h : Served config s) (hstep : s.step config a = some s') :
    Served config s' := by
  cases a with
  | accept =>
      cases hstep
      split
      · exact h
      · refine ⟨fun task phase ref hphase hserves => ?_, h.owned⟩
        rcases lt_or_ge task s.conns.length with hlt | hge
        · rw [List.getElem?_append_left hlt] at hphase
          exact h.served task phase ref hphase hserves
        · rw [List.getElem?_append_right hge] at hphase
          obtain rfl : phase = .handshake := by
            simpa using List.mem_of_getElem? hphase
          cases hserves
  | task task event =>
      obtain ⟨before, actions, after, shared, hbefore, hmove, hrun, rfl⟩ :=
        AcceptLoop.step_task_eq_some hstep
      have hkeeps := (moved_of_move hmove).keeps (fun ref => h.served task before ref hbefore) hrun
      refine ⟨fun other phase ref hphase hserves => ?_, h.append hrun hkeeps.owned⟩
      have hphase : (s.conns.set task after)[other]? = some phase := hphase
      by_cases hsame : task = other
      · subst hsame
        rw [List.getElem?_set_self (List.getElem?_eq_some_iff.mp hbefore).choose] at hphase
        cases hphase
        exact hkeeps.served ref hserves
      · rw [List.getElem?_set_ne hsame] at hphase
        exact hkeeps.others other ref (Ne.symm hsame) (h.served other phase ref hphase hserves)
  | watcher ref =>
      refine h.perform hstep trivial fun shared hshared => ?_
      cases hshared
      rfl
  | reaper now exited =>
      refine h.perform hstep trivial fun shared hshared => ?_
      cases hshared
      rfl
  | touch ref now =>
      refine h.perform hstep trivial fun shared hshared => ?_
      cases hshared
      rfl

end Served

/-- **The registry under an accept loop is used by its owners only**, so that what holds of every
such use of the registry holds of it. -/
theorem acceptLoop_owned (config : LoopConfig) {schedule : List LoopAction} {s : AcceptLoop}
    (hrun : (acceptLoop config).run (.start config) schedule = some s) :
    ∃ sections, sessions.run (.start config.maxPerIdentity config.idleTimeout) sections =
      some s.shared ∧ sessions.Along Sessions.Owned
        (.start config.maxPerIdentity config.idleTimeout) sections :=
  ((acceptLoop config).invariant_run (Served config) (fun _ _ _ h hstep => h.step hstep)
    (.start config) hrun).owned

/-- A native server for one unauthenticated connection at a time. -/
def nativeConfig : LoopConfig := ⟨.native, .required, 1, 5, 0⟩

/-- A peer opens a session and is lost, and comes back for it on a second connection. -/
def lostAndReattached : List LoopAction :=
  [.accept, .task 0 (.resolved ⟨.replicate 32 0⟩), .task 0 .streamOpened,
    .task 0 (.sessionOpen 7 (.replicate 16 0) 1), .task 0 .written,
    .task 0 (.ended .transportLost), .task 0 (.left 2), .task 0 .locked,
    .accept, .task 1 (.resolved ⟨.replicate 32 0⟩), .task 1 .streamOpened,
    .task 1 (.reattach (.replicate 16 0) (.replicate 16 1)), .task 1 .written,
    .task 1 (.replayed 3)]

theorem acceptLoop_owned_lostAndReattached :
    ∃ s, (acceptLoop nativeConfig).run (.start nativeConfig) lostAndReattached = some s ∧
      s.shared.registry.stateOf 0 = some .active ∧
      ∃ sections, sessions.run (.start 5 0) sections = some s.shared ∧
        sessions.Along Sessions.Owned (.start 5 0) sections :=
  ⟨_, rfl, rfl, @acceptLoop_owned nativeConfig lostAndReattached _ rfl⟩

end Nosh.Server
