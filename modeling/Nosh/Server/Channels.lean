import Nosh.Lib.Machine
import Nosh.Proto.Message

/-!
# Channels and their tasks

The pump of `run_session` keeps a map from channel ids to the event queues of the tasks that
serve them. A task that ends puts a `ChannelClose` with its id on the control queue; the pump
takes it from there, removes the id from the map and writes the frame to the client. The frame
carries an id and not an opening of it, so the model gives each accepted opening a generation,
the position of its task in `Channels.tasks`, and notes on the control queue which generation
has sent a frame.

The pump and the tasks interleave freely. A send that waits for room in a queue is an action that
is not possible yet.

## Main Definitions

* `Channels.step` — one arm of the pump, or one step of a task
* `Channels.Effect` — what each action finds and leaves
* `Channels.ReusesClosed` — an id is opened again only after the client has been told that every
  earlier opening of it is closed

## Main Results

* `Accounted.step` — every accepted opening is served by a task, has its close on the control
  queue, or has been reported closed, once.
* `closes_own` — under `ReusesClosed`, a close removes and reports the channel of the task that
  sent it and no other.
-/

namespace Nosh.Server

open Lib Proto

/-- `MAX_OPEN_CHANNELS`. -/
def maxOpenChannels : ℕ := 64

/-- The capacity of the control queue and of the event queue of a task. -/
def channelQueueCap : ℕ := 64

/-- `ChannelEvent`; the streams themselves are not modelled. -/
inductive ChannelEvent
  | stream
  | credit (bytes : UInt64)
  | close
  deriving DecidableEq, Repr

/-- Where a channel task is. -/
inductive TaskPhase
  /-- Waiting for its stream. -/
  | waiting
  /-- In its body. -/
  | serving
  /-- Past its body, before the send of `ChannelClose`. -/
  | closing
  | ended
  deriving DecidableEq, Repr

/-- `run_channel_task` or the scrollback sender, with its event queue. -/
structure ChannelTask where
  channelId : UInt32
  events : List ChannelEvent
  phase : TaskPhase
  deriving DecidableEq, Repr

/-- A task that has just been spawned. -/
def ChannelTask.spawn (channelId : UInt32) : ChannelTask := ⟨channelId, [], .waiting⟩

/-- A task takes an event. Credit has no influence on when the task closes, and a second stream
is ignored. -/
def ChannelTask.handle (task : ChannelTask) : ChannelEvent → TaskPhase
  | .stream => .serving
  | .credit _ => task.phase
  | .close => .closing

/-- The channel part of the session pump, and the tasks it has spawned. -/
structure Channels where
  /-- `channel_map`: ids and the generation whose queue is behind them. -/
  channelMap : List (UInt32 × ℕ)
  /-- Every task spawned so far; the position is the generation. -/
  tasks : List ChannelTask
  /-- The `ChannelClose` frames on the control queue, with the generation that sent them. -/
  control : List (UInt32 × ℕ)
  /-- The frames written to the client. -/
  written : List Message
  running : Bool
  deriving DecidableEq

/-- What the pump and the tasks do. A flag says whether the frame written to the client in this
arm got out. -/
inductive ChannelAction
  | channelOpen (channelId : UInt32) (channelType : ChannelType) (sent : Bool)
  | channelClose (channelId : UInt32)
  /-- `ChannelCredit` or `ScrollbackCredit`. -/
  | channelCredit (channelId : UInt32) (bytes : UInt64)
  /-- `accept_bi` gives a stream for the id. -/
  | acceptBi (channelId : UInt32)
  /-- The pump takes a frame from the control queue. -/
  | control (sent : Bool)
  /-- The pump ends for a reason outside this model. -/
  | transportLost
  /-- A task takes the next event, or learns that there will be none. -/
  | recv (generation : ℕ)
  /-- The body of a task ends by itself: end of stream, an error or a timeout. -/
  | finish (generation : ℕ)
  /-- A task sends its `ChannelClose`. -/
  | notify (generation : ℕ)
  deriving DecidableEq

/-- Which types are accepted; `Echo` only in test builds. -/
def acceptsType (testSupport : Bool) : ChannelType → Bool
  | .portForward => false
  | .agentForward => false
  | .scrollback => true
  | .echo => testSupport

namespace Channels

variable {generation : ℕ} {task : ChannelTask} {testSupport : Bool} {s s' : Channels}
    {a : ChannelAction} {l : List (UInt32 × Bool)} {channelId : UInt32}

/-- A session without channels. -/
def new : Channels := ⟨[], [], [], [], true⟩

/-- `channel_map.get`. -/
def get (s : Channels) (channelId : UInt32) : Option ℕ := s.channelMap.lookup channelId

/-- `channel_map.remove`; the removed queue loses its sender. -/
def remove (s : Channels) (channelId : UInt32) : Channels :=
  { s with channelMap := s.channelMap.filter fun entry => entry.1 ≠ channelId }

/-- The session ends: the map is dropped with it. -/
def lost (s : Channels) : Channels := { s with channelMap := [], running := false }

/-- Write a frame, unless the write fails. -/
def write (s : Channels) (sent : Bool) (frame : Message) : Channels :=
  if sent then { s with written := s.written ++ [frame] } else s

/-- `task_tx.send(ev).await`: an ended task has dropped its receiver, a full queue waits. -/
def send (s : Channels) (generation : ℕ) (ev : ChannelEvent) : Option Channels :=
  match s.tasks[generation]? with
  | none => none
  | some task =>
      if task.phase = .ended then some s
      else if task.events.length < channelQueueCap then
        some { s with
          tasks := s.tasks.set generation { task with events := task.events ++ [ev] } }
      else none

/-- `task_tx.try_send(ev)`, the result ignored. -/
def trySend (s : Channels) (generation : ℕ) (ev : ChannelEvent) : Channels :=
  (s.send generation ev).getD s

/-- The `ChannelOpen` frame passes all checks. -/
def Accepts (testSupport : Bool) (s : Channels) (channelId : UInt32) (channelType : ChannelType) :
    Prop :=
  channelId % 2 = 0 ∧ s.get channelId = none ∧ s.channelMap.length < maxOpenChannels ∧
    acceptsType testSupport channelType = true

instance (testSupport : Bool) (s : Channels) (channelId : UInt32) (channelType : ChannelType) :
    Decidable (s.Accepts testSupport channelId channelType) :=
  inferInstanceAs (Decidable (_ ∧ _ ∧ _ ∧ _))

/-- `ChannelAccept` is written and the task is spawned. -/
def opened (s : Channels) (channelId : UInt32) : Channels :=
  { s with
    channelMap := (channelId, s.tasks.length) :: s.channelMap
    tasks := s.tasks ++ [.spawn channelId]
    written := s.written ++ [.channelAccept channelId] }

/-- `ChannelOpen`: an odd id is ignored, a failed check answers `ChannelReject`, otherwise
the channel is opened. -/
def channelOpen (testSupport : Bool) (s : Channels) (channelId : UInt32)
    (channelType : ChannelType) (sent : Bool) : Channels :=
  if channelId % 2 ≠ 0 then s
  else if s.Accepts testSupport channelId channelType then
    if sent then s.opened channelId else s.lost
  else s.write sent (.channelReject channelId)

/-- `ChannelClose` from the client. -/
def channelClose (s : Channels) (channelId : UInt32) : Option Channels :=
  match s.get channelId with
  | none => some s
  | some generation => (s.remove channelId).send generation .close

/-- `ChannelCredit` and `ScrollbackCredit`. -/
def channelCredit (s : Channels) (channelId : UInt32) (bytes : UInt64) : Channels :=
  match s.get channelId with
  | none => s
  | some generation => s.trySend generation (.credit bytes)

/-- A stream for an id without a task is reset. -/
def acceptBi (s : Channels) (channelId : UInt32) : Option Channels :=
  match s.get channelId with
  | none => some s
  | some generation => s.send generation .stream

/-- The pump takes a close from the control queue and forwards it. -/
def drained (s : Channels) (channelId : UInt32) (rest : List (UInt32 × ℕ)) : Channels :=
  ({ s with control := rest }.remove channelId).write true (.channelClose channelId)

/-- The `channel_ctrl_rx` arm. -/
def controlArm (s : Channels) (sent : Bool) : Option Channels :=
  match s.control with
  | [] => none
  | (channelId, _) :: rest =>
      some (if sent then s.drained channelId rest
        else ({ s with control := rest }.remove channelId).lost)

/-- A task takes an event. It learns that there will be none when its queue is empty and the
sender has left the map. -/
def recv (s : Channels) (generation : ℕ) : Option Channels :=
  match s.tasks[generation]? with
  | none => none
  | some task =>
      if task.phase = .waiting ∨ task.phase = .serving then
        match task.events with
        | ev :: events =>
            some { s with
              tasks := s.tasks.set generation ⟨task.channelId, events, task.handle ev⟩ }
        | [] =>
            -- `events.recv()` waits while the map holds the sender
            if (task.channelId, generation) ∈ s.channelMap then none
            else some { s with tasks := s.tasks.set generation ⟨task.channelId, [], .closing⟩ }
      else none

/-- The body of a task ends by itself. -/
def finish (s : Channels) (generation : ℕ) : Option Channels :=
  match s.tasks[generation]? with
  | none => none
  | some task =>
      if task.phase = .serving then
        some { s with tasks := s.tasks.set generation { task with phase := .closing } }
      else none

/-- A task ends. -/
def ended (s : Channels) (generation : ℕ) (task : ChannelTask) : Channels :=
  { s with tasks := s.tasks.set generation { task with phase := .ended } }

/-- A task ends with its close on the control queue. -/
def notified (s : Channels) (generation : ℕ) (task : ChannelTask) : Channels :=
  { s.ended generation task with control := s.control ++ [(task.channelId, generation)] }

/-- A task sends `ChannelClose`; nobody receives it once the pump is gone. -/
def notify (s : Channels) (generation : ℕ) : Option Channels :=
  match s.tasks[generation]? with
  | none => none
  | some task =>
      if task.phase = .closing then
        if s.running then
          if s.control.length < channelQueueCap then some (s.notified generation task) else none
        else some (s.ended generation task)
      else none

/-- One action; the pump's actions need the pump. -/
def step (testSupport : Bool) (s : Channels) : ChannelAction → Option Channels
  | .channelOpen channelId channelType sent =>
      if s.running then some (s.channelOpen testSupport channelId channelType sent) else none
  | .channelClose channelId => if s.running then s.channelClose channelId else none
  | .channelCredit channelId bytes =>
      if s.running then some (s.channelCredit channelId bytes) else none
  | .acceptBi channelId => if s.running then s.acceptBi channelId else none
  | .control sent => if s.running then s.controlArm sent else none
  | .transportLost => if s.running then some s.lost else none
  | .recv generation => s.recv generation
  | .finish generation => s.finish generation
  | .notify generation => s.notify generation

/-- The life of the channels of a session. -/
def life (testSupport : Bool) : Machine Channels ChannelAction := ⟨step testSupport⟩

/-! ## What an action does to the openings -/

/-- The opening that a task serves, and whether the task is alive. -/
def opening (task : ChannelTask) : UInt32 × Bool := (task.channelId, task.phase ≠ .ended)

/-- The openings so far, by generation. -/
def openings (s : Channels) : List (UInt32 × Bool) := s.tasks.map opening

/-- An action that touches no opening: queues, phases and the map may change, but nothing enters
the map. -/
structure Quiet (s s' : Channels) : Prop where
  running : s'.running = s.running
  openings : s'.openings = s.openings
  control : s'.control = s.control
  mapped : ∀ entry ∈ s'.channelMap, entry ∈ s.channelMap
  accepts : ∀ channelId,
    s'.written.count (.channelAccept channelId) = s.written.count (.channelAccept channelId)
  closes : ∀ channelId,
    s'.written.count (.channelClose channelId) = s.written.count (.channelClose channelId)

theorem Quiet.refl (s : Channels) : s.Quiet s :=
  ⟨rfl, rfl, rfl, fun _ h => h, fun _ => rfl, fun _ => rfl⟩

/-- A task changes without ending. -/
theorem openings_set {tasks : List ChannelTask} {task' : ChannelTask}
    (hget : tasks[generation]? = some task) (hsame : opening task' = opening task) :
    (tasks.set generation task').map opening = tasks.map opening := by
  obtain ⟨hlt, rfl⟩ := List.getElem?_eq_some_iff.mp hget
  rw [List.map_set, hsame, ← List.getElem_map opening (h := by simpa using hlt),
    List.set_getElem_self]

/-- What the actions find and leave. -/
inductive Effect (testSupport : Bool) (s : Channels) : ChannelAction → Channels → Prop
  /-- Events and phases of the tasks move, and the map may lose an entry. -/
  | quiet {a : ChannelAction} {channelMap : List (UInt32 × ℕ)} {tasks : List ChannelTask}
      (hmap : channelMap.Sublist s.channelMap) (htasks : tasks.map opening = s.openings) :
      Effect testSupport s a { s with channelMap := channelMap, tasks := tasks }
  | reject {a : ChannelAction} (channelId : UInt32) :
      Effect testSupport s a { s with written := s.written ++ [.channelReject channelId] }
  | opened {channelId : UInt32} {channelType : ChannelType} (hrunning : s.running = true)
      (haccepts : s.Accepts testSupport channelId channelType) :
      Effect testSupport s (.channelOpen channelId channelType true) (s.opened channelId)
  /-- The session ends. -/
  | lost {a : ChannelAction} (control : List (UInt32 × ℕ)) :
      Effect testSupport s a (Channels.lost { s with control := control })
  | drained {entry : UInt32 × ℕ} {rest : List (UInt32 × ℕ)} (hcontrol : s.control = entry :: rest) :
      Effect testSupport s (.control true) (s.drained entry.1 rest)
  | notified {generation : ℕ} {task : ChannelTask} (hget : s.tasks[generation]? = some task)
      (hphase : task.phase = .closing) :
      Effect testSupport s (.notify generation) (s.notified generation task)
  /-- A task ends after the session. -/
  | ended {generation : ℕ} (task : ChannelTask) (hstopped : ¬ s.running = true) :
      Effect testSupport s (.notify generation) (s.ended generation task)

theorem Effect.refl (a : ChannelAction) : Effect testSupport s a s := .quiet (.refl _) rfl

theorem Effect.of_tasks {tasks : List ChannelTask} (htasks : tasks.map opening = s.openings) :
    Effect testSupport s a { s with tasks := tasks } := .quiet (.refl _) htasks

/-- A send changes the queue of a task. -/
theorem send_tasks {ev : ChannelEvent} (hs : s.send generation ev = some s') :
    ∃ tasks, tasks.map opening = s.openings ∧ s' = { s with tasks := tasks } := by
  unfold send at hs
  split at hs
  · cases hs
  · rename_i task hget
    split at hs
    · cases hs
      exact ⟨s.tasks, rfl, rfl⟩
    · split at hs
      · cases hs
        refine ⟨_, ?_, rfl⟩
        exact openings_set hget rfl
      · cases hs

theorem send_effect {ev : ChannelEvent} (hs : s.send generation ev = some s') :
    Effect testSupport s a s' := by
  obtain ⟨tasks, htasks, rfl⟩ := send_tasks hs
  exact .of_tasks htasks

theorem channelOpen_effect (hrunning : s.running = true) (channelId : UInt32)
    (channelType : ChannelType) (sent : Bool) :
    Effect testSupport s (.channelOpen channelId channelType sent)
      (s.channelOpen testSupport channelId channelType sent) := by
  unfold channelOpen
  split
  · exact .refl _
  · split
    · rename_i haccepts
      cases sent with
      | true => exact .opened hrunning haccepts
      | false => exact .lost s.control
    · cases sent with
      | true => exact .reject channelId
      | false => exact .refl _

theorem channelClose_effect (hs : s.channelClose channelId = some s') :
    Effect testSupport s (.channelClose channelId) s' := by
  unfold channelClose at hs
  split at hs
  · cases hs
    exact .refl _
  · obtain ⟨tasks, htasks, rfl⟩ := send_tasks hs
    exact .quiet List.filter_sublist htasks

theorem channelCredit_effect (channelId : UInt32) (bytes : UInt64) :
    Effect testSupport s (.channelCredit channelId bytes) (s.channelCredit channelId bytes) := by
  unfold channelCredit
  split
  · exact .refl _
  · rename_i generation hget
    unfold trySend
    cases hs : s.send generation (.credit bytes) with
    | none => exact .refl _
    | some s' => exact send_effect hs

theorem acceptBi_effect (hs : s.acceptBi channelId = some s') :
    Effect testSupport s (.acceptBi channelId) s' := by
  unfold acceptBi at hs
  split at hs
  · cases hs
    exact .refl _
  · exact send_effect hs

theorem controlArm_effect {sent : Bool} (hs : s.controlArm sent = some s') :
    Effect testSupport s (.control sent) s' := by
  unfold controlArm at hs
  split at hs
  · cases hs
  · rename_i hcontrol
    cases hs
    cases sent with
    | true => exact .drained hcontrol
    | false => exact .lost _

theorem recv_effect (hs : s.recv generation = some s') :
    Effect testSupport s (.recv generation) s' := by
  unfold recv at hs
  split at hs
  · cases hs
  · rename_i task hget
    split at hs
    · rename_i hphase
      have halive : opening task = (task.channelId, true) := by
        rcases hphase with hphase | hphase <;> simp [opening, hphase]
      split at hs
      · rename_i ev events hevents
        cases hs
        refine .of_tasks (openings_set hget ?_)
        rw [halive]
        cases ev with
        | stream => rfl
        | credit bytes => exact halive
        | close => rfl
      · split at hs
        · cases hs
        · cases hs
          exact .of_tasks (openings_set hget halive.symm)
    · cases hs

theorem finish_effect (hs : s.finish generation = some s') :
    Effect testSupport s (.finish generation) s' := by
  unfold finish at hs
  split at hs
  · cases hs
  · rename_i task hget
    split at hs
    · rename_i hphase
      cases hs
      refine .of_tasks (openings_set hget ?_)
      simp [opening, hphase]
    · cases hs

theorem notify_effect (hs : s.notify generation = some s') :
    Effect testSupport s (.notify generation) s' := by
  unfold notify at hs
  split at hs
  · cases hs
  · rename_i task hget
    split at hs
    · rename_i hphase
      split at hs
      · split at hs
        · cases hs
          exact .notified hget hphase
        · cases hs
      · rename_i hstopped
        cases hs
        exact .ended task hstopped
    · cases hs

/-- **Every action is one of these.** -/
theorem step_effect (hs : s.step testSupport a = some s') : Effect testSupport s a s' := by
  have hpump : ∀ {next : Option Channels}, (if s.running then next else none) = some s' →
      s.running = true ∧ next = some s' := by
    intro next hnext
    split at hnext
    · exact ⟨‹_›, hnext⟩
    · cases hnext
  cases a with
  | channelOpen channelId channelType sent =>
      obtain ⟨hrunning, hs⟩ := hpump hs
      cases hs
      exact channelOpen_effect hrunning channelId channelType sent
  | channelClose channelId => exact channelClose_effect (hpump hs).2
  | channelCredit channelId bytes =>
      cases (hpump hs).2
      exact channelCredit_effect channelId bytes
  | acceptBi channelId => exact acceptBi_effect (hpump hs).2
  | control sent => exact controlArm_effect (hpump hs).2
  | transportLost =>
      cases (hpump hs).2
      exact .lost s.control
  | recv generation => exact recv_effect hs
  | finish generation => exact finish_effect hs
  | notify generation => exact notify_effect hs

/-- **What an action does.** It is quiet, opens a channel, puts a close on the control queue,
takes one from it, or ends the pump. -/
theorem step_cases (hs : s.step testSupport a = some s') (hrunning : s'.running = true) :
    s.Quiet s' ∨
    (∃ channelId channelType, a = .channelOpen channelId channelType true ∧
      s.Accepts testSupport channelId channelType ∧
      s' = s.opened channelId) ∨
    (∃ generation task, s.tasks[generation]? = some task ∧ task.phase = .closing ∧
      s' = s.notified generation task) ∨
    (∃ entry rest, s.control = entry :: rest ∧ s' = s.drained entry.1 rest) := by
  cases step_effect hs with
  | quiet hmap htasks =>
      exact Or.inl { Quiet.refl s with
        openings := htasks
        mapped := fun _ hentry => hmap.subset hentry }
  | reject channelId =>
      refine Or.inl { Quiet.refl s with accepts := fun id => ?_, closes := fun id => ?_ }
      · simp
      · simp
  | opened _ haccepts => exact Or.inr (Or.inl ⟨_, _, rfl, haccepts, rfl⟩)
  | lost control => cases hrunning
  | drained hcontrol => exact Or.inr (Or.inr (Or.inr ⟨_, _, hcontrol, rfl⟩))
  | notified hget hphase => exact Or.inr (Or.inr (Or.inl ⟨_, _, hget, hphase, rfl⟩))
  | ended task hstopped => exact absurd hrunning hstopped

/-! ## Accounting for the openings -/

/-- The generation is the last opening of the id. -/
def Newest (s : Channels) (channelId : UInt32) (generation : ℕ) : Prop :=
  ∀ later alive, generation < later → s.openings[later]? ≠ some (channelId, alive)

/-- Every accepted opening is served by a live task, has its close on the control queue, or has
been reported closed to the client, exactly one of the three. The map leads to the last opening
of an id. -/
structure Accounted (s : Channels) : Prop where
  mapped : ∀ entry ∈ s.channelMap, (∃ alive, s.openings[entry.2]? = some (entry.1, alive)) ∧
    s.Newest entry.1 entry.2
  queued : ∀ entry ∈ s.control, s.openings[entry.2]? = some (entry.1, false)
  balance : ∀ channelId,
    s.written.count (.channelAccept channelId) =
      s.written.count (.channelClose channelId) + (s.control.map Prod.fst).count channelId +
        s.openings.count (channelId, true)

/-- An opening that is not yet reported closed is the last opening of its id. -/
def Exclusive (s : Channels) : Prop :=
  ∀ channelId generation,
    (s.openings[generation]? = some (channelId, true) ∨ (channelId, generation) ∈ s.control) →
      s.Newest channelId generation

theorem accounted_new : new.Accounted where
  mapped := fun _ h => (List.not_mem_nil h).elim
  queued := fun _ h => (List.not_mem_nil h).elim
  balance := fun _ => rfl

theorem exclusive_new : new.Exclusive := by
  rintro channelId generation (h | h)
  · cases h
  · cases h

section Quiet

variable (hq : s.Quiet s')
include hq

theorem Quiet.newest_iff (channelId : UInt32) (generation : ℕ) :
    s'.Newest channelId generation ↔ s.Newest channelId generation := by
  unfold Newest
  rw [hq.openings]

theorem Accounted.quiet (h : s.Accounted) : s'.Accounted where
  mapped := by
    intro entry hentry
    rw [hq.openings, hq.newest_iff]
    exact h.mapped entry (hq.mapped entry hentry)
  queued := by
    rw [hq.control, hq.openings]
    exact h.queued
  balance := by
    intro channelId
    rw [hq.accepts, hq.closes, hq.control, hq.openings]
    exact h.balance channelId

theorem Exclusive.quiet (h : s.Exclusive) : s'.Exclusive := by
  intro channelId generation
  rw [hq.openings, hq.control, hq.newest_iff]
  exact h channelId generation

end Quiet

@[simp] theorem openings_opened (s : Channels) (channelId : UInt32) :
    (s.opened channelId).openings = s.openings ++ [(channelId, true)] := by
  unfold openings opened
  rw [List.map_append]
  rfl

@[simp] theorem openings_notified (s : Channels) (generation : ℕ) (task : ChannelTask) :
    (s.notified generation task).openings =
      s.openings.set generation (task.channelId, false) := by
  unfold openings notified ended
  rw [List.map_set]
  rfl

theorem openings_length (s : Channels) : s.openings.length = s.tasks.length := List.length_map _

/-- A new opening comes after the others. -/
theorem newest_append {new : UInt32}
    (h : ∀ later alive, generation < later → l[later]? ≠ some (channelId, alive))
    (hne : new ≠ channelId ∨ l.length ≤ generation) :
    ∀ later alive, generation < later →
      (l ++ [(new, true)])[later]? ≠ some (channelId, alive) := by
  intro later alive hlt hget
  by_cases hold : later < l.length
  · rw [List.getElem?_append_left hold] at hget
    exact h later alive hlt hget
  · rw [List.getElem?_append_right (Nat.le_of_not_lt hold)] at hget
    obtain ⟨hzero, hsame⟩ := List.getElem?_eq_some_iff.mp hget
    have hindex : later - l.length = 0 := by simpa using hzero
    simp only [hindex, List.getElem_cons_zero, Prod.mk.injEq] at hsame
    rcases hne with hne | hle
    · exact hne hsame.1
    · omega

theorem getElem?_append_of_some {i : ℕ} {x : UInt32 × Bool} (h : l[i]? = some x)
    (y : UInt32 × Bool) : (l ++ [y])[i]? = some x := by
  rw [List.getElem?_append_left (List.getElem?_eq_some_iff.mp h).1]
  exact h

theorem get_eq_none_iff : s.get channelId = none ↔ ∀ entry ∈ s.channelMap, entry.1 ≠ channelId := by
  unfold get
  rw [List.lookup_eq_none_iff]
  simp [ne_comm]

theorem mem_of_get (h : s.get channelId = some generation) :
    (channelId, generation) ∈ s.channelMap := by
  unfold get at h
  rw [List.lookup_eq_some_iff] at h
  obtain ⟨before, after, hmap, -⟩ := h
  rw [hmap]
  simp

/-- An opening is accepted. -/
theorem Accounted.opened (h : s.Accounted) (hfree : s.get channelId = none) :
    (s.opened channelId).Accounted where
  mapped := by
    intro entry hentry
    unfold Newest
    rw [openings_opened]
    rcases List.mem_cons.mp hentry with rfl | hold
    · -- the new opening is the last of all
      refine ⟨⟨true, ?_⟩, newest_append ?_ (Or.inr s.openings_length.le)⟩
      · rw [← s.openings_length]
        exact List.getElem?_concat_length
      · intro later alive hlt hget
        have hbound := (List.getElem?_eq_some_iff.mp hget).1
        rw [s.openings_length] at hbound
        exact absurd hbound (Nat.lt_asymm hlt)
    · -- the id was free, so the other entries are of other ids
      obtain ⟨⟨alive, hget⟩, hnewest⟩ := h.mapped entry hold
      have hne := get_eq_none_iff.mp hfree entry hold
      exact ⟨⟨alive, getElem?_append_of_some hget _⟩, newest_append hnewest (Or.inl hne.symm)⟩
  queued := by
    intro entry hentry
    rw [openings_opened]
    exact getElem?_append_of_some (h.queued entry hentry) _
  balance := by
    intro id
    have hbalance := h.balance id
    have hclose : List.count (.channelClose id) [Message.channelAccept channelId] = 0 := by simp
    have hsame : List.count (.channelAccept id) [Message.channelAccept channelId] =
        List.count (id, true) [(channelId, true)] := by
      simp [List.count_singleton]
    rw [openings_opened]
    dsimp only [Channels.opened]
    rw [List.count_append, List.count_append, List.count_append, hclose, hsame]
    omega

/-- A task is alive until it has sent its close. -/
theorem openings_closing (hget : s.tasks[generation]? = some task)
    (hphase : task.phase = .closing) : s.openings[generation]? = some (task.channelId, true) := by
  unfold openings
  rw [List.getElem?_map, hget]
  simp [opening, hphase]

/-- The id of an opening never changes. -/
theorem newest_set (hget : l[generation]? = some (channelId, true)) {id : UInt32} {i : ℕ}
    (h : ∀ later alive, i < later → l[later]? ≠ some (id, alive)) :
    ∀ later alive, i < later →
      (l.set generation (channelId, false))[later]? ≠ some (id, alive) := by
  intro later alive hlt hset
  by_cases hsame : generation = later
  · subst hsame
    rw [List.getElem?_set_self (List.getElem?_eq_some_iff.mp hget).1] at hset
    cases hset
    exact h generation true hlt hget
  · rw [List.getElem?_set_ne hsame] at hset
    exact h later alive hlt hset

/-- A task sends its close. -/
theorem Accounted.notified (h : s.Accounted)
    (hopen : s.openings[generation]? = some (task.channelId, true)) :
    (s.notified generation task).Accounted := by
  have hlt := (List.getElem?_eq_some_iff.mp hopen).1
  refine ⟨?_, ?_, ?_⟩
  · -- the id may still be in the map: a task that ends by itself is not taken out of it
    rintro ⟨id, i⟩ hentry
    unfold Newest
    rw [openings_notified]
    obtain ⟨⟨alive, hentryOpen⟩, hnewest⟩ := h.mapped _ hentry
    refine ⟨?_, newest_set hopen hnewest⟩
    by_cases hsame : generation = i
    · subst hsame
      rw [hopen] at hentryOpen
      have hid : task.channelId = id := by
        injection hentryOpen with hpair
        exact congrArg Prod.fst hpair
      rw [hid]
      exact ⟨false, List.getElem?_set_self hlt⟩
    · exact ⟨alive, (List.getElem?_set_ne hsame).trans hentryOpen⟩
  · rintro ⟨id, i⟩ hentry
    rw [openings_notified]
    rcases List.mem_append.mp hentry with hold | hnew
    · have hentryOpen := h.queued _ hold
      have hne : generation ≠ i := by
        rintro rfl
        rw [hopen] at hentryOpen
        simp at hentryOpen
      exact (List.getElem?_set_ne hne).trans hentryOpen
    · rw [List.mem_singleton.mp hnew]
      exact List.getElem?_set_self hlt
  · -- the opening moves from the live ones to the queue
    intro id
    have hbalance := h.balance id
    have hold : s.openings[generation] = (task.channelId, true) :=
      (List.getElem?_eq_some_iff.mp hopen).2
    have hpos : task.channelId = id → 0 < s.openings.count (id, true) := by
      rintro rfl
      exact List.count_pos_iff.mpr (List.mem_of_getElem? hopen)
    rw [openings_notified, List.count_set hlt, hold]
    dsimp only [Channels.notified, Channels.ended]
    rw [List.map_append, List.count_append]
    by_cases hid : task.channelId = id
    · have := hpos hid
      simp [hid] at hbalance ⊢
      omega
    · simp [hid] at hbalance ⊢
      omega

/-- The pump takes a close from the control queue. -/
theorem Accounted.drained (h : s.Accounted) {entry : UInt32 × ℕ} {rest : List (UInt32 × ℕ)}
    (hcontrol : s.control = entry :: rest) : (s.drained entry.1 rest).Accounted where
  mapped := fun other hother => h.mapped other (List.mem_of_mem_filter hother)
  queued := by
    intro other hother
    refine h.queued other ?_
    rw [hcontrol]
    exact List.mem_cons_of_mem _ hother
  balance := by
    intro id
    have hbalance := h.balance id
    rw [hcontrol, List.map_cons, List.count_cons] at hbalance
    change (s.written ++ [_]).count _ = (s.written ++ [_]).count _ + (rest.map Prod.fst).count id +
      s.openings.count (id, true)
    rw [List.count_append, List.count_append]
    by_cases hid : entry.1 = id
    · simp [hid] at hbalance ⊢
      omega
    · simp [hid] at hbalance ⊢
      omega

/-- Every action keeps the account, as long as the pump runs. -/
theorem Accounted.step (h : s.Accounted) (hs : s.step testSupport a = some s')
    (hrunning : s'.running = true) : s'.Accounted := by
  obtain hq | ⟨channelId, channelType, -, haccepts, rfl⟩ | ⟨generation, task, hget, hphase, rfl⟩ |
    ⟨entry, rest, hcontrol, rfl⟩ := step_cases hs hrunning
  · exact h.quiet hq
  · exact h.opened haccepts.2.1
  · exact h.notified (openings_closing hget hphase)
  · exact h.drained hcontrol

/-! ## Reusing an id -/

/-- The client has been told that each accepted opening of the id is closed. -/
def AllClosed (s : Channels) (channelId : UInt32) : Prop :=
  s.written.count (.channelClose channelId) = s.written.count (.channelAccept channelId)

/-- An id is opened again only after every earlier opening has been reported closed. -/
def ReusesClosed (testSupport : Bool) (s : Channels) : ChannelAction → Prop
  | .channelOpen channelId channelType _ =>
      s.Accepts testSupport channelId channelType → s.AllClosed channelId
  | _ => True

instance (testSupport : Bool) (s : Channels) (a : ChannelAction) :
    Decidable (s.ReusesClosed testSupport a) :=
  match a with
  | .channelOpen channelId channelType _ =>
      inferInstanceAs (Decidable (s.Accepts testSupport channelId channelType →
        s.written.count (.channelClose channelId) = s.written.count (.channelAccept channelId)))
  | .channelClose _ | .channelCredit _ _ | .acceptBi _ | .control _ | .transportLost | .recv _
  | .finish _ | .notify _ => instDecidableTrue

/-- The close that the pump takes from the control queue was sent by the task of the last opening
of its id. What it removes from the map and reports to the client is that opening. -/
def ClosesOwn (s : Channels) : ChannelAction → Prop
  | .control _ => s.running = true → ∀ entry rest, s.control = entry :: rest →
      (∀ generation, s.get entry.1 = some generation → generation = entry.2) ∧
        ∀ generation task, s.tasks[generation]? = some task → task.channelId = entry.1 →
          generation ≤ entry.2
  | _ => True

/-- Nothing is left of the openings that have been reported closed. -/
theorem Accounted.none_left (h : s.Accounted) (hclosed : s.AllClosed channelId) :
    ¬ (s.openings[generation]? = some (channelId, true) ∨
      (channelId, generation) ∈ s.control) := by
  have hbalance := h.balance channelId
  rw [← hclosed] at hbalance
  rintro (hget | hmem)
  · have := List.count_pos_iff.mpr (List.mem_of_getElem? hget)
    omega
  · have : 0 < (s.control.map Prod.fst).count channelId :=
      List.count_pos_iff.mpr (List.mem_map.mpr ⟨_, hmem, rfl⟩)
    omega

theorem Exclusive.opened (h : s.Exclusive) (ha : s.Accounted) (hclosed : s.AllClosed channelId) :
    (s.opened channelId).Exclusive := by
  intro id generation hold
  unfold Newest
  rw [openings_opened] at hold ⊢
  by_cases hlt : generation < s.openings.length
  · -- an older opening that is not reported closed is of another id
    rw [List.getElem?_append_left hlt] at hold
    have hne : channelId ≠ id := by
      rintro rfl
      exact ha.none_left hclosed hold
    exact newest_append (h id generation hold) (Or.inl hne)
  · refine newest_append ?_ (Or.inr (Nat.le_of_not_lt hlt))
    intro later alive hlater hget
    have := (List.getElem?_eq_some_iff.mp hget).1
    omega

theorem Exclusive.notified (h : s.Exclusive)
    (hopen : s.openings[generation]? = some (task.channelId, true)) :
    (s.notified generation task).Exclusive := by
  intro id i hold
  unfold Newest
  rw [openings_notified] at hold ⊢
  refine newest_set hopen (h id i ?_)
  rcases hold with hold | hold
  · left
    by_cases hsame : generation = i
    · subst hsame
      rw [List.getElem?_set_self (List.getElem?_eq_some_iff.mp hopen).1] at hold
      simp at hold
    · exact (List.getElem?_set_ne hsame).symm.trans hold
  · rcases List.mem_append.mp hold with hmem | hnew
    · exact Or.inr hmem
    · cases List.mem_singleton.mp hnew
      exact Or.inl hopen

/-- An action of a run that reuses closed ids only. -/
theorem Exclusive.step (h : s.Exclusive) (ha : s.Accounted) (hok : s.ReusesClosed testSupport a)
    (hs : s.step testSupport a = some s') (hrunning : s'.running = true) : s'.Exclusive := by
  obtain hq | ⟨channelId, channelType, rfl, haccepts, rfl⟩ | ⟨generation, task, hget, hphase, rfl⟩ |
    ⟨entry, rest, hcontrol, rfl⟩ := step_cases hs hrunning
  · exact h.quiet hq
  · exact h.opened ha (hok haccepts)
  · exact h.notified (openings_closing hget hphase)
  · intro channelId generation hold
    refine h channelId generation (hold.imp id fun hmem => ?_)
    rw [hcontrol]
    exact List.mem_cons_of_mem _ hmem

theorem closesOwn_of_exclusive (h : s.running = true → s.Accounted ∧ s.Exclusive)
    (a : ChannelAction) : s.ClosesOwn a := by
  cases a with
  | control sent =>
      intro hrunning entry rest hcontrol
      obtain ⟨ha, he⟩ := h hrunning
      have hmem : entry ∈ s.control := by
        rw [hcontrol]
        exact List.mem_cons_self
      have hnewest := he entry.1 entry.2 (Or.inr hmem)
      have hbound : ∀ generation alive, s.openings[generation]? = some (entry.1, alive) →
          generation ≤ entry.2 :=
        fun generation alive hget => Nat.le_of_not_lt fun hlt => hnewest generation alive hlt hget
      refine ⟨fun generation hget => ?_, fun generation task hget hid => ?_⟩
      · -- both the entry of the map and the sender of the close are the last opening
        obtain ⟨⟨alive, hopen⟩, hlast⟩ := ha.mapped _ (mem_of_get hget)
        refine Nat.le_antisymm (hbound generation alive hopen) (Nat.le_of_not_lt fun hlt => ?_)
        exact hlast entry.2 false hlt (ha.queued entry hmem)
      · refine hbound generation (task.phase ≠ .ended) ?_
        unfold openings
        rw [List.getElem?_map, hget, ← hid]
        rfl
  | _ => trivial

/-- A pump that has ended does not come back. -/
theorem running_of_step (hs : s.step testSupport a = some s') (hrunning : s'.running = true) :
    s.running = true := by
  obtain hq | ⟨channelId, channelType, -, -, rfl⟩ | ⟨generation, task, -, -, rfl⟩ |
    ⟨entry, rest, -, rfl⟩ := step_cases hs hrunning
  · rw [← hq.running]
    exact hrunning
  · exact hrunning
  · exact hrunning
  · exact hrunning

/-- The invariant of a run that reuses closed ids only. -/
theorem accounted_exclusive_step (h : s.running = true → s.Accounted ∧ s.Exclusive)
    (hok : s.ReusesClosed testSupport a) (hs : s.step testSupport a = some s') :
    s'.running = true → s'.Accounted ∧ s'.Exclusive := by
  intro hrunning
  obtain ⟨ha, he⟩ := h (running_of_step hs hrunning)
  exact ⟨ha.step hs hrunning, he.step ha hok hs hrunning⟩

/-- **A close closes its own channel.** In every interleaving in which an id is opened again only
after the client has been told that every earlier opening of it is closed, the pump never removes
or reports a later opening for the close of an earlier one. -/
theorem closes_own {testSupport : Bool} {actions : List ChannelAction}
    (hok : (life testSupport).Along (ReusesClosed testSupport) new actions) :
    (life testSupport).Along ClosesOwn new actions :=
  (life testSupport).along_mono (fun s => s.running = true → s.Accounted ∧ s.Exclusive)
    (fun _ _ _ h hok hs => accounted_exclusive_step h hok hs)
    (fun _ a h _ => closesOwn_of_exclusive h a) (fun _ => ⟨accounted_new, exclusive_new⟩) hok

/-- A scrollback channel is closed by the client, reported closed, and opened again. -/
theorem closes_own_reopened :
    (life false).Along ClosesOwn new
      [.channelOpen 2 .scrollback true, .channelClose 2, .recv 0, .notify 0, .control true,
        .channelOpen 2 .scrollback true, .channelClose 2, .recv 1, .notify 1, .control true] :=
  closes_own (by decide)

/-- **An id that is reused too early.** The client closes channel 2 and opens it again while the
first task is still on its way out. The close of the first task then removes the second opening
from the map and is written to the client after the second `ChannelAccept`; with the entry the
sender of the second task is dropped, and the task will find it gone and close. -/
theorem early_reuse_closed_by_old_task :
    ∃ s s', (life false).run new
        [.channelOpen 2 .scrollback true, .channelClose 2, .recv 0,
          .channelOpen 2 .scrollback true, .notify 0] = some s ∧
      s.step false (.control true) = some s' ∧
      s.control = [(2, 0)] ∧ s.channelMap = [(2, 1)] ∧ s'.channelMap = [] ∧
      s'.written = [.channelAccept 2, .channelAccept 2, .channelClose 2] ∧
      s'.tasks[1]? = some ⟨2, [], .waiting⟩ ∧ ¬ s.ClosesOwn (.control true) := by
  refine ⟨_, _, rfl, rfl, rfl, rfl, rfl, rfl, rfl, fun h => ?_⟩
  have hown := (h rfl (2, 0) [] rfl).1 1 rfl
  cases hown

end Channels

end Nosh.Server
