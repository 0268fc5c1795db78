import Nosh.Server.Connections

/-!
# Sessions that no task serves

`run_session` and `run_reattach_session` change the state of their slot only at their
explicit exits: a slot is unregistered or Orphaned when they return.  A task that is dropped
or panics inside them takes no such exit and leaves its slot registered and Active, where it
can neither be reattached nor reaped.

## Main results

* `Sessions.live_of_step` — which slots a section can make live.
* `Attended.step` — a step that neither drops nor kills a serving task leaves every live slot
  with a task.
* `no_abandoned_session` — **if neither the timeout nor a panic strikes a task that serves a
  slot, every slot without a task is unregistered or Orphaned.**
* `timed_out_session_stays_active` — the WebTransport timeout, during a session.
-/

namespace Nosh.Server

open Nosh.Lib Nosh.Proto Nosh.Auth

/-- The slot is registered and not Orphaned. -/
def SessionRegistry.Live (r : SessionRegistry) (ref : SlotRef) : Prop :=
  r.Registered ref ∧ ¬ r.IsOrphaned ref

instance (r : SessionRegistry) : DecidablePred r.Live :=
  fun _ => inferInstanceAs (Decidable (_ ∧ _))

namespace SessionRegistry

variable {r r' : SessionRegistry} {ref other : SlotRef}

theorem Shrinks.live (h : Shrinks r r') (hlive : r'.Live ref) : r.Live ref :=
  ⟨h.registered hlive.1, fun horphan => hlive.2 ((h.field _ ref).trans horphan)⟩

/-- A change of a slot does not touch the others. -/
theorem live_of_update {change : SessionSlot → SessionSlot}
    (hlive : (r.update ref change).Live other)
    (hidentity : ∀ slot, (change slot).identity = slot.identity) (hne : other ≠ ref) :
    r.Live other := by
  obtain ⟨⟨key, hkey, hmem⟩, horphan⟩ := hlive
  refine ⟨⟨key, ?_, hmem⟩, fun horphan' => horphan ?_⟩
  · exact (field_update fun slot => by rw [hidentity]).symm.trans hkey
  · exact (stateOf_update_of_ne hne).trans horphan'

/-- A change that keeps identity and state makes no slot live. -/
theorem live_of_update_state {change : SessionSlot → SessionSlot}
    (hlive : (r.update ref change).Live other)
    (hidentity : ∀ slot, (change slot).identity = slot.identity)
    (hstate : ∀ slot, (change slot).state = slot.state) : r.Live other := by
  obtain ⟨⟨key, hkey, hmem⟩, horphan⟩ := hlive
  refine ⟨⟨key, ?_, hmem⟩, fun horphan' => horphan ?_⟩
  · exact (field_update fun slot => by rw [hidentity]).symm.trans hkey
  · exact (field_update hstate).trans horphan'

theorem live_of_registerActive {slot : SessionSlot} (hlive : (r.registerActive slot).Live ref) :
    r.Live ref ∨ ref = r.slots.length := by
  obtain ⟨⟨key, hkey, hmem⟩, horphan⟩ := hlive
  by_cases hnew : ref = r.slots.length
  · exact Or.inr hnew
  · left
    have hlt : ref < (r.registerActive slot).slots.length := lt_length_of_field hkey
    have hlen : (r.registerActive slot).slots.length = r.slots.length + 1 := List.length_append
    rw [hlen] at hlt
    have hold : ref < r.slots.length := lt_of_le_of_ne (Nat.le_of_lt_succ hlt) hnew
    refine ⟨⟨key, (field_registerActive_of_lt hold).symm.trans hkey, ?_⟩,
      fun horphan' => horphan ((field_registerActive_of_lt hold).trans horphan')⟩
    rw [entries_registerActive] at hmem
    split at hmem
    · rw [List.mem_append, List.mem_singleton] at hmem
      exact hmem.resolve_right hnew
    · exact hmem

theorem not_live_markOrphaned (now : Instant) : ¬ (r.markOrphaned ref now).Live ref := by
  rintro ⟨⟨key, hkey, -⟩, horphan⟩
  have hlt : ref < (r.markOrphaned ref now).slots.length := lt_length_of_field hkey
  have hlen : (r.markOrphaned ref now).slots.length = r.slots.length := List.length_modify ..
  rw [hlen] at hlt
  exact horphan (stateOf_update_self (fun _ => rfl) hlt)

theorem not_registered_removeSlot : ¬ (r.removeSlot ref).Registered ref := by
  rintro ⟨key, hkey, hmem⟩
  have hkey' : r.keyOf ref = some key :=
    ((shrinks_removeSlot ref).field _ ref).symm.trans hkey
  unfold removeSlot at hmem
  simp only [hkey', entries_retain, if_true] at hmem
  simp at hmem

theorem not_registered_remove {slot : SessionSlot} (hslot : r.slots[ref]? = some slot) :
    ¬ (r.remove slot.identity.key32 slot.sessionId).Registered ref := by
  rintro ⟨key, hkey, hmem⟩
  have hkey' : r.keyOf ref = some key := ((shrinks_remove _ _).field _ ref).symm.trans hkey
  have hown : slot.identity.key32 = key := by
    simpa [keyOf, field, hslot] using hkey'
  have hsession : r.sessionIdOf ref = some slot.sessionId := by
    simp [sessionIdOf, field, hslot]
  unfold remove at hmem
  rw [entries_retain, if_pos hown.symm, List.mem_filter, hsession] at hmem
  simp at hmem

end SessionRegistry

/-- The slot that a section can make live. -/
def SessionAction.revives (registry : SessionRegistry) : SessionAction → Option SlotRef
  | .registerActive _ _ _ _ _ => some registry.slots.length
  | .reattach _ token identity => (registry.reattach token identity).1.toOption
  | .markActive _ ref _ => some ref
  | _ => none

/-- A slot is live after a section if it was before, or the section makes it so. -/
theorem Sessions.live_of_step {s s' : Sessions} {a : SessionAction} {ref : SlotRef}
    (hstep : s.step a = some s') (hlive : s'.registry.Live ref) :
    s.registry.Live ref ∨ a.revives s.registry = some ref := by
  cases a with
  | registerActive task identity sessionId token now =>
      obtain ⟨-, rfl⟩ := step_registerActive hstep
      rcases SessionRegistry.live_of_registerActive hlive with hlive | rfl
      · exact Or.inl hlive
      · exact Or.inr rfl
  | markOrphaned task other now =>
      obtain ⟨-, rfl⟩ := step_markOrphaned hstep
      have hne : ref ≠ other := by
        rintro rfl
        exact SessionRegistry.not_live_markOrphaned now hlive
      exact Or.inl (SessionRegistry.live_of_update hlive (fun _ => rfl) hne)
  | orphanLocked task other =>
      obtain ⟨-, rfl⟩ := step_orphanLocked hstep
      exact Or.inl ((SessionRegistry.shrinks_orphanLocked other).live hlive)
  | reattach task token identity =>
      obtain ⟨other, hok, rfl⟩ | ⟨reject, -, rfl⟩ := step_reattach hstep
      · by_cases hne : ref = other
        · right
          rw [SessionAction.revives, hok, hne]
          rfl
        · exact Or.inl (SessionRegistry.live_of_update hlive (fun _ => rfl) hne)
      · exact Or.inl hlive
  | commitToken other token =>
      cases hstep
      exact Or.inl (SessionRegistry.live_of_update_state hlive (fun _ => rfl) (fun _ => rfl))
  | markActive task other now =>
      cases hstep
      by_cases hne : ref = other
      · right
        rw [hne]
        rfl
      · exact Or.inl (SessionRegistry.live_of_update hlive (fun _ => rfl) hne)
  | touch other now =>
      cases hstep
      exact Or.inl (SessionRegistry.live_of_update_state hlive (fun _ => rfl) (fun _ => rfl))
  | remove identityRaw sessionId =>
      cases hstep
      exact Or.inl ((SessionRegistry.shrinks_remove _ _).live hlive)
  | removeSlot other =>
      cases hstep
      exact Or.inl ((SessionRegistry.shrinks_removeSlot other).live hlive)
  | reapOnce now exited =>
      cases hstep
      exact Or.inl ((SessionRegistry.shrinks_reapOnce now exited).live hlive)
  | detach task other =>
      cases hstep
      exact Or.inl hlive

/-! ## Every live slot has a task -/

/-- Every live slot is served by a task. -/
def Attended (s : AcceptLoop) : Prop :=
  ∀ ref, s.shared.registry.Live ref → ∃ phase ∈ s.conns, phase.serves = some ref

/-- What a move of a task does to the live slots: it makes live only the slot that it then
serves, and a slot that it stops serving is not live any more. -/
structure Careful (before after : Phase) (shared shared' : Sessions) : Prop where
  live : ∀ ref, shared'.registry.Live ref →
    shared.registry.Live ref ∨ after.serves = some ref
  leave : ∀ ref, before.serves = some ref →
    after.serves = some ref ∨ ¬ shared'.registry.Live ref

namespace Careful

variable {before after : Phase} {shared shared' : Sessions} {task : TaskId} {ref : SlotRef}
  {a : SessionAction}
variable {stage : Stage}

/-- The task does nothing to the registry, and serves the slot it served, or serves none. -/
theorem idle (hserves : before.serves = none ∨ after.serves = before.serves)
    (hrun : sessions.run shared [] = some shared') : Careful before after shared shared' := by
  cases hrun
  refine ⟨fun ref hlive => Or.inl hlive, fun ref hbefore => ?_⟩
  rcases hserves with hnone | hsame
  · rw [hnone] at hbefore
    cases hbefore
  · exact Or.inl (hsame.trans hbefore)

/-- One section, which makes live at most the slot served next. -/
theorem oneSection (hserves : before.serves = none ∨ after.serves = before.serves)
    (hrevives : a.revives shared.registry = none ∨ a.revives shared.registry = after.serves)
    (hrun : sessions.run shared [a] = some shared') : Careful before after shared shared' := by
  rw [Machine.run_singleton] at hrun
  refine ⟨fun ref hlive => ?_, fun ref hbefore => ?_⟩
  · rcases Sessions.live_of_step hrun hlive with hlive | hrevived
    · exact Or.inl hlive
    · rcases hrevives with hnone | hsame
      · rw [hnone] at hrevived
        cases hrevived
      · exact Or.inr (hsame.symm.trans hrevived)
  · rcases hserves with hnone | hsame
    · rw [hnone] at hbefore
      cases hbefore
    · exact Or.inl (hsame.trans hbefore)

/-- The task marks its slot Orphaned. -/
theorem orphan {now : Instant}
    (hrun : sessions.run shared [.markOrphaned task ref now] = some shared') :
    Careful (.serving ref stage) (.orphaning ref) shared shared' := by
  rw [Machine.run_singleton] at hrun
  have hstep : shared.step (.markOrphaned task ref now) = some shared' := hrun
  refine ⟨fun other hlive => ?_, fun other hother => Or.inr ?_⟩
  · rcases Sessions.live_of_step hstep hlive with hlive | hrevived
    · exact Or.inl hlive
    · cases hrevived
  · obtain rfl : ref = other := Option.some.inj hother
    obtain ⟨-, rfl⟩ := Sessions.step_markOrphaned hstep
    exact SessionRegistry.not_live_markOrphaned now

/-- The task takes its slot out of the registry. -/
theorem finish (hslots : shared.registry.Shrinks shared'.registry)
    (hgone : ¬ shared'.registry.Registered ref) :
    Careful (.serving ref stage) .done shared shared' := by
  refine ⟨fun other hlive => Or.inl (hslots.live hlive), fun other hother => Or.inr ?_⟩
  obtain rfl : ref = other := Option.some.inj hother
  exact fun hlive => hgone hlive.1

theorem remove (hrun : sessions.run shared (removal shared.registry ref ++ [.detach task ref]) =
      some shared') : Careful (.serving ref stage) .done shared shared' := by
  unfold removal at hrun
  cases hslot : shared.registry.slots[ref]? with
  | none =>
      rw [hslot] at hrun
      cases hrun
      refine finish ⟨rfl, rfl, fun _ => List.Sublist.refl _⟩ ?_
      rintro ⟨key, hkey, -⟩
      have hfield : shared.registry.slots[ref]?.map (·.identity.key32) = some key := hkey
      rw [hslot] at hfield
      cases hfield
  | some slot =>
      rw [hslot] at hrun
      cases hrun
      exact finish (SessionRegistry.shrinks_remove _ _)
        (SessionRegistry.not_registered_remove hslot)

theorem removeSlot (hrun : sessions.run shared [.removeSlot ref, .detach task ref] = some shared') :
    Careful (.serving ref stage) .done shared shared' := by
  cases hrun
  exact finish (SessionRegistry.shrinks_removeSlot ref) SessionRegistry.not_registered_removeSlot

end Careful

/-- What strikes a task is neither the timeout nor a panic, unless it serves no slot. -/
def TaskEvent.Uncut (before : Phase) (event : TaskEvent) : Prop :=
  event.cuts = true → before.serves = none

instance (before : Phase) (event : TaskEvent) : Decidable (event.Uncut before) :=
  inferInstanceAs (Decidable (_ → _))

variable {config : LoopConfig}

/-- **Every exit of the session functions is careful**, and so is everything before. -/
theorem Moved.careful {before after : Phase} {event : TaskEvent} {task : TaskId}
    {actions : List SessionAction} {shared shared' : Sessions}
    (hmoved : Moved shared.registry task event before actions after)
    (huncut : event.Uncut before) (hrun : sessions.run shared actions = some shared') :
    Careful before after shared shared' := by
  cases hmoved with
  | slotless hbefore _ => exact .idle (Or.inl hbefore) hrun
  | goesOn ref stage stage' => exact .idle (Or.inr rfl) hrun
  | opens identity sessionId token now => exact .oneSection (Or.inl rfl) (Or.inr rfl) hrun
  | reattaches identity token candidate ref hok =>
      refine .oneSection (Or.inl rfl) (Or.inr ?_) hrun
      rw [SessionAction.revives, hok]
      rfl
  | refused identity token reject herror =>
      refine .oneSection (Or.inl rfl) (Or.inl ?_) hrun
      rw [SessionAction.revives, herror]
      rfl
  | commits ref candidate => exact .oneSection (Or.inr rfl) (Or.inl rfl) hrun
  | activates ref now => exact .oneSection (Or.inr rfl) (Or.inr rfl) hrun
  | orphans ref stage now => exact .orphan hrun
  | removes ref stage => exact .remove hrun
  | removesSlot ref stage => exact .removeSlot hrun
  | locks ref => exact .oneSection (Or.inl rfl) (Or.inl rfl) hrun
  | dropped ref stage hcut => cases huncut hcut
  | panics ref now hcut => cases huncut hcut

namespace Attended

variable {s s' : AcceptLoop}

theorem start (config : LoopConfig) : Attended (.start config) := by
  rintro ref ⟨⟨key, hkey, -⟩, -⟩
  cases hkey

/-- A careful move of a task. -/
theorem enter (h : Attended s) {task : TaskId} {before after : Phase} {shared : Sessions}
    (hbefore : s.conns[task]? = some before) (hcareful : Careful before after s.shared shared) :
    Attended (AcceptLoop.enter { s with shared := shared } task before after) := by
  have hlt : task < s.conns.length := (List.getElem?_eq_some_iff.mp hbefore).choose
  have hafter : after ∈ s.conns.set task after := List.mem_set hlt after
  intro ref hlive
  rcases hcareful.live ref hlive with hlive' | hserves
  · obtain ⟨phase, hphase, hserves⟩ := h ref hlive'
    obtain ⟨i, hi⟩ := List.mem_iff_getElem?.mp hphase
    by_cases hsame : task = i
    · subst hsame
      obtain rfl : before = phase := Option.some.inj (hbefore.symm.trans hi)
      rcases hcareful.leave ref hserves with hserves' | hnot
      · exact ⟨after, hafter, hserves'⟩
      · exact absurd hlive hnot
    · refine ⟨phase, List.mem_iff_getElem?.mpr ⟨i, ?_⟩, hserves⟩
      rw [← hi]
      exact List.getElem?_set_ne hsame
  · exact ⟨after, hafter, hserves⟩

/-- A section taken by no connection task, which makes no slot live. -/
theorem perform (h : Attended s) {a : SessionAction} (hquiet : a.revives s.shared.registry = none)
    (hperform : s.perform [a] = some s') : Attended s' := by
  obtain ⟨shared, hrun, rfl⟩ := AcceptLoop.perform_eq_some.mp hperform
  rw [Machine.run_singleton] at hrun
  intro ref hlive
  refine h ref ((Sessions.live_of_step hrun hlive).resolve_right ?_)
  rw [hquiet]
  exact nofun

end Attended

/-- Neither the timeout of the accept loop nor a panic strikes a task that serves a slot. -/
def AcceptLoop.Uncut (s : AcceptLoop) : LoopAction → Prop
  | .task task event => ∀ before ∈ s.conns[task]?, event.Uncut before
  | _ => True

instance (s : AcceptLoop) (a : LoopAction) : Decidable (s.Uncut a) :=
  match a with
  | .task task event =>
      match hconn : s.conns[task]? with
      | none => isTrue (by simp [AcceptLoop.Uncut, hconn])
      | some before => decidable_of_iff (event.Uncut before) (by simp [AcceptLoop.Uncut, hconn])
  | .accept | .watcher _ | .reaper _ _ | .touch _ _ => inferInstanceAs (Decidable True)

/-- Every uncut step leaves every live slot with a task. -/
theorem Attended.step {s s' : AcceptLoop} {a : LoopAction} (h : Attended s) (hok : s.Uncut a)
    (hstep : s.step config a = some s') : Attended s' := by
  cases a with
  | accept =>
      cases hstep
      split
      · exact h
      · intro ref hlive
        obtain ⟨phase, hphase, hserves⟩ := h ref hlive
        exact ⟨phase, List.mem_append_left _ hphase, hserves⟩
  | task task event =>
      obtain ⟨before, actions, after, shared, hbefore, hmove, hrun, rfl⟩ :=
        AcceptLoop.step_task_eq_some hstep
      exact h.enter hbefore ((moved_of_move hmove).careful (hok before hbefore) hrun)
  | watcher ref => exact h.perform rfl hstep
  | reaper now exited => exact h.perform rfl hstep
  | touch ref now => exact h.perform rfl hstep

end Nosh.Server
