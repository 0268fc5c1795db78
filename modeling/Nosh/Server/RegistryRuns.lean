import Nosh.Lib.Machine
import Nosh.Server.Registry

/-!
# Runs of the session registry

Any number of tasks use the registry at the same time.  A schedule is a list of atomic
sections, each by some task, so every interleaving is a schedule.  Two lists record who
does what: `attached` the tasks that serve a slot, and `orphaning` the calls of `orphan`
that have marked their slot and not yet been through their locked section.

The lists are a record only: no section reads them, and nothing here stops a task from
marking a slot that it does not serve.  That the tasks of the server do not is the
condition `Owned`.

## Main results

* `Sessions.step_effect` — what a step does to the registry.
* `Exclusive.step`, `Capped.step` — what a step keeps.
* `reattach_exclusive` — **a reattach succeeds only with both factors and on an Orphaned
  slot, no second one succeeds before the next orphaning, and a refused one changes
  nothing.**
* `orphans_capped` — **an identity has at most `max m 1` orphans and one for each call of
  `orphan` under way, and only orphans are evicted or reaped.**
-/

namespace Nosh.Server

open Nosh.Lib Nosh.Proto Nosh.Auth

abbrev TaskId := ℕ

/-- The registry and the tasks that use it. -/
structure Sessions where
  registry : SessionRegistry
  /-- The tasks that serve a slot. -/
  attached : List (TaskId × SlotRef)
  /-- The calls of `orphan` between their two sections. -/
  orphaning : List (TaskId × SlotRef)

/-- The atomic sections. -/
inductive SessionAction
  | registerActive (task : TaskId) (identity : NoshPublicKey) (sessionId : Uuid)
      (token : ByteArr 16) (now : Instant)
  /-- The first section of `orphan`. -/
  | markOrphaned (task : TaskId) (ref : SlotRef) (now : Instant)
  /-- The second section of `orphan`. -/
  | orphanLocked (task : TaskId) (ref : SlotRef)
  | reattach (task : TaskId) (token : ByteArr 16) (identity : NoshPublicKey)
  | commitToken (ref : SlotRef) (token : ByteArr 16)
  | markActive (task : TaskId) (ref : SlotRef) (now : Instant)
  | touch (ref : SlotRef) (now : Instant)
  | remove (identityRaw : ByteArr 32) (sessionId : Uuid)
  | removeSlot (ref : SlotRef)
  | reapOnce (now : Instant) (exited : SlotRef → Bool)
  /-- A task stops serving a slot without orphaning it. -/
  | detach (task : TaskId) (ref : SlotRef)

namespace Sessions

/-- No session yet. -/
def start (maxPerIdentity idleTimeout : ℕ) : Sessions where
  registry := .new maxPerIdentity idleTimeout
  attached := []
  orphaning := []

/-- One atomic section. -/
def step (s : Sessions) : SessionAction → Option Sessions
  | .registerActive task identity sessionId token now =>
      -- `Uuid::new_v4` does not repeat
      if sessionId ∈ s.registry.slots.map (·.sessionId) then none
      else some { s with
        registry := s.registry.registerActive (.new identity sessionId token now)
        attached := (task, s.registry.slots.length) :: s.attached }
  | .markOrphaned task ref now =>
      if ref < s.registry.slots.length then
        some {
          registry := s.registry.markOrphaned ref now
          attached := s.attached.erase (task, ref)
          orphaning := (task, ref) :: s.orphaning }
      else none
  | .orphanLocked task ref =>
      if (task, ref) ∈ s.orphaning then
        some { s with
          registry := s.registry.orphanLocked ref
          orphaning := s.orphaning.erase (task, ref) }
      else none
  | .reattach task token identity =>
      match s.registry.reattach token identity with
      | (.ok ref, registry) =>
          some { s with registry := registry, attached := (task, ref) :: s.attached }
      | (.error _, registry) => some { s with registry := registry }
  | .commitToken ref token =>
      some { s with registry := s.registry.update ref (.commitToken token) }
  | .markActive _ ref now => some { s with registry := s.registry.update ref (.markActive now) }
  | .touch ref now => some { s with registry := s.registry.update ref (.touch now) }
  | .remove identityRaw sessionId =>
      some { s with registry := s.registry.remove identityRaw sessionId }
  | .removeSlot ref => some { s with registry := s.registry.removeSlot ref }
  | .reapOnce now exited => some { s with registry := s.registry.reapOnce now exited }
  | .detach task ref => some { s with attached := s.attached.erase (task, ref) }

/-- Only a task that serves a slot orphans it or marks it Active. -/
def Owned (s : Sessions) : SessionAction → Prop
  | .markOrphaned task ref _ | .markActive task ref _ => (task, ref) ∈ s.attached
  | _ => True

instance (s : Sessions) (a : SessionAction) : Decidable (s.Owned a) :=
  match a with
  | .markOrphaned _ _ _ | .markActive _ _ _ => inferInstanceAs (Decidable (_ ∈ _))
  | .registerActive _ _ _ _ _ | .orphanLocked _ _ | .reattach _ _ _ | .commitToken _ _
  | .touch _ _ | .remove _ _ | .removeSlot _ | .reapOnce _ _ | .detach _ _ =>
      inferInstanceAs (Decidable True)

/-- How many tasks serve the slot. -/
def servers (s : Sessions) (ref : SlotRef) : ℕ := s.attached.countP (·.2 = ref)

/-- How many calls of `orphan` for the identity are under way. -/
def orphaningCount (s : Sessions) (key : ByteArr 32) : ℕ :=
  s.orphaning.countP fun call => s.registry.keyOf call.2 = some key

end Sessions

/-- The registry in use as a machine. -/
def sessions : Machine Sessions SessionAction := ⟨Sessions.step⟩

/-! ## What a step does to the registry -/

/-- The slot that the section marks Orphaned. -/
def SessionAction.marked : SessionAction → Option SlotRef
  | .markOrphaned _ ref _ => some ref
  | _ => none

/-- A step registers a new slot, marks the slot `marked` Orphaned, changes one slot in
another way, or takes slots out of the lists. -/
inductive Effect (r r' : SessionRegistry) : Option SlotRef → Prop
  | registers (slot : SessionSlot) (hstate : slot.state = .active)
      (hfresh : slot.sessionId ∉ r.slots.map (·.sessionId)) (heq : r' = r.registerActive slot) :
      Effect r r' none
  | marks (ref : SlotRef) (now : Instant) (heq : r' = r.markOrphaned ref now) :
      Effect r r' (some ref)
  | updates (ref : SlotRef) (change : SessionSlot → SessionSlot)
      (hidentity : ∀ slot, (change slot).identity = slot.identity)
      (hsession : ∀ slot, (change slot).sessionId = slot.sessionId)
      (hstate : ∀ slot, (change slot).state = .orphaned → slot.state = .orphaned)
      (heq : r' = r.update ref change) : Effect r r' none
  | shrinks (h : r.Shrinks r') : Effect r r' none

namespace Effect

variable {r r' : SessionRegistry} {marked : Option SlotRef} {ref : SlotRef} {key : ByteArr 32}

theorem refl (r : SessionRegistry) : Effect r r none :=
  .shrinks ⟨rfl, rfl, fun _ => List.Sublist.refl _⟩

section

variable (h : Effect r r' marked)

include h

theorem wellFormed (hr : r.WellFormed) : r'.WellFormed := by
  cases h with
  | registers slot _ hfresh heq =>
      rw [heq]
      exact hr.register hfresh
  | marks ref now heq =>
      rw [heq]
      exact hr.update (fun _ => rfl) (fun _ => rfl)
  | updates ref change hidentity hsession _ heq =>
      rw [heq]
      exact hr.update hidentity hsession
  | shrinks h => exact hr.shrinks h

theorem cap : r'.maxPerIdentity = r.maxPerIdentity := by
  cases h with
  | registers slot _ _ heq => rw [heq]; rfl
  | marks ref now heq => rw [heq]; rfl
  | updates ref change _ _ _ heq => rw [heq]; rfl
  | shrinks h => exact h.cap

theorem length_le : r.slots.length ≤ r'.slots.length := by
  cases h with
  | registers slot _ _ heq =>
      rw [heq]
      show _ ≤ (r.slots ++ [slot]).length
      rw [List.length_append]
      exact Nat.le_add_right _ _
  | marks ref now heq =>
      rw [heq]
      exact (List.length_modify ..).ge
  | updates ref change _ _ _ heq =>
      rw [heq]
      exact (List.length_modify ..).ge
  | shrinks h => rw [h.slots]

/-- A slot keeps its identity. -/
theorem keyOf (hkey : r.keyOf ref = some key) : r'.keyOf ref = some key := by
  rw [← hkey]
  cases h with
  | registers slot _ _ heq =>
      rw [heq]
      exact SessionRegistry.field_registerActive_of_lt (SessionRegistry.lt_length_of_field hkey)
  | marks other now heq =>
      rw [heq]
      exact SessionRegistry.field_update fun _ => rfl
  | updates other change hidentity _ _ heq =>
      rw [heq]
      exact SessionRegistry.field_update fun slot => by rw [hidentity]
  | shrinks h => exact h.field _ ref

/-- A slot is not registered again. -/
theorem registered (halloc : ref < r.slots.length) (hreg : r'.Registered ref) :
    r.Registered ref := by
  cases h with
  | registers slot _ _ heq =>
      rw [heq] at hreg
      obtain ⟨key, hkey, hmem⟩ := hreg
      refine ⟨key, (SessionRegistry.field_registerActive_of_lt halloc).symm.trans hkey, ?_⟩
      rw [SessionRegistry.entries_registerActive] at hmem
      split at hmem
      · rw [List.mem_append, List.mem_singleton] at hmem
        exact hmem.resolve_right halloc.ne
      · exact hmem
  | marks other now heq =>
      rw [heq] at hreg
      obtain ⟨key, hkey, hmem⟩ := hreg
      have hsame : (r.markOrphaned other now).keyOf ref = r.keyOf ref :=
        SessionRegistry.field_update fun _ => rfl
      exact ⟨key, hsame.symm.trans hkey, hmem⟩
  | updates other change hidentity _ _ heq =>
      rw [heq] at hreg
      obtain ⟨key, hkey, hmem⟩ := hreg
      exact
        ⟨key, (SessionRegistry.field_update fun slot => by rw [hidentity]).symm.trans hkey, hmem⟩
  | shrinks h => exact h.registered hreg

/-- A slot that is Orphaned after a step was so before, or the step marked it. -/
theorem isOrphaned (horphan : r'.IsOrphaned ref) : r.IsOrphaned ref ∨ marked = some ref := by
  cases h with
  | registers slot hstate _ heq =>
      rw [heq] at horphan
      rcases lt_trichotomy ref r.slots.length with hlt | rfl | hgt
      · exact Or.inl ((SessionRegistry.field_registerActive_of_lt hlt).symm.trans horphan)
      · have hnew : (r.registerActive slot).stateOf r.slots.length = some slot.state :=
          SessionRegistry.field_registerActive_new
        rw [SessionRegistry.IsOrphaned, hnew, hstate] at horphan
        cases horphan
      · have hlt : ref < (r.registerActive slot).slots.length :=
          SessionRegistry.lt_length_of_field horphan
        have hlen : (r.registerActive slot).slots.length = r.slots.length + 1 :=
          List.length_append
        rw [hlen] at hlt
        exact absurd (Nat.le_of_lt_succ hlt) (not_le.mpr hgt)
  | marks other now heq =>
      by_cases hne : ref = other
      · exact Or.inr (by rw [hne])
      · rw [heq] at horphan
        exact Or.inl ((SessionRegistry.stateOf_update_of_ne hne).symm.trans horphan)
  | updates other change _ _ hstate heq =>
      left
      rw [heq] at horphan
      by_cases hne : ref = other
      · subst hne
        exact SessionRegistry.isOrphaned_of_update hstate horphan
      · exact (SessionRegistry.stateOf_update_of_ne hne).symm.trans horphan
  | shrinks h => exact Or.inl ((h.field _ ref).symm.trans horphan)

end

/-- A step that marks no slot does not make orphans. -/
theorem orphanCount_le (h : Effect r r' none) : r'.orphanCount key ≤ r.orphanCount key := by
  have hmono : ∀ ref ∈ r.entries key,
      decide (r'.IsOrphaned ref) = true → decide (r.IsOrphaned ref) = true := by
    intro ref _ horphan
    rw [decide_eq_true_eq] at horphan ⊢
    rcases h.isOrphaned horphan with horphan | hmarked
    · exact horphan
    · cases hmarked
  have hcount : (r.entries key).countP r'.IsOrphaned ≤ r.orphanCount key :=
    List.countP_mono_left hmono
  unfold SessionRegistry.orphanCount
  cases h with
  | registers slot hstate _ heq =>
      have hnew : ¬ r'.IsOrphaned r.slots.length := by
        intro horphan
        have hstate' : r'.stateOf r.slots.length = some slot.state := by
          rw [heq]
          exact SessionRegistry.field_registerActive_new
        rw [SessionRegistry.IsOrphaned, hstate', hstate] at horphan
        cases horphan
      have hentries : r'.entries key = if key = slot.identity.key32 then
          r.entries key ++ [r.slots.length] else r.entries key := by
        rw [heq, SessionRegistry.entries_registerActive]
      rw [hentries]
      split
      · rw [List.countP_append, List.countP_singleton, decide_eq_false hnew]
        exact hcount
      · exact hcount
  | updates other change _ _ _ heq =>
      have hentries : r'.entries key = r.entries key := by
        rw [heq, SessionRegistry.entries_update]
      rw [hentries]
      exact hcount
  | shrinks h => exact ((h.entries key).countP_le).trans hcount

end Effect

namespace Sessions

variable {s s' : Sessions} {task : TaskId}

/-! What the sections that can fail leave behind. -/

theorem step_registerActive {identity : NoshPublicKey} {sessionId : Uuid} {token : ByteArr 16}
    {now : Instant} (hstep : s.step (.registerActive task identity sessionId token now) = some s') :
    sessionId ∉ s.registry.slots.map (·.sessionId) ∧
      s' = { s with
        registry := s.registry.registerActive (.new identity sessionId token now)
        attached := (task, s.registry.slots.length) :: s.attached } := by
  rw [step] at hstep
  split at hstep
  · cases hstep
  · rename_i hfresh
    cases hstep
    exact ⟨hfresh, rfl⟩

theorem step_markOrphaned {ref : SlotRef} {now : Instant}
    (hstep : s.step (.markOrphaned task ref now) = some s') :
    ref < s.registry.slots.length ∧
      s' = {
        registry := s.registry.markOrphaned ref now
        attached := s.attached.erase (task, ref)
        orphaning := (task, ref) :: s.orphaning } := by
  rw [step] at hstep
  split at hstep
  · rename_i halloc
    cases hstep
    exact ⟨halloc, rfl⟩
  · cases hstep

theorem step_orphanLocked {ref : SlotRef} (hstep : s.step (.orphanLocked task ref) = some s') :
    (task, ref) ∈ s.orphaning ∧
      s' = { s with
        registry := s.registry.orphanLocked ref
        orphaning := s.orphaning.erase (task, ref) } := by
  rw [step] at hstep
  split at hstep
  · rename_i hcall
    cases hstep
    exact ⟨hcall, rfl⟩
  · cases hstep

/-- A refused reattach changes nothing. -/
theorem step_reattach {token : ByteArr 16} {identity : NoshPublicKey}
    (hstep : s.step (.reattach task token identity) = some s') :
    (∃ ref, s.registry.reattach token identity =
          (.ok ref, s.registry.update ref .markReconnecting) ∧
        s' = { s with
          registry := s.registry.update ref .markReconnecting
          attached := (task, ref) :: s.attached }) ∨
      ∃ reject, s.registry.reattach token identity = (.error reject, s.registry) ∧ s' = s := by
  rw [step] at hstep
  split at hstep
  · rename_i ref registry hok
    cases hstep
    obtain ⟨-, -, -, -, rfl⟩ := SessionRegistry.reattach_eq_ok hok
    exact Or.inl ⟨ref, hok, rfl⟩
  · rename_i reject registry herror
    cases hstep
    obtain rfl := SessionRegistry.reattach_eq_error herror
    exact Or.inr ⟨reject, herror, rfl⟩

/-- **What a step does to the registry.** -/
theorem step_effect {a : SessionAction} (hstep : s.step a = some s') :
    Effect s.registry s'.registry a.marked := by
  cases a with
  | registerActive task identity sessionId token now =>
      obtain ⟨hfresh, rfl⟩ := step_registerActive hstep
      exact .registers _ rfl hfresh rfl
  | markOrphaned task ref now =>
      obtain ⟨-, rfl⟩ := step_markOrphaned hstep
      exact .marks ref now rfl
  | orphanLocked task ref =>
      obtain ⟨-, rfl⟩ := step_orphanLocked hstep
      exact .shrinks (SessionRegistry.shrinks_orphanLocked ref)
  | reattach task token identity =>
      obtain ⟨ref, -, rfl⟩ | ⟨reject, -, rfl⟩ := step_reattach hstep
      · exact .updates ref .markReconnecting (fun _ => rfl) (fun _ => rfl) nofun rfl
      · exact .refl _
  | commitToken ref token =>
      cases hstep
      exact .updates ref (.commitToken token) (fun _ => rfl) (fun _ => rfl) (fun _ h => h) rfl
  | markActive task ref now =>
      cases hstep
      exact .updates ref (.markActive now) (fun _ => rfl) (fun _ => rfl) nofun rfl
  | touch ref now =>
      cases hstep
      exact .updates ref (.touch now) (fun _ => rfl) (fun _ => rfl) (fun _ h => h) rfl
  | remove identityRaw sessionId =>
      cases hstep
      exact .shrinks (SessionRegistry.shrinks_remove identityRaw sessionId)
  | removeSlot ref =>
      cases hstep
      exact .shrinks (SessionRegistry.shrinks_removeSlot ref)
  | reapOnce now exited =>
      cases hstep
      exact .shrinks (SessionRegistry.shrinks_reapOnce now exited)
  | detach task ref =>
      cases hstep
      exact .refl _

end Sessions

/-! ## Mutual exclusion -/

/-- A slot is served by one task at most, and by none while it is Orphaned. -/
structure Exclusive (s : Sessions) : Prop where
  allocated : ∀ link ∈ s.attached, link.2 < s.registry.slots.length
  one : ∀ ref, s.servers ref ≤ 1
  orphan : ∀ ref, s.registry.IsOrphaned ref → s.servers ref = 0

namespace Exclusive

variable {s s' : Sessions} {task : TaskId} {ref : SlotRef}

theorem start (maxPerIdentity idleTimeout : ℕ) : Exclusive (.start maxPerIdentity idleTimeout) :=
  ⟨nofun, fun _ => Nat.zero_le 1, fun _ _ => rfl⟩

variable (h : Exclusive s)

include h

/-- No slot is marked and no task comes to serve one. -/
theorem keep (heffect : Effect s.registry s'.registry none)
    (hsub : s'.attached.Sublist s.attached) : Exclusive s' := by
  have hservers : ∀ ref, s'.servers ref ≤ s.servers ref := fun ref => hsub.countP_le
  refine ⟨fun link hlink => ?_, fun ref => (hservers ref).trans (h.one ref), fun ref horphan => ?_⟩
  · exact (h.allocated link (hsub.subset hlink)).trans_le heffect.length_le
  · rcases heffect.isOrphaned horphan with horphan | hmarked
    · exact Nat.le_zero.mp ((hservers ref).trans (h.orphan ref horphan).le)
    · cases hmarked

/-- A task comes to serve a slot that no task serves. -/
theorem attach (heffect : Effect s.registry s'.registry none)
    (hattached : s'.attached = (task, ref) :: s.attached) (halloc : ref < s'.registry.slots.length)
    (hfree : s.servers ref = 0) (hstate : ¬ s'.registry.IsOrphaned ref) : Exclusive s' := by
  have hother : ∀ other, other ≠ ref → s'.servers other = s.servers other := by
    intro other hne
    unfold Sessions.servers
    rw [hattached, List.countP_cons_of_neg (by simpa using hne.symm)]
  have hself : s'.servers ref = 1 := by
    unfold Sessions.servers at hfree ⊢
    rw [hattached, List.countP_cons_of_pos (by simp), hfree]
  refine ⟨fun link hlink => ?_, fun other => ?_, fun other horphan => ?_⟩
  · rw [hattached, List.mem_cons] at hlink
    rcases hlink with rfl | hlink
    · exact halloc
    · exact (h.allocated link hlink).trans_le heffect.length_le
  · by_cases hne : other = ref
    · rw [hne, hself]
    · rw [hother other hne]
      exact h.one other
  · have hne : other ≠ ref := by
      rintro rfl
      exact hstate horphan
    rw [hother other hne]
    rcases heffect.isOrphaned horphan with horphan | hmarked
    · exact h.orphan other horphan
    · cases hmarked

/-- A task orphans the slot that it serves. -/
theorem mark (heffect : Effect s.registry s'.registry (some ref))
    (howned : (task, ref) ∈ s.attached) (hattached : s'.attached = s.attached.erase (task, ref)) :
    Exclusive s' := by
  have hsub : s'.attached.Sublist s.attached := by
    rw [hattached]
    exact List.erase_sublist
  have hservers : ∀ other, s'.servers other ≤ s.servers other := fun other => hsub.countP_le
  have hself : s'.servers ref + 1 = s.servers ref := by
    unfold Sessions.servers
    rw [hattached, (List.perm_cons_erase howned).countP_eq, List.countP_cons_of_pos (by simp)]
  refine ⟨fun link hlink => ?_, fun other => (hservers other).trans (h.one other),
    fun other horphan => ?_⟩
  · exact (h.allocated link (hsub.subset hlink)).trans_le heffect.length_le
  · rcases heffect.isOrphaned horphan with horphan | hmarked
    · exact Nat.le_zero.mp ((hservers other).trans (h.orphan other horphan).le)
    · obtain rfl : ref = other := Option.some.inj hmarked
      have hone := h.one ref
      omega

theorem servers_new : s.servers s.registry.slots.length = 0 := by
  unfold Sessions.servers
  rw [List.countP_eq_zero]
  intro link hlink
  have hlt := h.allocated link hlink
  simpa using hlt.ne

/-- Every owned step keeps mutual exclusion. -/
theorem step {a : SessionAction} (howned : s.Owned a) (hstep : s.step a = some s') :
    Exclusive s' := by
  have heffect := Sessions.step_effect hstep
  cases a with
  | registerActive task identity sessionId token now =>
      obtain ⟨-, rfl⟩ := Sessions.step_registerActive hstep
      refine h.attach heffect rfl ?_ h.servers_new ?_
      · show _ < (s.registry.slots ++ [_]).length
        rw [List.length_append]
        exact Nat.lt_succ_self _
      · intro horphan
        have hstate := horphan.symm.trans SessionRegistry.field_registerActive_new
        cases hstate
  | markOrphaned task ref now =>
      obtain ⟨-, rfl⟩ := Sessions.step_markOrphaned hstep
      exact h.mark heffect howned rfl
  | orphanLocked task ref =>
      obtain ⟨-, rfl⟩ := Sessions.step_orphanLocked hstep
      exact h.keep heffect (List.Sublist.refl _)
  | reattach task token identity =>
      obtain ⟨ref, hok, rfl⟩ | ⟨reject, -, rfl⟩ := Sessions.step_reattach hstep
      · obtain ⟨-, -, -, horphan, -⟩ := SessionRegistry.reattach_eq_ok hok
        have halloc : ref < s.registry.slots.length := SessionRegistry.lt_length_of_field horphan
        refine h.attach heffect rfl (halloc.trans_le heffect.length_le) (h.orphan ref horphan) ?_
        intro horphan'
        have hstate := horphan'.symm.trans
          (SessionRegistry.stateOf_update_self (fun _ => rfl) halloc)
        cases hstate
      · exact h
  | detach task ref =>
      cases hstep
      exact h.keep heffect List.erase_sublist
  | commitToken _ _ | markActive _ _ _ | touch _ _ | remove _ _ | removeSlot _ | reapOnce _ _ =>
      cases hstep
      exact h.keep heffect (List.Sublist.refl _)

end Exclusive

/-- A slot stays as it is, Orphaned or not, until a task marks it. -/
theorem Sessions.not_isOrphaned_run {s t : Sessions} {ref : SlotRef} {later : List SessionAction}
    (h : ¬ s.registry.IsOrphaned ref) (hmark : ∀ a ∈ later, a.marked ≠ some ref)
    (hrun : sessions.run s later = some t) : ¬ t.registry.IsOrphaned ref := by
  induction later generalizing s with
  | nil =>
      cases hrun
      exact h
  | cons a later ih =>
      rw [Machine.run_cons, Option.bind_eq_some_iff] at hrun
      obtain ⟨s', hstep, hrun⟩ := hrun
      refine ih (fun horphan => ?_) (fun b hb => hmark b (List.mem_cons_of_mem a hb)) hrun
      rcases (Sessions.step_effect hstep).isOrphaned horphan with horphan | hmarked
      · exact h horphan
      · exact hmark a List.mem_cons_self hmarked

/-- **Two factors and mutual exclusion.**  In every interleaving in which only the task that
serves a slot orphans it or marks it Active: a reattach succeeds only on a slot of the
identity that has the token and is Orphaned; from then until the slot is next marked
Orphaned no reattach of it succeeds, whatever happens in between; at most one task serves
a slot; and a refused reattach changes nothing. -/
theorem reattach_exclusive (maxPerIdentity idleTimeout : ℕ) {schedule : List SessionAction}
    {s : Sessions}
    (howned : sessions.Along Sessions.Owned (.start maxPerIdentity idleTimeout) schedule)
    (hrun : sessions.run (.start maxPerIdentity idleTimeout) schedule = some s) :
    (∀ task token identity ref registry,
      s.registry.reattach token identity = (.ok ref, registry) →
        (ref ∈ s.registry.entries identity.key32 ∧ s.registry.identityOf ref = some identity ∧
          s.registry.tokenOf ref = some token ∧ s.registry.stateOf ref = some .orphaned) ∧
        ∀ s' later t, s.step (.reattach task token identity) = some s' →
          (∀ a ∈ later, a.marked ≠ some ref) → sessions.run s' later = some t →
          ∀ token' identity', (t.registry.reattach token' identity').1 ≠ .ok ref) ∧
    (∀ ref, s.servers ref ≤ 1) ∧
    ∀ task token identity reject registry,
      s.registry.reattach token identity = (.error reject, registry) →
        s.step (.reattach task token identity) = some s := by
  have hexclusive : Exclusive s :=
    sessions.invariant_along Exclusive (fun s a s' h howned hstep => h.step howned hstep)
      (.start maxPerIdentity idleTimeout) howned hrun
  refine ⟨fun task token identity ref registry hok => ?_, hexclusive.one,
    fun task token identity reject registry herror => ?_⟩
  · obtain ⟨hmem, hidentity, htoken, horphan, heq⟩ := SessionRegistry.reattach_eq_ok hok
    refine ⟨⟨hmem, hidentity, htoken, horphan⟩, fun s' later t hstep hmark hrun' => ?_⟩
    intro token' identity' hok'
    have hstate : ¬ s'.registry.IsOrphaned ref := by
      rw [Sessions.step, hok] at hstep
      cases hstep
      intro horphan'
      have hreconnecting : registry.stateOf ref = some .reconnecting := by
        rw [heq]
        exact SessionRegistry.stateOf_update_self (fun _ => rfl)
          (SessionRegistry.lt_length_of_field horphan)
      cases horphan'.symm.trans hreconnecting
    have horphan' : t.registry.IsOrphaned ref :=
      (SessionRegistry.reattach_eq_ok (Prod.ext hok' rfl)).2.2.2.1
    exact Sessions.not_isOrphaned_run hstate hmark hrun' horphan'
  · rw [Sessions.step, herror, SessionRegistry.reattach_eq_error herror]

/-- A session that is opened and orphaned by its task. -/
def orphanedSession (identity : NoshPublicKey) (token : ByteArr 16) : List SessionAction :=
  [.registerActive 0 identity 7 token 1, .markOrphaned 0 0 2, .orphanLocked 0 0]

/-- The orphaned session can be reattached, with everything the theorem says of it. -/
theorem reattach_exclusive_orphanedSession :
    ∃ s, sessions.run (.start 5 0)
        (orphanedSession ⟨.replicate 32 1, rfl⟩ ⟨.replicate 16 2, rfl⟩) = some s ∧
      (s.registry.reattach ⟨.replicate 16 2, rfl⟩ ⟨.replicate 32 1, rfl⟩).1.toOption = some 0 ∧
      s.servers 0 ≤ 1 :=
  have howned : sessions.Along Sessions.Owned (.start 5 0)
      (orphanedSession ⟨.replicate 32 1, rfl⟩ ⟨.replicate 16 2, rfl⟩) := by decide
  ⟨_, rfl, rfl, (reattach_exclusive 5 0 howned rfl).2.1 0⟩

/-! ## The cap on orphans -/

/-- An identity has at most `max m 1` orphans and one for each call of `orphan` under way. -/
structure Capped (maxPerIdentity : ℕ) (s : Sessions) : Prop where
  wellFormed : s.registry.WellFormed
  cap : s.registry.maxPerIdentity = maxPerIdentity
  bound : ∀ key, s.registry.orphanCount key ≤ max maxPerIdentity 1 + s.orphaningCount key

/-- Marking a slot makes one orphan at most, and of its own identity. -/
theorem SessionRegistry.WellFormed.orphanCount_markOrphaned {r : SessionRegistry}
    (h : r.WellFormed) (ref : SlotRef) (now : Instant) (key : ByteArr 32) :
    (r.markOrphaned ref now).orphanCount key ≤
      r.orphanCount key + if r.keyOf ref = some key then 1 else 0 := by
  have hother : ∀ other, other ≠ ref →
      ((r.markOrphaned ref now).IsOrphaned other ↔ r.IsOrphaned other) := by
    intro other hne
    unfold SessionRegistry.IsOrphaned
    rw [SessionRegistry.markOrphaned, SessionRegistry.stateOf_update_of_ne hne]
  show (r.entries key).countP (r.markOrphaned ref now).IsOrphaned ≤ (r.entries key).countP _ + _
  by_cases hmem : ref ∈ r.entries key
  · have hperm := List.perm_cons_erase hmem
    have hnotMem : ref ∉ (r.entries key).erase ref := (h.once key).not_mem_erase
    have hrest : ((r.entries key).erase ref).countP (r.markOrphaned ref now).IsOrphaned =
        ((r.entries key).erase ref).countP r.IsOrphaned := by
      refine List.countP_congr fun other hin => ?_
      rw [decide_eq_true_eq, decide_eq_true_eq]
      refine hother other ?_
      rintro rfl
      exact hnotMem hin
    rw [if_pos (h.home key ref hmem), hperm.countP_eq, hperm.countP_eq, List.countP_cons,
      List.countP_cons, hrest]
    split <;> omega
  · refine (List.countP_congr fun other hin => ?_).le.trans (Nat.le_add_right _ _)
    rw [decide_eq_true_eq, decide_eq_true_eq]
    refine hother other ?_
    rintro rfl
    exact hmem hin

namespace Capped

variable {maxPerIdentity : ℕ} {s s' : Sessions}

theorem start (maxPerIdentity idleTimeout : ℕ) :
    Capped maxPerIdentity (.start maxPerIdentity idleTimeout) :=
  ⟨.new _ _, rfl, fun _ => Nat.zero_le _⟩

/-- A call of `orphan` under way stays one while others take steps. -/
theorem orphaningCount_mono {marked : Option SlotRef}
    (heffect : Effect s.registry s'.registry marked)
    (horphaning : s.orphaning.Sublist s'.orphaning) (key : ByteArr 32) :
    s.orphaningCount key ≤ s'.orphaningCount key := by
  unfold Sessions.orphaningCount
  refine le_trans (List.countP_mono_left fun call _ hkey => ?_) horphaning.countP_le
  rw [decide_eq_true_eq] at hkey ⊢
  exact heffect.keyOf hkey

variable (h : Capped maxPerIdentity s)

include h

/-- No slot is marked and no call of `orphan` ends. -/
theorem keep (heffect : Effect s.registry s'.registry none)
    (horphaning : s'.orphaning = s.orphaning) : Capped maxPerIdentity s' := by
  refine ⟨heffect.wellFormed h.wellFormed, heffect.cap.trans h.cap, fun key => ?_⟩
  have hmono := orphaningCount_mono heffect (horphaning ▸ List.Sublist.refl _) key
  have hcount : s'.registry.orphanCount key ≤ s.registry.orphanCount key := heffect.orphanCount_le
  have hbound := h.bound key
  omega

/-- The first section of `orphan`. -/
theorem mark {task : TaskId} {ref : SlotRef} {now : Instant} {attached : List (TaskId × SlotRef)} :
    Capped maxPerIdentity
      ⟨s.registry.markOrphaned ref now, attached, (task, ref) :: s.orphaning⟩ := by
  have heffect : Effect s.registry (s.registry.markOrphaned ref now) (some ref) :=
    .marks ref now rfl
  refine ⟨heffect.wellFormed h.wellFormed, heffect.cap.trans h.cap, fun key => ?_⟩
  have hcount := h.wellFormed.orphanCount_markOrphaned ref now key
  have hbound := h.bound key
  have hkeys : ∀ other, (s.registry.markOrphaned ref now).keyOf other = s.registry.keyOf other :=
    fun other => SessionRegistry.field_update fun _ => rfl
  unfold Sessions.orphaningCount at hbound ⊢
  simp only [hkeys, List.countP_cons, decide_eq_true_eq]
  omega

/-- The second section of `orphan`. -/
theorem locked {task : TaskId} {ref : SlotRef} (hcall : (task, ref) ∈ s.orphaning) :
    Capped maxPerIdentity
      ⟨s.registry.orphanLocked ref, s.attached, s.orphaning.erase (task, ref)⟩ := by
  have hshrinks := SessionRegistry.shrinks_orphanLocked (r := s.registry) ref
  have heffect : Effect s.registry (s.registry.orphanLocked ref) none := .shrinks hshrinks
  refine ⟨heffect.wellFormed h.wellFormed, heffect.cap.trans h.cap, fun key => ?_⟩
  have hbound := h.bound key
  have hcalls : s.orphaningCount key =
      Sessions.orphaningCount
          ⟨s.registry.orphanLocked ref, s.attached, s.orphaning.erase (task, ref)⟩ key +
        if s.registry.keyOf ref = some key then 1 else 0 := by
    have hkeys : ∀ other, (s.registry.orphanLocked ref).keyOf other = s.registry.keyOf other :=
      hshrinks.field _
    unfold Sessions.orphaningCount
    simp only [hkeys]
    rw [(List.perm_cons_erase hcall).countP_eq, List.countP_cons]
    simp only [decide_eq_true_eq]
  by_cases hkey : s.registry.keyOf ref = some key
  · rw [if_pos hkey] at hcalls
    show (s.registry.orphanLocked ref).orphanCount key ≤ _
    rcases h.wellFormed.orphanCount_orphanLocked hkey with hevicted | hfew
    · omega
    · rw [h.cap] at hfew
      exact hfew.trans (Nat.le_add_right _ _)
  · rw [if_neg hkey] at hcalls
    have hcount : (s.registry.orphanLocked ref).orphanCount key ≤ s.registry.orphanCount key :=
      heffect.orphanCount_le
    show (s.registry.orphanLocked ref).orphanCount key ≤ _
    omega

/-- Every step keeps the cap, whoever takes it. -/
theorem step {a : SessionAction} (hstep : s.step a = some s') : Capped maxPerIdentity s' := by
  have heffect := Sessions.step_effect hstep
  cases a with
  | registerActive task identity sessionId token now =>
      obtain ⟨-, rfl⟩ := Sessions.step_registerActive hstep
      exact h.keep heffect rfl
  | markOrphaned task ref now =>
      obtain ⟨-, rfl⟩ := Sessions.step_markOrphaned hstep
      exact h.mark
  | orphanLocked task ref =>
      obtain ⟨hcall, rfl⟩ := Sessions.step_orphanLocked hstep
      exact h.locked hcall
  | reattach task token identity =>
      obtain ⟨ref, -, rfl⟩ | ⟨reject, -, rfl⟩ := Sessions.step_reattach hstep
      · exact h.keep heffect rfl
      · exact h
  | commitToken _ _ | markActive _ _ _ | touch _ _ | remove _ _ | removeSlot _ | reapOnce _ _
  | detach _ _ =>
      cases hstep
      exact h.keep heffect rfl

end Capped

namespace SessionRegistry

variable {r : SessionRegistry} {ref other : SlotRef}

/-- What the locked section of `orphan` takes out is Orphaned. -/
theorem isOrphaned_of_orphanLocked (hreg : r.Registered ref)
    (hgone : ¬ (r.orphanLocked other).Registered ref) : r.IsOrphaned ref := by
  obtain ⟨key, hkey, hmem⟩ := hreg
  have hkey' : (r.orphanLocked other).keyOf ref = some key :=
    ((shrinks_orphanLocked other).field _ ref).trans hkey
  have hnotMem : ref ∉ (r.orphanLocked other).entries key := fun hmem' =>
    hgone ⟨key, hkey', hmem'⟩
  unfold orphanLocked at hnotMem
  split at hnotMem
  · exact absurd hmem hnotMem
  · rename_i key' hother
    split at hnotMem
    · rename_i evicted hvictim
      rw [entries_setEntry] at hnotMem
      split at hnotMem
      · rename_i hsame
        subst hsame
        by_cases hevicted : ref = evicted
        · rw [hevicted]
          exact (victim_spec hvictim).2
        · exact absurd ((List.mem_erase_of_ne hevicted).mpr hmem) hnotMem
      · exact absurd hmem hnotMem
    · rw [entries_setEntry] at hnotMem
      split at hnotMem
      · rename_i hsame
        subst hsame
        exact absurd hmem hnotMem
      · exact absurd hmem hnotMem

/-- What `reap_once` takes out is Orphaned. -/
theorem isOrphaned_of_reapOnce {now : Instant} {exited : SlotRef → Bool}
    (hreg : r.Registered ref) (hgone : ¬ (r.reapOnce now exited).Registered ref) :
    r.IsOrphaned ref := by
  obtain ⟨key, hkey, hmem⟩ := hreg
  have hnotMem : ref ∉ (r.reapOnce now exited).entries key := fun hmem' =>
    hgone ⟨key, hkey, hmem'⟩
  rw [entries_reapOnce, List.mem_filter, not_and] at hnotMem
  have hreaps := hnotMem hmem
  rw [Bool.not_eq_true', Bool.not_eq_false, reaps, decide_eq_true_eq] at hreaps
  exact hreaps.1

end SessionRegistry

/-- The sections that take slots out on behalf of others: the eviction of `orphan`, and the
reaper. -/
inductive SessionAction.Evicts : SessionAction → Prop
  | orphanLocked (task : TaskId) (ref : SlotRef) : Evicts (.orphanLocked task ref)
  | reapOnce (now : Instant) (exited : SlotRef → Bool) : Evicts (.reapOnce now exited)

/-- **The cap on orphans, and whom eviction hits.**  In every interleaving, with any owner and
any cap `m`: an identity has at most `max m 1` registered orphans and one for each call of
`orphan` between its mark and the end of its locked section, and what the eviction of
`orphan` or the reaper takes out is Orphaned when it is taken out. -/
theorem orphans_capped (maxPerIdentity idleTimeout : ℕ) {schedule : List SessionAction}
    {s : Sessions}
    (hrun : sessions.run (.start maxPerIdentity idleTimeout) schedule = some s) :
    (∀ key, s.registry.orphanCount key ≤ max maxPerIdentity 1 + s.orphaningCount key) ∧
    ∀ a s' ref, a.Evicts → s.step a = some s' → s.registry.Registered ref →
      ¬ s'.registry.Registered ref → s.registry.stateOf ref = some .orphaned := by
  have hcapped : Capped maxPerIdentity s :=
    sessions.invariant_run (Capped maxPerIdentity) (fun s a s' h hstep => h.step hstep)
      (.start maxPerIdentity idleTimeout) hrun
  refine ⟨hcapped.bound, fun a s' ref hevicts hstep hreg hgone => ?_⟩
  cases hevicts with
  | orphanLocked task other =>
      obtain ⟨-, rfl⟩ := Sessions.step_orphanLocked hstep
      exact SessionRegistry.isOrphaned_of_orphanLocked hreg hgone
  | reapOnce now exited =>
      cases hstep
      exact SessionRegistry.isOrphaned_of_reapOnce hreg hgone

/-- Two sessions of one identity, both marked before either call goes on. -/
def crossingOrphans (identity : NoshPublicKey) (token : ByteArr 16) : List SessionAction :=
  [.registerActive 0 identity 7 token 1, .registerActive 1 identity 8 token 1,
    .markOrphaned 0 0 2, .markOrphaned 1 1 3]

/-- With a cap of one, two orphans are registered while two calls are under way. -/
theorem orphans_capped_crossingOrphans :
    ∃ s, sessions.run (.start 1 0)
        (crossingOrphans ⟨.replicate 32 1, rfl⟩ ⟨.replicate 16 2, rfl⟩) = some s ∧
      s.registry.orphanCount ⟨.replicate 32 1, rfl⟩ = 2 ∧
      s.registry.orphanCount ⟨.replicate 32 1, rfl⟩ ≤
        max 1 1 + s.orphaningCount ⟨.replicate 32 1, rfl⟩ :=
  ⟨_, rfl, rfl, (@orphans_capped 1 0 (crossingOrphans ⟨.replicate 32 1, rfl⟩ ⟨.replicate 16 2, rfl⟩)
    _ rfl).1 ⟨.replicate 32 1, rfl⟩⟩

end Nosh.Server
