import Nosh.Server.Connections

/-!
# The cap on unauthenticated connections

Each accept loop takes a permit before it spawns a task, so that at most `max_concurrent`
tasks hold one.  A native task keeps its permit until its peer is authenticated.  A
WebTransport task gives it back when the WebTransport session is accepted, and only then
begins the inner authentication: between the two the permit caps nothing.

## Main results

* `Permitted.step` — a permit is free or held, and what a step does to the cap.
* `preauth_capped_iff` — **the cap is kept exactly in the runs that accept a connection only
  while more permits are free than tasks are past the gate and unauthenticated.**
* `preauth_cap_exceeded` — a second peer, while the first authenticates.
-/

namespace Nosh.Server

open Nosh.Lib Nosh.Proto Nosh.Auth

namespace AcceptLoop

/-- The connections whose authentication has neither succeeded nor failed nor timed out. -/
def unauthenticated (s : AcceptLoop) : ℕ := s.conns.countP Phase.unauthenticated

/-- The tasks that hold a permit. -/
def held (s : AcceptLoop) : ℕ := s.conns.countP Phase.holdsPermit

/-- The tasks that have given their permit back and do not know their peer. -/
def ungated (s : AcceptLoop) : ℕ := s.conns.countP Phase.ungated

/-- A connection is accepted only while more permits are free than tasks are ungated; without
a free permit it is dropped. -/
def Gated (s : AcceptLoop) : LoopAction → Prop
  | .accept => s.permits = 0 ∨ s.ungated < s.permits
  | _ => True

instance (s : AcceptLoop) (a : LoopAction) : Decidable (s.Gated a) :=
  match a with
  | .accept => inferInstanceAs (Decidable (_ ∨ _))
  | .task _ _ | .watcher _ | .reaper _ _ | .touch _ _ => inferInstanceAs (Decidable True)

theorem unauthenticated_eq (s : AcceptLoop) : s.unauthenticated = s.held + s.ungated := by
  unfold unauthenticated held ungated
  induction s.conns with
  | nil => rfl
  | cons phase conns ih =>
      rw [List.countP_cons, List.countP_cons, List.countP_cons, ih]
      -- no task holds a permit and is ungated
      have hphase : (if phase.unauthenticated then 1 else 0) =
          (if phase.holdsPermit then 1 else 0) + (if phase.ungated then 1 else 0) := by
        cases phase with
        | openingStream identity => cases identity <;> rfl
        | _ => rfl
      omega

end AcceptLoop

variable {config : LoopConfig}

/-- A task does not come back before the gate. -/
theorem gate_of_move {registry : SessionRegistry} {task : TaskId} {before after : Phase}
    {event : TaskEvent} {actions : List SessionAction}
    (hmove : move config registry task before event = some (actions, after)) :
    (after.holdsPermit = true → before.holdsPermit = true) ∧
      (after.unauthenticated = true → before.unauthenticated = true) := by
  unfold move at hmove
  repeat' split at hmove
  all_goals cases hmove
  all_goals simp [Phase.holdsPermit, Phase.unauthenticated, Phase.ungated]

/-- Counting after one task has moved. -/
theorem countP_enter {conns : List Phase} {task : TaskId} {before : Phase} (after : Phase)
    (p : Phase → Bool) (hbefore : conns[task]? = some before) :
    (conns.set task after).countP p + (p before).toNat = conns.countP p + (p after).toNat := by
  obtain ⟨hlt, hget⟩ := List.getElem?_eq_some_iff.mp hbefore
  have hpos : p before = true → 0 < conns.countP p := fun hp =>
    List.countP_pos_iff.mpr ⟨before, hget ▸ List.getElem_mem hlt, hp⟩
  rw [List.countP_set hlt, hget]
  cases hb : p before with
  | false => cases p after <;> simp
  | true =>
      have hcount := hpos hb
      cases p after <;> simp <;> omega

/-- A permit is free or held. -/
def Permitted (config : LoopConfig) (s : AcceptLoop) : Prop :=
  s.permits + s.held = config.maxConcurrent

/-- What a step does to the permits and to the unauthenticated connections. -/
theorem Permitted.step {s s' : AcceptLoop} {a : LoopAction} (h : Permitted config s)
    (hstep : s.step config a = some s') :
    Permitted config s' ∧ (s.unauthenticated ≤ config.maxConcurrent →
      (s'.unauthenticated ≤ config.maxConcurrent ↔ s.Gated a)) := by
  have hperform : ∀ {b : SessionAction}, s.perform [b] = some s' →
      Permitted config s' ∧ (s.unauthenticated ≤ config.maxConcurrent →
        (s'.unauthenticated ≤ config.maxConcurrent ↔ True)) := by
    intro b hperform
    obtain ⟨shared, -, rfl⟩ := AcceptLoop.perform_eq_some.mp hperform
    exact ⟨h, fun hcap => iff_of_true hcap trivial⟩
  cases a with
  | accept =>
      cases hstep
      split
      · rename_i hnone
        exact ⟨h, fun hcap => iff_of_true hcap (Or.inl hnone)⟩
      · rename_i hfree
        have hheld : AcceptLoop.held ⟨s.permits - 1, s.conns ++ [.handshake], s.shared⟩ =
            s.held + 1 := List.countP_append
        have hungated : AcceptLoop.ungated ⟨s.permits - 1, s.conns ++ [.handshake], s.shared⟩ =
            s.ungated := List.countP_append
        unfold Permitted at h ⊢
        refine ⟨?_, fun hcap => ?_⟩
        · rw [hheld]
          show s.permits - 1 + _ = _
          omega
        · rw [AcceptLoop.unauthenticated_eq, hheld, hungated]
          show _ ↔ s.permits = 0 ∨ s.ungated < s.permits
          omega
  | task task event =>
      obtain ⟨before, actions, after, shared, hbefore, hmove, -, rfl⟩ :=
        AcceptLoop.step_task_eq_some hstep
      obtain ⟨hholds, hgate⟩ := gate_of_move hmove
      have hheld := countP_enter after Phase.holdsPermit hbefore
      have hcount := countP_enter after Phase.unauthenticated hbefore
      have hback : (if before.holdsPermit ∧ ¬ after.holdsPermit then 1 else 0) +
          after.holdsPermit.toNat = before.holdsPermit.toNat := by
        cases hb : before.holdsPermit <;> cases ha : after.holdsPermit <;> simp_all
      have hless : after.unauthenticated.toNat ≤ before.unauthenticated.toNat := by
        cases hb : before.unauthenticated <;> cases ha : after.unauthenticated <;> simp_all
      refine ⟨?_, fun hcap => iff_of_true (le_trans ?_ hcap) trivial⟩
      · unfold Permitted AcceptLoop.held at h ⊢
        show s.permits + _ + (s.conns.set task after).countP Phase.holdsPermit = _
        omega
      · show (s.conns.set task after).countP Phase.unauthenticated ≤ s.conns.countP _
        omega
  | watcher ref => exact hperform hstep
  | reaper now exited => exact hperform hstep
  | touch ref now => exact hperform hstep

/-- **The cap, exactly.**  An accept loop has at most `max_concurrent` unauthenticated connections
throughout a run exactly when it accepts each connection while more permits are free than
tasks are past the gate and unauthenticated; for a WebTransport server that requires it, those
are the tasks on their way through the inner authentication. -/
theorem preauth_capped_iff (config : LoopConfig) (schedule : List LoopAction) :
    (∀ s, (acceptLoop config).Visits (.start config) schedule s →
        s.unauthenticated ≤ config.maxConcurrent) ↔
      (acceptLoop config).Along AcceptLoop.Gated (.start config) schedule := by
  have hstart : Permitted config (.start config) := rfl
  refine (acceptLoop config).forall_visits_iff_along (Permitted config)
    (fun s => s.unauthenticated ≤ config.maxConcurrent) (fun s a s' hpermitted hcap hstep => ?_)
    (fun s a _ _ hrefused => ?_) hstart (Nat.zero_le _) schedule
  · obtain ⟨hpermitted', hiff⟩ := hpermitted.step hstep
    exact ⟨hpermitted', hiff hcap⟩
  · cases a with
    | accept => cases hrefused
    | _ => trivial

/-- Two peers, of which the first has got as far as the inner authentication. -/
def crossingPeers (identity : NoshPublicKey) : List LoopAction :=
  [.accept, .task 0 (.resolved identity), .task 0 .accepted, .task 0 .streamOpened, .accept]

/-- **The cap is exceeded.**  With one permit, two connections are unauthenticated: the first is
in the inner authentication, the second in its handshake. -/
theorem preauth_cap_exceeded :
    ∃ s, (acceptLoop ⟨.webTransport, .required, 1, 5, 0⟩).run
          (.start ⟨.webTransport, .required, 1, 5, 0⟩) (crossingPeers ⟨.replicate 32 1, rfl⟩) =
        some s ∧
      s.conns = [.innerAuth, .handshake] ∧ s.unauthenticated = 2 :=
  ⟨_, rfl, rfl, rfl⟩

end Nosh.Server
