import Nosh.Server.Channels

/-!
# The channel map

What is in the `channel_map` of a pump after any sequence of client frames, task exits and
streams. A run is watched together with a count for one id: the `ChannelAccept` frames written
for it since the id was last absent from the map.

The documentation of `ChannelOpen` reserves id 0 for the control stream, and the client refuses a
`ChannelAccept` for it; the pump tests the parity of an id only.

## Main Definitions

* `Watch` — the channels of a session and the accepts of one id
* `Watch.MapWellFormed` — the bound of the map, its ids, and one accept for the watched id
* `Watch.LeavesControl` — no channel is opened under the id of the control stream

## Main Results

* `Channels.step_map` — an action shrinks the map or opens one channel.
* `channelMap_wellFormed_iff` — **the map is well formed throughout a run exactly when no
  scrollback channel is opened with id 0**, and no other type ever enters it.
-/

namespace Nosh.Server

open Lib Proto

namespace Channels

variable {s s' : Channels}

/-! ## What an action does to the map -/

/-- Nothing enters the map, and no channel is accepted. -/
structure Shrinks (s s' : Channels) : Prop where
  map : s'.channelMap.Sublist s.channelMap
  written : ∃ more, s'.written = s.written ++ more ∧
    ∀ channelId, Message.channelAccept channelId ∉ more

theorem Shrinks.of_written (hmap : s'.channelMap.Sublist s.channelMap)
    (hwritten : s'.written = s.written) : s.Shrinks s' where
  map := hmap
  written := ⟨[], by rw [hwritten, List.append_nil], fun _ => List.not_mem_nil⟩

/-- A frame is written that accepts nothing. -/
theorem Shrinks.of_frame {frame : Message} (hmap : s'.channelMap.Sublist s.channelMap)
    (hwritten : s'.written = s.written ++ [frame])
    (hframe : ∀ channelId, frame ≠ .channelAccept channelId) : s.Shrinks s' where
  map := hmap
  written := ⟨[frame], hwritten, fun channelId hmem =>
    hframe channelId (List.mem_singleton.mp hmem).symm⟩

/-- **What an action does to the map.** It takes entries out of it, or it is an accepted
`ChannelOpen`. -/
theorem step_map {testSupport : Bool} {a : ChannelAction} (hs : s.step testSupport a = some s') :
    s.Shrinks s' ∨
      ∃ channelId channelType, a = .channelOpen channelId channelType true ∧ s.running = true ∧
        s.Accepts testSupport channelId channelType ∧ s' = s.opened channelId := by
  cases step_effect hs with
  | quiet hmap htasks => exact Or.inl (.of_written hmap rfl)
  | reject channelId => exact Or.inl (.of_frame (.refl _) rfl (by rintro _ ⟨⟩))
  | opened hrunning haccepts => exact Or.inr ⟨_, _, rfl, hrunning, haccepts, rfl⟩
  | lost control => exact Or.inl (.of_written (List.nil_sublist _) rfl)
  | drained hcontrol => exact Or.inl (.of_frame List.filter_sublist rfl (by rintro _ ⟨⟩))
  | notified hget hphase => exact Or.inl (.of_written (.refl _) rfl)
  | ended task hstopped => exact Or.inl (.of_written (.refl _) rfl)

/-- In a production build an accepted channel is a scrollback channel. -/
theorem Accepts.scrollback {channelId : UInt32} {channelType : ChannelType}
    (h : s.Accepts false channelId channelType) : channelType = .scrollback := by
  obtain ⟨-, -, -, htype⟩ := h
  cases channelType with
  | scrollback => rfl
  | echo => cases htype
  | portForward => cases htype
  | agentForward => cases htype

theorem Shrinks.get_eq_none (h : s.Shrinks s') {channelId : UInt32}
    (hnone : s.get channelId = none) : s'.get channelId = none := by
  rw [get_eq_none_iff] at hnone ⊢
  exact fun entry hentry => hnone entry (h.map.subset hentry)

end Channels

/-! ## Watching one id -/

/-- The channels of a session, and the `ChannelAccept` frames written for one id since it was last
absent from the map. -/
structure Watch where
  channels : Channels
  accepts : ℕ
  deriving DecidableEq

namespace Watch

variable {channelId : UInt32} {w w' : Watch} {a : ChannelAction}

/-- A session without channels. -/
def new : Watch := ⟨.new, 0⟩

/-- One action, watched for `channelId`, in a production build. -/
def step (channelId : UInt32) (w : Watch) (a : ChannelAction) : Option Watch :=
  (w.channels.step false a).map fun s =>
    { channels := s
      accepts :=
        if s.get channelId = none then 0
        else w.accepts +
          (s.written.drop w.channels.written.length).count (.channelAccept channelId) }

/-- The life of a watched session. -/
def life (channelId : UInt32) : Machine Watch ChannelAction := ⟨step channelId⟩

/-- The map has room for no more than `MAX_OPEN_CHANNELS` entries, its keys are even and are not
the id of the control stream, and the watched id was accepted once if it is a key. -/
structure MapWellFormed (channelId : UInt32) (w : Watch) : Prop where
  length_le : w.channels.channelMap.length ≤ maxOpenChannels
  keys : ∀ entry ∈ w.channels.channelMap, entry.1 ≠ 0 ∧ entry.1 % 2 = 0
  accepts : w.channels.get channelId ≠ none → w.accepts = 1

/-- No scrollback channel is opened with the id of the control stream while there is room for
one. -/
def LeavesControl (w : Watch) : ChannelAction → Prop
  | .channelOpen channelId channelType sent =>
      ¬ (channelId = 0 ∧ channelType = .scrollback ∧ sent = true ∧ w.channels.running = true ∧
        w.channels.channelMap.length < maxOpenChannels)
  | _ => True

instance (w : Watch) (a : ChannelAction) : Decidable (w.LeavesControl a) :=
  match a with
  | .channelOpen _ _ _ => inferInstanceAs (Decidable (¬ (_ ∧ _ ∧ _ ∧ _ ∧ _)))
  | .channelClose _ | .channelCredit _ _ | .acceptBi _ | .control _ | .transportLost | .recv _
  | .finish _ | .notify _ => instDecidableTrue

theorem mapWellFormed_new (channelId : UInt32) : new.MapWellFormed channelId where
  length_le := Nat.zero_le _
  keys := fun _ h => (List.not_mem_nil h).elim
  accepts := fun h => absurd rfl h

/-- The count restarts when the id leaves the map. -/
theorem step_absent (hs : w.step channelId a = some w') (hnone : w'.channels.get channelId = none) :
    w'.accepts = 0 := by
  obtain ⟨s, -, rfl⟩ := Option.map_eq_some_iff.mp hs
  exact if_pos hnone

variable (h : w.MapWellFormed channelId)

include h

theorem MapWellFormed.shrinks (hs : w.step channelId a = some w')
    (hshrinks : w.channels.Shrinks w'.channels) : w'.MapWellFormed channelId where
  length_le := le_trans hshrinks.map.length_le h.length_le
  keys := fun entry hentry => h.keys entry (hshrinks.map.subset hentry)
  accepts := by
    intro hsome
    have hold : w.channels.get channelId ≠ none := fun hnone =>
      hsome (hshrinks.get_eq_none hnone)
    obtain ⟨more, hmore, haccept⟩ := hshrinks.written
    obtain ⟨s, -, rfl⟩ := Option.map_eq_some_iff.mp hs
    dsimp only at hsome hmore ⊢
    rw [if_neg hsome, hmore, List.drop_left, List.count_eq_zero.mpr (haccept channelId),
      h.accepts hold]

theorem MapWellFormed.opened {opened : UInt32} {channelType : ChannelType}
    (habsent : w.channels.get channelId = none → w.accepts = 0) (hs : w.step channelId a = some w')
    (haccepts : w.channels.Accepts false opened channelType)
    (hopened : w'.channels = w.channels.opened opened) (hzero : opened ≠ 0) :
    w'.MapWellFormed channelId := by
  obtain ⟨heven, hfree, hroom, -⟩ := haccepts
  refine ⟨?_, ?_, ?_⟩
  · rw [hopened]
    exact hroom
  · rw [hopened]
    intro entry hentry
    rcases List.mem_cons.mp hentry with rfl | hold
    · exact ⟨hzero, heven⟩
    · exact h.keys entry hold
  · intro hsome
    obtain ⟨s, -, rfl⟩ := Option.map_eq_some_iff.mp hs
    dsimp only at hsome hopened ⊢
    rw [if_neg hsome, hopened]
    change w.accepts + ((w.channels.written ++ [Message.channelAccept opened]).drop
      w.channels.written.length).count (Message.channelAccept channelId) = 1
    rw [List.drop_left]
    by_cases hid : opened = channelId
    · -- the id was absent, so this accept is the first
      subst hid
      rw [habsent hfree, List.count_singleton_self]
    · -- another id was opened, so the watched one was in the map before
      have hold : w.channels.get channelId ≠ none := by
        intro hnone
        refine hsome ?_
        rw [hopened, Channels.get_eq_none_iff]
        intro entry hentry
        rcases List.mem_cons.mp hentry with rfl | hmem
        · exact hid
        · exact Channels.get_eq_none_iff.mp hnone entry hmem
      have hne : Message.channelAccept channelId ∉ [Message.channelAccept opened] := by
        intro hmem
        exact hid (Message.channelAccept.inj (List.mem_singleton.mp hmem)).symm
      rw [h.accepts hold, List.count_eq_zero.mpr hne]

/-- A guarded action keeps the map well formed. -/
theorem MapWellFormed.step (habsent : w.channels.get channelId = none → w.accepts = 0)
    (hok : w.LeavesControl a) (hs : w.step channelId a = some w') : w'.MapWellFormed channelId := by
  have hchannels : w.channels.step false a = some w'.channels := by
    obtain ⟨s, hs', rfl⟩ := Option.map_eq_some_iff.mp hs
    exact hs'
  obtain hshrinks | ⟨opened, channelType, rfl, hrunning, haccepts, hopened⟩ :=
    Channels.step_map hchannels
  · exact h.shrinks hs hshrinks
  · refine h.opened habsent hs haccepts hopened ?_
    intro hzero
    exact hok ⟨hzero, haccepts.scrollback, rfl, hrunning, haccepts.2.2.1⟩

/-- An action that is not guarded puts the id of the control stream into the map. -/
theorem not_mapWellFormed_of_step (hbad : ¬ w.LeavesControl a) (hs : w.step channelId a = some w') :
    ¬ w'.MapWellFormed channelId := by
  cases a with
  | channelOpen opened channelType sent =>
      obtain ⟨rfl, rfl, rfl, hrunning, hroom⟩ := not_not.mp hbad
      have hfree : w.channels.get 0 = none :=
        Channels.get_eq_none_iff.mpr fun entry hentry => (h.keys entry hentry).1
      have haccepts : w.channels.Accepts false 0 .scrollback := ⟨rfl, hfree, hroom, rfl⟩
      have hchannels : w.channels.step false (.channelOpen 0 .scrollback true) =
          some (w.channels.opened 0) := by
        dsimp only [Channels.step, Channels.channelOpen]
        rw [if_pos hrunning, if_neg (by decide), if_pos haccepts, if_pos rfl]
      obtain ⟨s, hs', rfl⟩ := Option.map_eq_some_iff.mp hs
      rw [hchannels] at hs'
      cases hs'
      intro hgood
      exact (hgood.keys (0, w.channels.tasks.length) List.mem_cons_self).1 rfl
  | _ => exact absurd trivial hbad

end Watch

/-- **The channel map.** In every run of a production build the map is well formed in every state
exactly when no scrollback channel is opened with the id of the control stream: it has at most
`MAX_OPEN_CHANNELS` entries, each key is even and not 0, and its channel was accepted exactly
once since the id was last absent. An open of any other type never adds an entry. -/
theorem channelMap_wellFormed_iff (channelId : UInt32) (actions : List ChannelAction) :
    ((∀ w, (Watch.life channelId).Visits .new actions w → w.MapWellFormed channelId) ↔
        (Watch.life channelId).Along Watch.LeavesControl .new actions) ∧
      ∀ (s s' : Channels) (opened : UInt32) (channelType : ChannelType) (sent : Bool),
        channelType ≠ .scrollback →
        s.step false (.channelOpen opened channelType sent) = some s' →
        s'.channelMap.Sublist s.channelMap := by
  refine ⟨?_, ?_⟩
  · refine (Watch.life channelId).forall_visits_iff_along
      (fun w => w.channels.get channelId = none → w.accepts = 0) (Watch.MapWellFormed channelId)
      ?_ ?_ (fun _ => rfl) (Watch.mapWellFormed_new channelId) actions
    · intro w a w' habsent hgood hs
      refine ⟨Watch.step_absent hs, ?_⟩
      by_cases hok : w.LeavesControl a
      · exact ⟨fun _ => hok, fun _ => hgood.step habsent hok hs⟩
      · exact ⟨fun h => absurd h (Watch.not_mapWellFormed_of_step hgood hok hs),
          fun h => absurd h hok⟩
    · intro w a _ _ hs
      cases a with
      | channelOpen opened channelType sent =>
          -- only a pump that has ended refuses a frame
          rintro ⟨-, -, -, hrunning, -⟩
          change (w.channels.step false _).map _ = none at hs
          rw [Option.map_eq_none_iff] at hs
          dsimp only [Channels.step] at hs
          rw [if_pos hrunning] at hs
          cases hs
      | _ => trivial
  · intro s s' opened channelType sent htype hs
    obtain hshrinks | ⟨_, _, ha, -, haccepts, -⟩ := Channels.step_map hs
    · exact hshrinks.map
    · cases ha
      exact absurd haccepts.scrollback htype

/-- Channel 2 is opened, closed and opened again. -/
theorem channelMap_wellFormed_reopened :
    ∀ w, (Watch.life 2).Visits .new
        [.channelOpen 2 .scrollback true, .channelOpen 4 .agentForward true, .channelClose 2,
          .channelOpen 2 .scrollback true] w → w.MapWellFormed 2 :=
  (channelMap_wellFormed_iff 2 _).1.mpr (by decide)

/-- **The id of the control stream is accepted.** -/
theorem controlStream_id_accepted :
    ∃ w, (Watch.life 0).run .new [.channelOpen 0 .scrollback true] = some w ∧
      w.channels.channelMap = [(0, 0)] ∧ w.channels.written = [.channelAccept 0] ∧
      ¬ w.MapWellFormed 0 := by
  refine ⟨_, rfl, rfl, rfl, ?_⟩
  intro h
  exact (h.keys (0, 0) List.mem_cons_self).1 rfl

end Nosh.Server
