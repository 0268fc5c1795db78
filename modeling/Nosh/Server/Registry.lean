import Mathlib.Data.List.MinMax
import Nosh.Auth.Keys

/-!
# The session registry

The server keeps its sessions in a registry: for each identity the list of its slots.
A slot is shared (an `Arc`) between the registry and the tasks that serve it, so a task
can change a slot that the registry no longer has.  `SessionRegistry.slots` therefore
holds every slot ever created, a `SlotRef` is the pointer to one, and `inner` is the map
behind the registry's lock.

The lock of a slot's field and the lock of the registry are taken separately.  Each
definition below is one atomic section of the source: `orphan` is the two sections
`markOrphaned` and `orphanLocked`.

## Main results

* `reattach_eq_ok` and `reattach_eq_error` — what an answer of `reattach` says.
* `WellFormed.register`, `WellFormed.update`, `WellFormed.shrinks` — slots stay under the
  key of their identity, once each, and session ids stay unique.
* `WellFormed.orphanCount_orphanLocked` — the locked section of `orphan` takes one orphan
  out, or leaves few enough.
-/

namespace Nosh.Server

open Nosh.Proto Nosh.Auth

/-- `SlotState`. -/
inductive SlotState
  | active
  | orphaned
  | reconnecting
  deriving DecidableEq

/-- A session id; `Uuid::new_v4` gives a new one each time. -/
abbrev Uuid := ℕ

/-- An `Instant`, in ticks of the clock. -/
abbrev Instant := ℕ

/-- The pointer of an `Arc<SessionSlot>`. -/
abbrev SlotRef := ℕ

/-- `SessionSlot`: what the registry reads of it. -/
structure SessionSlot where
  identity : NoshPublicKey
  sessionId : Uuid
  state : SlotState
  lastActive : Instant
  token : ByteArr 16
  deriving DecidableEq

namespace SessionSlot

/-- A new slot is Active. -/
def new (identity : NoshPublicKey) (sessionId : Uuid) (token : ByteArr 16) (now : Instant) :
    SessionSlot where
  identity := identity
  sessionId := sessionId
  state := .active
  lastActive := now
  token := token

def touch (now : Instant) (slot : SessionSlot) : SessionSlot := { slot with lastActive := now }

def markOrphaned (now : Instant) (slot : SessionSlot) : SessionSlot :=
  { slot with lastActive := now, state := .orphaned }

def markReconnecting (slot : SessionSlot) : SessionSlot := { slot with state := .reconnecting }

def markActive (now : Instant) (slot : SessionSlot) : SessionSlot :=
  { slot.touch now with state := .active }

def commitToken (token : ByteArr 16) (slot : SessionSlot) : SessionSlot :=
  { slot with token := token }

end SessionSlot

/-- `ReattachReject`. -/
inductive ReattachReject
  | notFound
  | identityMismatch
  | notOrphaned
  deriving DecidableEq

/-- `SessionRegistry`, with the slots its pointers lead to. -/
structure SessionRegistry where
  /-- Every slot created so far; a `SlotRef` is a position in it. -/
  slots : List SessionSlot
  inner : ByteArr 32 → Option (List SlotRef)
  maxPerIdentity : ℕ
  idleTimeout : ℕ

namespace SessionRegistry

/-- `SessionRegistry::new`. -/
def new (maxPerIdentity idleTimeout : ℕ) : SessionRegistry where
  slots := []
  inner := fun _ => none
  maxPerIdentity := maxPerIdentity
  idleTimeout := idleTimeout

/-- A field of the slot behind a pointer. -/
def field {β : Type} (get : SessionSlot → β) (r : SessionRegistry) (ref : SlotRef) : Option β :=
  r.slots[ref]?.map get

def stateOf : SessionRegistry → SlotRef → Option SlotState := field (·.state)

def tokenOf : SessionRegistry → SlotRef → Option (ByteArr 16) := field (·.token)

def identityOf : SessionRegistry → SlotRef → Option NoshPublicKey := field (·.identity)

def keyOf : SessionRegistry → SlotRef → Option (ByteArr 32) := field (·.identity.key32)

def sessionIdOf : SessionRegistry → SlotRef → Option Uuid := field (·.sessionId)

def lastActiveOf (r : SessionRegistry) (ref : SlotRef) : Instant :=
  (field (·.lastActive) r ref).getD 0

def IsOrphaned (r : SessionRegistry) (ref : SlotRef) : Prop := r.stateOf ref = some .orphaned

instance (r : SessionRegistry) : DecidablePred r.IsOrphaned :=
  fun _ => inferInstanceAs (Decidable (_ = _))

/-- The slots of an identity; an absent entry has none. -/
def entries (r : SessionRegistry) (key : ByteArr 32) : List SlotRef := (r.inner key).getD []

/-- The slot is in the list of its identity. -/
def Registered (r : SessionRegistry) (ref : SlotRef) : Prop :=
  ∃ key ∈ r.keyOf ref, ref ∈ r.entries key

instance (r : SessionRegistry) : DecidablePred r.Registered := fun ref =>
  match hkey : r.keyOf ref with
  | none => isFalse (by simp [Registered, hkey])
  | some key => decidable_of_iff (ref ∈ r.entries key) (by simp [Registered, hkey])

/-- Change the slot behind a pointer. -/
def update (r : SessionRegistry) (ref : SlotRef) (change : SessionSlot → SessionSlot) :
    SessionRegistry :=
  { r with slots := r.slots.modify ref change }

/-- Set the entry of one key. -/
def setEntry (r : SessionRegistry) (key : ByteArr 32) (entry : Option (List SlotRef)) :
    SessionRegistry :=
  { r with inner := Function.update r.inner key entry }

/-- `reattach`: under the lock, find the first slot of the identity that has the token. -/
def reattach (r : SessionRegistry) (token : ByteArr 16) (identity : NoshPublicKey) :
    Except ReattachReject SlotRef × SessionRegistry :=
  match r.inner identity.key32 with
  | none => (.error .notFound, r)
  | some slots =>
      match slots.find? fun ref => r.tokenOf ref = some token with
      | none => (.error .notFound, r)
      | some ref =>
          if r.identityOf ref ≠ some identity then (.error .identityMismatch, r)
          else if r.stateOf ref ≠ some .orphaned then (.error .notOrphaned, r)
          else (.ok ref, r.update ref .markReconnecting)

/-- `SessionSlot::new` and `register_active`. -/
def registerActive (r : SessionRegistry) (slot : SessionSlot) : SessionRegistry :=
  { r with
    slots := r.slots ++ [slot]
    inner := Function.update r.inner slot.identity.key32
      (some (r.entries slot.identity.key32 ++ [r.slots.length])) }

/-- The first section of `orphan`, on the slot alone. -/
def markOrphaned (r : SessionRegistry) (ref : SlotRef) (now : Instant) : SessionRegistry :=
  r.update ref (.markOrphaned now)

/-- The orphan that `orphan` takes out: the least recently active one, the slot just
orphaned excepted. -/
def victim (r : SessionRegistry) (ref : SlotRef) (slots : List SlotRef) : Option SlotRef :=
  if slots.countP r.IsOrphaned > r.maxPerIdentity then
    (slots.filter fun other => r.IsOrphaned other ∧ r.sessionIdOf other ≠ r.sessionIdOf ref).argmin
      r.lastActiveOf
  else none

/-- The locked section of `orphan`. -/
def orphanLocked (r : SessionRegistry) (ref : SlotRef) : SessionRegistry :=
  match r.keyOf ref with
  | none => r
  | some key =>
      match r.victim ref (r.entries key) with
      | some other => r.setEntry key (some ((r.entries key).erase other))
      | none => r.setEntry key (some (r.entries key))

/-- Keep the slots of one entry that `keep` accepts; an empty entry is dropped. -/
def retain (r : SessionRegistry) (key : ByteArr 32) (keep : SlotRef → Bool) : SessionRegistry :=
  match r.inner key with
  | none => r
  | some slots =>
      r.setEntry key (if (slots.filter keep).isEmpty then none else some (slots.filter keep))

/-- `remove`. -/
def remove (r : SessionRegistry) (identityRaw : ByteArr 32) (sessionId : Uuid) :
    SessionRegistry :=
  r.retain identityRaw fun ref => r.sessionIdOf ref ≠ some sessionId

/-- `remove_slot`: by pointer. -/
def removeSlot (r : SessionRegistry) (ref : SlotRef) : SessionRegistry :=
  match r.keyOf ref with
  | none => r
  | some key => r.retain key fun other => other ≠ ref

/-- What `reap_once` takes out; `exited` is the answer of `try_wait`. -/
def reaps (r : SessionRegistry) (now : Instant) (exited : SlotRef → Bool) (ref : SlotRef) : Bool :=
  r.IsOrphaned ref ∧
    (exited ref ∨ 0 < r.idleTimeout ∧ now - r.lastActiveOf ref ≥ r.idleTimeout)

/-- `reap_once`: empty entries are dropped. -/
def reapOnce (r : SessionRegistry) (now : Instant) (exited : SlotRef → Bool) : SessionRegistry :=
  { r with
    inner := fun key =>
      (r.inner key).bind fun slots =>
        let kept := slots.filter fun ref => !r.reaps now exited ref
        if kept.isEmpty then none else some kept }

/-- `orphan_count`. -/
def orphanCount (r : SessionRegistry) (key : ByteArr 32) : ℕ :=
  (r.entries key).countP r.IsOrphaned

/-! ## Reading a registry after an operation -/

section Reading

variable {r : SessionRegistry} {ref other : SlotRef} {key key' : ByteArr 32}
variable {change : SessionSlot → SessionSlot}

@[simp] theorem entries_update (change : SessionSlot → SessionSlot) :
    (r.update ref change).entries key = r.entries key := rfl

/-- A change of a slot that leaves a field alone is not seen through that field. -/
theorem field_update {β : Type} {get : SessionSlot → β} (h : ∀ slot, get (change slot) = get slot) :
    (r.update ref change).field get other = r.field get other := by
  unfold field update
  rw [List.getElem?_modify]
  cases r.slots[other]? with
  | none => rfl
  | some slot =>
      show some (get (if ref = other then change slot else slot)) = some (get slot)
      split
      · rw [h]
      · rfl

theorem field_update_of_ne {β : Type} {get : SessionSlot → β} (h : other ≠ ref) :
    (r.update ref change).field get other = r.field get other := by
  unfold field update
  simp [h.symm]

theorem stateOf_update_of_ne (h : other ≠ ref) :
    (r.update ref change).stateOf other = r.stateOf other :=
  field_update_of_ne h

theorem field_update_self {β : Type} {get : SessionSlot → β} {value : β}
    (h : ∀ slot, get (change slot) = value) (halloc : ref < r.slots.length) :
    (r.update ref change).field get ref = some value := by
  unfold field update
  rw [List.getElem?_modify, List.getElem?_eq_getElem halloc]
  simp [h]

/-- A change that does not make orphans meets an orphan. -/
theorem isOrphaned_of_update (h : ∀ slot, (change slot).state = .orphaned → slot.state = .orphaned)
    (horphan : (r.update ref change).IsOrphaned ref) : r.IsOrphaned ref := by
  unfold IsOrphaned stateOf field update at *
  rw [List.getElem?_modify] at horphan
  cases hslot : r.slots[ref]? with
  | none => simp [hslot] at horphan
  | some slot =>
      simp only [hslot, Option.map_eq_map, Option.map_some, if_true, Option.some.injEq] at horphan ⊢
      exact h slot horphan

theorem stateOf_update_self {state : SlotState} (h : ∀ slot, (change slot).state = state)
    (halloc : ref < r.slots.length) : (r.update ref change).stateOf ref = some state :=
  field_update_self h halloc

@[simp] theorem entries_setEntry (entry : Option (List SlotRef)) :
    (r.setEntry key entry).entries key' =
      if key' = key then entry.getD [] else r.entries key' := by
  unfold entries setEntry
  by_cases h : key' = key
  · subst h
    simp
  · simp [h]

theorem entries_retain (keep : SlotRef → Bool) :
    (r.retain key keep).entries key' =
      if key' = key then (r.entries key).filter keep else r.entries key' := by
  unfold retain
  split
  · rename_i hnone
    split
    · rename_i hkey
      subst hkey
      simp [entries, hnone]
    · rfl
  · rename_i slots hsome
    rw [entries_setEntry]
    have hentries : r.entries key = slots := by simp [entries, hsome]
    rw [hentries]
    split
    · split
      · rename_i hempty
        rw [List.isEmpty_iff.mp hempty]
        rfl
      · rfl
    · rfl

theorem entries_reapOnce (now : Instant) (exited : SlotRef → Bool) :
    (r.reapOnce now exited).entries key =
      (r.entries key).filter fun ref => !r.reaps now exited ref := by
  unfold entries reapOnce
  cases hinner : r.inner key with
  | none => simp [hinner]
  | some slots =>
      simp only [hinner, Option.bind_some, Option.getD_some]
      split
      · rename_i hempty
        rw [List.isEmpty_iff.mp hempty]
        rfl
      · rfl

theorem entries_registerActive (slot : SessionSlot) :
    (r.registerActive slot).entries key =
      if key = slot.identity.key32 then r.entries key ++ [r.slots.length] else r.entries key := by
  unfold registerActive
  by_cases h : key = slot.identity.key32
  · subst h
    simp [entries]
  · simp [entries, h]

theorem field_registerActive_of_lt {β : Type} {get : SessionSlot → β} {slot : SessionSlot}
    (h : ref < r.slots.length) : (r.registerActive slot).field get ref = r.field get ref := by
  unfold field registerActive
  rw [List.getElem?_append_left h]

theorem field_registerActive_new {β : Type} {get : SessionSlot → β} {slot : SessionSlot} :
    (r.registerActive slot).field get r.slots.length = some (get slot) := by
  simp [field, registerActive]

theorem lt_length_of_field {β : Type} {get : SessionSlot → β} {value : β}
    (h : r.field get ref = some value) : ref < r.slots.length := by
  obtain ⟨slot, hslot, -⟩ := Option.map_eq_some_iff.mp h
  exact (List.getElem?_eq_some_iff.mp hslot).choose

end Reading

/-! ## What the operations do -/

section Operations

variable {r : SessionRegistry} {ref : SlotRef} {token : ByteArr 16} {identity : NoshPublicKey}
variable {r' : SessionRegistry}

/-- An accepted reattach names a slot of the identity that has the token and is Orphaned,
and marks it Reconnecting. -/
theorem reattach_eq_ok (h : r.reattach token identity = (.ok ref, r')) :
    ref ∈ r.entries identity.key32 ∧ r.identityOf ref = some identity ∧
      r.tokenOf ref = some token ∧ r.IsOrphaned ref ∧
      r' = r.update ref .markReconnecting := by
  unfold reattach at h
  split at h
  · cases h
  · rename_i slots hinner
    split at h
    · cases h
    · rename_i found hfound
      split at h
      · cases h
      · rename_i hidentity
        split at h
        · cases h
        · rename_i hstate
          cases h
          have hmem : ref ∈ r.entries identity.key32 := by
            rw [entries, hinner]
            exact List.mem_of_find?_eq_some hfound
          have htoken : r.tokenOf ref = some token := by
            simpa using List.find?_some hfound
          exact ⟨hmem, not_not.mp hidentity, htoken, not_not.mp hstate, rfl⟩

/-- The token of a registered slot, which no other slot of the identity has, is accepted exactly
when the slot is Orphaned. -/
theorem reattach_of_registered (hreg : r.Registered ref)
    (hidentity : r.identityOf ref = some identity) (htoken : r.tokenOf ref = some token)
    (hunique : ∀ other, r.tokenOf other = some token → other = ref) (horphan : r.IsOrphaned ref) :
    (r.reattach token identity).1 = .ok ref := by
  obtain ⟨key, hkey, hmem⟩ := hreg
  have hown : key = identity.key32 := by
    obtain ⟨slot, hslot, hslotIdentity⟩ := Option.map_eq_some_iff.mp hidentity
    obtain ⟨slot', hslot', hslotKey⟩ := Option.map_eq_some_iff.mp hkey
    obtain rfl : slot = slot' := Option.some.inj (hslot.symm.trans hslot')
    rw [← hslotKey, hslotIdentity]
  subst hown
  unfold reattach
  cases hinner : r.inner identity.key32 with
  | none =>
      rw [entries, hinner] at hmem
      cases hmem
  | some slots =>
      rw [entries, hinner] at hmem
      have hfound : slots.find? (fun ref => r.tokenOf ref = some token) = some ref := by
        cases hfind : slots.find? (fun ref => r.tokenOf ref = some token) with
        | none =>
            have hnone := List.find?_eq_none.mp hfind ref hmem
            exact absurd (decide_eq_true htoken) hnone
        | some other =>
            have hother := List.find?_some hfind
            rw [hunique other (of_decide_eq_true hother)]
      have horphan' : r.stateOf ref = some .orphaned := horphan
      simp only [hfound, hidentity, horphan', ne_eq, not_true_eq_false, if_false]

/-- A refused reattach changes nothing. -/
theorem reattach_eq_error {reject : ReattachReject}
    (h : r.reattach token identity = (.error reject, r')) : r' = r := by
  unfold reattach at h
  repeat' split at h
  all_goals cases h
  all_goals rfl

/-- The slots stay and the lists only lose slots. -/
structure Shrinks (r r' : SessionRegistry) : Prop where
  slots : r'.slots = r.slots
  cap : r'.maxPerIdentity = r.maxPerIdentity
  entries : ∀ key, (r'.entries key).Sublist (r.entries key)

theorem Shrinks.field (h : Shrinks r r') {β : Type} (get : SessionSlot → β) (ref : SlotRef) :
    r'.field get ref = r.field get ref := by
  unfold SessionRegistry.field
  rw [h.slots]

theorem Shrinks.registered (h : Shrinks r r') (hreg : r'.Registered ref) : r.Registered ref := by
  obtain ⟨key, hkey, hmem⟩ := hreg
  refine ⟨key, ?_, (h.entries key).subset hmem⟩
  exact (h.field (·.identity.key32) ref).symm.trans hkey

theorem Shrinks.setEntry {key : ByteArr 32} {entry : Option (List SlotRef)}
    (h : (entry.getD []).Sublist (r.entries key)) : Shrinks r (r.setEntry key entry) := by
  refine ⟨rfl, rfl, fun key' => ?_⟩
  rw [entries_setEntry]
  split
  · rename_i hkey
    subst hkey
    exact h
  · exact List.Sublist.refl _

theorem shrinks_retain (key : ByteArr 32) (keep : SlotRef → Bool) :
    Shrinks r (r.retain key keep) := by
  refine ⟨?_, ?_, fun key' => ?_⟩
  · unfold retain
    split <;> rfl
  · unfold retain
    split <;> rfl
  · rw [entries_retain]
    split
    · rename_i hkey
      subst hkey
      exact List.filter_sublist
    · exact List.Sublist.refl _

theorem shrinks_remove (identityRaw : ByteArr 32) (sessionId : Uuid) :
    Shrinks r (r.remove identityRaw sessionId) :=
  shrinks_retain _ _

theorem shrinks_removeSlot (ref : SlotRef) : Shrinks r (r.removeSlot ref) := by
  unfold removeSlot
  split
  · exact ⟨rfl, rfl, fun _ => List.Sublist.refl _⟩
  · exact shrinks_retain _ _

theorem shrinks_reapOnce (now : Instant) (exited : SlotRef → Bool) :
    Shrinks r (r.reapOnce now exited) := by
  refine ⟨rfl, rfl, fun key => ?_⟩
  rw [entries_reapOnce]
  exact List.filter_sublist

theorem shrinks_orphanLocked (ref : SlotRef) : Shrinks r (r.orphanLocked ref) := by
  unfold orphanLocked
  split
  · exact ⟨rfl, rfl, fun _ => List.Sublist.refl _⟩
  · split
    · exact .setEntry List.erase_sublist
    · exact .setEntry (List.Sublist.refl _)

/-- The orphan taken out is one of the list, and Orphaned. -/
theorem victim_spec {slots : List SlotRef} {other : SlotRef}
    (h : r.victim ref slots = some other) : other ∈ slots ∧ r.IsOrphaned other := by
  unfold victim at h
  split at h
  · have hmem := List.argmin_mem h
    rw [List.mem_filter, decide_eq_true_eq] at hmem
    exact ⟨hmem.1, hmem.2.1⟩
  · cases h

end Operations

/-! ## Well-formedness -/

/-- Every slot is under the key of its identity and there once, and no two slots share a
session id. -/
structure WellFormed (r : SessionRegistry) : Prop where
  home : ∀ key, ∀ ref ∈ r.entries key, r.keyOf ref = some key
  once : ∀ key, (r.entries key).Nodup
  sessionIds : (r.slots.map (·.sessionId)).Nodup

namespace WellFormed

variable {r r' : SessionRegistry} {ref other : SlotRef} {key : ByteArr 32}

theorem new (maxPerIdentity idleTimeout : ℕ) :
    WellFormed (SessionRegistry.new maxPerIdentity idleTimeout) :=
  ⟨nofun, fun _ => List.nodup_nil, List.nodup_nil⟩

variable (h : WellFormed r)

include h

theorem lt_length (hmem : ref ∈ r.entries key) : ref < r.slots.length :=
  lt_length_of_field (h.home key ref hmem)

theorem shrinks (hshrinks : Shrinks r r') : WellFormed r' where
  home key ref hmem := by
    rw [← h.home key ref ((hshrinks.entries key).subset hmem)]
    exact hshrinks.field _ ref
  once key := (h.once key).sublist (hshrinks.entries key)
  sessionIds := by
    rw [hshrinks.slots]
    exact h.sessionIds

theorem update {change : SessionSlot → SessionSlot}
    (hidentity : ∀ slot, (change slot).identity = slot.identity)
    (hsession : ∀ slot, (change slot).sessionId = slot.sessionId) :
    WellFormed (r.update ref change) where
  home key other hmem := by
    rw [← h.home key other hmem]
    exact field_update fun slot => by rw [hidentity]
  once := h.once
  sessionIds := by
    have hmap : (r.update ref change).slots.map (·.sessionId) = r.slots.map (·.sessionId) := by
      apply List.ext_getElem?
      intro i
      rw [List.getElem?_map, List.getElem?_map]
      show (r.update ref change).field (·.sessionId) i = r.field (·.sessionId) i
      exact field_update hsession
    rw [hmap]
    exact h.sessionIds

theorem register {slot : SessionSlot} (hfresh : slot.sessionId ∉ r.slots.map (·.sessionId)) :
    WellFormed (r.registerActive slot) where
  home key ref hmem := by
    rw [entries_registerActive] at hmem
    split at hmem
    · rename_i hkey
      rw [List.mem_append, List.mem_singleton] at hmem
      rcases hmem with hmem | rfl
      · rw [← h.home key ref hmem]
        exact field_registerActive_of_lt (h.lt_length hmem)
      · rw [hkey]
        exact field_registerActive_new
    · rw [← h.home key ref hmem]
      exact field_registerActive_of_lt (h.lt_length hmem)
  once key := by
    rw [entries_registerActive]
    split
    · rw [List.nodup_append]
      refine ⟨h.once key, List.nodup_singleton _, fun ref hmem new hnew => ?_⟩
      rw [List.mem_singleton] at hnew
      subst hnew
      exact (h.lt_length hmem).ne
    · exact h.once key
  sessionIds := by
    show ((r.slots ++ [slot]).map (·.sessionId)).Nodup
    rw [List.map_append, List.nodup_append]
    refine ⟨h.sessionIds, List.nodup_singleton _, fun id hid new hnew => ?_⟩
    rw [List.map_singleton, List.mem_singleton] at hnew
    subst hnew
    rintro rfl
    exact hfresh hid

/-- Slots with one session id are one slot. -/
theorem eq_of_sessionIdOf (halloc : ref < r.slots.length)
    (hsession : r.sessionIdOf ref = r.sessionIdOf other) : ref = other := by
  unfold sessionIdOf field at hsession
  rw [← List.getElem?_map, ← List.getElem?_map] at hsession
  exact (List.getElem?_inj (by rw [List.length_map]; exact halloc) h.sessionIds).mp hsession

/-- With no orphan but the slot itself there is at most one. -/
theorem countP_le_one (ref : SlotRef)
    (hall : ∀ other ∈ r.entries key, r.IsOrphaned other → r.sessionIdOf other = r.sessionIdOf ref) :
    (r.entries key).countP r.IsOrphaned ≤ 1 := by
  have hsame : ∀ other ∈ (r.entries key).filter r.IsOrphaned, other = ref := by
    intro other hmem
    rw [List.mem_filter, decide_eq_true_eq] at hmem
    exact h.eq_of_sessionIdOf (h.lt_length hmem.1) (hall other hmem.1 hmem.2)
  have hsub : ((r.entries key).filter r.IsOrphaned).Subperm [ref] :=
    List.subperm_of_subset ((h.once key).filter _)
      fun other hmem => List.mem_singleton.mpr (hsame other hmem)
  rw [List.countP_eq_length_filter]
  exact hsub.length_le

/-- The locked section of `orphan` takes one orphan out, or leaves few enough. -/
theorem orphanCount_orphanLocked (hkey : r.keyOf ref = some key) :
    (r.orphanLocked ref).orphanCount key + 1 = r.orphanCount key ∨
      (r.orphanLocked ref).orphanCount key ≤ max r.maxPerIdentity 1 := by
  unfold orphanLocked
  simp only [hkey]
  cases hvictim : r.victim ref (r.entries key) with
  | some other =>
      obtain ⟨hmem, horphan⟩ := victim_spec hvictim
      left
      have hentries : (r.setEntry key (some ((r.entries key).erase other))).entries key =
          (r.entries key).erase other := by simp
      show ((r.setEntry key _).entries key).countP r.IsOrphaned + 1 = _
      rw [hentries, orphanCount, (List.perm_cons_erase hmem).countP_eq,
        List.countP_cons_of_pos (by exact decide_eq_true horphan)]
  | none =>
      right
      have hentries : (r.setEntry key (some (r.entries key))).entries key = r.entries key := by
        simp
      show ((r.setEntry key _).entries key).countP r.IsOrphaned ≤ _
      rw [hentries]
      unfold victim at hvictim
      split at hvictim
      · rw [List.argmin_eq_none, List.filter_eq_nil_iff] at hvictim
        have hone : (r.entries key).countP r.IsOrphaned ≤ 1 := by
          refine h.countP_le_one ref fun other hmem horphan => ?_
          have hnot := hvictim other hmem
          rw [decide_eq_true_eq, not_and_not_right] at hnot
          exact hnot horphan
        exact hone.trans (le_max_right _ _)
      · rename_i hcount
        exact (not_lt.mp hcount).trans (le_max_left _ _)

end WellFormed

end SessionRegistry

end Nosh.Server
