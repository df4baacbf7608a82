import NetSiege.Lib.Run
import NetSiege.Oms.Replication

/-!
# World state updates (`NetworkServer::sync`, `NetworkClient::handle_receive`)

Between two updates the server's world changes step by step, and its pending sets record what
changed (`Tracks`, kept by every step that spares the pending objects). An update describes the
pending objects and names the removed ids; a client that had the world of the last update follows it
to the new one (`deltaSync_iff`).
-/

namespace NetSiege

open Lib

/-- `S2CMessage::WorldStateUpdate`. -/
structure WorldStateUpdate where
  updatedObjects : List ProtoGameObject := []
  removedIds : List ObjectId := []
deriving DecidableEq

namespace ObjectManager

variable {σ V : Type} {H : ScriptHost σ V} {alloc : Allocator σ} {m m' s s' s0 s1 : ObjectManager σ}
  {id : ObjectId} {p : Ptr} {o : GameObject σ}

/-- The update of `NetworkServer::sync`. -/
def worldStateUpdate (H : ScriptHost σ V) (m : ObjectManager σ) : Except Trap WorldStateUpdate := do
  let updatedObjects ← m.serializeChanges H
  .ok { updatedObjects, removedIds := m.removedIds.keys }

/-- What `NetworkClient::handle_receive` does with an update. -/
def applyUpdate (H : ScriptHost σ V) (alloc : Allocator σ) (m : ObjectManager σ)
    (update : WorldStateUpdate) : Except Trap (ObjectManager σ) := do
  let m ← m.deserialize H alloc update.updatedObjects
  .ok (update.removedIds.foldl (removeObject H) m).flushUpdateCache

/-- A client follows an update if it comes through the descriptions; then it removes. -/
theorem applyUpdate_eq_ok {update : WorldStateUpdate} :
    m.applyUpdate H alloc update = .ok m' ↔ ∃ m1,
      update.updatedObjects.foldlM (deserializeOne H alloc) m = .ok m1 ∧
        m' = (update.removedIds.foldl (removeObject H) m1.flushUpdateCache).flushUpdateCache := by
  constructor
  · intro h
    obtain ⟨_, hread, heq⟩ := bind_eq_ok.1 h
    obtain ⟨m1, hm1, hflush⟩ := bind_eq_ok.1 hread
    cases hflush
    exact ⟨m1, hm1, (Except.ok.inj heq).symm⟩
  · rintro ⟨m1, hm1, rfl⟩
    exact bind_eq_ok.2 ⟨_, bind_eq_ok.2 ⟨m1, hm1, rfl⟩, rfl⟩

/-! ## Steps of a world -/

/-- A step of a world. A creation comes with the memory it gets, a mutation is reported by
`addUpdatedObject`. -/
inductive StoreOp (σ : Type) where
  | createObject (address : Ptr) (garbage : Matrix4) (typeName name : String)
  | removeObject (id : ObjectId)
  | mutate (id : ObjectId) (contents : Contents σ)

/-- The world after a step. There is none if an assertion fails, the memory is in use, or there is
no such object to mutate. -/
def step (H : ScriptHost σ V) (m : ObjectManager σ) : StoreOp σ → Option (ObjectManager σ)
  | .createObject address garbage typeName name =>
    if h : address ∉ m.references then
      (m.createObject H ⟨address, garbage, h⟩ typeName name true 0).toOption.map (·.2)
    else none
  | .removeObject id => some (m.removeObject H id)
  | .mutate id contents =>
    match m.objects.byId.find? id, m.objects.lookup id with
    | some obj, some o =>
      if H.classOf contents.script = o.scriptInfo.className then
        some ({ m with objects := m.objects.setContents id contents }.addUpdatedObject obj)
      else none
    | _, _ => none

/-- The object at an address waits for the next update. -/
def IsPending (m : ObjectManager σ) (p : Ptr) : Prop :=
  p ∈ m.newObjects.keys ∨ p ∈ m.alteredObjects.keys

/-- The id under which a step takes away the object that is there. -/
def takes (m : ObjectManager σ) : StoreOp σ → Option ObjectId
  | .createObject .. => some m.nextId
  | .removeObject id => some id
  | .mutate .. => none

/-- A step does not take away an object that waits for the next update. -/
def SparesPending (m : ObjectManager σ) (op : StoreOp σ) : Prop :=
  ∀ id p, m.takes op = some id → m.objects.byId.find? id = some p → ¬ m.IsPending p

/-- Where a step leaves the map from ids to addresses. -/
inductive StepCases (H : ScriptHost σ V) (m : ObjectManager σ) : StoreOp σ → ObjectManager σ → Prop
  | created {address : Ptr} {garbage : Matrix4} {typeName name : String} {o : GameObject σ}
      {m' : ObjectManager σ} (h : address ∉ m.references)
      (hcreated : m.Created H ⟨address, garbage, h⟩ typeName name o m') :
      StepCases H m (.createObject address garbage typeName name) m'
  | removed {id : ObjectId} {p : Ptr} (hp : m.objects.byId.find? id = some p) :
      StepCases H m (.removeObject id) { m with
        objects := m.objects.remove id (·.onRemove H)
        removedIds := m.removedIds.insert id () }
  | absent {id : ObjectId} (hnone : m.objects.byId.find? id = none) :
      StepCases H m (.removeObject id) m
  | mutated {id : ObjectId} {contents : Contents σ} {p : Ptr} {o : GameObject σ}
      (hp : m.objects.byId.find? id = some p) (ho : m.objects.lookup id = some o)
      (hclass : H.classOf contents.script = o.scriptInfo.className) :
      StepCases H m (.mutate id contents) { m with
        objects := m.objects.setContents id contents
        alteredObjects := m.alteredObjects.insert p () }

theorem step_cases {op : StoreOp σ} (h : step H m op = some m') : StepCases H m op m' := by
  cases op with
  | createObject address garbage typeName name =>
    simp only [step] at h
    split at h
    · next hfresh =>
      obtain ⟨⟨o, m1⟩, hcreate, rfl⟩ := toOption_map_eq_some.1 h
      exact .created hfresh (createObject_eq_ok hcreate)
    · cases h
  | removeObject id =>
    cases h
    unfold removeObject
    split
    · next hnone => exact .absent hnone
    · next hp => exact .removed hp
  | mutate id contents =>
    simp only [step] at h
    split at h
    · next hp ho =>
      split at h
      · next hclass =>
        cases h
        exact .mutated hp ho hclass
      · cases h
    · cases h

/-! ## What the pending sets record -/

/-- The object at an address is still one of the world. -/
def InWorld (m : ObjectManager σ) (p : Ptr) : Prop := ∃ id, m.objects.byId.find? id = some p

theorem not_isPending_of_empty (hn : m.newObjects = ∅) (ha : m.alteredObjects = ∅) :
    ¬ m.IsPending p := by
  rw [IsPending, hn, ha]
  exact fun h => h.elim (fun h => nomatch h) (fun h => nomatch h)

theorem mem_references_of_isPending (h : m.IsPending p) : p ∈ m.references := by
  rcases h with h | h
  · exact List.mem_append_left _ (List.mem_append_right _ h)
  · exact List.mem_append_right _ h

section
variable {cell : Cell m} {typeName name : String}

theorem Created.inWorld_self (h : m.Created H cell typeName name o m') : m'.InWorld cell.address :=
  ⟨m.nextId, by rw [h.byId, if_pos rfl]⟩

/-- An object stays unless its id is used again. -/
theorem Created.inWorld (h : m.Created H cell typeName name o m')
    (hne : m.objects.byId.find? m.nextId ≠ some p) (hp : m.InWorld p) : m'.InWorld p := by
  obtain ⟨id, hid⟩ := hp
  have hid' : id ≠ m.nextId := fun heq => hne (heq ▸ hid)
  exact ⟨id, by rw [h.byId, if_neg hid', hid]⟩

theorem Created.eq_or_inWorld (h : m.Created H cell typeName name o m') (hp : m'.InWorld p) :
    p = cell.address ∨ m.InWorld p ∧ m.objects.byId.find? m.nextId ≠ some p := by
  obtain ⟨id, hid⟩ := hp
  rw [h.byId] at hid
  split at hid
  · exact .inl (Option.some.inj hid).symm
  · next hne => exact .inr ⟨⟨id, hid⟩, fun heq => hne (ObjectStore.byId_inj hid heq)⟩

/-- The memory of a pending object is not given away. -/
theorem Created.inWorld_of_isPending (h : m.Created H cell typeName name o m')
    (hpending : m.IsPending p) (hp : m'.InWorld p) :
    m.InWorld p ∧ m.objects.byId.find? m.nextId ≠ some p := by
  rcases h.eq_or_inWorld hp with rfl | hp
  · exact absurd (mem_references_of_isPending hpending) cell.fresh
  · exact hp

end

/-- A removal takes away the object under its id and no other. -/
theorem inWorld_remove_iff {f : GameObject σ → GameObject σ} :
    (∃ id', (m.objects.remove id f).byId.find? id' = some p) ↔
      m.InWorld p ∧ m.objects.byId.find? id ≠ some p := by
  constructor
  · intro ⟨id', hid'⟩
    rw [ObjectStore.byId_remove] at hid'
    split at hid'
    · cases hid'
    · next hne => exact ⟨⟨id', hid'⟩, fun heq => hne (ObjectStore.byId_inj hid' heq)⟩
  · intro ⟨⟨id', hid'⟩, hne⟩
    have hid : id' ≠ id := fun heq => hne (heq ▸ hid')
    exact ⟨id', by rw [ObjectStore.byId_remove, if_neg hid, hid']⟩

/-- The pending sets of `s` record how its world differs from that of `s0`. -/
structure Tracks (H : ScriptHost σ V) (s0 s : ObjectManager σ) : Prop where
  typed : s.Typed H
  registeredTypes : s.registeredTypes = s0.registeredTypes
  pending : ∀ p, s.IsPending p → s.InWorld p
  untouched : ∀ {id p}, s.objects.byId.find? id = some p → ¬ s.IsPending p →
    s.view H id = s0.view H id
  old : ∀ {id p}, s.objects.byId.find? id = some p → p ∉ s.newObjects.keys → id ∈ s0.ids
  removed : ∀ id ∈ s.removedIds.keys, id ∈ s0.ids
  gone : ∀ id ∈ s0.ids, id ∈ s.ids ∨ id ∈ s.removedIds.keys

theorem tracks_refl (ht : s.Typed H) (hn : s.newObjects = ∅) (ha : s.alteredObjects = ∅)
    (hr : s.removedIds = ∅) : Tracks H s s where
  typed := ht
  registeredTypes := rfl
  pending p hp := absurd hp (not_isPending_of_empty hn ha)
  untouched _ _ := rfl
  old hp _ := OrdMap.mem_keys.2 ⟨_, hp⟩
  removed id hid := by simp [hr, OrdMap.mem_keys] at hid
  gone id hid := .inl hid

section
variable {cell : Cell m} {typeName name : String}

theorem Created.isPending (h : m.Created H cell typeName name o m') :
    m'.IsPending p ↔ p = cell.address ∨ m.IsPending p := by
  rw [IsPending, IsPending, h.newObjects, h.alteredObjects, OrdMap.mem_keys_insert, or_assoc]

theorem Created.view (h : m.Created H cell typeName name o m') (hne : id ≠ m.nextId) :
    m'.view H id = m.view H id := by
  rw [ObjectManager.view, h.lookup, if_neg hne, ObjectManager.view]

theorem Tracks.created (ht : Tracks H s0 m) (h : m.Created H cell typeName name o m')
    (hspares : ∀ p, m.objects.byId.find? m.nextId = some p → ¬ m.IsPending p) :
    Tracks H s0 m' where
  typed := h.typed ht.typed
  registeredTypes := h.registeredTypes.trans ht.registeredTypes
  pending p hp := by
    rcases h.isPending.1 hp with rfl | hp
    · exact h.inWorld_self
    · exact h.inWorld (fun hid => hspares p hid hp) (ht.pending p hp)
  untouched {id p} hid hp := by
    rw [h.isPending, not_or] at hp
    rw [h.byId] at hid
    split at hid
    · exact absurd (Option.some.inj hid).symm hp.1
    · next hne => rw [h.view hne, ht.untouched hid hp.2]
  old {id p} hid hp := by
    rw [h.newObjects, OrdMap.mem_keys_insert, not_or] at hp
    rw [h.byId] at hid
    split at hid
    · exact absurd (Option.some.inj hid).symm hp.1
    · exact ht.old hid hp.2
  removed := h.removedIds ▸ ht.removed
  gone id hid := by
    rw [h.removedIds]
    refine (ht.gone id hid).imp_left fun hmem => ?_
    rw [mem_ids_iff_kind, h.kind]
    split
    · rfl
    · exact mem_ids_iff_kind.1 hmem

end

theorem Tracks.removedObject (ht : Tracks H s0 m) (hid : m.objects.byId.find? id = some p)
    (hp : ¬ m.IsPending p) : Tracks H s0 { m with
      objects := m.objects.remove id (·.onRemove H)
      removedIds := m.removedIds.insert id () } where
  typed := by
    refine ⟨ht.typed.types, fun {id' o'} ho' => ?_⟩
    simp only [ObjectStore.lookup_remove] at ho'
    split at ho'
    · cases ho'
    · exact ht.typed.objects ho'
  registeredTypes := ht.registeredTypes
  pending q hq := by
    refine inWorld_remove_iff.2 ⟨ht.pending q hq, fun hid' => ?_⟩
    rw [hid] at hid'
    exact hp (Option.some.inj hid' ▸ hq)
  untouched {id' q} hid' hq := by
    rw [ObjectStore.byId_remove] at hid'
    split at hid'
    · cases hid'
    · next hne =>
      rw [← ht.untouched hid' hq, view, view, ObjectStore.lookup_remove, if_neg hne]
  old {id' q} hid' hq := by
    rw [ObjectStore.byId_remove] at hid'
    split at hid'
    · cases hid'
    · exact ht.old hid' hq
  removed id' hid' := by
    rcases OrdMap.mem_keys_insert.1 hid' with rfl | hid'
    · exact ht.old hid fun hnew => hp (.inl hnew)
    · exact ht.removed id' hid'
  gone id' hid' := by
    rw [OrdMap.mem_keys_insert]
    by_cases heq : id' = id
    · exact .inr (.inl heq)
    refine (ht.gone id' hid').imp (fun hmem => ?_) .inr
    rw [ids, ← ObjectStore.lookup_isSome, ObjectStore.lookup_remove, if_neg heq,
      ObjectStore.lookup_isSome]
    exact hmem

theorem Tracks.mutated {c : Contents σ} (ht : Tracks H s0 m)
    (hid : m.objects.byId.find? id = some p) (ho : m.objects.lookup id = some o)
    (hclass : H.classOf c.script = o.scriptInfo.className) :
    Tracks H s0 { m with
      objects := m.objects.setContents id c
      alteredObjects := m.alteredObjects.insert p () } where
  typed := by
    have htyped := ht.typed.setContents id fun o' ho' => by rw [ho] at ho'; cases ho'; exact hclass
    exact ⟨htyped.types, htyped.objects⟩
  registeredTypes := ht.registeredTypes
  pending q hq := by
    rw [IsPending, OrdMap.mem_keys_insert, or_left_comm] at hq
    simp only [InWorld, ObjectStore.byId_setContents]
    rcases hq with rfl | hq
    · exact ⟨id, hid⟩
    · exact ht.pending q hq
  untouched {id' q} hid' hq := by
    rw [IsPending, OrdMap.mem_keys_insert, or_left_comm, not_or] at hq
    rw [ObjectStore.byId_setContents] at hid'
    have hne : id' ≠ id := by
      rintro rfl
      exact hq.1 (Option.some.inj (hid'.symm.trans hid))
    rw [← ht.untouched hid' hq.2, view, view, ObjectStore.lookup_setContents, if_neg hne]
  old {id' q} hid' hq := by
    rw [ObjectStore.byId_setContents] at hid'
    exact ht.old hid' hq
  removed := ht.removed
  gone id' hid' := by
    rw [ids, ObjectStore.byId_setContents]
    exact ht.gone id' hid'

/-- Every step that spares the pending objects is recorded. -/
theorem Tracks.step {op : StoreOp σ} (ht : Tracks H s0 s) (hspares : s.SparesPending op)
    (h : step H s op = some s') : Tracks H s0 s' := by
  cases step_cases h with
  | created hfresh hcreated => exact ht.created hcreated fun p => hspares _ p rfl
  | removed hp => exact ht.removedObject hp (hspares _ _ rfl hp)
  | absent => exact ht
  | mutated hp ho hclass => exact ht.mutated hp ho hclass

/-- An object that waits for the next update and has left the world. -/
def Dangles (m : ObjectManager σ) (p : Ptr) : Prop := m.IsPending p ∧ ¬ m.InWorld p

/-- Such an object never comes back. -/
theorem Dangles.step {op : StoreOp σ} (hd : s.Dangles p) (h : step H s op = some s') :
    s'.Dangles p := by
  cases step_cases h with
  | created hfresh hcreated =>
    refine ⟨hcreated.isPending.2 (.inr hd.1), fun hp => ?_⟩
    exact hd.2 (hcreated.inWorld_of_isPending hd.1 hp).1
  | removed => exact ⟨hd.1, fun hp => hd.2 (inWorld_remove_iff.1 hp).1⟩
  | absent => exact hd
  | mutated =>
    refine ⟨hd.1.imp_right fun hp => OrdMap.mem_keys_insert.2 (.inr hp), fun ⟨id, hid⟩ => ?_⟩
    rw [ObjectStore.byId_setContents] at hid
    exact hd.2 ⟨id, hid⟩

/-- A step that does not spare a pending object leaves it dangling. -/
theorem dangles_of_not_spares {op : StoreOp σ} (hnot : ¬ s.SparesPending op)
    (h : step H s op = some s') : ∃ p, s'.Dangles p := by
  simp only [SparesPending, not_forall, not_not] at hnot
  obtain ⟨id, p, htakes, hid, hp⟩ := hnot
  refine ⟨p, ?_⟩
  cases step_cases h with
  | created hfresh hcreated =>
    cases htakes
    refine ⟨hcreated.isPending.2 (.inr hp), fun hin => ?_⟩
    exact (hcreated.inWorld_of_isPending hp hin).2 hid
  | removed =>
    cases htakes
    exact ⟨hp, fun hin => (inWorld_remove_iff.1 hin).2 hid⟩
  | absent hnone =>
    cases htakes
    rw [hid] at hnone
    cases hnone
  | mutated => cases htakes

/-- A run after which all pending objects are in the world has spared them. -/
theorem along_sparesPending {ops : List (StoreOp σ)} (hrun : run (step H) s ops = some s1)
    (h1 : ∀ p, s1.IsPending p → s1.InWorld p) : Along (step H) SparesPending s ops := by
  induction ops generalizing s with
  | nil => trivial
  | cons op ops ih =>
    obtain ⟨s', h, hrun'⟩ := Option.bind_eq_some_iff.1 hrun
    refine ⟨?_, fun s2 h2 => ?_⟩
    · by_contra hnot
      obtain ⟨p, hd⟩ := dangles_of_not_spares hnot h
      have hd1 := run_invariant (Dangles · p) (fun _ _ _ hd => hd.step) hd hrun'
      exact hd1.2 (h1 p hd1.1)
    · obtain rfl := Option.some.inj (h.symm.trans h2)
      exact ih hrun'

/-! ## The update -/

theorem nodup_ids_of_live {ps : List Ptr} {os : List (GameObject σ)}
    (h : List.Forall₂ m.Live ps os) (hps : ps.Nodup) : (os.map (·.id)).Nodup := by
  induction h with
  | nil => exact List.nodup_nil
  | @cons p o ps os hlive hrest ih =>
    obtain ⟨hp, hps⟩ := List.nodup_cons.1 hps
    refine List.nodup_cons.2 ⟨fun hmem => ?_, ih hps⟩
    obtain ⟨o', ho', heq⟩ := List.mem_map.1 hmem
    obtain ⟨p', hp', _, hid'⟩ := exists_left_of_forall₂ hrest ho'
    rw [heq, hlive.2] at hid'
    exact hp (Option.some.inj hid' ▸ hp')

/-- The ids of the new objects, in the order of their addresses. -/
def createdIds (m : ObjectManager σ) : List ObjectId :=
  m.newObjects.keys.filterMap fun p => (m.objects.memory.find? p).map (·.id)

theorem filterMap_ids {ps : List Ptr} {os : List (GameObject σ)} (h : List.Forall₂ m.Live ps os) :
    (ps.filterMap fun p => (m.objects.memory.find? p).map (·.id)) = os.map (·.id) := by
  induction h with
  | nil => rfl
  | cons hlive _ ih =>
    rw [List.filterMap_cons, hlive.1, List.map_cons, ← ih]
    rfl

theorem mem_alteredOnly :
    p ∈ m.alteredOnly ↔ p ∈ m.alteredObjects.keys ∧ p ∉ m.newObjects.keys := by
  rw [alteredOnly, List.mem_filter, OrdMap.mem_keys (m := m.newObjects)]
  cases m.newObjects.find? p <;> simp

theorem exists_serializeChanges
    (h : ∀ obj, obj ∈ m.newObjects.keys ∨ obj ∈ m.alteredOnly → m.Writes H obj) :
    ∃ msgs, m.serializeChanges H = .ok msgs := by
  obtain ⟨new, hnew⟩ := exists_mapM_serializeAt true fun obj hobj => h obj (.inl hobj)
  obtain ⟨altered, haltered⟩ := exists_mapM_serializeAt false fun obj hobj => h obj (.inr hobj)
  exact ⟨_, bind_eq_ok.2 ⟨new, hnew, bind_eq_ok.2 ⟨altered, haltered, rfl⟩⟩⟩

/-- The objects an update describes: first the new ones, in full, then the other altered ones. -/
theorem serializeChanges_eq_ok {msgs : List ProtoGameObject}
    (hmsgs : m.serializeChanges H = .ok msgs) (hpending : ∀ p, m.IsPending p → m.InWorld p) :
    ∃ new altered, List.Forall₂ m.Live m.newObjects.keys new ∧
      List.Forall₂ m.Live m.alteredOnly altered ∧
      List.Forall₂
        (fun o msg => ∃ full, o.serialize H full = .ok msg ∧ (full = true ∨ o ∈ altered))
        (new ++ altered) msgs := by
  have hlive : ∀ p, m.IsPending p → ∃ o, m.Live p o := by
    intro p hp
    obtain ⟨id, hid⟩ := hpending p hp
    obtain ⟨o, ho, _⟩ := live_of_byId hid
    exact ⟨o, ho⟩
  obtain ⟨msgs1, hmsgs1, h⟩ := bind_eq_ok.1 hmsgs
  obtain ⟨msgs2, hmsgs2, heq⟩ := bind_eq_ok.1 h
  cases heq
  obtain ⟨new, hlive1, hnew⟩ := serialized_of_mapM hmsgs1 fun p hp => hlive p (.inl hp)
  obtain ⟨altered, hlive2, haltered⟩ :=
    serialized_of_mapM hmsgs2 fun p hp => hlive p (.inr (mem_alteredOnly.1 hp).1)
  refine ⟨new, altered, hlive1, hlive2, List.rel_append ?_ ?_⟩
  · exact hnew.imp fun o msg h => ⟨true, h, .inl rfl⟩
  · have hboth := (List.forall₂_and_left _ _).2 ⟨fun o (ho : o ∈ altered) => ho, haltered⟩
    exact hboth.imp fun o msg h => ⟨false, h.2, .inr h.1⟩

theorem lookup_removeObject (id id' : ObjectId) : (m.removeObject H id).objects.lookup id' =
    if id' = id then none else m.objects.lookup id' := by
  unfold removeObject
  split
  · next hnone =>
    split
    · next heq => rw [heq, ObjectStore.lookup, hnone, Option.bind_none]
    · rfl
  · exact ObjectStore.lookup_remove id'

/-- Removing ids leaves the objects under the others. -/
theorem lookup_foldl_removeObject (removed : List ObjectId) (id : ObjectId) :
    (removed.foldl (removeObject H) m).objects.lookup id =
      if id ∈ removed then none else m.objects.lookup id := by
  induction removed generalizing m with
  | nil => rfl
  | cons id' removed ih =>
    rw [List.foldl_cons, ih, lookup_removeObject]
    by_cases hmem : id ∈ removed
    · simp [hmem]
    · by_cases heq : id = id'
      · simp [heq]
      · simp [hmem, heq]

theorem view_foldl_removeObject (removed : List ObjectId) (id : ObjectId) :
    (removed.foldl (removeObject H) m).view H id = if id ∈ removed then none else m.view H id := by
  rw [view, lookup_foldl_removeObject, view]
  split <;> rfl

/-- What an object shows tells its name, and its type where that is registered. -/
theorem kind_eq_of_view_eq (types : OrdMap String ScriptObjectInfo)
    (hm : ∀ {k}, m.kind id = some k → types.find? k.2.typeName = some k.2)
    (hm' : ∀ {k}, m'.kind id = some k → types.find? k.2.typeName = some k.2)
    (h : m.view H id = m'.view H id) : m.kind id = m'.kind id := by
  have hshown : ∀ m : ObjectManager σ, (m.view H id).map (fun v => (v.name, v.typeName)) =
      (m.kind id).map fun k => (k.1, k.2.typeName) := by
    intro m
    cases ho : m.objects.lookup id with
    | none => simp only [view, kind, ho, Option.bind_none, Option.map_none]
    | some o =>
      obtain ⟨_, _, _, _, halive⟩ := ObjectStore.lookup_eq_some ho
      obtain ⟨c, hc⟩ := Option.isSome_iff_exists.1 halive
      simp only [view, kind, ho, Option.bind_some, GameObject.view, hc, Option.map_some]
  have hnames := (hshown m).symm.trans ((congrArg _ h).trans (hshown m'))
  cases hk : m.kind id with
  | none =>
    rw [hk, Option.map_none, eq_comm, Option.map_eq_none_iff] at hnames
    exact hnames.symm
  | some k =>
    cases hk' : m'.kind id with
    | none => simp [hk, hk'] at hnames
    | some k' =>
      rw [hk, hk', Option.map_some, Option.map_some, Option.some.injEq, Prod.mk.injEq] at hnames
      have hinfo := (hm hk).symm.trans (hnames.2 ▸ hm' hk')
      exact congrArg some (Prod.ext hnames.1 (Option.some.inj hinfo))

/-! ## Delta synchronisation -/

/-- The server's update describes only objects of its world, and takes the client to that world. -/
def DeltaSync (H : ScriptHost σ V) (alloc : Allocator σ) (server client : ObjectManager σ) : Prop :=
  (∀ p, server.IsPending p → server.InWorld p) ∧
  ∃ update client', server.worldStateUpdate H = .ok update ∧
    client.applyUpdate H alloc update = .ok client' ∧ ∀ id, client'.view H id = server.view H id

/-- No removed id is in use again, and an id in use before and after names an object of the same
name and type. -/
structure NoIdReuse (m m' : ObjectManager σ) : Prop where
  removed : ∀ id ∈ m'.removedIds.keys, id ∉ m'.ids
  kind : ∀ id ∈ m.ids, id ∈ m'.ids → m'.kind id = m.kind id

/-- The ids of the new objects of `m'`, in the order of their addresses, are the next ids of the
client. -/
def CreatesNext (m m' client : ObjectManager σ) : Prop :=
  newIds m.ids m'.createdIds = idsFrom client.nextId (newIds m.ids m'.createdIds).length

theorem Typed.kind (hm : m.Typed H) {k : String × ScriptObjectInfo} (h : m.kind id = some k) :
    m.registeredTypes.find? k.2.typeName = some k.2 := by
  obtain ⟨o, ho, rfl⟩ := Option.map_eq_some_iff.1 h
  exact (hm.objects ho).registered

section
variable {client : ObjectManager σ}

/-- What the two ends of a connection share before an update. -/
structure InSync (H : ScriptHost σ V) (server client : ObjectManager σ) : Prop where
  typed : client.Typed H
  registeredTypes : client.registeredTypes = server.registeredTypes
  view : ∀ id, client.view H id = server.view H id

theorem InSync.mem_ids (h : InSync H s0 client) : id ∈ client.ids ↔ id ∈ s0.ids := by
  rw [← view_isSome (H := H), ← view_isSome (H := H), h.view]

theorem InSync.kind (h : InSync H s0 client) (hs0 : s0.Typed H) (id : ObjectId) :
    client.kind id = s0.kind id := by
  refine kind_eq_of_view_eq s0.registeredTypes ?_ hs0.kind (h.view id)
  exact h.registeredTypes ▸ h.typed.kind

theorem InSync.newIds (h : InSync H s0 client) (ids : List ObjectId) :
    newIds client.ids ids = newIds s0.ids ids :=
  List.filter_congr fun id _ => by simp [h.mem_ids]

/-- What an update is about: the objects it describes are those that wait for it. -/
structure Describes (H : ScriptHost σ V) (s0 s1 : ObjectManager σ) (os : List (GameObject σ))
    (msgs : List ProtoGameObject) : Prop where
  serialized : List.Forall₂
    (fun o msg => ∃ full, o.serialize H full = .ok msg ∧ (o.id ∉ s0.ids → full = true)) os msgs
  nodup : (os.map (·.id)).Nodup
  waiting : ∀ o ∈ os, ∃ p, s1.IsPending p ∧ s1.Live p o
  pending : ∀ {id p}, s1.objects.byId.find? id = some p → s1.IsPending p → id ∈ os.map (·.id)
  newIds : newIds s0.ids (os.map (·.id)) = newIds s0.ids s1.createdIds

theorem Tracks.describes {msgs : List ProtoGameObject} (ht : Tracks H s0 s1)
    (hmsgs : s1.serializeChanges H = .ok msgs) : ∃ os, Describes H s0 s1 os msgs := by
  obtain ⟨new, altered, hlive1, hlive2, hserialized⟩ := serializeChanges_eq_ok hmsgs ht.pending
  have hlive : List.Forall₂ s1.Live (s1.newObjects.keys ++ s1.alteredOnly) (new ++ altered) :=
    List.rel_append hlive1 hlive2
  have hold : ∀ o ∈ altered, o.id ∈ s0.ids := by
    intro o ho
    obtain ⟨p, hp, hlive⟩ := exists_left_of_forall₂ hlive2 ho
    exact ht.old hlive.2 (mem_alteredOnly.1 hp).2
  refine ⟨new ++ altered, ?_, nodup_ids_of_live hlive ?_, fun o ho => ?_,
    fun {id p} hid hp => ?_, ?_⟩
  · refine hserialized.imp fun o msg ⟨full, hmsg, hfull⟩ => ⟨full, hmsg, fun hnot => ?_⟩
    exact hfull.resolve_right fun ho => hnot (hold o ho)
  · refine List.nodup_append.2 ⟨OrdMap.nodup_keys _, (OrdMap.nodup_keys _).filter _, ?_⟩
    intro p hp q hq heq
    exact (mem_alteredOnly.1 hq).2 (heq ▸ hp)
  · obtain ⟨p, hp, hlive⟩ := exists_left_of_forall₂ hlive ho
    exact ⟨p, (List.mem_append.1 hp).imp_right fun hp => (mem_alteredOnly.1 hp).1, hlive⟩
  · have hmem : p ∈ s1.newObjects.keys ++ s1.alteredOnly := by
      by_cases hnew : p ∈ s1.newObjects.keys
      · exact List.mem_append_left _ hnew
      · exact List.mem_append_right _ (mem_alteredOnly.2 ⟨hp.resolve_left hnew, hnew⟩)
    obtain ⟨o, ho, hlive⟩ := exists_left_of_forall₂ hlive.flip hmem
    exact List.mem_map.2 ⟨o, ho, ObjectStore.byId_inj hlive.2 hid⟩
  · have hnone : NetSiege.newIds s0.ids (altered.map (·.id)) = [] := by
      refine List.filter_eq_nil_iff.2 fun id hid => ?_
      obtain ⟨o, ho, rfl⟩ := List.mem_map.1 hid
      simpa using hold o ho
    rw [List.map_append, newIds_append, hnone, List.append_nil, createdIds, filterMap_ids hlive1]

theorem Describes.lookup {os : List (GameObject σ)} {msgs : List ProtoGameObject}
    (hd : Describes H s0 s1 os msgs) (ho : o ∈ os) : s1.objects.lookup o.id = some o := by
  obtain ⟨p, -, hlive⟩ := hd.waiting o ho
  exact hlive.lookup

theorem Describes.mem_of_live {os : List (GameObject σ)} {msgs : List ProtoGameObject}
    (hd : Describes H s0 s1 os msgs) (hp : s1.IsPending p) (hlive : s1.Live p o) : o ∈ os := by
  obtain ⟨o', ho', hid⟩ := List.mem_map.1 (hd.pending hlive.2 hp)
  have hlookup := hd.lookup ho'
  rw [hid, hlive.lookup] at hlookup
  exact Option.some.inj hlookup ▸ ho'

/-- The ids an update describes are the new ids of the world, besides some of the old ones. -/
theorem Describes.mem_ids {os : List (GameObject σ)} {msgs : List ProtoGameObject}
    (hd : Describes H s0 s1 os msgs) (ht : Tracks H s0 s1) (hnew : id ∉ s0.ids) :
    id ∈ os.map (·.id) ↔ id ∈ s1.ids := by
  constructor
  · intro hid
    obtain ⟨o, ho, rfl⟩ := List.mem_map.1 hid
    exact ObjectManager.mem_ids.2 ⟨o, hd.lookup ho⟩
  · intro hid
    obtain ⟨p, hp⟩ := OrdMap.mem_keys.1 hid
    by_cases hcreated : p ∈ s1.newObjects.keys
    · exact hd.pending hp (.inl hcreated)
    · exact absurd (ht.old hp hcreated) hnew

theorem Describes.announces {os : List (GameObject σ)} {msgs : List ProtoGameObject}
    (hd : Describes H s0 s1 os msgs) : List.Forall₂
      (fun o msg => ∃ full, Announces full o msg ∧ (o.id ∉ s0.ids → full = true)) os msgs := by
  refine hd.serialized.imp fun o msg ⟨full, hmsg, hfull⟩ => ⟨full, ?_, hfull⟩
  obtain ⟨-, -, -, -, -, hannounces⟩ := GameObject.serialize_eq_ok hmsg
  exact hannounces

theorem Describes.ids_eq {os : List (GameObject σ)} {msgs : List ProtoGameObject}
    (hd : Describes H s0 s1 os msgs) : os.map (·.id) = msgs.map (·.id) :=
  map_eq_map_of_forall₂ hd.announces fun _ _ _ ⟨_, hmsg, _⟩ => hmsg.id.symm

/-- A serializer that carries the properties of all types writes every update. -/
theorem Tracks.exists_describes (ht : Tracks H s0 s1) (hrt : H.RoundTrips s1.registeredTypes) :
    ∃ os msgs, s1.serializeChanges H = .ok msgs ∧ Describes H s0 s1 os msgs := by
  have hwrites : ∀ p, s1.IsPending p → s1.Writes H p := by
    intro p hp
    obtain ⟨id, hid⟩ := ht.pending p hp
    obtain ⟨o, hlive, rfl⟩ := live_of_byId hid
    have htyped := ht.typed.objects hlive.lookup
    obtain ⟨c, hc, hclass⟩ := htyped.script
    obtain ⟨ps, _, hps, -⟩ := hrt htyped.registered c.script c.script hclass hclass
    exact ⟨o, c, ps, hlive.1, hc, hps⟩
  obtain ⟨msgs, hmsgs⟩ := exists_serializeChanges fun p hp =>
    hwrites p (hp.imp_right fun hp => (mem_alteredOnly.1 hp).1)
  obtain ⟨os, hd⟩ := ht.describes hmsgs
  exact ⟨os, msgs, hmsgs, hd⟩

theorem Describes.tells {os : List (GameObject σ)} {msgs : List ProtoGameObject}
    (hd : Describes H s0 s1 os msgs) (hs1 : s1.Typed H) (hrt : H.RoundTrips s1.registeredTypes) :
    List.Forall₂ (fun o msg => ∃ full, Tells H full o msg ∧ (o.id ∉ s0.ids → full = true))
      os msgs := by
  refine ((List.forall₂_and_left _ _).2 ⟨fun o ho => hd.lookup ho, hd.serialized⟩).imp
    fun o msg h => ?_
  obtain ⟨ho, full, hmsg, hfull⟩ := h
  obtain ⟨msg', hmsg', htells⟩ := (hs1.objects ho).serialize hrt full
  obtain rfl : msg = msg' := Except.ok.inj (hmsg.symm.trans hmsg')
  exact ⟨full, htells, hfull⟩

/-- The serializer carries what the update says, from every object that waits for it to the script
object of the client that reads it. -/
def CarriesPending (H : ScriptHost σ V) (m client : ObjectManager σ) : Prop :=
  ∀ p o, m.IsPending p → m.Live p o → ∃ c script, o.contents = some c ∧
    client.reader H o = some script ∧ H.Carries o.scriptInfo.syncProperties c.script script

/-- What the client knows by an id that is not reused is of the server's kind. -/
theorem InSync.hasKind (hsync : InSync H s0 client) (hs0 : s0.Typed H) (hreuse : NoIdReuse s0 s1)
    (ho : s1.objects.lookup o.id = some o) (hid : o.id ∈ client.ids) : client.HasKind o := by
  have hkind1 := hreuse.kind o.id (hsync.mem_ids.1 hid) (ObjectManager.mem_ids.2 ⟨o, ho⟩)
  rw [← hsync.kind hs0 o.id, ObjectManager.kind, ho] at hkind1
  exact hasKind_iff.2 hkind1.symm

/-- The script object that reads about an object is of its class. -/
theorem InSync.reader (hsync : InSync H s0 client) (hs0 : s0.Typed H) (hs1 : s1.Typed H)
    (hreuse : NoIdReuse s0 s1) (ho : s1.objects.lookup o.id = some o) :
    ∃ script, client.reader H o = some script ∧ H.classOf script = o.scriptInfo.className := by
  by_cases hid : o.id ∈ client.ids
  · exact reader_of_hasKind hsync.typed (hsync.hasKind hs0 hreuse ho hid)
  · exact reader_of_new (hs1.objects ho).constructible hid

/-- A serializer that carries the properties of all types carries what an update says. -/
theorem carriesPending_of_roundTrips (ht : Tracks H s0 s1) (hs0 : s0.Typed H)
    (hrt : H.RoundTrips s0.registeredTypes) (hsync : InSync H s0 client)
    (hreuse : NoIdReuse s0 s1) : CarriesPending H s1 client := by
  intro p o _ hlive
  have htyped := ht.typed.objects hlive.lookup
  obtain ⟨c, hc, hclass⟩ := htyped.script
  obtain ⟨script, hscript, hclass'⟩ := hsync.reader hs0 ht.typed hreuse hlive.lookup
  exact ⟨c, script, hc, hscript,
    hrt.carries (ht.registeredTypes ▸ htyped.registered) hclass hclass'⟩

/-- A client follows the update if and only if it comes through the descriptions, and shows then,
without what is removed, what the server shows. -/
theorem deltaSync_iff_views : DeltaSync H alloc s1 client ↔
    (∀ p, s1.IsPending p → s1.InWorld p) ∧ ∃ msgs m', s1.serializeChanges H = .ok msgs ∧
      msgs.foldlM (deserializeOne H alloc) client = .ok m' ∧
      ∀ id, (if id ∈ s1.removedIds.keys then none else m'.view H id) = s1.view H id := by
  constructor
  · rintro ⟨hpending, update, client', hupdate, happly, hview⟩
    obtain ⟨msgs, hmsgs, heq⟩ := bind_eq_ok.1 hupdate
    cases heq
    obtain ⟨m', hm', rfl⟩ := applyUpdate_eq_ok.1 happly
    refine ⟨hpending, msgs, m', hmsgs, hm', fun id => ?_⟩
    exact (view_foldl_removeObject (m := m'.flushUpdateCache) _ id).symm.trans (hview id)
  · rintro ⟨hpending, msgs, m', hmsgs, hm', hview⟩
    refine ⟨hpending, ⟨msgs, s1.removedIds.keys⟩, _, bind_eq_ok.2 ⟨msgs, hmsgs, rfl⟩,
      applyUpdate_eq_ok.2 ⟨m', hm', rfl⟩, fun id => ?_⟩
    exact (view_foldl_removeObject (m := m'.flushUpdateCache) _ id).trans (hview id)

/-- Objects of one type that show the same have the same synced values. -/
theorem synced_eq_of_view_eq {o o' : GameObject σ} {c c' : Contents σ}
    (hview : o'.view H = o.view H) (hc : o.contents = some c) (hc' : o'.contents = some c')
    (hinfo : o'.scriptInfo = o.scriptInfo) :
    H.synced c'.script o.scriptInfo.syncProperties =
      H.synced c.script o.scriptInfo.syncProperties := by
  rw [GameObject.view, GameObject.view, hc, hc', hinfo, Option.map_some, Option.map_some] at hview
  exact congrArg ObjectView.synced (Option.some.inj hview)

/-- A client that follows the update has created the new objects under their ids, and its script
objects have read what was written. -/
theorem carries_of_deltaSync (ht : Tracks H s0 s1) (hs0 : s0.Typed H)
    (hsync : InSync H s0 client) (h : DeltaSync H alloc s1 client) :
    NoIdReuse s0 s1 ∧ CreatesNext s0 s1 client ∧ CarriesPending H s1 client := by
  obtain ⟨_, msgs, m', hmsgs, hm', hview⟩ := deltaSync_iff_views.1 h
  obtain ⟨os, hd⟩ := ht.describes hmsgs
  have hremoved : ∀ id ∈ s1.removedIds.keys, id ∉ s1.ids := by
    intro id hid
    rw [← view_isSome (H := H), ← hview id, if_pos hid]
    exact Bool.false_ne_true
  have hkept : ∀ id, id ∉ s1.removedIds.keys → m'.view H id = s1.view H id := by
    intro id hid
    rw [← hview id, if_neg hid]
  have hnodup := hd.nodup
  rw [hd.ids_eq] at hnodup
  obtain ⟨hids, _, hkinds⟩ := new_ids_of_foldlM hm' hnodup fun id hid => by
    rw [hsync.mem_ids] at hid
    rw [← hd.ids_eq, hd.mem_ids ht hid, ← view_isSome (H := H),
      hkept id fun hrem => hid (ht.removed id hrem), view_isSome]
  rw [← hd.ids_eq] at hids
  have hreuse : NoIdReuse s0 s1 := by
    refine ⟨hremoved, fun id hid0 hid1 => ?_⟩
    have hkind : m'.kind id = s0.kind id :=
      (hkinds id (hsync.mem_ids.2 hid0)).trans (hsync.kind hs0 id)
    refine .trans ?_ hkind
    refine kind_eq_of_view_eq s0.registeredTypes (ht.registeredTypes ▸ ht.typed.kind)
      (fun hk => hs0.kind (hkind ▸ hk)) (hkept id fun hrem => hremoved id hrem hid1).symm
  refine ⟨hreuse, by rwa [hsync.newIds, hd.newIds] at hids, fun p o hp hlive => ?_⟩
  obtain ⟨-, hreads⟩ := reads_of_foldlM client.ids
    (hd.serialized.imp fun o msg ⟨full, hmsg, _⟩ => ⟨full, hmsg⟩) hd.nodup
    (fun o ho => by
      rw [hsync.registeredTypes, ← ht.registeredTypes]
      exact (ht.typed.objects (hd.lookup ho)).registered)
    (fun _ _ => Iff.rfl) hids hm'
  obtain ⟨full, msg, script, c', o', hmsg, hscript, hread, ho', hc', hnewInfo⟩ :=
    hreads o (hd.mem_of_live hp hlive)
  obtain ⟨c, hc, hps, -⟩ := GameObject.serialize_eq_ok hmsg
  obtain ⟨done, hprops⟩ := GameObject.deserialize_eq_ok hread
  -- the client's object shows what the server's does, and is of the same type
  have hshown := hkept o.id fun hrem => hremoved o.id hrem (mem_ids.2 ⟨o, hlive.lookup⟩)
  rw [view, ho', Option.bind_some, view, hlive.lookup, Option.bind_some] at hshown
  have hinfo : o'.scriptInfo = o.scriptInfo := by
    by_cases hid : o.id ∈ client.ids
    · have hkind := hkinds o.id hid
      rw [hasKind_iff.1 (hsync.hasKind hs0 hreuse hlive.lookup hid), kind, ho'] at hkind
      exact (Prod.mk.inj (Option.some.inj hkind)).2
    · exact hnewInfo hid
  exact ⟨c, script, hc, hscript, _, done, c'.script, hps, hprops,
    synced_eq_of_view_eq hshown hc hc' hinfo⟩

/-- A client whose next ids are those of the new objects, and whose script objects read what is
written, follows the update. -/
theorem deltaSync_of_carries (ht : Tracks H s0 s1) (hs0 : s0.Typed H)
    (hsync : InSync H s0 client) (hreuse : NoIdReuse s0 s1) (hnext : CreatesNext s0 s1 client)
    (hcarries : CarriesPending H s1 client) : DeltaSync H alloc s1 client := by
  have hwrites : ∀ p, s1.IsPending p → s1.Writes H p := by
    intro p hp
    obtain ⟨id, hid⟩ := ht.pending p hp
    obtain ⟨o, hlive, rfl⟩ := live_of_byId hid
    obtain ⟨c, _, hc, -, ps, _, _, hps, -⟩ := hcarries p o hp hlive
    exact ⟨o, c, ps, hlive.1, hc, hps⟩
  obtain ⟨msgs, hmsgs⟩ := exists_serializeChanges fun p hp =>
    hwrites p (hp.imp_right fun hp => (mem_alteredOnly.1 hp).1)
  obtain ⟨os, hd⟩ := ht.describes hmsgs
  have hhears : List.Forall₂ (client.Hears H) os msgs := by
    refine ((List.forall₂_and_left _ _).2 ⟨hd.waiting, hd.serialized⟩).imp fun o msg h => ?_
    obtain ⟨⟨p, hp, hlive⟩, full, hmsg, -⟩ := h
    obtain ⟨c, script, hc, hscript, hcarry⟩ := hcarries p o hp hlive
    obtain ⟨script', hscript', hclass⟩ := hsync.reader hs0 ht.typed hreuse hlive.lookup
    obtain rfl : script = script' := Option.some.inj (hscript.symm.trans hscript')
    exact ⟨script, hscript, reads_of_carries hmsg hc hclass hcarry⟩
  obtain ⟨m', hm', hheard⟩ := heardAll_of_hears alloc client.ids
    (hd.announces.imp fun o msg h => by simpa only [hsync.mem_ids] using h) hhears hsync.typed
    hd.nodup (fun o ho => hsync.hasKind hs0 hreuse (hd.lookup ho))
    (fun o ho hnot => ⟨by
      rw [hsync.registeredTypes, ← ht.registeredTypes]
      exact ht.typed.objects (hd.lookup ho), hnot⟩)
    (by rw [hsync.newIds, hd.newIds]; exact hnext)
  refine deltaSync_iff_views.2 ⟨ht.pending, msgs, m', hmsgs, hm', fun id => ?_⟩
  split
  · next hrem => exact (view_eq_none (hreuse.removed id hrem)).symm
  next hrem =>
  by_cases hid : id ∈ os.map (·.id)
  · obtain ⟨o, ho, rfl⟩ := List.mem_map.1 hid
    rw [hheard.view_mem o ho, view, hd.lookup ho, Option.bind_some]
  rw [hheard.view_other id hid, hsync.view]
  cases hp : s1.objects.byId.find? id with
  | some p => exact (ht.untouched hp fun hpend => hid (hd.pending hp hpend)).symm
  | none =>
    have hnot1 := byId_eq_none_iff.1 hp
    have hnot0 : id ∉ s0.ids := fun hid0 => (ht.gone id hid0).elim hnot1 hrem
    rw [view_eq_none hnot1, view_eq_none hnot0]

/-- **Delta synchronisation.** After any steps of the server since the last update, its update takes
a client that had the world of then to the world of now if and only if no step took away an object
that waits for the update, no id is reused, the new objects have the client's next ids, and the
serializer carries the properties of the objects that wait to the script objects that read them. -/
theorem deltaSync_iff {ops : List (StoreOp σ)} (hs0 : s0.Typed H) (hn : s0.newObjects = ∅)
    (ha : s0.alteredObjects = ∅) (hr : s0.removedIds = ∅) (hrun : run (step H) s0 ops = some s1)
    (hsync : InSync H s0 client) :
    DeltaSync H alloc s1 client ↔ Along (step H) SparesPending s0 ops ∧ NoIdReuse s0 s1 ∧
      CreatesNext s0 s1 client ∧ CarriesPending H s1 client := by
  have hstart := tracks_refl hs0 hn ha hr
  have htracks : Along (step H) SparesPending s0 ops → Tracks H s0 s1 := fun hspares =>
    hspares.invariant (Tracks H s0) (fun _ _ _ ht hspares h => ht.step hspares h) hstart hrun
  constructor
  · intro h
    have hspares := along_sparesPending hrun h.1
    exact ⟨hspares, carries_of_deltaSync (htracks hspares) hs0 hsync h⟩
  · rintro ⟨hspares, hreuse, hnext, hcarries⟩
    exact deltaSync_of_carries (htracks hspares) hs0 hsync hreuse hnext hcarries

end

/-- A world without objects. -/
def emptyWorld : ObjectManager testModule.Object where
  registeredTypes := testTypes

theorem typed_emptyWorld : emptyWorld.Typed testModule.host where
  types h := by
    obtain ⟨rfl, rfl⟩ := eq_characterInfo h
    rfl
  objects h := nomatch h

theorem inSync_emptyWorld : InSync testModule.host emptyWorld emptyWorld :=
  ⟨typed_emptyWorld, rfl, fun _ => rfl⟩

/-- The creation of a character. -/
def createGeyloard : StoreOp testModule.Object :=
  .createObject 1 ⟨List.replicate 16 0, Matrix4.length_zeros⟩ "Character" "geyloard"

/-- The first object of both ends. -/
theorem deltaSync_created : ∃ s1, run (step testModule.host) emptyWorld [createGeyloard] = some s1 ∧
    DeltaSync testModule.host nextFree s1 emptyWorld := by
  have hspares : Along (step testModule.host) SparesPending emptyWorld [createGeyloard] := by
    refine ⟨?_, fun _ _ => trivial⟩
    intro _ _ _ hid
    cases hid
  obtain ⟨s1, hrun⟩ : ∃ s1, run (step testModule.host) emptyWorld [createGeyloard] = some s1 :=
    ⟨_, rfl⟩
  have htracks := hspares.invariant (Tracks testModule.host emptyWorld)
    (fun _ _ _ ht hspares h => ht.step hspares h) (tracks_refl typed_emptyWorld rfl rfl rfl) hrun
  have hreuse : NoIdReuse emptyWorld s1 := by
    refine ⟨fun id hid => ?_, fun id hid => ?_⟩
    · cases htracks.removed id hid
    · cases hid
  have hnext : CreatesNext emptyWorld s1 emptyWorld := by
    cases hrun
    rfl
  exact ⟨s1, hrun, (deltaSync_iff typed_emptyWorld rfl rfl rfl hrun inSync_emptyWorld).2
    ⟨hspares, hreuse, hnext, carriesPending_of_roundTrips htracks typed_emptyWorld
      testTypes_roundTrips inSync_emptyWorld hreuse⟩⟩

/-- An object that is created and removed between two updates is in the next one, without its script
object. -/
theorem not_deltaSync_created_removed : ∃ s1,
    run (step testModule.host) emptyWorld [createGeyloard, .removeObject 0] = some s1 ∧
      s1.worldStateUpdate testModule.host = .error .nullPointer ∧
      ¬ DeltaSync testModule.host nextFree s1 emptyWorld := by
  refine ⟨_, rfl, rfl, fun hdelta => ?_⟩
  obtain ⟨id, hid⟩ := hdelta.1 1 (.inl List.mem_cons_self)
  cases hid

end ObjectManager

end NetSiege
