import NetSiege.Network.WorldState

/-!
# Following a world (`ObjectManager::serializeChanges`, `ObjectManager::deserialize`)

What a client has to share with the server to follow one update after the other. `Since` relates the
server's world to the one its last update told of: every orderly step keeps it (`Since.step`), and
the next update takes a client that is in step with the old world to the new one, in step again
(`Since.follow`). The first update is the full state (`Joins.follow`).
-/

namespace NetSiege

open Lib

namespace ObjectManager

variable {σ V : Type} {H : ScriptHost σ V} {alloc : Allocator σ}
  {base m m' s s' client : ObjectManager σ} {id : ObjectId} {op : StoreOp σ}

/-! ## The world since the last update -/

/-- A world between updates: what is pending is there, what was removed is not, and all ids are
below the next one. -/
structure Settled (H : ScriptHost σ V) (m : ObjectManager σ) : Prop where
  typed : m.Typed H
  pending : ∀ p, m.IsPending p → m.InWorld p
  removed : ∀ id ∈ m.removedIds.keys, id ∉ m.ids
  below : ∀ id ∈ m.ids, id < m.nextId
  removed_below : ∀ id ∈ m.removedIds.keys, id < m.nextId

/-- The world `s` some steps after an update told of `base`. The pending sets may hold more than
these steps: a client that joins is told of objects that were pending before. -/
structure Since (H : ScriptHost σ V) (base s : ObjectManager σ) : Prop where
  settled : s.Settled H
  tracks : ∃ removedIds : OrdMap ObjectId Unit,
    Tracks H base { s with removedIds } ∧ removedIds.keys ⊆ s.removedIds.keys
  kind : ∀ id ∈ base.ids, id ∈ s.ids → s.kind id = base.kind id
  below : ∀ id ∈ base.ids, id < s.nextId
  creates : newIds base.ids s.createdIds =
    idsFrom base.nextId (newIds base.ids s.createdIds).length
  nextId : s.nextId = idAfter base.nextId (newIds base.ids s.createdIds).length

/-- A step spares what is pending. A creation comes after those before it in the order of addresses,
and the ids do not go round. -/
def OrderlyOp (m : ObjectManager σ) (op : StoreOp σ) : Prop :=
  m.SparesPending op ∧ match op with
    | .createObject address .. =>
      (∀ p ∈ m.newObjects.keys, p < address) ∧ m.nextId.val + 1 < 2 ^ 32
    | _ => True

theorem mem_ids_of_mem_createdIds (hpending : ∀ p, m.IsPending p → m.InWorld p)
    (h : id ∈ m.createdIds) : id ∈ m.ids := by
  obtain ⟨p, hp, hid⟩ := List.mem_filterMap.1 h
  obtain ⟨id', hid'⟩ := hpending p (.inl hp)
  obtain ⟨o, hlive, rfl⟩ := live_of_byId hid'
  rw [hlive.1, Option.map_some, Option.some.injEq] at hid
  exact hid ▸ mem_ids.2 ⟨o, hlive.lookup⟩

/-- An update that tells everything starts anew. -/
theorem since_refl (hm : m.Settled H) : Since H m m := by
  have hnone : newIds m.ids m.createdIds = [] := by
    refine List.filter_eq_nil_iff.2 fun id hid => ?_
    simpa using mem_ids_of_mem_createdIds hm.pending hid
  refine {
    settled := hm
    tracks := ⟨∅, ?_, fun _ hid => nomatch hid⟩
    kind := fun _ _ _ => rfl
    below := hm.below
    creates := by rw [hnone]; rfl
    nextId := by rw [hnone, List.length_nil, idAfter_zero] }
  exact {
    typed := ⟨hm.typed.types, hm.typed.objects⟩
    registeredTypes := rfl
    pending := hm.pending
    untouched := fun _ _ => rfl
    old := fun hp _ => OrdMap.mem_keys.2 ⟨_, hp⟩
    removed := fun _ hid => nomatch hid
    gone := fun _ hid => .inl hid }

theorem Settled.flushUpdateCache (hm : m.Settled H) : m.flushUpdateCache.Settled H where
  typed := ⟨hm.typed.types, hm.typed.objects⟩
  pending _ hp := absurd hp (not_isPending_of_empty rfl rfl)
  removed _ hid := nomatch hid
  below := hm.below
  removed_below _ hid := nomatch hid

/-! ## What a step does to it -/

section
variable {cell : Cell m} {typeName name : String} {o : GameObject σ}

/-- A creation does not read the removed ids. -/
theorem Created.with_removedIds (h : m.Created H cell typeName name o m')
    (removedIds : OrdMap ObjectId Unit) :
    Created H { m with removedIds } ⟨cell.address, cell.garbage, cell.fresh⟩ typeName name o
      { m' with removedIds } where
  registered := h.registered
  constructible := h.constructible
  constructed := h.constructed
  id := h.id
  name := h.name
  objects := h.objects
  nextId := h.nextId
  registeredTypes := h.registeredTypes
  newObjects := h.newObjects
  alteredObjects := h.alteredObjects
  removedIds := rfl

theorem Created.mem_ids (h : m.Created H cell typeName name o m') :
    id ∈ m'.ids ↔ id = m.nextId ∨ id ∈ m.ids := by
  rw [mem_ids_iff_kind, h.kind, mem_ids_iff_kind]
  split <;> simp [*]

/-- A new object past the others is the last one. -/
theorem Created.createdIds (h : m.Created H cell typeName name o m')
    (hlast : ∀ p ∈ m.newObjects.keys, p < cell.address) :
    m'.createdIds = m.createdIds ++ [m.nextId] := by
  obtain ⟨halive, hobjects⟩ := h.objects
  have hmemory : m'.objects.memory = m.objects.memory.insert cell.address o := by
    rw [hobjects]
    rfl
  rw [ObjectManager.createdIds, h.newObjects, OrdMap.keys_insert_of_lt hlast,
    List.filterMap_append, hmemory, ObjectManager.createdIds]
  congr 1
  · refine List.filterMap_congr fun p hp => ?_
    rw [OrdMap.find?_insert_of_ne (ne_of_lt (hlast p hp))]
  · simp [h.id]

theorem Created.val_nextId (h : m.Created H cell typeName name o m')
    (hround : m.nextId.val + 1 < 2 ^ 32) : m'.nextId.val = m.nextId.val + 1 := by
  rw [h.nextId]
  exact Fin.val_add_one_of_lt' hround

end

/-- A step that changes no id of the objects at new addresses. -/
theorem createdIds_congr (hnew : m'.newObjects = m.newObjects)
    (hid : ∀ p, (m'.objects.memory.find? p).map (·.id) = (m.objects.memory.find? p).map (·.id)) :
    m'.createdIds = m.createdIds := by
  simp only [createdIds, hnew, hid]

theorem ObjectStore.id_setContents (objects : ObjectStore σ) (id : ObjectId) (c : Contents σ)
    (p : Ptr) : ((objects.setContents id c).memory.find? p).map (·.id) =
      (objects.memory.find? p).map (·.id) := by
  unfold ObjectStore.setContents
  split
  · rfl
  · rw [OrdMap.find?_mapVal, Option.map_map]
    congr 1
    funext o
    simp only [Function.comp_apply]
    split <;> rfl

theorem ObjectStore.id_remove (objects : ObjectStore σ) (id : ObjectId) (p : Ptr) :
    ((objects.remove id (·.onRemove H)).memory.find? p).map (·.id) =
      (objects.memory.find? p).map (·.id) := by
  unfold ObjectStore.remove
  split
  · rfl
  · rw [OrdMap.find?_mapVal, Option.map_map]
    congr 1
    funext o
    simp only [Function.comp_apply, GameObject.onRemove]
    split
    · split <;> rfl
    · rfl

/-- A creation past the others gives the next id, which was not in use. -/
theorem Since.created {cell : Cell s} {typeName name : String} {o : GameObject σ}
    (hs : Since H base s) (h : s.Created H cell typeName name o s')
    (hspares : ∀ p, s.objects.byId.find? s.nextId = some p → ¬ s.IsPending p)
    (hlast : ∀ p ∈ s.newObjects.keys, p < cell.address) (hround : s.nextId.val + 1 < 2 ^ 32) :
    Since H base s' := by
  obtain ⟨removedIds, htracks, hsub⟩ := hs.tracks
  have htracks' := htracks.created (h.with_removedIds removedIds) hspares
  have hlt : ∀ id : ObjectId, id < s.nextId → id < s'.nextId := fun id hid => by
    rw [Fin.lt_def, h.val_nextId hround]
    exact Nat.lt_succ_of_lt hid
  have hnext : s.nextId < s'.nextId := by
    rw [Fin.lt_def, h.val_nextId hround]
    exact Nat.lt_succ_self _
  have hnew : s.nextId ∉ base.ids := fun hid => lt_irrefl _ (hs.below _ hid)
  have hcreated : newIds base.ids s'.createdIds = newIds base.ids s.createdIds ++ [s.nextId] := by
    rw [h.createdIds hlast, newIds_append, newIds_singleton_of_not_mem hnew]
  refine {
    settled := {
      typed := h.typed hs.settled.typed
      pending := htracks'.pending
      removed := fun id hid hmem => ?_
      below := fun id hid => ?_
      removed_below := fun id hid => hlt id (hs.settled.removed_below id (h.removedIds ▸ hid)) }
    tracks := ⟨removedIds, htracks', h.removedIds ▸ hsub⟩
    kind := fun id hid hid' => ?_
    below := fun id hid => hlt id (hs.below id hid)
    creates := ?_
    nextId := ?_ }
  · rw [h.removedIds] at hid
    rcases h.mem_ids.1 hmem with rfl | hmem
    · exact lt_irrefl _ (hs.settled.removed_below _ hid)
    · exact hs.settled.removed id hid hmem
  · rcases h.mem_ids.1 hid with rfl | hid
    · exact hnext
    · exact hlt id (hs.settled.below id hid)
  · have hne : id ≠ s.nextId := fun heq => hnew (heq ▸ hid)
    rw [h.kind, if_neg hne]
    exact hs.kind id hid ((h.mem_ids.1 hid').resolve_left hne)
  · rw [hcreated, List.length_append, List.length_singleton, idsFrom_succ, ← hs.creates,
      ← hs.nextId]
  · rw [hcreated, List.length_append, List.length_singleton, idAfter_succ, ← hs.nextId, h.nextId]

theorem mem_ids_remove (id : ObjectId) {id' : ObjectId} {removedIds : OrdMap ObjectId Unit} :
    id' ∈ ids { s with objects := s.objects.remove id (·.onRemove H), removedIds } ↔
      id' ≠ id ∧ id' ∈ s.ids := by
  rw [ids, ids, ← ObjectStore.lookup_isSome, ObjectStore.lookup_remove, ← ObjectStore.lookup_isSome]
  split <;> simp [*]

/-- A removal of what is not pending. -/
theorem Since.removedObject {p : Ptr} (hs : Since H base s) (hid : s.objects.byId.find? id = some p)
    (hp : ¬ s.IsPending p) : Since H base { s with
      objects := s.objects.remove id (·.onRemove H)
      removedIds := s.removedIds.insert id () } := by
  obtain ⟨removedIds, htracks, hsub⟩ := hs.tracks
  have htracks' := htracks.removedObject hid hp
  have hcreated : createdIds { s with
      objects := s.objects.remove id (·.onRemove H)
      removedIds := s.removedIds.insert id () } = s.createdIds :=
    createdIds_congr rfl fun p => ObjectStore.id_remove s.objects id p
  refine {
    settled := {
      typed := ⟨htracks'.typed.types, htracks'.typed.objects⟩
      pending := htracks'.pending
      removed := fun id' hid' hmem => ?_
      below := fun id' hid' => hs.settled.below id' ((mem_ids_remove id).1 hid').2
      removed_below := fun id' hid' => ?_ }
    tracks := ⟨removedIds.insert id (), htracks', fun id' hid' => ?_⟩
    kind := fun id' hid' hmem => ?_
    below := hs.below
    creates := by rw [hcreated]; exact hs.creates
    nextId := by rw [hcreated]; exact hs.nextId }
  · obtain ⟨hne, hmem⟩ := (mem_ids_remove id).1 hmem
    exact hs.settled.removed id' ((OrdMap.mem_keys_insert.1 hid').resolve_left hne) hmem
  · rcases OrdMap.mem_keys_insert.1 hid' with rfl | hid'
    · exact hs.settled.below id' (OrdMap.mem_keys.2 ⟨p, hid⟩)
    · exact hs.settled.removed_below id' hid'
  · exact OrdMap.mem_keys_insert.2 ((OrdMap.mem_keys_insert.1 hid').imp_right (@hsub id'))
  · obtain ⟨hne, hmem⟩ := (mem_ids_remove id).1 hmem
    rw [← hs.kind id' hid' hmem, ObjectManager.kind, ObjectStore.lookup_remove, if_neg hne]
    rfl

/-- An object with new contents waits for the next update. -/
theorem Since.mutated {p : Ptr} {o : GameObject σ} {c : Contents σ} (hs : Since H base s)
    (hid : s.objects.byId.find? id = some p) (ho : s.objects.lookup id = some o)
    (hclass : H.classOf c.script = o.scriptInfo.className) : Since H base { s with
      objects := s.objects.setContents id c
      alteredObjects := s.alteredObjects.insert p () } := by
  obtain ⟨removedIds, htracks, hsub⟩ := hs.tracks
  have htracks' := htracks.mutated hid ho hclass
  have hids : ids { s with
      objects := s.objects.setContents id c
      alteredObjects := s.alteredObjects.insert p () } = s.ids := by
    rw [ids, ids, ObjectStore.byId_setContents]
  have hcreated : createdIds { s with
      objects := s.objects.setContents id c
      alteredObjects := s.alteredObjects.insert p () } = s.createdIds :=
    createdIds_congr rfl fun p => ObjectStore.id_setContents s.objects id c p
  exact {
    settled := {
      typed := ⟨htracks'.typed.types, htracks'.typed.objects⟩
      pending := htracks'.pending
      removed := hids ▸ hs.settled.removed
      below := hids ▸ hs.settled.below
      removed_below := hs.settled.removed_below }
    tracks := ⟨removedIds, htracks', hsub⟩
    kind := fun id' hid' hmem => (kind_setContents id c id').trans (hs.kind id' hid' (hids ▸ hmem))
    below := hs.below
    creates := by rw [hcreated]; exact hs.creates
    nextId := by rw [hcreated]; exact hs.nextId }

/-- Every orderly step. -/
theorem Since.step (hs : Since H base s) (horderly : s.OrderlyOp op)
    (h : step H s op = some s') : Since H base s' := by
  obtain ⟨hspares, horder⟩ := horderly
  cases step_cases h with
  | created hfresh hcreated =>
    exact hs.created hcreated (fun p => hspares _ p rfl) horder.1 horder.2
  | removed hp => exact hs.removedObject hp (hspares _ _ rfl hp)
  | absent => exact hs
  | mutated hp ho hclass => exact hs.mutated hp ho hclass

/-- The client has the world, and gives the ids the server gives. -/
structure InStep (H : ScriptHost σ V) (base client : ObjectManager σ) : Prop extends
    InSync H base client where
  nextId : client.nextId = base.nextId

/-- The removals after an update leave types and the id counter alone. -/
theorem foldl_removeObject_kept (removed : List ObjectId) (hm : m.Typed H) :
    let m' := removed.foldl (removeObject H) m
    m'.Typed H ∧ m'.registeredTypes = m.registeredTypes ∧ m'.nextId = m.nextId := by
  induction removed generalizing m with
  | nil => exact ⟨hm, rfl, rfl⟩
  | cons id removed ih =>
    have hone : (m.removeObject H id).Typed H ∧
        (m.removeObject H id).registeredTypes = m.registeredTypes ∧
        (m.removeObject H id).nextId = m.nextId := by
      unfold removeObject
      split
      · exact ⟨hm, rfl, rfl⟩
      · refine ⟨⟨hm.types, fun {id' o} ho => ?_⟩, rfl, rfl⟩
        simp only [ObjectStore.lookup_remove] at ho
        split at ho
        · cases ho
        · exact hm.objects ho
    obtain ⟨htyped, htypes, hnext⟩ := ih hone.1
    exact ⟨htyped, htypes.trans hone.2.1, hnext.trans hone.2.2⟩

/-- A client that heard of everything new in a message ends up in step, if it shows what the server
shows. -/
theorem inStep_of_heardAll {os : List (GameObject σ)} {msgs : List ProtoGameObject}
    (removed : List ObjectId) (hmsgs : msgs.foldlM (deserializeOne H alloc) client = .ok m')
    (hheard : HeardAll H client os m') (hos : os.map (·.id) = msgs.map (·.id))
    (hnodup : (os.map (·.id)).Nodup) (htypes : client.registeredTypes = s.registeredTypes)
    (hview : ∀ id, (if id ∈ removed then none else m'.view H id) = s.view H id)
    (hnext : s.nextId = idAfter client.nextId (newIds client.ids (os.map (·.id))).length) :
    ∃ client', client.applyUpdate H alloc ⟨msgs, removed⟩ = .ok client' ∧ InStep H s client' := by
  have hnew : ∀ id, id ∉ client.ids → (id ∈ m'.ids ↔ id ∈ os.map (·.id)) := by
    intro id hid
    by_cases hmem : id ∈ os.map (·.id)
    · obtain ⟨o, ho, rfl⟩ := List.mem_map.1 hmem
      exact iff_of_true (hheard.kind o ho).mem_ids hmem
    · rw [← view_isSome (H := H), hheard.view_other id hmem, view_isSome]
      exact iff_of_false hid hmem
  have hflush : m'.flushUpdateCache.Typed H := ⟨hheard.typed.types, hheard.typed.objects⟩
  obtain ⟨htyped, htypes', hnext'⟩ := foldl_removeObject_kept removed hflush
  refine ⟨_, applyUpdate_eq_ok.2 ⟨m', hmsgs, rfl⟩,
    ⟨⟨htyped.types, htyped.objects⟩, htypes'.trans (hheard.registeredTypes.trans htypes),
      fun id => (view_foldl_removeObject removed id).trans (hview id)⟩, ?_⟩
  rw [hos] at hnodup hnew hnext
  exact hnext'.trans ((new_ids_of_foldlM hmsgs hnodup hnew).2.1.trans hnext.symm)

/-- **One update.** The server can describe its world, and the update takes a client that is in step
with the world of the last one to the world of now. -/
theorem Since.follow (alloc : Allocator σ) (hs : Since H base s) (hbase : base.Typed H)
    (hrt : H.RoundTrips base.registeredTypes) (hclient : InStep H base client) :
    ∃ update client', s.worldStateUpdate H = .ok update ∧
      client.applyUpdate H alloc update = .ok client' ∧ InStep H s client' := by
  obtain ⟨removedIds, ht, hsub⟩ := hs.tracks
  have hrt' : H.RoundTrips s.registeredTypes := by
    rw [ht.registeredTypes]
    exact hrt
  obtain ⟨os, msgs, hmsgs, hd⟩ := ht.exists_describes hrt'
  have hlookup : ∀ o ∈ os, s.objects.lookup o.id = some o := fun o ho => hd.lookup ho
  have htypes : client.registeredTypes = s.registeredTypes :=
    hclient.registeredTypes.trans ht.registeredTypes.symm
  obtain ⟨m', hm', hheard⟩ := heardAll_of_tells alloc client.ids
    ((hd.tells ht.typed hrt').imp fun o msg htold => by
      simpa only [hclient.mem_ids] using htold) hclient.typed
    hd.nodup
    (fun o ho hid => by
      have hkind : s.kind o.id = client.kind o.id :=
        (hs.kind o.id (hclient.mem_ids.1 hid) (mem_ids.2 ⟨o, hlookup o ho⟩)).trans
          (hclient.kind hbase o.id).symm
      rw [ObjectManager.kind, hlookup o ho] at hkind
      exact hasKind_iff.2 hkind.symm)
    (fun o ho hnot => ⟨htypes ▸ hs.settled.typed.objects (hlookup o ho), hnot⟩)
    (by rw [hclient.newIds, hd.newIds, hclient.nextId]; exact hs.creates)
  have hview : ∀ id, (if id ∈ s.removedIds.keys then none else m'.view H id) = s.view H id := by
    intro id
    split
    · next hrem => exact (view_eq_none (hs.settled.removed id hrem)).symm
    next hrem =>
    by_cases hid : id ∈ os.map (·.id)
    · obtain ⟨o, ho, rfl⟩ := List.mem_map.1 hid
      rw [hheard.view_mem o ho, view, hlookup o ho, Option.bind_some]
    rw [hheard.view_other id hid, hclient.view]
    cases hp : s.objects.byId.find? id with
    | some p => exact (ht.untouched hp fun hpend => hid (hd.pending hp hpend)).symm
    | none =>
      have hnot1 := byId_eq_none_iff.1 hp
      have hnot0 : id ∉ base.ids := fun hid0 =>
        (ht.gone id hid0).elim hnot1 fun hgone => hrem (hsub hgone)
      rw [view_eq_none hnot1, view_eq_none hnot0]
  obtain ⟨client', happly, hstep⟩ := inStep_of_heardAll s.removedIds.keys hm' hheard
    hd.ids_eq hd.nodup htypes hview
    (by rw [hclient.newIds, hd.newIds, hclient.nextId]; exact hs.nextId)
  exact ⟨_, client', bind_eq_ok.2 ⟨msgs, hmsgs, rfl⟩, happly, hstep⟩

/-- A client without objects that joins: its counter comes to the ids of the server. -/
structure Joins (H : ScriptHost σ V) (m client : ObjectManager σ) : Prop where
  settled : m.Settled H
  roundTrips : H.RoundTrips m.registeredTypes
  registeredTypes : client.registeredTypes = m.registeredTypes
  empty : client.ids = []
  ids : m.ids = idsFrom client.nextId m.ids.length
  nextId : m.nextId = idAfter client.nextId m.ids.length

/-- **The first update.** The full state takes a client that joins to the world of the server. -/
theorem Joins.follow (alloc : Allocator σ) (h : Joins H m client) :
    ∃ objectSet client', m.serializeFull H = .ok objectSet ∧
      client.applyUpdate H alloc { updatedObjects := objectSet } = .ok client' ∧
      InStep H m client' := by
  obtain ⟨os, msgs, hfull, htells, hids, hos⟩ := serializeFull_eq_ok h.roundTrips h.settled.typed
  have hclient : client.Typed H := by
    refine ⟨h.registeredTypes ▸ h.settled.typed.types, fun {id o} ho => ?_⟩
    have hmem := mem_ids.2 ⟨o, ho⟩
    simp [h.empty] at hmem
  have hnodup : (os.map (·.id)).Nodup := hids ▸ m.nodup_ids
  have hnew : newIds client.ids (os.map (·.id)) = m.ids := by rw [h.empty, newIds_nil, hids]
  obtain ⟨m', hm', hheard⟩ := heardAll_of_tells alloc client.ids
    (htells.imp fun o msg htold => ⟨true, htold, fun _ => rfl⟩) hclient hnodup
    (by simp [h.empty])
    (fun o ho hnot => ⟨h.registeredTypes ▸ h.settled.typed.objects (hos o ho), hnot⟩)
    (by rw [hnew]; exact h.ids)
  have hview : ∀ id, m'.view H id = m.view H id := by
    intro id
    by_cases hid : id ∈ m.ids
    · obtain ⟨o, ho, rfl⟩ := List.mem_map.1 (hids ▸ hid)
      rw [hheard.view_mem o ho, view, hos o ho, Option.bind_some]
    · rw [hheard.view_other id (hids ▸ hid), view_eq_none hid, view_eq_none (by simp [h.empty])]
  obtain ⟨client', happly, hstep⟩ := inStep_of_heardAll [] hm' hheard (map_id_eq htells)
    hnodup h.registeredTypes (by simpa using hview) (by rw [hnew]; exact h.nextId)
  exact ⟨msgs, client', hfull, happly, hstep⟩

end ObjectManager

end NetSiege
