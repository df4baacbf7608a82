import NetSiege.Lib.Run
import NetSiege.Oms.Replication

/-!
# The identity of objects (`objectmanager.cpp`, `GameObject::nextId`)

`createObject` takes the id of a new object, runs its `init()`, which may call the manager again,
and only then enters the object in the store; `deserialize` creates objects in the same way. A
`Process` is a manager with the calls that are in progress. While the counter of ids, which all
managers of the program share, does not wrap around, no two objects are ever given one id
(`Process.objects_identified`).
-/

namespace NetSiege

open Lib

namespace ObjectManager

variable {σ V : Type} {H : ScriptHost σ V} {m m' : ObjectManager σ} {id : ObjectId}

/-- An object whose `init()` runs, and the message that is read into it then. -/
structure Creation (σ : Type) where
  id : ObjectId
  name : String
  scriptInfo : ScriptObjectInfo
  script : σ
  message : Option ProtoGameObject

/-- `ObjectManager::createObject` until it calls `init()`. -/
def beginCreation (H : ScriptHost σ V) (m : ObjectManager σ) (typeName name : String)
    (message : Option ProtoGameObject) : Except Trap (Creation σ × ObjectManager σ) :=
  match m.registeredTypes.find? typeName with
  | none => .error .assertion
  | some scriptInfo =>
    match H.factory scriptInfo.className with
    | none => .error .assertion
    | some script =>
      if H.badObjectId scriptInfo.className then .error .assertion
      else
        let id := m.nextId
        .ok ({ id, name, scriptInfo, script := H.setObjectId script id, message },
          { m with nextId := m.nextId + 1 })

/-- The object after its `init()`. -/
def Creation.newObject (H : ScriptHost σ V) (creation : Creation σ) (garbage : Matrix4) :
    GameObject σ where
  id := creation.id
  name := creation.name
  scriptInfo := creation.scriptInfo
  contents := some { positionMatrix := garbage, script := H.init creation.script }

/-- `ObjectManager::createObject` after `init()`. -/
def finishCreation (H : ScriptHost σ V) (m : ObjectManager σ) (creation : Creation σ)
    (cell : Cell m) : ObjectManager σ :=
  { m with
    newObjects := m.newObjects.insert cell.address ()
    objects := m.objects.publish cell.address (creation.newObject H cell.garbage) rfl cell.byId_ne }

/-- `newObject->deserialize(&object)`, where there is a message for the new object. -/
def readMessage (H : ScriptHost σ V) (m : ObjectManager σ) (creation : Creation σ) :
    Except Trap (ObjectManager σ) :=
  match creation.message with
  | none => .ok m
  | some object => m.readContents H creation.id object

/-- A call in progress. -/
inductive Frame (σ : Type) where
  | creating (creation : Creation σ)
  | deserializing (objects : List ProtoGameObject)

/-- A manager, its calls in progress, the innermost first, and how many objects have been created in
the program. -/
structure Process (σ : Type) where
  manager : ObjectManager σ
  calls : List (Frame σ) := []
  created : Nat := 0

/-- What happens to a manager: it is called, from outside or from an `init()` that runs; the
innermost `init()` returns, and the object has its memory; the innermost `deserialize` goes on to
its next object; other managers create objects. -/
inductive Action where
  | createObject (typeName name : String)
  | initialised (address : Ptr) (garbage : Matrix4)
  | removeObject (id : ObjectId)
  | deserialize (objects : List ProtoGameObject)
  | deserializeNext
  | flushUpdateCache
  | clear
  | othersCreate (count : Nat)

namespace Process

variable {s s' : Process σ} {action : Action}

/-- The ids of the objects whose `init()` runs. -/
def initialising (s : Process σ) : List ObjectId :=
  s.calls.filterMap fun
    | .creating creation => some creation.id
    | .deserializing _ => none

/-- A creation begins. -/
def begin (H : ScriptHost σ V) (s : Process σ) (m : ObjectManager σ) (typeName name : String)
    (message : Option ProtoGameObject) : Option (Process σ) :=
  (m.beginCreation H typeName name message).toOption.map fun (creation, m) =>
    { manager := m, calls := .creating creation :: s.calls, created := s.created + 1 }

/-- The process after an action. There is none if the action traps, if the memory is in use, or if
no call of its kind is the innermost one. -/
def step (H : ScriptHost σ V) (s : Process σ) : Action → Option (Process σ)
  | .createObject typeName name => s.begin H s.manager typeName name none
  | .initialised address garbage =>
    match s.calls with
    | .creating creation :: calls =>
      if h : address ∉ s.manager.references then
        let m := s.manager.finishCreation H creation ⟨address, garbage, h⟩
        (m.readMessage H creation).toOption.map fun m => { s with manager := m, calls }
      else none
    | _ => none
  | .removeObject id => some { s with manager := s.manager.removeObject H id }
  | .deserialize objects => some { s with calls := .deserializing objects :: s.calls }
  | .deserializeNext =>
    match s.calls with
    | .deserializing (object :: objects) :: calls =>
      let s := { s with calls := .deserializing objects :: calls }
      match s.manager.objects.byId.find? object.id with
      | none =>
        let objectTypeName := object.data.objectType
        s.begin H (s.manager.touchType objectTypeName) objectTypeName (object.name.getD "") object
      | some _ =>
        (s.manager.readContents H object.id object).toOption.map fun m => { s with manager := m }
    | .deserializing [] :: calls => some { s with manager := s.manager.flushUpdateCache, calls }
    | _ => none
  | .flushUpdateCache => some { s with manager := s.manager.flushUpdateCache }
  | .clear => some { s with manager := s.manager.clear }
  | .othersCreate count => some { s with
      manager := { s.manager with nextId := idAfter s.manager.nextId count }
      created := s.created + count }

/-- What an action does to the ids in the store, the removed ids, the ids of the objects that are
initialised, and the counter. -/
inductive StepCases (s : Process σ) : Action → Process σ → Prop
  | began {action : Action} {m' : ObjectManager σ} {calls : List (Frame σ)}
      (hbyId : m'.objects.byId = s.manager.objects.byId)
      (hremoved : m'.removedIds = s.manager.removedIds)
      (hnext : m'.nextId = s.manager.nextId + 1)
      (hcalls : ∀ n, initialising ⟨m', calls, n⟩ = s.manager.nextId :: s.initialising) :
      StepCases s action ⟨m', calls, s.created + 1⟩
  | initialised {address : Ptr} {garbage : Matrix4} {creation : Creation σ}
      {calls : List (Frame σ)} {m' : ObjectManager σ}
      (hcalls : s.calls = .creating creation :: calls)
      (hbyId : m'.objects.byId = s.manager.objects.byId.insert creation.id address)
      (hremoved : m'.removedIds = s.manager.removedIds)
      (hnext : m'.nextId = s.manager.nextId) :
      StepCases s (.initialised address garbage) ⟨m', calls, s.created⟩
  | removed {id : ObjectId} {m' : ObjectManager σ} (hid : id ∈ s.manager.ids)
      (hbyId : ∀ id', m'.objects.byId.find? id' =
        if id' = id then none else s.manager.objects.byId.find? id')
      (hremoved : m'.removedIds = s.manager.removedIds.insert id ())
      (hnext : m'.nextId = s.manager.nextId) :
      StepCases s (.removeObject id) { s with manager := m' }
  | kept {action : Action} {m' : ObjectManager σ} {calls : List (Frame σ)}
      (hbyId : m'.objects.byId = s.manager.objects.byId)
      (hremoved : m'.removedIds = s.manager.removedIds ∨ m'.removedIds = ∅)
      (hnext : m'.nextId = s.manager.nextId)
      (hcalls : ∀ n, initialising ⟨m', calls, n⟩ = s.initialising) :
      StepCases s action ⟨m', calls, s.created⟩
  | cleared : StepCases s .clear { s with manager := s.manager.clear }
  | othersCreated {count : Nat} :
      StepCases s (.othersCreate count) { s with
        manager := { s.manager with nextId := idAfter s.manager.nextId count }
        created := s.created + count }

theorem beginCreation_eq_ok {typeName name : String} {message : Option ProtoGameObject}
    {creation : Creation σ} (h : m.beginCreation H typeName name message = .ok (creation, m')) :
    creation.id = m.nextId ∧ m' = { m with nextId := m.nextId + 1 } := by
  unfold beginCreation at h
  split at h
  · cases h
  split at h
  · cases h
  split at h
  · cases h
  cases h
  exact ⟨rfl, rfl⟩

/-- A creation that begins in `s0` begins in every `s` that has the same ids. -/
theorem begin_cases {s0 : Process σ} {typeName name : String} {message : Option ProtoGameObject}
    (h : s0.begin H m typeName name message = some s') (hobjects : m.objects = s.manager.objects)
    (hremoved : m.removedIds = s.manager.removedIds) (hnext : m.nextId = s.manager.nextId)
    (hinit : s0.initialising = s.initialising) (hcreated : s0.created = s.created) :
    StepCases s action s' := by
  obtain ⟨⟨creation, m1⟩, hbegin, rfl⟩ := toOption_map_eq_some.1 h
  obtain ⟨hid, rfl⟩ := beginCreation_eq_ok hbegin
  rw [hcreated]
  refine .began (by rw [hobjects]) hremoved (by rw [hnext]) fun _ => ?_
  rw [← hinit, ← hnext, ← hid]
  simp only [initialising, List.filterMap_cons]

theorem touchType_kept (typeName : String) : (m.touchType typeName).objects = m.objects ∧
    (m.touchType typeName).removedIds = m.removedIds := by
  unfold touchType
  split
  · exact ⟨rfl, rfl⟩
  · exact ⟨rfl, rfl⟩

theorem readContents_kept {object : ProtoGameObject} (h : m.readContents H id object = .ok m') :
    m'.objects.byId = m.objects.byId ∧ m'.removedIds = m.removedIds ∧ m'.nextId = m.nextId := by
  obtain ⟨_, _, _, _, _, _, rfl⟩ := readContents_eq_ok h
  exact ⟨ObjectStore.byId_setContents, rfl, rfl⟩

theorem readMessage_kept {creation : Creation σ} (h : m.readMessage H creation = .ok m') :
    m'.objects.byId = m.objects.byId ∧ m'.removedIds = m.removedIds ∧ m'.nextId = m.nextId := by
  unfold readMessage at h
  split at h
  · cases h
    exact ⟨rfl, rfl, rfl⟩
  · exact readContents_kept h

theorem step_cases (h : s.step H action = some s') : StepCases s action s' := by
  cases action with
  | createObject typeName name => exact begin_cases h rfl rfl rfl rfl rfl
  | initialised address garbage =>
    simp only [step] at h
    split at h
    · next creation calls hcalls =>
      split at h
      · next hfresh =>
        obtain ⟨m', hread, rfl⟩ := toOption_map_eq_some.1 h
        obtain ⟨hbyId, hremoved, hnext⟩ := readMessage_kept hread
        exact .initialised hcalls hbyId hremoved hnext
      · cases h
    · cases h
  | removeObject id =>
    cases h
    cases hp : s.manager.objects.byId.find? id with
    | none =>
      simp only [removeObject, hp]
      exact .kept rfl (.inl rfl) rfl fun _ => rfl
    | some p =>
      simp only [removeObject, hp]
      exact .removed (OrdMap.mem_keys.2 ⟨p, hp⟩) ObjectStore.byId_remove rfl rfl
  | deserialize objects =>
    cases h
    exact .kept rfl (.inl rfl) rfl fun _ => rfl
  | deserializeNext =>
    simp only [step] at h
    split at h
    · next object objects calls hcalls =>
      have hsame : ∀ m' n, initialising ⟨m', .deserializing objects :: calls, n⟩ =
          s.initialising := fun _ _ => by
        simp only [initialising, hcalls, List.filterMap_cons]
      split at h
      · have hkept := touchType_kept (m := s.manager) object.data.objectType
        exact begin_cases h hkept.1 hkept.2 (nextId_touchType _) (hsame s.manager _) rfl
      · obtain ⟨m', hread, rfl⟩ := toOption_map_eq_some.1 h
        obtain ⟨hbyId, hremoved, hnext⟩ := readContents_kept hread
        exact .kept hbyId (.inl hremoved) hnext (hsame m')
    · next calls hcalls =>
      cases h
      refine .kept rfl (.inr rfl) rfl fun _ => ?_
      simp only [initialising, hcalls, List.filterMap_cons]
    · cases h
  | flushUpdateCache =>
    cases h
    exact .kept rfl (.inr rfl) rfl fun _ => rfl
  | clear =>
    cases h
    exact .cleared
  | othersCreate count =>
    cases h
    exact .othersCreated

/-! ## What the actions preserve -/

/-- The ids that were ever given are below the counter; no object that is initialised is in the
store under its id already, no two of them have one id, and no id in the store was removed. -/
structure Identified (s : Process σ) : Prop where
  nextId : s.manager.nextId.val = s.created
  live : ∀ id ∈ s.manager.ids, id.val < s.created
  removed : ∀ id ∈ s.manager.removedIds.keys, id.val < s.created
  initialising : ∀ id ∈ s.initialising, id.val < s.created
  nodup : s.initialising.Nodup
  unpublished : ∀ id ∈ s.initialising, id ∉ s.manager.ids ∧ id ∉ s.manager.removedIds.keys
  disjoint : ∀ id ∈ s.manager.ids, id ∉ s.manager.removedIds.keys

theorem val_idAfter {n : Nat} (h : id.val + n < 2 ^ 32) : (idAfter id n).val = id.val + n := by
  rw [idAfter, Fin.val_add, Fin.val_ofNat, Nat.add_mod_mod, Nat.mod_eq_of_lt h]

theorem created_le (h : StepCases s action s') : s.created ≤ s'.created := by
  cases h with
  | began => exact Nat.le_succ _
  | initialised => exact Nat.le_refl _
  | removed => exact Nat.le_refl _
  | kept => exact Nat.le_refl _
  | cleared => exact Nat.le_refl _
  | othersCreated => exact Nat.le_add_right _ _

theorem mem_ids_of_byId (h : m'.objects.byId = m.objects.byId) : id ∈ m'.ids ↔ id ∈ m.ids := by
  rw [ids, ids, h]

theorem Identified.began (hs : s.Identified) (hcount : s.created + 1 < 2 ^ 32)
    (hcreated : s'.created = s.created + 1)
    (hbyId : s'.manager.objects.byId = s.manager.objects.byId)
    (hremoved : s'.manager.removedIds = s.manager.removedIds)
    (hnext : s'.manager.nextId = s.manager.nextId + 1)
    (hinit : s'.initialising = s.manager.nextId :: s.initialising) : s'.Identified := by
  have hmem : ∀ {id}, id ∈ s'.manager.ids ↔ id ∈ s.manager.ids := mem_ids_of_byId hbyId
  have hlt : ∀ {id : ObjectId}, id.val < s.created → id.val < s'.created := fun {id} hid => by
    rw [hcreated]
    exact Nat.lt_succ_of_lt hid
  -- the new id is the value of the counter, which no id has reached
  have hself : s.manager.nextId.val < s'.created := by
    rw [hs.nextId, hcreated]
    exact Nat.lt_succ_self _
  have hnew : ¬ s.manager.nextId.val < s.created := by
    rw [hs.nextId]
    exact Nat.lt_irrefl _
  exact {
    nextId := by
      have hadd : s'.manager.nextId = idAfter s.manager.nextId 1 := by
        rw [hnext, idAfter_succ, idAfter_zero]
      rw [hadd, hcreated, val_idAfter (by rw [hs.nextId]; exact hcount), hs.nextId]
    live := fun id hid => hlt (hs.live id (hmem.1 hid))
    removed := fun id hid => hlt (hs.removed id (hremoved ▸ hid))
    initialising := fun id hid => by
      rw [hinit] at hid
      rcases List.mem_cons.1 hid with rfl | hid
      · exact hself
      · exact hlt (hs.initialising id hid)
    nodup := by
      rw [hinit]
      exact List.nodup_cons.2 ⟨fun hid => hnew (hs.initialising _ hid), hs.nodup⟩
    unpublished := fun id hid => by
      rw [hinit] at hid
      rw [hmem, hremoved]
      rcases List.mem_cons.1 hid with rfl | hid
      · exact ⟨fun hid => hnew (hs.live _ hid), fun hid => hnew (hs.removed _ hid)⟩
      · exact hs.unpublished id hid
    disjoint := fun id hid => by
      rw [hremoved]
      exact hs.disjoint id (hmem.1 hid) }

theorem Identified.initialised (hs : s.Identified) {address : Ptr}
    (hinit : s.initialising = id :: s'.initialising) (hcreated : s'.created = s.created)
    (hbyId : s'.manager.objects.byId = s.manager.objects.byId.insert id address)
    (hremoved : s'.manager.removedIds = s.manager.removedIds)
    (hnext : s'.manager.nextId = s.manager.nextId) : s'.Identified := by
  have hmem : ∀ {id'}, id' ∈ s'.manager.ids ↔ id' = id ∨ id' ∈ s.manager.ids := fun {id'} => by
    rw [ids, ids, hbyId, OrdMap.mem_keys_insert]
  have hself : id ∈ s.initialising := by
    rw [hinit]
    exact List.mem_cons_self
  have hrest : ∀ {id'}, id' ∈ s'.initialising → id' ∈ s.initialising := fun {id'} hid => by
    rw [hinit]
    exact List.mem_cons_of_mem _ hid
  have hnodup := hs.nodup
  rw [hinit, List.nodup_cons] at hnodup
  exact {
    nextId := by rw [hnext, hcreated, hs.nextId]
    live := fun id' hid => by
      rw [hcreated]
      rcases hmem.1 hid with rfl | hid
      · exact hs.initialising _ hself
      · exact hs.live id' hid
    removed := fun id' hid => by
      rw [hremoved] at hid
      rw [hcreated]
      exact hs.removed id' hid
    initialising := fun id' hid => by
      rw [hcreated]
      exact hs.initialising id' (hrest hid)
    nodup := hnodup.2
    unpublished := fun id' hid => by
      obtain ⟨hlive, hgone⟩ := hs.unpublished id' (hrest hid)
      rw [hmem, hremoved, not_or]
      exact ⟨⟨fun heq => hnodup.1 (heq ▸ hid), hlive⟩, hgone⟩
    disjoint := fun id' hid => by
      rw [hremoved]
      rcases hmem.1 hid with rfl | hid
      · exact (hs.unpublished _ hself).2
      · exact hs.disjoint id' hid }

/-- No action but the two that create enters ids. -/
theorem Identified.shrinks (hs : s.Identified) (hle : s.created ≤ s'.created)
    (hnext : s'.manager.nextId.val = s'.created) (hinit : s'.initialising = s.initialising)
    (hlive : ∀ id ∈ s'.manager.ids, id ∈ s.manager.ids)
    (hremoved : ∀ id ∈ s'.manager.removedIds.keys,
      id ∈ s.manager.removedIds.keys ∨ id ∈ s.manager.ids)
    (hdisjoint : ∀ id ∈ s'.manager.ids, id ∉ s'.manager.removedIds.keys) : s'.Identified where
  nextId := hnext
  live id hid := Nat.lt_of_lt_of_le (hs.live id (hlive id hid)) hle
  removed id hid := by
    rcases hremoved id hid with hid | hid
    · exact Nat.lt_of_lt_of_le (hs.removed id hid) hle
    · exact Nat.lt_of_lt_of_le (hs.live id hid) hle
  initialising id hid := Nat.lt_of_lt_of_le (hs.initialising id (hinit ▸ hid)) hle
  nodup := hinit ▸ hs.nodup
  unpublished id hid := by
    obtain ⟨hnot, hgone⟩ := hs.unpublished id (hinit ▸ hid)
    refine ⟨fun hid => hnot (hlive id hid), fun hid => ?_⟩
    exact (hremoved id hid).elim hgone hnot
  disjoint := hdisjoint

theorem Identified.removedObject (hs : s.Identified) (hid : id ∈ s.manager.ids)
    (hbyId : ∀ id', m'.objects.byId.find? id' =
      if id' = id then none else s.manager.objects.byId.find? id')
    (hremoved : m'.removedIds = s.manager.removedIds.insert id ())
    (hnext : m'.nextId = s.manager.nextId) : Identified { s with manager := m' } := by
  have hmem : ∀ {id'}, id' ∈ m'.ids → id' ≠ id ∧ id' ∈ s.manager.ids := fun {id'} hid' => by
    obtain ⟨p, hp⟩ := OrdMap.mem_keys.1 hid'
    rw [hbyId] at hp
    split at hp
    · cases hp
    · next hne => exact ⟨hne, OrdMap.mem_keys.2 ⟨p, hp⟩⟩
  have hkeys : ∀ {id'}, id' ∈ m'.removedIds.keys → id' = id ∨
      id' ∈ s.manager.removedIds.keys := fun {id'} hid' => by
    rw [hremoved] at hid'
    exact OrdMap.mem_keys_insert.1 hid'
  refine hs.shrinks (Nat.le_refl _) (hnext ▸ hs.nextId) rfl (fun _ hid' => (hmem hid').2) ?_ ?_
  · intro id' hid'
    rcases hkeys hid' with rfl | hid'
    · exact .inr hid
    · exact .inl hid'
  · intro id' hid' hgone
    obtain ⟨hne, hlive⟩ := hmem hid'
    rcases hkeys hgone with heq | hgone
    · exact hne heq
    · exact hs.disjoint id' hlive hgone

theorem Identified.step (hs : s.Identified) (h : StepCases s action s')
    (hcount : s'.created < 2 ^ 32) : s'.Identified := by
  cases h with
  | began hbyId hremoved hnext hcalls =>
    exact hs.began hcount rfl hbyId hremoved hnext (hcalls _)
  | initialised hcalls hbyId hremoved hnext =>
    refine hs.initialised ?_ rfl hbyId hremoved hnext
    rw [Process.initialising, hcalls]
    rfl
  | removed hid hbyId hremoved hnext => exact hs.removedObject hid hbyId hremoved hnext
  | @kept _ m' calls hbyId hremoved hnext hcalls =>
    have hmem : ∀ {id}, id ∈ m'.ids ↔ id ∈ s.manager.ids := mem_ids_of_byId hbyId
    have hsub : ∀ id ∈ m'.removedIds.keys, id ∈ s.manager.removedIds.keys := by
      intro id hid
      rcases hremoved with heq | heq
      · exact heq ▸ hid
      · rw [heq] at hid
        cases hid
    refine hs.shrinks (Nat.le_refl _) (hnext ▸ hs.nextId) (hcalls _) (fun id hid => hmem.1 hid)
      (fun id hid => .inl (hsub id hid)) fun id hid hgone => ?_
    exact hs.disjoint id (hmem.1 hid) (hsub id hgone)
  | cleared =>
    exact hs.shrinks (Nat.le_refl _) hs.nextId rfl (fun _ hid => nomatch hid)
      (fun _ hid => .inl hid) (fun _ hid => nomatch hid)
  | @othersCreated count =>
    refine hs.shrinks (Nat.le_add_right _ _) ?_ rfl (fun _ hid => hid) (fun _ hid => .inl hid)
      hs.disjoint
    rw [val_idAfter (by rw [hs.nextId]; exact hcount), hs.nextId]

/-! ## Runs -/

/-- The program has just begun; the manager has its types. -/
def start (registeredTypes : OrdMap String ScriptObjectInfo) : Process σ :=
  { manager := { registeredTypes } }

theorem identified_start (registeredTypes : OrdMap String ScriptObjectInfo) :
    (start (σ := σ) registeredTypes).Identified where
  nextId := rfl
  live := nofun
  removed := nofun
  initialising := nofun
  nodup := .nil
  unpublished := nofun
  disjoint := nofun

theorem identified_of_run {registeredTypes : OrdMap String ScriptObjectInfo} {actions : List Action}
    (hrun : run (step H) (start registeredTypes) actions = some s) (hcount : s.created < 2 ^ 32) :
    s.Identified := by
  refine run_invariant (fun s : Process σ => s.created < 2 ^ 32 → s.Identified) ?_
    (fun _ => identified_start _) hrun hcount
  intro s action s' hs h hcount
  have hcases := step_cases h
  exact (hs (Nat.lt_of_le_of_lt (created_le hcases) hcount)).step hcases hcount

/-- Every object in the store is under its own id, the ids in the store and the removed ones are
below the counter, and none is both. -/
structure Distinguished (m : ObjectManager σ) : Prop where
  keyed : ∀ id p, m.objects.byId.find? id = some p →
    ∃ o, m.objects.memory.find? p = some o ∧ o.id = id
  live : ∀ id ∈ m.ids, id < m.nextId
  removed : ∀ id ∈ m.removedIds.keys, id < m.nextId
  disjoint : ∀ id ∈ m.ids, id ∉ m.removedIds.keys

/-- The end of a creation enters the new object under its id, where nothing was, and changes no
other entry. -/
def EntersOwn (H : ScriptHost σ V) (s : Process σ) : Prop :=
  ∀ creation calls address garbage s', s.calls = .creating creation :: calls →
    s.step H (.initialised address garbage) = some s' →
      s.manager.objects.byId.find? creation.id = none ∧
      s'.manager.objects.byId = s.manager.objects.byId.insert creation.id address

/-- No other action enters or replaces an entry. -/
def EntersNoOther (H : ScriptHost σ V) (s : Process σ) : Prop :=
  ∀ action s', s.step H action = some s' →
    (∀ address garbage, action ≠ .initialised address garbage) →
      ∀ id p, s'.manager.objects.byId.find? id = some p → s.manager.objects.byId.find? id = some p

theorem Identified.distinguished (hs : s.Identified) : Distinguished s.manager where
  keyed id p hp := by
    obtain ⟨o, ho, hid, -⟩ := s.manager.objects.keyed hp
    exact ⟨o, ho, hid⟩
  live id hid := by
    rw [Fin.lt_def, hs.nextId]
    exact hs.live id hid
  removed id hid := by
    rw [Fin.lt_def, hs.nextId]
    exact hs.removed id hid
  disjoint := hs.disjoint

theorem Identified.entersOwn (hs : s.Identified) : s.EntersOwn H := by
  intro creation calls address garbage s' hcalls h
  have hself : creation.id ∈ s.initialising := by
    rw [Process.initialising, hcalls]
    exact List.mem_cons_self
  refine ⟨byId_eq_none_iff.2 (hs.unpublished _ hself).1, ?_⟩
  simp only [Process.step, hcalls] at h
  split at h
  · obtain ⟨m', hread, rfl⟩ := toOption_map_eq_some.1 h
    exact (readMessage_kept hread).1
  · cases h

theorem entersNoOther (s : Process σ) : s.EntersNoOther H := by
  intro action s' h hother id p hp
  cases step_cases h with
  | began hbyId => exact hbyId ▸ hp
  | initialised => exact absurd rfl (hother _ _)
  | removed _ hbyId =>
    rw [hbyId] at hp
    split at hp
    · cases hp
    · exact hp
  | kept hbyId => exact hbyId ▸ hp
  | cleared => cases hp
  | othersCreated => exact hp

/-- **Object identity.** In every state of a run with less than `2 ^ 32` creations, objects are
told apart by their ids, and a creation enters its object beside those that are there. -/
theorem objects_identified {registeredTypes : OrdMap String ScriptObjectInfo}
    {actions : List Action} (hrun : run (step H) (start registeredTypes) actions = some s)
    (hcount : s.created < 2 ^ 32) :
    Distinguished s.manager ∧ s.EntersOwn H ∧ s.EntersNoOther H := by
  have hs := identified_of_run hrun hcount
  exact ⟨hs.distinguished, hs.entersOwn, entersNoOther s⟩

/-- A character whose `init()` creates another one, which is removed. -/
theorem objects_identified_nested : ∃ s : Process testModule.Object,
    run (step testModule.host) (start testTypes)
      [.createObject "Character" "geyloard", .createObject "Character" "foo",
        .initialised 1 ⟨List.replicate 16 0, rfl⟩, .initialised 2 ⟨List.replicate 16 0, rfl⟩,
        .removeObject 1] = some s ∧
      Distinguished s.manager ∧ s.EntersOwn testModule.host ∧
      s.EntersNoOther testModule.host := by
  have hrun : run (step testModule.host) (start testTypes)
      [.createObject "Character" "geyloard", .createObject "Character" "foo",
        .initialised 1 ⟨List.replicate 16 0, rfl⟩, .initialised 2 ⟨List.replicate 16 0, rfl⟩,
        .removeObject 1] = some _ := rfl
  exact ⟨_, hrun, objects_identified hrun (by decide)⟩

/-! ## The calls of the manager as runs -/

/-- `createObject` is its two halves, one after the other. -/
theorem createObject_halves {cell : Cell m} {typeName name : String} {o : GameObject σ}
    (h : m.createObject H cell typeName name true id = .ok (o, m'))
    (message : Option ProtoGameObject) :
    ∃ creation m1, m.beginCreation H typeName name message = .ok (creation, m1) ∧
      ∃ hfresh : cell.address ∉ m1.references,
        m' = m1.finishCreation H creation ⟨cell.address, cell.garbage, hfresh⟩ ∧
        creation.id = o.id ∧ creation.message = message := by
  unfold createObject at h
  split at h
  · cases h
  next scriptInfo hinfo =>
  split at h
  · cases h
  next script hscript =>
  split at h
  · cases h
  next hgood =>
  cases h
  refine ⟨{ id := m.nextId, name, scriptInfo, script := H.setObjectId script m.nextId, message },
    { m with nextId := m.nextId + 1 }, ?_, cell.fresh, rfl, rfl, rfl⟩
  simp only [beginCreation, hinfo, hscript, hgood]
  rfl

/-- A creation whose `init()` does not call the manager. -/
theorem run_createObject {cell : Cell m} {typeName name : String} {o : GameObject σ}
    (h : m.createObject H cell typeName name true id = .ok (o, m')) (calls : List (Frame σ))
    (n : Nat) :
    run (step H) ⟨m, calls, n⟩
      [.createObject typeName name, .initialised cell.address cell.garbage] =
      some ⟨m', calls, n + 1⟩ := by
  obtain ⟨creation, m1, hbegin, hfresh, rfl, _, hmessage⟩ := createObject_halves h none
  simp only [run_cons, run_nil, step, begin, hbegin, Except.toOption, Option.map_some,
    Option.bind_some, dif_pos hfresh, readMessage, hmessage]

/-- A turn of the loop of `deserialize`. -/
theorem run_deserializeOne {alloc : Allocator σ} {object : ProtoGameObject}
    (h : deserializeOne H alloc m object = .ok m') (objects : List ProtoGameObject)
    (calls : List (Frame σ)) (n : Nat) :
    ∃ actions k, run (step H) ⟨m, .deserializing (object :: objects) :: calls, n⟩ actions =
      some ⟨m', .deserializing objects :: calls, n + k⟩ := by
  unfold deserializeOne at h
  split at h
  · next hnone =>
    obtain ⟨⟨o, m1⟩, hcreate, hread⟩ := bind_eq_ok.1 h
    obtain ⟨creation, m2, hbegin, hfresh, rfl, hid, hmessage⟩ := createObject_halves hcreate object
    have hread : readContents H _ o.id object = .ok m' := hread
    refine ⟨[.deserializeNext, .initialised (alloc (m.touchType object.data.objectType)).address
      (alloc (m.touchType object.data.objectType)).garbage], 1, ?_⟩
    simp only [run_cons, run_nil, step, begin, hnone, hbegin, Except.toOption, Option.map_some,
      Option.bind_some, dif_pos hfresh, readMessage, hmessage, hid, hread]
  · next hp =>
    refine ⟨[.deserializeNext], 0, ?_⟩
    simp only [run_cons, run_nil, step, hp, h, Except.toOption, Option.map_some, Option.bind_some,
      Nat.add_zero]

theorem run_deserialize {alloc : Allocator σ} {objects : List ProtoGameObject}
    (h : m.deserialize H alloc objects = .ok m') (calls : List (Frame σ)) (n : Nat) :
    ∃ actions k, run (step H) ⟨m, calls, n⟩ (.deserialize objects :: actions) =
      some ⟨m', calls, n + k⟩ := by
  obtain ⟨m1, hloop, heq⟩ := bind_eq_ok.1 h
  cases heq
  have hturns : ∃ actions k, run (step H) ⟨m, .deserializing objects :: calls, n⟩ actions =
      some ⟨m1, .deserializing [] :: calls, n + k⟩ := by
    clear h
    induction objects generalizing m n with
    | nil =>
      cases hloop
      exact ⟨[], 0, rfl⟩
    | cons object objects ih =>
      obtain ⟨m2, hone, hloop⟩ := foldlM_cons_eq_ok.1 hloop
      obtain ⟨actions, k, hrun⟩ := run_deserializeOne hone objects calls n
      obtain ⟨actions', k', hrun'⟩ := ih (n := n + k) hloop
      refine ⟨actions ++ actions', k + k', ?_⟩
      rw [run_append, hrun, Option.bind_some, hrun', Nat.add_assoc]
  obtain ⟨actions, k, hrun⟩ := hturns
  refine ⟨actions ++ [.deserializeNext], k, ?_⟩
  rw [run_cons, step, Option.bind_some, run_append, hrun]
  rfl

end Process

end ObjectManager

end NetSiege
