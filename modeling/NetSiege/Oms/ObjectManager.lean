import NetSiege.Lib.Except
import NetSiege.Oms.GameObject

/-!
# The object manager (`objectmanager.cpp`)

`ObjectManager` keeps the objects of a world and three pending sets for the next update: new
objects, altered objects and removed ids. `createObject` and `removeObject` change the world,
`serializeFull` and `serializeChanges` describe it, `deserialize` follows a description. Where the
allocator puts a new object, and what its uninitialised matrix holds, is the environment's choice.
-/

namespace NetSiege

open Lib

/-- `ObjectManager`, with `GameObject::nextId`, the id counter of its process. -/
structure ObjectManager (σ : Type) where
  registeredTypes : OrdMap String ScriptObjectInfo := ∅
  alteredObjects : OrdMap Ptr Unit := ∅
  newObjects : OrdMap Ptr Unit := ∅
  removedIds : OrdMap ObjectId Unit := ∅
  objects : ObjectStore σ := ∅
  nextId : ObjectId := 0

namespace ObjectManager

variable {σ V : Type} {H : ScriptHost σ V} {m m' : ObjectManager σ} {id : ObjectId}

/-- The addresses the manager holds on to. -/
def references (m : ObjectManager σ) : List Ptr :=
  m.objects.byId.entries.map (·.2) ++ m.newObjects.keys ++ m.alteredObjects.keys

/-- Memory for a new object: an address that is not in use, and what its matrix holds there. -/
structure Cell (m : ObjectManager σ) where
  address : Ptr
  garbage : Matrix4
  fresh : address ∉ m.references

/-- Where new objects are put. -/
abbrev Allocator (σ : Type) := (m : ObjectManager σ) → Cell m

/-- Past the last address in use, with a cleared matrix. -/
def nextFree : Allocator σ := fun m =>
  { address := m.references.max?.getD 0 + 1
    garbage := ⟨List.replicate 16 0, Matrix4.length_zeros⟩
    fresh := fun h => Nat.not_succ_le_self _ (List.le_max?_getD_of_mem h) }

theorem byId_ne_of_fresh {p : Ptr} (h : p ∉ m.references) (id : ObjectId) :
    m.objects.byId.find? id ≠ some p := by
  intro hp
  refine h (List.mem_append_left _ (List.mem_append_left _ ?_))
  exact List.mem_map.2 ⟨(id, p), OrdMap.mem_entries.2 hp, rfl⟩

theorem Cell.byId_ne (cell : Cell m) (id : ObjectId) :
    m.objects.byId.find? id ≠ some cell.address :=
  byId_ne_of_fresh cell.fresh id

/-- `ObjectManager::createObject`. -/
def createObject (H : ScriptHost σ V) (m : ObjectManager σ) (cell : Cell m)
    (typeName name : String) (autoId : Bool) (id : ObjectId) :
    Except Trap (GameObject σ × ObjectManager σ) :=
  match m.registeredTypes.find? typeName with
  | none => .error .assertion
  | some objectInfo =>
    match H.factory objectInfo.className with
    | none => .error .assertion
    | some script =>
      if H.badObjectId objectInfo.className then .error .assertion
      else
        let id := if autoId then m.nextId else id
        let newObject : GameObject σ :=
          { id
            name
            scriptInfo := objectInfo
            contents := some {
              positionMatrix := cell.garbage
              script := H.init (H.setObjectId script id) } }
        .ok (newObject, { m with
          nextId := if autoId then m.nextId + 1 else m.nextId
          newObjects := m.newObjects.insert cell.address ()
          objects := m.objects.publish cell.address newObject rfl (byId_ne_of_fresh cell.fresh) })

/-- `ObjectManager::removeObject`. -/
def removeObject (H : ScriptHost σ V) (m : ObjectManager σ) (id : ObjectId) : ObjectManager σ :=
  match m.objects.byId.find? id with
  | none => m
  | some _ => { m with
      objects := m.objects.remove id (·.onRemove H)
      removedIds := m.removedIds.insert id () }

/-- `ObjectManager::clear`. -/
def clear (m : ObjectManager σ) : ObjectManager σ :=
  { m with alteredObjects := ∅, newObjects := ∅, objects := ∅ }

/-- `ObjectManager::addUpdatedObject`. -/
def addUpdatedObject (m : ObjectManager σ) (obj : Ptr) : ObjectManager σ :=
  { m with alteredObjects := m.alteredObjects.insert obj () }

/-- `ObjectManager::flushUpdateCache`. -/
def flushUpdateCache (m : ObjectManager σ) : ObjectManager σ :=
  { m with alteredObjects := ∅, newObjects := ∅, removedIds := ∅ }

/-- `obj->serialize` of the object at an address. -/
def serializeAt (H : ScriptHost σ V) (m : ObjectManager σ) (forceFullSerialize : Bool) (obj : Ptr) :
    Except Trap ProtoGameObject :=
  match m.objects.memory.find? obj with
  | none => .error .nullPointer
  | some o => o.serialize H forceFullSerialize

/-- The altered objects that are not new. -/
def alteredOnly (m : ObjectManager σ) : List Ptr :=
  m.alteredObjects.keys.filter fun obj => (m.newObjects.find? obj).isNone

/-- `ObjectManager::serializeChanges`. -/
def serializeChanges (H : ScriptHost σ V) (m : ObjectManager σ) :
    Except Trap (List ProtoGameObject) := do
  let new ← m.newObjects.keys.mapM (m.serializeAt H true)
  let altered ← m.alteredOnly.mapM (m.serializeAt H false)
  .ok (new ++ altered)

/-- `ObjectManager::serializeFull`. -/
def serializeFull (H : ScriptHost σ V) (m : ObjectManager σ) :
    Except Trap (List ProtoGameObject) :=
  m.objects.byId.entries.mapM fun it => m.serializeAt H true it.2

/-- `->deserialize` of the object under an id. -/
def readContents (H : ScriptHost σ V) (m : ObjectManager σ) (id : ObjectId)
    (object : ProtoGameObject) : Except Trap (ObjectManager σ) :=
  match (m.objects.lookup id).bind (·.contents) with
  | none => .error .nullPointer
  | some c => do
    let c ← GameObject.deserialize H c.script object
    .ok { m with objects := m.objects.setContents id c }

/-- `m_registeredTypes[objectTypeName]`, which inserts a missing entry. -/
def touchType (m : ObjectManager σ) (objectTypeName : String) : ObjectManager σ :=
  match m.registeredTypes.find? objectTypeName with
  | some _ => m
  | none => { m with registeredTypes := m.registeredTypes.insert objectTypeName {} }

/-- One turn of the loop of `ObjectManager::deserialize`. -/
def deserializeOne (H : ScriptHost σ V) (alloc : Allocator σ) (m : ObjectManager σ)
    (object : ProtoGameObject) : Except Trap (ObjectManager σ) :=
  match m.objects.byId.find? object.id with
  | none => do
    let objectTypeName := object.data.objectType
    let m := m.touchType objectTypeName
    let (newObject, m) ←
      m.createObject H (alloc m) objectTypeName (object.name.getD "") true object.id
    m.readContents H newObject.id object
  | some _ => m.readContents H object.id object

/-- `ObjectManager::deserialize`. -/
def deserialize (H : ScriptHost σ V) (alloc : Allocator σ) (m : ObjectManager σ)
    (objectSet : List ProtoGameObject) : Except Trap (ObjectManager σ) := do
  let m ← objectSet.foldlM (deserializeOne H alloc) m
  .ok m.flushUpdateCache

/-- The ids in use. -/
def ids (m : ObjectManager σ) : List ObjectId := m.objects.byId.keys

/-- What the object under an id shows. -/
def view (H : ScriptHost σ V) (m : ObjectManager σ) (id : ObjectId) : Option (ObjectView V) :=
  (m.objects.lookup id).bind (·.view H)

/-- Name and type of the object under an id. -/
def kind (m : ObjectManager σ) (id : ObjectId) : Option (String × ScriptObjectInfo) :=
  (m.objects.lookup id).map fun o => (o.name, o.scriptInfo)

/-! ## What an operation can do -/

/-- `m'` is `m` after the creation of `o` under the next id of the process. -/
structure Created (H : ScriptHost σ V) (m : ObjectManager σ) (cell : Cell m)
    (typeName name : String) (o : GameObject σ) (m' : ObjectManager σ) : Prop where
  registered : m.registeredTypes.find? typeName = some o.scriptInfo
  constructible : H.Constructible o.scriptInfo.className
  constructed : ∃ c, o.contents = some c ∧
    (H.factory o.scriptInfo.className).map (fun script => H.init (H.setObjectId script o.id)) =
      some c.script
  id : o.id = m.nextId
  name : o.name = name
  objects : ∃ halive,
    m'.objects = m.objects.publish cell.address o halive (byId_ne_of_fresh cell.fresh)
  nextId : m'.nextId = m.nextId + 1
  registeredTypes : m'.registeredTypes = m.registeredTypes
  newObjects : m'.newObjects = m.newObjects.insert cell.address ()
  alteredObjects : m'.alteredObjects = m.alteredObjects
  removedIds : m'.removedIds = m.removedIds

theorem createObject_eq_ok {cell : Cell m} {typeName name : String} {o : GameObject σ}
    (h : m.createObject H cell typeName name true id = .ok (o, m')) :
    m.Created H cell typeName name o m' := by
  unfold createObject at h
  split at h
  · cases h
  next info hinfo =>
  split at h
  · cases h
  next script hscript =>
  split at h
  · cases h
  next hgood =>
  cases h
  exact {
    registered := hinfo
    constructible := ⟨⟨script, hscript⟩, by simpa using hgood⟩
    constructed := ⟨_, rfl, by rw [hscript]; rfl⟩
    id := rfl
    name := rfl
    objects := ⟨rfl, rfl⟩
    nextId := rfl
    registeredTypes := rfl
    newObjects := rfl
    alteredObjects := rfl
    removedIds := rfl }

/-- The script object of a new object is of the class of its type. -/
theorem Created.script {cell : Cell m} {typeName name : String} {o : GameObject σ}
    (h : m.Created H cell typeName name o m') :
    ∃ c, o.contents = some c ∧ H.classOf c.script = o.scriptInfo.className := by
  obtain ⟨c, hc, hscript⟩ := h.constructed
  obtain ⟨script, hfactory, heq⟩ := Option.map_eq_some_iff.1 hscript
  exact ⟨c, hc, by rw [← heq, H.classOf_init, H.classOf_setObjectId, H.classOf_factory hfactory]⟩

/-- Objects of registered types with a class to construct them from can be created. -/
theorem createObject_of {info : ScriptObjectInfo} (cell : Cell m) {typeName : String}
    (hinfo : m.registeredTypes.find? typeName = some info)
    (hclass : H.Constructible info.className) (name : String) (id : ObjectId) :
    ∃ r, m.createObject H cell typeName name true id = .ok r := by
  obtain ⟨⟨script, hscript⟩, hgood⟩ := hclass
  simp only [createObject, hinfo, hscript, hgood, Bool.false_eq_true, if_false]
  exact ⟨_, rfl⟩

theorem readContents_eq_ok {object : ProtoGameObject}
    (h : m.readContents H id object = .ok m') :
    ∃ o c c', m.objects.lookup id = some o ∧ o.contents = some c ∧
      GameObject.deserialize H c.script object = .ok c' ∧
      m' = { m with objects := m.objects.setContents id c' } := by
  unfold readContents at h
  split at h
  · cases h
  · next c hc =>
    obtain ⟨o, ho, hco⟩ := Option.bind_eq_some_iff.1 hc
    obtain ⟨c', hc', heq⟩ := bind_eq_ok.1 h
    cases heq
    exact ⟨o, c, c', ho, hco, hc', rfl⟩

theorem readContents_of {object : ProtoGameObject} {o : GameObject σ} {c c' : Contents σ}
    (ho : m.objects.lookup id = some o) (hc : o.contents = some c)
    (hc' : GameObject.deserialize H c.script object = .ok c') :
    m.readContents H id object = .ok { m with objects := m.objects.setContents id c' } := by
  have hbind : (m.objects.lookup id).bind (·.contents) = some c := by rw [ho, Option.bind_some, hc]
  rw [readContents, hbind]
  exact bind_eq_ok.2 ⟨c', hc', rfl⟩

theorem mem_ids : id ∈ m.ids ↔ ∃ o, m.objects.lookup id = some o := by
  rw [ids, ← ObjectStore.lookup_isSome, Option.isSome_iff_exists]

theorem nodup_ids (m : ObjectManager σ) : m.ids.Nodup := OrdMap.nodup_keys _

theorem byId_eq_none_iff : m.objects.byId.find? id = none ↔ id ∉ m.ids := by
  rw [ids, OrdMap.mem_keys]
  cases m.objects.byId.find? id <;> simp

@[simp] theorem nextId_touchType (typeName : String) :
    (m.touchType typeName).nextId = m.nextId := by
  unfold touchType
  split <;> rfl

theorem mem_ids_iff_kind : id ∈ m.ids ↔ (m.kind id).isSome := by
  rw [kind, Option.isSome_map, ids, ObjectStore.lookup_isSome]

theorem kind_setContents (id : ObjectId) (c : Contents σ) (id' : ObjectId) :
    kind { m with objects := m.objects.setContents id c } id' = m.kind id' := by
  simp only [kind, ObjectStore.lookup_setContents]
  split
  · next heq =>
    rw [heq, Option.map_map]
    rfl
  · rfl

@[simp] theorem kind_touchType (typeName : String) (id : ObjectId) :
    (m.touchType typeName).kind id = m.kind id := by
  unfold touchType
  split <;> rfl

section
variable {cell : Cell m} {typeName name : String} {o : GameObject σ}

theorem Created.byId (h : m.Created H cell typeName name o m') (id' : ObjectId) :
    m'.objects.byId.find? id' =
      if id' = m.nextId then some cell.address else m.objects.byId.find? id' := by
  obtain ⟨_, hobjects⟩ := h.objects
  rw [hobjects, ObjectStore.byId_publish, OrdMap.find?_insert, h.id]

theorem Created.lookup (h : m.Created H cell typeName name o m') (id' : ObjectId) :
    m'.objects.lookup id' = if id' = m.nextId then some o else m.objects.lookup id' := by
  obtain ⟨_, hobjects⟩ := h.objects
  rw [hobjects, ObjectStore.lookup_publish, h.id]

theorem Created.kind (h : m.Created H cell typeName name o m') (id' : ObjectId) :
    m'.kind id' = if id' = m.nextId then some (o.name, o.scriptInfo) else m.kind id' := by
  rw [ObjectManager.kind, h.lookup]
  split <;> rfl

end

/-- An object that is not known is created under the next id of this process, whatever id the
message names. -/
theorem deserializeOne_kind {alloc : Allocator σ} {object : ProtoGameObject}
    (h : deserializeOne H alloc m object = .ok m') :
    object.id ∈ m.ids ∧ (∀ id, m'.kind id = m.kind id) ∧ m'.nextId = m.nextId ∨
      object.id ∉ m.ids ∧ m.nextId ∈ m'.ids ∧ (∀ id, id ≠ m.nextId → m'.kind id = m.kind id) ∧
        m'.nextId = m.nextId + 1 := by
  unfold deserializeOne at h
  split at h
  · next hnone =>
    obtain ⟨⟨o, m1⟩, hcreate, hread⟩ := bind_eq_ok.1 h
    have hcreated := createObject_eq_ok hcreate
    obtain ⟨_, _, c', _, _, _, rfl⟩ := readContents_eq_ok hread
    refine .inr ⟨byId_eq_none_iff.1 hnone, ?_, fun id hid => ?_, by simpa using hcreated.nextId⟩
    · rw [mem_ids_iff_kind, kind_setContents, hcreated.kind, nextId_touchType, if_pos rfl]
      rfl
    · rw [kind_setContents, hcreated.kind, nextId_touchType, if_neg hid, kind_touchType]
  · next p hp =>
    obtain ⟨_, _, c', _, _, _, rfl⟩ := readContents_eq_ok h
    exact .inl ⟨OrdMap.mem_keys.2 ⟨p, hp⟩, kind_setContents _ _, rfl⟩

end ObjectManager

end NetSiege
