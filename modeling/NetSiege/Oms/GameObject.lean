import Mathlib.Data.String.Basic
import Mathlib.Order.Fin.Basic
import NetSiege.Lib.Except
import NetSiege.Lib.OrdMap
import NetSiege.Script.Serializer

/-!
# Game objects (`gameobject.cpp`, `objects.proto`)

A `GameObject` has an identity that never changes and contents that do: its position, its visibility
and its script object. `serialize` writes an object as a message, `deserialize` reads the contents
back. Scripts are a parameter, the `ScriptHost`; they are taken to act on their own object only.
An `ObjectStore` is the memory the objects live in with the map from their ids to their addresses,
which by its field `keyed` leads from an id to a live object with that id.
-/

namespace NetSiege

open Lib

/-- `GameObject::id_t`. -/
abbrev ObjectId := Fin (2 ^ 32)

instance lawfulBEqObjectId : LawfulBEq ObjectId := inferInstance

/-- The address of a `GameObject`. -/
abbrev Ptr := Nat

/-- `Ogre::Matrix4`, as the bits of its floats. -/
structure Matrix4 where
  floats : List UInt32
  size_eq : floats.length = 16
deriving DecidableEq

theorem Matrix4.length_zeros : (List.replicate 16 (0 : UInt32)).length = 16 := rfl

/-- `GameObject::scriptObjectInfo_t`. -/
structure ScriptObjectInfo where
  typeName : String := ""
  className : String := ""
  syncProperties : List String := []
  flags : UInt32 := 0
deriving DecidableEq

/-- What game objects ask of the scripts: construct an object of a class, `none` when the class or
its factory is missing; whether a class declares `m_objectId` with a type other than `uint32`; set
that property; run `init()`; whether the class has a `cleanup()`; read and write properties.
`synced s props` are the values of the named properties. -/
structure ScriptHost (σ V : Type) where
  classOf : σ → String
  factory : String → Option σ
  classOf_factory : ∀ {className s}, factory className = some s → classOf s = className
  badObjectId : String → Bool
  setObjectId : σ → ObjectId → σ
  classOf_setObjectId : ∀ s id, classOf (setObjectId s id) = classOf s
  init : σ → σ
  classOf_init : ∀ s, classOf (init s) = classOf s
  hasCleanup : String → Bool
  serialize : σ → List String → Except Trap (List Property)
  deserialize : List Property → σ → Except Trap (Bool × σ)
  classOf_deserialize : ∀ {ps s b s'}, deserialize ps s = .ok (b, s') → classOf s' = classOf s
  synced : σ → List String → V

/-- Objects of the class can be created. -/
def ScriptHost.Constructible (H : ScriptHost σ V) (className : String) : Prop :=
  (∃ s, H.factory className = some s) ∧ H.badObjectId className = false

/-- The serializer carries the synced properties of the registered types from one object to another
of the same class. -/
def ScriptHost.RoundTrips (H : ScriptHost σ V) (registeredTypes : OrdMap String ScriptObjectInfo) :
    Prop :=
  ∀ {typeName info}, registeredTypes.find? typeName = some info → ∀ s s',
    H.classOf s = info.className → H.classOf s' = info.className →
      ∃ ps s'', H.serialize s info.syncProperties = .ok ps ∧ H.deserialize ps s' = .ok (true, s'') ∧
        H.synced s'' info.syncProperties = H.synced s info.syncProperties

/-- The serializer carries the values of the named properties from one script object to another. -/
def ScriptHost.Carries (H : ScriptHost σ V) (properties : List String) (s s' : σ) : Prop :=
  ∃ ps done s'', H.serialize s properties = .ok ps ∧ H.deserialize ps s' = .ok (done, s'') ∧
    H.synced s'' properties = H.synced s properties

theorem ScriptHost.RoundTrips.carries {H : ScriptHost σ V}
    {registeredTypes : OrdMap String ScriptObjectInfo} (h : H.RoundTrips registeredTypes)
    {typeName : String} {info : ScriptObjectInfo}
    (hinfo : registeredTypes.find? typeName = some info) {s s' : σ}
    (hs : H.classOf s = info.className) (hs' : H.classOf s' = info.className) :
    H.Carries info.syncProperties s s' := by
  obtain ⟨ps, s'', hps, hread, hsynced⟩ := h hinfo s s' hs hs'
  exact ⟨ps, true, s'', hps, hread, hsynced⟩

/-- `omsproto::GameObject`. -/
structure ProtoGameObject where
  id : ObjectId
  name : Option String := none
  position : List UInt32 := []
  isVisible : Option Bool := none
  data : ScriptObject := {}
deriving DecidableEq

/-- What of an object changes: its position, its visibility and its script object. -/
structure Contents (σ : Type) where
  positionMatrix : Matrix4
  isVisible : Bool := false
  script : σ
deriving DecidableEq

/-- `GameObject`. Its script object and engine are set and reset together; they are `none` after
`_onRemove`. -/
structure GameObject (σ : Type) where
  id : ObjectId
  name : String
  scriptInfo : ScriptObjectInfo
  contents : Option (Contents σ)
deriving DecidableEq

/-- What a game object shows: name, type name, visibility, position and synced properties. -/
structure ObjectView (V : Type) where
  name : String
  typeName : String
  isVisible : Bool
  position : Matrix4
  synced : V
deriving DecidableEq

namespace GameObject

variable {σ V : Type}

/-- `GameObject::serialize`. Without its script object it runs into a null pointer. -/
def serialize (H : ScriptHost σ V) (o : GameObject σ) (forceFullSerialize : Bool) :
    Except Trap ProtoGameObject :=
  match o.contents with
  | none => .error .nullPointer
  | some c => do
    let properties ← H.serialize c.script o.scriptInfo.syncProperties
    .ok {
      id := o.id
      name := if forceFullSerialize then some o.name else none
      position := c.positionMatrix.floats
      isVisible := some c.isVisible
      data := { objectType := o.scriptInfo.typeName, properties } }

/-- `GameObject::deserialize`: the new contents. The result of the serializer is dropped. -/
def deserialize (H : ScriptHost σ V) (script : σ) (object : ProtoGameObject) :
    Except Trap (Contents σ) :=
  if h : 16 ≤ object.position.length then do
    let (_, script) ← H.deserialize object.data.properties script
    .ok {
      positionMatrix := ⟨object.position.take 16, by rw [List.length_take]; omega⟩
      isVisible := object.isVisible.getD false
      script }
  else .error .outOfBounds

theorem deserialize_eq_ok {H : ScriptHost σ V} {script : σ} {object : ProtoGameObject}
    {c : Contents σ} (h : GameObject.deserialize H script object = .ok c) :
    ∃ done, H.deserialize object.data.properties script = .ok (done, c.script) := by
  unfold deserialize at h
  split at h
  · obtain ⟨⟨done, script'⟩, hread, heq⟩ := bind_eq_ok.1 h
    cases heq
    exact ⟨done, hread⟩
  · cases h

/-- `GameObject::_onRemove`: without a `cleanup()` the script object stays. -/
def onRemove (H : ScriptHost σ V) (o : GameObject σ) : GameObject σ :=
  if H.hasCleanup o.scriptInfo.className then { o with contents := none } else o

/-- The object is live and of a registered type, and its script object is of the type's class, of
which objects can be created. -/
structure Typed (H : ScriptHost σ V) (registeredTypes : OrdMap String ScriptObjectInfo)
    (o : GameObject σ) : Prop where
  registered : registeredTypes.find? o.scriptInfo.typeName = some o.scriptInfo
  constructible : H.Constructible o.scriptInfo.className
  script : ∃ c, o.contents = some c ∧ H.classOf c.script = o.scriptInfo.className

/-- What a live object shows. -/
def view (H : ScriptHost σ V) (o : GameObject σ) : Option (ObjectView V) :=
  o.contents.map fun c =>
    { name := o.name
      typeName := o.scriptInfo.typeName
      isVisible := c.isVisible
      position := c.positionMatrix
      synced := H.synced c.script o.scriptInfo.syncProperties }

end GameObject

/-- `m_objectsById` and the memory its pointers lead to. -/
structure ObjectStore (σ : Type) where
  byId : OrdMap ObjectId Ptr
  memory : OrdMap Ptr (GameObject σ)
  keyed : ∀ {id p}, byId.find? id = some p →
    ∃ o, memory.find? p = some o ∧ o.id = id ∧ o.contents.isSome

namespace ObjectStore

variable {σ V : Type} {s : ObjectStore σ} {id : ObjectId} {p : Ptr} {o : GameObject σ}

instance : EmptyCollection (ObjectStore σ) := ⟨⟨∅, ∅, by simp⟩⟩

/-- The object under an id. -/
def lookup (s : ObjectStore σ) (id : ObjectId) : Option (GameObject σ) :=
  (s.byId.find? id).bind s.memory.find?

/-- Different ids lead to different addresses. -/
theorem byId_inj {id' : ObjectId} (h : s.byId.find? id = some p) (h' : s.byId.find? id' = some p) :
    id = id' := by
  obtain ⟨o, ho, rfl, _⟩ := s.keyed h
  obtain ⟨o', ho', rfl, _⟩ := s.keyed h'
  rw [ho] at ho'
  rw [Option.some.inj ho']

/-- A new object at an address no id leads to. -/
def publish (s : ObjectStore σ) (p : Ptr) (o : GameObject σ) (halive : o.contents.isSome)
    (hfresh : ∀ id, s.byId.find? id ≠ some p) : ObjectStore σ where
  byId := s.byId.insert o.id p
  memory := s.memory.insert p o
  keyed := by
    intro id q hq
    rw [OrdMap.find?_insert] at hq
    split at hq
    · next hid =>
      cases hq
      exact ⟨o, OrdMap.find?_insert_self, hid.symm, halive⟩
    · have hne : q ≠ p := fun heq => hfresh id (heq ▸ hq)
      rw [OrdMap.find?_insert_of_ne hne]
      exact s.keyed hq

/-- The object under an id gets new contents. -/
def setContents (s : ObjectStore σ) (id : ObjectId) (c : Contents σ) : ObjectStore σ :=
  match s.byId.find? id with
  | none => s
  | some p =>
    { byId := s.byId
      memory := s.memory.mapVal fun q o => if q = p then { o with contents := some c } else o
      keyed := by
        intro id' q hq
        obtain ⟨o, ho, hid, halive⟩ := s.keyed hq
        rw [OrdMap.find?_mapVal, ho]
        split
        · exact ⟨_, rfl, hid, rfl⟩
        · exact ⟨_, rfl, hid, halive⟩ }

/-- The object under an id changes by `f`, and the id leads to it no longer. -/
def remove (s : ObjectStore σ) (id : ObjectId) (f : GameObject σ → GameObject σ) : ObjectStore σ :=
  match hp : s.byId.find? id with
  | none => s
  | some p =>
    { byId := s.byId.erase id
      memory := s.memory.mapVal fun q o => if q = p then f o else o
      keyed := by
        intro id' q hq
        rw [OrdMap.find?_erase] at hq
        split at hq
        · cases hq
        · next hne =>
          obtain ⟨o, ho, hid, halive⟩ := s.keyed hq
          have hqp : q ≠ p := fun heq => hne (byId_inj hq (heq ▸ hp))
          rw [OrdMap.find?_mapVal, ho, Option.map_some, if_neg hqp]
          exact ⟨o, rfl, hid, halive⟩ }

@[simp] theorem byId_empty : (∅ : ObjectStore σ).byId = ∅ := rfl

theorem lookup_eq_some (h : s.lookup id = some o) :
    ∃ p, s.byId.find? id = some p ∧ s.memory.find? p = some o ∧ o.id = id ∧ o.contents.isSome := by
  obtain ⟨p, hp, ho⟩ := Option.bind_eq_some_iff.1 h
  obtain ⟨o', ho', hid, halive⟩ := s.keyed hp
  obtain rfl := Option.some.inj (ho.symm.trans ho')
  exact ⟨p, hp, ho, hid, halive⟩

/-- The ids in use. -/
theorem lookup_isSome : (s.lookup id).isSome ↔ id ∈ s.byId.keys := by
  rw [OrdMap.mem_keys]
  constructor
  · intro h
    obtain ⟨o, ho⟩ := Option.isSome_iff_exists.1 h
    obtain ⟨p, hp, _⟩ := lookup_eq_some ho
    exact ⟨p, hp⟩
  · rintro ⟨p, hp⟩
    obtain ⟨o, ho, _⟩ := s.keyed hp
    rw [lookup, hp, Option.bind_some, ho]
    rfl

theorem lookup_publish {halive : o.contents.isSome} {hfresh : ∀ id, s.byId.find? id ≠ some p}
    (id : ObjectId) :
    (s.publish p o halive hfresh).lookup id = if id = o.id then some o else s.lookup id := by
  simp only [lookup, publish, OrdMap.find?_insert]
  split
  · simp
  · cases hq : s.byId.find? id with
    | none => rfl
    | some q =>
      have hne : q ≠ p := fun heq => hfresh id (heq ▸ hq)
      simp [hne]

theorem byId_publish {halive : o.contents.isSome} {hfresh : ∀ id, s.byId.find? id ≠ some p} :
    (s.publish p o halive hfresh).byId = s.byId.insert o.id p := rfl

theorem byId_setContents {c : Contents σ} : (s.setContents id c).byId = s.byId := by
  unfold setContents
  split <;> rfl

theorem lookup_setContents {c : Contents σ} (id' : ObjectId) :
    (s.setContents id c).lookup id' =
      if id' = id then (s.lookup id).map ({ · with contents := some c }) else s.lookup id' := by
  unfold setContents
  split
  · next hnone =>
    split
    · next heq => simp [lookup, heq, hnone]
    · rfl
  · next p hp =>
    simp only [lookup, OrdMap.find?_mapVal]
    split
    · next heq =>
      obtain ⟨o, ho, _⟩ := s.keyed hp
      simp [heq, hp, ho]
    · next hne =>
      cases hq : s.byId.find? id' with
      | none => rfl
      | some q =>
        have hqp : q ≠ p := fun heq => hne (byId_inj hq (heq ▸ hp))
        simp [hqp]

theorem byId_remove {f : GameObject σ → GameObject σ} (id' : ObjectId) :
    (s.remove id f).byId.find? id' = if id' = id then none else s.byId.find? id' := by
  unfold remove
  split
  · next hnone =>
    split
    · next heq => rw [heq, hnone]
    · rfl
  · exact OrdMap.find?_erase ..

theorem lookup_remove {f : GameObject σ → GameObject σ} (id' : ObjectId) :
    (s.remove id f).lookup id' = if id' = id then none else s.lookup id' := by
  rw [lookup, byId_remove]
  split
  · rfl
  · next hne =>
    unfold remove
    split
    · rfl
    · next p hp =>
      rw [lookup]
      cases hq : s.byId.find? id' with
      | none => rfl
      | some q =>
        have hqp : q ≠ p := fun heq => hne (byId_inj hq (heq ▸ hp))
        simp [hqp]

end ObjectStore

end NetSiege
