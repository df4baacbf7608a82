import Mathlib.Algebra.Order.BigOperators.Group.List
import NetSiege.Lib.Protobuf
import NetSiege.Network.ClientIds

/-!
# The sizes of world state messages (`udpconnection.h`, `networkserver.cpp`)

`sendPackage` asserts that a message is smaller than a package. How large protobuf makes a message
is a parameter, `ByteSizes`: it is at least as large as its fields together. Nothing on the way from
the objects to the message bounds it, so that one long name is enough to break the assertion
(`not_alwaysFit_longName`). If a message has nothing besides its fields, the assertion holds exactly
as long as what is said of the objects leaves room for the header (`alwaysFit_iff`).
-/

namespace NetSiege

open Lib

/-! ## What protobuf computes -/

/-- How large protobuf makes messages and their fields. -/
structure ByteSizes where
  /-- A field with a number. -/
  uint : Nat → Nat
  /-- A field with a flag. -/
  flag : Nat
  /-- A field with so many bytes, of a string or a message. -/
  bytes : Nat → Nat
  /-- A packed field with so many `float`s. -/
  floats : Nat → Nat
  property : Property → Nat
  scriptObject : ScriptObject → Nat
  gameObject : ProtoGameObject → Nat
  gameObjectSet : List ProtoGameObject → Nat
  worldStateUpdate : WorldStateUpdate → Nat
  rpc : RPC → Nat
  /-- `ByteSize` of an `S2CMessage`. -/
  message : Message WorldStateUpdate → Nat

namespace ByteSizes

variable (B : ByteSizes)

/-- The fields of a `pb::Property`. The size of the primitives is set of all but strings. -/
def ofProperty (p : Property) : Nat :=
  B.bytes p.name.utf8ByteSize + B.bytes p.decl.utf8ByteSize +
    (if p.decl = "string" ∨ p.decl = "string[]" then 0 else B.uint p.primitiveSize.toNat) +
    (p.primitiveDat.map fun data => B.uint data.toNat).sum +
    (p.stringDat.map fun data => B.bytes data.length).sum

/-- The fields of a `pb::ScriptObject`. -/
def ofScriptObject (o : ScriptObject) : Nat :=
  (o.properties.map fun p => B.bytes (B.property p)).sum + B.bytes o.objectType.utf8ByteSize

/-- The fields of an `omsproto::GameObject`. -/
def ofGameObject (o : ProtoGameObject) : Nat :=
  B.uint o.id.val + (o.name.map fun name => B.bytes name.utf8ByteSize).getD 0 +
    (if o.position.isEmpty then 0 else B.floats o.position.length) +
    (o.isVisible.map fun _ => B.flag).getD 0 + B.bytes (B.scriptObject o.data)

/-- The fields of an `omsproto::GameObjectSet`. -/
def ofGameObjectSet (objects : List ProtoGameObject) : Nat :=
  (objects.map fun o => B.bytes (B.gameObject o)).sum

/-- The fields of a `WorldStateUpdate`. -/
def ofWorldStateUpdate (update : WorldStateUpdate) : Nat :=
  B.bytes (B.gameObjectSet update.updatedObjects) +
    (update.removedIds.map fun id => B.uint id.val).sum

/-- The fields of an `S2CMessage`. -/
def ofMessage (msg : Message WorldStateUpdate) : Nat :=
  B.uint msg.protocolId.toNat + B.uint msg.seqId.toNat + B.uint msg.ackSeqId.toNat +
    B.uint msg.ackMask.toNat + (msg.rpc.map fun rpc => B.bytes (B.rpc rpc)).getD 0 +
    (msg.body.map fun update => B.bytes (B.worldStateUpdate update)).getD 0

/-- A message is at least as large as its fields together, a string or a message in it as its bytes,
and packed `float`s take four bytes each. -/
structure HoldsFields : Prop where
  le_bytes : ∀ n, n ≤ B.bytes n
  le_floats : ∀ n, 4 * n ≤ B.floats n
  property : ∀ p, B.ofProperty p ≤ B.property p
  scriptObject : ∀ o, B.ofScriptObject o ≤ B.scriptObject o
  gameObject : ∀ o, B.ofGameObject o ≤ B.gameObject o
  gameObjectSet : ∀ objects, B.ofGameObjectSet objects ≤ B.gameObjectSet objects
  worldStateUpdate : ∀ update, B.ofWorldStateUpdate update ≤ B.worldStateUpdate update
  message : ∀ msg, B.ofMessage msg ≤ B.message msg

/-- A message has nothing besides its fields. -/
structure AddsUp : Prop where
  property : ∀ p, B.property p = B.ofProperty p
  scriptObject : ∀ o, B.scriptObject o = B.ofScriptObject o
  gameObject : ∀ o, B.gameObject o = B.ofGameObject o
  gameObjectSet : ∀ objects, B.gameObjectSet objects = B.ofGameObjectSet objects
  worldStateUpdate : ∀ update, B.worldStateUpdate update = B.ofWorldStateUpdate update
  message : ∀ msg, B.message msg = B.ofMessage msg

end ByteSizes

/-- The wire format of protocol buffers, for field numbers below 16. -/
def wireFormat : ByteSizes :=
  let fields : ByteSizes := {
    uint := uintField
    flag := boolField
    bytes := bytesField
    floats := fun n => bytesField (4 * n)
    property := fun _ => 0
    scriptObject := fun _ => 0
    gameObject := fun _ => 0
    gameObjectSet := fun _ => 0
    worldStateUpdate := fun _ => 0
    rpc := fun rpc => uintField rpc.msgSeqId.toNat + uintField rpc.rpcId.toNat +
      bytesField rpc.rpcData.length
    message := fun _ => 0 }
  let properties := { fields with property := fields.ofProperty }
  let scripts := { properties with scriptObject := properties.ofScriptObject }
  let objects := { scripts with gameObject := scripts.ofGameObject }
  let sets := { objects with gameObjectSet := objects.ofGameObjectSet }
  let updates := { sets with worldStateUpdate := sets.ofWorldStateUpdate }
  { updates with message := updates.ofMessage }

theorem addsUp_wireFormat : wireFormat.AddsUp where
  property _ := rfl
  scriptObject _ := rfl
  gameObject _ := rfl
  gameObjectSet _ := rfl
  worldStateUpdate _ := rfl
  message _ := rfl

theorem holdsFields_wireFormat : wireFormat.HoldsFields where
  le_bytes := le_bytesField
  le_floats n := le_bytesField (4 * n)
  property _ := Nat.le_refl _
  scriptObject _ := Nat.le_refl _
  gameObject _ := Nat.le_refl _
  gameObjectSet _ := Nat.le_refl _
  worldStateUpdate _ := Nat.le_refl _
  message _ := Nat.le_refl _

/-! ## What there is to say -/

section
variable (B : ByteSizes)

/-- The header of the next message of a connection. -/
def UdpConnection.headerBytes {ε : Type} (c : UdpConnection ε) : Nat :=
  B.uint protocolId.toNat + B.uint c.seqId.toNat + B.uint c.remoteSeqId.toNat +
    B.uint c.ackMask.toNat

/-- What is said of the value of the `i`-th property: the size and the number of a primitive, a
string, or the strings of an array. Of an array of primitives, whose elements the source takes to
have no bytes, there is a zero for each. Other kinds of properties are not written at all. -/
def ScriptInstance.valueBytes {c : ScriptClass} (o : ScriptInstance c) (i : Nat) :
    ScriptType → Option Nat
  | .prim type =>
    some (B.uint type.size + B.uint (ofLeBytes (slice o.memory (c.address i) type.size)))
  | .array (.prim _) => some (B.uint 0 + (o.arrays i).length * B.uint 0)
  | type =>
    if type.decl = "string" then some (B.bytes (o.strings i).length)
    else if type.decl = "string[]" then some ((o.arrays i).map fun s => B.bytes s.length).sum
    else none

/-- What is said of the `i`-th property: its name, its declaration and its value. -/
def ScriptInstance.propertyBytes {c : ScriptClass} (o : ScriptInstance c) (i : Nat)
    (info : PropertyInfo) : Nat :=
  ((o.valueBytes B i info.type).map fun n =>
    B.bytes (B.bytes info.name.utf8ByteSize + B.bytes info.type.decl.utf8ByteSize + n)).getD 0

/-- What is said of a script object: its synced properties and its type. -/
def ScriptObjectInfo.scriptBytes {c : ScriptClass} (info : ScriptObjectInfo)
    (o : ScriptInstance c) : Nat :=
  ((c.properties.zipIdx.filter (·.1.name ∈ info.syncProperties)).map
    fun x => o.propertyBytes B x.2 x.1).sum + B.bytes info.typeName.utf8ByteSize

variable {M : CampaignModule}

/-- What is said of an object: its id, its name if it is new, 16 floats, a flag and its script
object. -/
def GameObject.bytes (o : GameObject M.Object) (full : Bool) : Nat :=
  match o.contents with
  | none => 0
  | some c =>
    B.uint o.id.val + (if full then B.bytes o.name.utf8ByteSize else 0) + B.floats 16 +
      B.flag + B.bytes (o.scriptInfo.scriptBytes B c.script.value)

namespace ObjectManager

variable (m : ObjectManager M.Object)

/-- What is said of the object at an address. -/
def bytesAt (full : Bool) (obj : Ptr) : Nat :=
  match m.objects.memory.find? obj with
  | none => 0
  | some o => B.bytes (o.bytes B full)

/-- What is said of the whole world. -/
def worldBytes : Nat :=
  B.bytes (m.objects.byId.entries.map fun it => m.bytesAt B true it.2).sum

/-- What is said of the changes: the new objects, the altered ones and the removed ids. -/
def changedBytes : Nat :=
  B.bytes ((m.newObjects.keys.map (m.bytesAt B true)).sum +
      (m.alteredOnly.map (m.bytesAt B false)).sum) +
    (m.removedIds.keys.map fun id => B.uint id.val).sum

end ObjectManager

end

/-! ## The messages are as large as that -/

section
variable {B : ByteSizes} {c : ScriptClass} {E : TypeIds} {o : ScriptInstance c}
  {info : PropertyInfo} {i : Nat} {ps : List Property}

/-- The number of a slice of at most eight bytes. -/
theorem toNat_ofLeBytes_slice (l : List UInt8) (off : Nat) {n : Nat} (hn : n ≤ 8) :
    (UInt64.ofNat (ofLeBytes (slice l off n))).toNat = ofLeBytes (slice l off n) := by
  have hlen : (slice l off n).length ≤ 8 := by
    rw [slice, List.length_take]
    omega
  have hlt : ofLeBytes (slice l off n) < 2 ^ 64 :=
    calc ofLeBytes (slice l off n)
      _ < 256 ^ (slice l off n).length := ofLeBytes_lt _
      _ ≤ 256 ^ 8 := Nat.pow_le_pow_right (by decide) hlen
      _ = 2 ^ 64 := by decide
  rw [UInt64.toNat_ofNat', Nat.mod_eq_of_lt hlt]

theorem valueBytes_of_other (hprim : ∀ p, type ≠ .prim p) (harray : ∀ p, type ≠ .array (.prim p)) :
    o.valueBytes B i type =
      if type.decl = "string" then some (B.bytes (o.strings i).length)
      else if type.decl = "string[]" then some ((o.arrays i).map fun s => B.bytes s.length).sum
      else none := by
  cases type with
  | prim p => exact absurd rfl (hprim p)
  | array element =>
    cases element with
    | prim p => exact absurd rfl (harray p)
    | _ => rfl
  | _ => rfl

/-- What is written of a primitive. -/
theorem serializeProperty_bytes_prim (htype : info.type = .prim type)
    (h : serializeProperty E o i info = .ok ps) :
    (ps.map fun p => B.bytes (B.ofProperty p)).sum = o.propertyBytes B i info := by
  simp only [serializeProperty, htype, isPrimitiveTypeId_prim, getSizeOfPrimitiveType_prim,
    if_true] at h
  split at h
  · next hsize =>
    cases h
    have hdecls : (ScriptType.prim type).decl ≠ "string[]" := by
      cases type <;> decide
    have hnum := toNat_ofLeBytes_slice o.memory (c.address i) (Nat.le_of_lt hsize)
    have hsize' : (UInt32.ofNat type.size).toNat = type.size :=
      UInt32.toNat_ofNat_of_lt' (Nat.lt_trans hsize (by decide))
    simp only [ScriptInstance.propertyBytes, ScriptInstance.valueBytes, htype, Option.map_some,
      Option.getD_some, List.map_cons, List.map_nil, List.sum_cons, List.sum_nil,
      ByteSizes.ofProperty, decl_prim_ne_string, hdecls, false_or, if_false, hnum, hsize',
      Nat.add_zero, Nat.add_assoc]
  · cases h

/-- What is written of an array of primitives. -/
theorem serializeProperty_bytes_array (htype : info.type = .array (.prim type))
    (h : serializeProperty E o i info = .ok ps) :
    (ps.map fun p => B.bytes (B.ofProperty p)).sum = o.propertyBytes B i info := by
  have hother : ∀ p, ScriptType.array (.prim type) ≠ .prim p := by simp
  have hdecls : (ScriptType.array (.prim type)).decl ≠ "string[]" := by
    cases type <;> decide
  simp only [serializeProperty, htype, isPrimitiveTypeId_other E hother,
    getSizeOfPrimitiveType_other E hother, Bool.false_eq_true, decl_array_ne_string, hdecls,
    if_false, isArrayDecl_array, bind, Except.bind, if_true, ScriptType.element,
    isPrimitiveTypeId_prim, if_pos (by decide : 0 < 8)] at h
  cases h
  have hzeros : ((o.arrays i).map fun bs => UInt64.ofNat (ofLeBytes (bs.take 0))) =
      List.replicate (o.arrays i).length 0 := by
    rw [← List.map_const']
    rfl
  simp only [ScriptInstance.propertyBytes, ScriptInstance.valueBytes, htype, Option.map_some,
    Option.getD_some, List.map_cons, List.map_nil, List.sum_cons, List.sum_nil,
    ByteSizes.ofProperty, decl_array_ne_string, hdecls, false_or, if_false, hzeros,
    List.map_replicate, List.sum_replicate_nat, Nat.add_zero, Nat.add_assoc]
  rfl

/-- What is written of a property is what there is to say of it. -/
theorem serializeProperty_bytes (h : serializeProperty E o i info = .ok ps) :
    (ps.map fun p => B.bytes (B.ofProperty p)).sum = o.propertyBytes B i info := by
  by_cases hprim : ∃ type, info.type = .prim type
  · obtain ⟨type, htype⟩ := hprim
    exact serializeProperty_bytes_prim htype h
  by_cases harray : ∃ type, info.type = .array (.prim type)
  · obtain ⟨type, htype⟩ := harray
    exact serializeProperty_bytes_array htype h
  rw [not_exists] at hprim harray
  simp only [serializeProperty, isPrimitiveTypeId_other E hprim, Bool.false_eq_true,
    if_false] at h
  rw [ScriptInstance.propertyBytes, valueBytes_of_other hprim harray]
  split at h
  · next hstring =>
    cases h
    simp [ByteSizes.ofProperty, hstring]
  split at h
  · next hstring hstrings =>
    cases h
    rw [if_neg hstring, if_pos hstrings]
    simp [ByteSizes.ofProperty, hstrings]
  · next hstring hstrings =>
    -- nothing is written of any other property
    obtain ⟨isArray, -, h⟩ := bind_eq_ok.1 h
    rw [if_neg hstring, if_neg hstrings]
    split at h
    · obtain ⟨element, helement, h⟩ := bind_eq_ok.1 h
      split at h
      · next hprimitive =>
        obtain ⟨type, rfl⟩ := (isPrimitiveTypeId_iff E).1 hprimitive
        refine absurd ?_ (harray type)
        unfold ScriptType.element at helement
        split at helement
        · next htype =>
          cases helement
          exact htype
        · cases helement
      · cases h
        rfl
    · cases h
      rfl

/-- What is written of an object is what there is to say of its listed properties. -/
theorem serializeProperties_bytes {properties : List String} {l : List (PropertyInfo × Nat)}
    (h : serializeProperties E o properties l = .ok ps) :
    (ps.map fun p => B.bytes (B.ofProperty p)).sum =
      ((l.filter (·.1.name ∈ properties)).map fun x => o.propertyBytes B x.2 x.1).sum := by
  induction l generalizing ps with
  | nil =>
    cases h
    rfl
  | cons x l ih =>
    obtain ⟨info, i⟩ := x
    rw [serializeProperties] at h
    split at h
    · next hlisted =>
      obtain ⟨first, hfirst, h⟩ := bind_eq_ok.1 h
      obtain ⟨rest, hrest, h⟩ := bind_eq_ok.1 h
      cases h
      rw [List.map_append, List.sum_append, serializeProperty_bytes hfirst, ih hrest,
        List.filter_cons_of_pos (by simpa using hlisted), List.map_cons, List.sum_cons]
    · next hlisted => rw [ih h, List.filter_cons_of_neg (by simpa using hlisted)]

end

namespace ObjectManager

variable {M : CampaignModule} {B : ByteSizes} {m : ObjectManager M.Object} {full : Bool}
  {obj : Ptr} {object : ProtoGameObject}

theorem serializeAt_spec (hadds : B.AddsUp) (h : m.serializeAt M.host full obj = .ok object) :
    m.Writes M.host obj ∧ B.bytes (B.gameObject object) = m.bytesAt B full obj := by
  unfold serializeAt at h
  split at h
  · cases h
  next o ho =>
  unfold GameObject.serialize at h
  split at h
  · cases h
  next c hc =>
  obtain ⟨ps, hps, heq⟩ := bind_eq_ok.1 h
  cases heq
  refine ⟨⟨o, c, ps, ho, hc, hps⟩, ?_⟩
  have hscript : o.scriptInfo.scriptBytes B c.script.value =
      B.scriptObject { objectType := o.scriptInfo.typeName, properties := ps } := by
    rw [ScriptObjectInfo.scriptBytes, ← serializeProperties_bytes hps, hadds.scriptObject]
    simp only [ByteSizes.ofScriptObject, hadds.property]
  have hposition := c.positionMatrix.size_eq
  have hne : c.positionMatrix.floats.isEmpty = false := by
    rw [List.isEmpty_eq_false_iff]
    rintro hnil
    rw [hnil] at hposition
    cases hposition
  simp only [bytesAt, ho, GameObject.bytes, hc, hscript, hadds.gameObject,
    ByteSizes.ofGameObject, hposition, hne]
  cases full <;> rfl

/-- The objects at a list of addresses. -/
theorem mapM_serializeAt_bytes {objs : List Ptr} {objects : List ProtoGameObject}
    (hadds : B.AddsUp) (h : objs.mapM (m.serializeAt M.host full) = .ok objects) :
    (∀ obj ∈ objs, m.Writes M.host obj) ∧ (objects.map fun o => B.bytes (B.gameObject o)).sum =
        (objs.map (m.bytesAt B full)).sum := by
  rw [mapM_eq_ok] at h
  induction h with
  | nil => exact ⟨nofun, rfl⟩
  | cons hobject _ ih =>
    obtain ⟨hwrites, hbytes⟩ := serializeAt_spec hadds hobject
    exact ⟨List.forall_mem_cons.2 ⟨hwrites, ih.1⟩, by simp [hbytes, ih.2]⟩

/-- The message of `handle_joinAcknowledge`. -/
theorem serializeFull_bytes {objects : List ProtoGameObject} (hadds : B.AddsUp)
    (h : m.serializeFull M.host = .ok objects) :
    (∀ it ∈ m.objects.byId.entries, m.Writes M.host it.2) ∧
      B.worldStateUpdate { updatedObjects := objects } = m.worldBytes B := by
  have hmap : (m.objects.byId.entries.map (·.2)).mapM (m.serializeAt M.host true) =
      .ok objects := by
    rwa [List.mapM_map]
  obtain ⟨hwrites, hbytes⟩ := mapM_serializeAt_bytes hadds hmap
  refine ⟨fun it hit => hwrites it.2 (List.mem_map_of_mem hit), ?_⟩
  rw [hadds.worldStateUpdate, ByteSizes.ofWorldStateUpdate, hadds.gameObjectSet,
    ByteSizes.ofGameObjectSet, worldBytes, hbytes, List.map_map]
  rfl

theorem exists_serializeFull (h : ∀ it ∈ m.objects.byId.entries, m.Writes M.host it.2) :
    ∃ objects, m.serializeFull M.host = .ok objects := by
  obtain ⟨objects, hobjects⟩ := exists_mapM_serializeAt true
    (List.forall_mem_map.2 h : ∀ obj ∈ m.objects.byId.entries.map (·.2), m.Writes M.host obj)
  rw [List.mapM_map] at hobjects
  exact ⟨objects, hobjects⟩

/-- The message of `sync`. -/
theorem worldStateUpdate_bytes {update : WorldStateUpdate} (hadds : B.AddsUp)
    (h : m.worldStateUpdate M.host = .ok update) :
    (∀ obj, obj ∈ m.newObjects.keys ∨ obj ∈ m.alteredOnly → m.Writes M.host obj) ∧
      B.worldStateUpdate update = m.changedBytes B := by
  obtain ⟨objects, hobjects, heq⟩ := bind_eq_ok.1 h
  cases heq
  obtain ⟨new, hnew, hobjects⟩ := bind_eq_ok.1 hobjects
  obtain ⟨altered, haltered, heq⟩ := bind_eq_ok.1 hobjects
  cases heq
  obtain ⟨hwrites, hbytes⟩ := mapM_serializeAt_bytes hadds hnew
  obtain ⟨hwrites', hbytes'⟩ := mapM_serializeAt_bytes hadds haltered
  refine ⟨fun obj => Or.rec (hwrites obj) (hwrites' obj), ?_⟩
  rw [hadds.worldStateUpdate, ByteSizes.ofWorldStateUpdate, hadds.gameObjectSet,
    ByteSizes.ofGameObjectSet, changedBytes, List.map_append, List.sum_append, hbytes, hbytes']

theorem exists_worldStateUpdate
    (h : ∀ obj, obj ∈ m.newObjects.keys ∨ obj ∈ m.alteredOnly → m.Writes M.host obj) :
    ∃ update, m.worldStateUpdate M.host = .ok update := by
  obtain ⟨objects, hobjects⟩ := exists_serializeChanges h
  exact ⟨_, bind_eq_ok.2 ⟨objects, hobjects, rfl⟩⟩

/-- Every name in the world is in the message. -/
theorem exists_name_of_serializeFull {id : ObjectId} {o : GameObject M.Object}
    {objects : List ProtoGameObject} (hlookup : m.objects.lookup id = some o)
    (h : m.serializeFull M.host = .ok objects) : ∃ object ∈ objects, object.name = some o.name := by
  obtain ⟨p, hp, ho, -, halive⟩ := ObjectStore.lookup_eq_some hlookup
  obtain ⟨object, hmem, hobject⟩ :=
    exists_left_of_forall₂ (mapM_eq_ok.1 h).flip (OrdMap.mem_entries.2 hp)
  refine ⟨object, hmem, ?_⟩
  obtain ⟨c, hc⟩ := Option.isSome_iff_exists.1 halive
  simp only [serializeAt, ho, GameObject.serialize, hc] at hobject
  obtain ⟨ps, -, heq⟩ := bind_eq_ok.1 hobject
  cases heq
  rfl

end ObjectManager

namespace ByteSizes

variable {B : ByteSizes}

/-- A name makes the message at least as large as it is. -/
theorem HoldsFields.name_le (hfields : B.HoldsFields) {msg : Message WorldStateUpdate}
    {update : WorldStateUpdate} {object : ProtoGameObject} {name : String}
    (hbody : msg.body = some update) (hobject : object ∈ update.updatedObjects)
    (hname : object.name = some name) : name.utf8ByteSize ≤ B.message msg := by
  have hset : B.bytes (B.gameObject object) ≤ B.ofGameObjectSet update.updatedObjects :=
    List.le_sum_of_mem (List.mem_map_of_mem (f := fun o => B.bytes (B.gameObject o)) hobject)
  calc name.utf8ByteSize
    _ ≤ B.bytes name.utf8ByteSize := hfields.le_bytes _
    _ ≤ B.ofGameObject object := by
        simp only [ofGameObject, hname, Option.map_some, Option.getD_some]
        omega
    _ ≤ B.gameObject object := hfields.gameObject object
    _ ≤ B.bytes (B.gameObject object) := hfields.le_bytes _
    _ ≤ B.gameObjectSet update.updatedObjects := Nat.le_trans hset (hfields.gameObjectSet _)
    _ ≤ B.bytes (B.gameObjectSet update.updatedObjects) := hfields.le_bytes _
    _ ≤ B.ofWorldStateUpdate update := Nat.le_add_right _ _
    _ ≤ B.worldStateUpdate update := hfields.worldStateUpdate update
    _ ≤ B.bytes (B.worldStateUpdate update) := hfields.le_bytes _
    _ ≤ B.ofMessage msg := by
        simp only [ofMessage, hbody, Option.map_some, Option.getD_some]
        omega
    _ ≤ B.message msg := hfields.message msg

end ByteSizes

/-! ## Every moment of a run -/

namespace NetworkServer

variable {ε : Type} [LinearOrder ε] {P : Platform} {B : ByteSizes} {M : CampaignModule}
  {s s' : NetworkServer ε M.Object}

/-- What `sync` and `handle_joinAcknowledge` would send now passes the assertion of
`sendPackage`. -/
structure MessagesFit (B : ByteSizes) (s : NetworkServer ε M.Object) : Prop where
  sync : ∀ now closed s' sent, s.sync M.host now closed = .ok (s', sent) →
    ∀ p ∈ sent, B.message p.2 < maxPackageSize
  joinAcknowledge : ∀ clientId package s' sent,
    s.handleJoinAcknowledge M.host clientId package = .ok (s', sent) →
      ∀ p ∈ sent, B.message p.2 < maxPackageSize

/-- The changes leave room for the header of every active session, and the world for that of every
session that can be found under a client id, as far as they can be written at all. -/
structure WorldFits (B : ByteSizes) (s : NetworkServer ε M.Object) : Prop where
  changes : ∀ m, s.objectManager = some m →
    (∀ obj, obj ∈ m.newObjects.keys ∨ obj ∈ m.alteredOnly → m.Writes M.host obj) →
    ∀ e c, s.clients.find? e = some c → c.isActive = true →
      c.headerBytes B + B.bytes (m.changedBytes B) < maxPackageSize
  world : ∀ m, s.objectManager = some m → (∀ it ∈ m.objects.byId.entries, m.Writes M.host it.2) →
    ∀ clientId e c, s.findClient clientId = some (e, c) →
      c.headerBytes B + B.bytes (m.worldBytes B) < maxPackageSize

omit [LinearOrder ε] in
theorem message_sendPackage (hadds : B.AddsUp) (c : UdpConnection ε)
    (update : WorldStateUpdate) : B.message (c.sendPackage { body := some update }).2 =
      c.headerBytes B + B.bytes (B.worldStateUpdate update) := by
  have hmask : c.ackMask.toNat % 4294967296 = c.ackMask.toNat :=
    Nat.mod_eq_of_lt (Nat.lt_trans c.ackMask.isLt (by decide))
  simp [UdpConnection.sendPackage, hadds.message, ByteSizes.ofMessage, UdpConnection.headerBytes,
    hmask]

/-- An acknowledgement that accepts. -/
def acceptingPackage : RPCPackage :=
  { (RPCPackage.make rpcIdJoinServerAck) with
    data := ⟨1 :: List.replicate 511 0, by rw [List.length_cons, List.length_replicate]; rfl⟩ }

theorem popValue_acceptingPackage : ∃ p, acceptingPackage.popValue 1 = .ok (1, p) := by
  have hpop := RPCPackage.popValue_eq (p := acceptingPackage) (n := 1) (by decide)
  exact ⟨_, hpop⟩

/-- The packages of `sync`, of a server with sessions. -/
theorem sync_of {m : ObjectManager M.Object} {update : WorldStateUpdate}
    (hm : s.objectManager = some m) (hclients : s.clients.entries.isEmpty = false)
    (hupdate : m.worldStateUpdate M.host = .ok update) (now : Time) (closed : List ε) :
    ∃ s', s.sync M.host now closed = .ok (s', (s.clients.entries.filter fun kv => kv.2.isActive).map
      fun kv => (kv.1, (kv.2.sendPackage { body := some update }).2)) := by
  simp only [sync, hm, hclients, hupdate, Bool.false_eq_true, if_false, bind, Except.bind]
  exact ⟨_, rfl⟩

/-- What `sync` sends, if anything. -/
theorem sync_eq_ok {now : Time} {closed : List ε} {sent : Outgoing ε}
    (h : s.sync M.host now closed = .ok (s', sent)) {p : ε × Message WorldStateUpdate}
    (hp : p ∈ sent) : ∃ m update c, s.objectManager = some m ∧
      m.worldStateUpdate M.host = .ok update ∧ s.clients.find? p.1 = some c ∧ c.isActive = true ∧
      p.2 = (c.sendPackage { body := some update }).2 := by
  unfold sync at h
  split at h
  · cases h
  next m hm =>
  dsimp only at h
  split at h
  · cases h
    cases hp
  · obtain ⟨update, hupdate, heq⟩ := bind_eq_ok.1 h
    cases heq
    obtain ⟨kv, hkv, rfl⟩ := List.mem_map.1 hp
    obtain ⟨hmem, hact⟩ := List.mem_filter.1 hkv
    exact ⟨m, update, kv.2, hm, hupdate, OrdMap.mem_entries.1 hmem, hact, rfl⟩

/-- What `handle_joinAcknowledge` sends, if anything. -/
theorem handleJoinAcknowledge_eq_ok {clientId : UInt16} {package : RPCPackage} {sent : Outgoing ε}
    (h : s.handleJoinAcknowledge M.host clientId package = .ok (s', sent))
    {p : ε × Message WorldStateUpdate} (hp : p ∈ sent) : ∃ m objects e c,
      s.objectManager = some m ∧ m.serializeFull M.host = .ok objects ∧
      s.findClient clientId = some (e, c) ∧
      p.2 = (c.sendPackage { body := some { updatedObjects := objects } }).2 := by
  obtain ⟨⟨accepted, _⟩, -, h⟩ := bind_eq_ok.1 h
  dsimp only at h
  split at h
  · cases h
  next e c hfound =>
  split at h
  · split at h
    · cases h
    next m hm =>
    obtain ⟨objects, hobjects, heq⟩ := bind_eq_ok.1 h
    cases heq
    obtain rfl := List.mem_singleton.1 hp
    exact ⟨m, objects, e, c, hm, hobjects, hfound, rfl⟩
  · cases h
    cases hp

/-- The packages of `handle_joinAcknowledge`, of a client that can be found. -/
theorem handleJoinAcknowledge_accepting {m : ObjectManager M.Object}
    {objects : List ProtoGameObject} {clientId : UInt16} {e : ε} {c : ClientSession ε}
    (hm : s.objectManager = some m) (hobjects : m.serializeFull M.host = .ok objects)
    (hfound : s.findClient clientId = some (e, c)) :
    ∃ s', s.handleJoinAcknowledge M.host clientId acceptingPackage = .ok (s',
      [(e, (c.sendPackage { body := some { updatedObjects := objects } }).2)]) := by
  obtain ⟨p, hpop⟩ := popValue_acceptingPackage
  simp only [handleJoinAcknowledge, hpop, hfound, hm, hobjects, bind, Except.bind]
  exact ⟨_, rfl⟩

theorem MessagesFit.worldFits (hadds : B.AddsUp) (h : MessagesFit B s) : WorldFits B s where
  changes m hm hwrites e c hc hact := by
    obtain ⟨update, hupdate⟩ := ObjectManager.exists_worldStateUpdate hwrites
    have hmem := OrdMap.mem_entries.2 hc
    have hclients : s.clients.entries.isEmpty = false :=
      List.isEmpty_eq_false_iff.2 (List.ne_nil_of_mem hmem)
    obtain ⟨s', hsync⟩ := sync_of hm hclients hupdate 0 []
    have hfits := h.sync 0 [] s' _ hsync (e, (c.sendPackage { body := some update }).2)
      (List.mem_map.2 ⟨(e, c), List.mem_filter.2 ⟨hmem, hact⟩, rfl⟩)
    rwa [message_sendPackage hadds, (ObjectManager.worldStateUpdate_bytes hadds hupdate).2] at hfits
  world m hm hwrites clientId e c hfound := by
    obtain ⟨objects, hobjects⟩ := ObjectManager.exists_serializeFull hwrites
    obtain ⟨s', hsend⟩ := handleJoinAcknowledge_accepting hm hobjects hfound
    have hfits := h.joinAcknowledge clientId acceptingPackage s' _ hsend _ List.mem_cons_self
    rwa [message_sendPackage hadds, (ObjectManager.serializeFull_bytes hadds hobjects).2] at hfits

theorem WorldFits.messagesFit (hadds : B.AddsUp) (h : WorldFits B s) : MessagesFit B s where
  sync now closed s' sent hsync p hp := by
    obtain ⟨m, update, c, hm, hupdate, hc, hact, heq⟩ := sync_eq_ok hsync hp
    obtain ⟨hwrites, hbytes⟩ := ObjectManager.worldStateUpdate_bytes hadds hupdate
    rw [heq, message_sendPackage hadds, hbytes]
    exact h.changes m hm hwrites p.1 c hc hact
  joinAcknowledge clientId package s' sent hhandle p hp := by
    obtain ⟨m, objects, e, c, hm, hobjects, hfound, heq⟩ := handleJoinAcknowledge_eq_ok hhandle hp
    obtain ⟨hwrites, hbytes⟩ := ObjectManager.serializeFull_bytes hadds hobjects
    rw [heq, message_sendPackage hadds, hbytes]
    exact h.world m hm hwrites clientId e c hfound

/-- **World state messages fit a package** at every moment of a run, if and only if at every moment
of it the names, the synced values and the numbers of all objects in the world, and those of the
changed ones, leave room for the header. -/
theorem alwaysFit_iff (hadds : B.AddsUp) (m : Option (ObjectManager M.Object))
    (is : List (Input ε M.Object)) :
    (∀ pre s, pre <+: is → run (step P M.host) (registerNetworkSystem m) pre = some s →
      MessagesFit B s) ↔
    ∀ pre s, pre <+: is → run (step P M.host) (registerNetworkSystem m) pre = some s →
      WorldFits B s := by
  refine ⟨fun h pre s hpre hrun => ?_, fun h pre s hpre hrun => ?_⟩
  · exact (h pre s hpre hrun).worldFits hadds
  · exact (h pre s hpre hrun).messagesFit hadds

theorem uintField_le {n : Nat} (h : n < 65536) : uintField n ≤ 4 := by
  have hlog : Nat.log 128 n ≤ 2 :=
    Nat.le_of_lt_succ (Nat.log_lt_of_lt_pow' (by decide) (Nat.lt_trans h (by decide)))
  rw [uintField, varintSize]
  omega

omit [LinearOrder ε] in
theorem headerBytes_wireFormat_le (c : UdpConnection ε) : c.headerBytes wireFormat ≤ 16 := by
  have hprotocol := uintField_le protocolId.toNat_lt
  have hseqId := uintField_le c.seqId.toNat_lt
  have hremote := uintField_le c.remoteSeqId.toNat_lt
  have hmask := uintField_le c.ackMask.isLt
  change uintField _ + uintField _ + uintField _ + uintField _ ≤ 16
  omega

/-- Without objects there is little to say. -/
theorem worldFits_emptyWorld {s : NetworkServer ε testModule.Object}
    (h : s.objectManager = some ObjectManager.emptyWorld) :
    WorldFits wireFormat s where
  changes m hm _ e c _ _ := by
    cases h.symm.trans hm
    exact Nat.lt_of_le_of_lt (Nat.add_le_add_right (headerBytes_wireFormat_le c.toUdpConnection) _)
      (by decide)
  world m hm _ clientId e c _ := by
    cases h.symm.trans hm
    exact Nat.lt_of_le_of_lt (Nat.add_le_add_right (headerBytes_wireFormat_le c.toUdpConnection) _)
      (by decide)

/-- A client that asks to join a server without objects. -/
theorem messagesFit_joinServerReq : ∃ s,
    run (step .x86 testModule.host) (registerNetworkSystem (some ObjectManager.emptyWorld))
        [(joinServerReq 0 : Input Nat testModule.Object)] = some s ∧
      MessagesFit wireFormat s := by
  refine ⟨_, rfl, (alwaysFit_iff addsUp_wireFormat (some ObjectManager.emptyWorld)
    [joinServerReq 0]).2 (fun pre s hpre hrun => worldFits_emptyWorld ?_) _ _ List.prefix_rfl rfl⟩
  obtain rfl | ⟨rest, rfl, hrest⟩ := List.prefix_cons_iff.1 hpre
  · cases hrun
    rfl
  · obtain rfl := List.prefix_nil.1 hrest
    cases hrun
    rfl

/-- A name of so many bytes, as a power of two. -/
def longName : Nat → String
  | 0 => "x"
  | n + 1 => longName n ++ longName n

theorem utf8ByteSize_longName (n : Nat) : (longName n).utf8ByteSize = 2 ^ n := by
  induction n with
  | zero => rfl
  | succ n ih => rw [longName, String.utf8ByteSize_append, ih, Nat.pow_succ, Nat.mul_two]

/-- A client that asks to join, and a character with a long name. -/
def longNameRun : List (Input Nat testModule.Object) :=
  [joinServerReq 0, .world (.createObject 1 ⟨List.replicate 16 0, Matrix4.length_zeros⟩ "Character"
    (longName 15))]

theorem run_longNameRun : ∃ s m o c, run (step .x86 testModule.host)
      (registerNetworkSystem (some ObjectManager.emptyWorld)) longNameRun = some s ∧
    s.objectManager = some m ∧ m.objects.lookup 0 = some o ∧ o.name = longName 15 ∧
    s.findClient 0 = some (0, c) ∧
    ∀ it ∈ m.objects.byId.entries, m.Writes testModule.host it.2 := by
  refine ⟨_, _, _, _, rfl, rfl, rfl, rfl, rfl, fun it hit => ?_⟩
  obtain rfl := List.mem_singleton.1 hit
  exact ⟨_, _, _, rfl, rfl, rfl⟩

/-- The acknowledgement of the client would be answered with the name, whatever else there is to a
message. -/
theorem not_alwaysFit_longName :
    ¬ ∃ B : ByteSizes, B.HoldsFields ∧ ∀ pre s, pre <+: longNameRun →
      run (step .x86 testModule.host) (registerNetworkSystem (some ObjectManager.emptyWorld)) pre =
        some s → MessagesFit B s := by
  rintro ⟨B, hfields, h⟩
  obtain ⟨s, m, o, c, hrun, hm, ho, hname, hfound, hwrites⟩ := run_longNameRun
  obtain ⟨objects, hobjects⟩ := ObjectManager.exists_serializeFull hwrites
  obtain ⟨s', hsend⟩ := handleJoinAcknowledge_accepting hm hobjects hfound
  have hfits := (h longNameRun s List.prefix_rfl hrun).joinAcknowledge 0 acceptingPackage s' _ hsend
    _ List.mem_cons_self
  obtain ⟨object, hobject, hobjectName⟩ := ObjectManager.exists_name_of_serializeFull ho hobjects
  have hbody : (c.sendPackage { body := some { updatedObjects := objects } }).2.body =
      some ({ updatedObjects := objects } : WorldStateUpdate) := rfl
  have hlarge := hfields.name_le hbody hobject hobjectName
  rw [hname, utf8ByteSize_longName] at hlarge
  exact absurd (Nat.lt_of_le_of_lt hlarge hfits) (by decide)

end NetworkServer

end NetSiege
