import NetSiege.Oms.GameObject

/-!
# Scripts of a module

The script host that a module of script classes and the serializer make. Its properties survive the
way from object to object wherever the serializer's do (`CampaignModule.roundTrips_host`).
-/

namespace NetSiege

open Lib

/-- A script module: its classes, which of them it has, and what their code does. -/
structure CampaignModule where
  classes : String → ScriptClass
  declares : String → Bool
  factory : (className : String) → ScriptInstance (classes className)
  init : {className : String} → ScriptInstance (classes className) →
    ScriptInstance (classes className) := id
  hasCleanup : String → Bool := fun _ => false
  typeIds : TypeIds

namespace CampaignModule

/-- An object of a class of the module. -/
structure Object (M : CampaignModule) where
  className : String
  value : ScriptInstance (M.classes className)

variable {M : CampaignModule}

/-- `*objectId = newObject->id()`, for the property `m_objectId`. -/
def setObjectId (o : M.Object) (id : ObjectId) : M.Object :=
  let c := M.classes o.className
  match o.value.write (c.address (c.properties.findIdx (·.name = "m_objectId")))
      (leBytes 4 id.val) with
  | .error _ => o
  | .ok value => ⟨o.className, value⟩

/-- The values of the named properties. -/
def synced (o : M.Object) (properties : List String) (i : Nat) : Option PropertyValue :=
  match (M.classes o.className).properties[i]? with
  | none => none
  | some info => if info.name ∈ properties then o.value.value i else none

/-- The module as the host of the game objects' scripts. -/
def host (M : CampaignModule) : ScriptHost M.Object (Nat → Option PropertyValue) where
  classOf o := o.className
  factory className := if M.declares className then some ⟨className, M.factory className⟩ else none
  classOf_factory := by
    intro className o h
    split at h
    · cases h
      rfl
    · cases h
  badObjectId className := (M.classes className).properties.any fun info =>
    info.name = "m_objectId" ∧ info.type ≠ .prim .uint32
  setObjectId o id :=
    if (M.classes o.className).properties.any (·.name = "m_objectId") then setObjectId o id else o
  classOf_setObjectId o id := by
    split
    · simp only [setObjectId]
      split <;> rfl
    · rfl
  init o := ⟨o.className, M.init o.value⟩
  classOf_init _ := rfl
  hasCleanup := M.hasCleanup
  serialize o properties := serializeObject M.typeIds o.value properties
  deserialize ps o :=
    (deserializeObject M.typeIds ps o.value).map fun (done, value) => (done, ⟨o.className, value⟩)
  classOf_deserialize := by
    intro ps o b o' h
    cases hread : deserializeObject M.typeIds ps o.value with
    | error e =>
      rw [hread] at h
      cases h
    | ok r =>
      rw [hread] at h
      cases h
      rfl
  synced := synced

/-- The synced properties of a type are primitives of less than 64 bits, and strings. -/
def Synchronizable (M : CampaignModule) (info : ScriptObjectInfo) : Prop :=
  ∀ i property, (M.classes info.className).Listed info.syncProperties i property →
    property.type.Serializable ∧ property.type.Narrow ∧ ∀ element, property.type ≠ .array element

theorem synced_eq {className : String} {o o' : ScriptInstance (M.classes className)}
    {properties : List String} (h : ∀ i info, (M.classes className).Listed properties i info →
      o'.value i = o.value i) :
    synced ⟨className, o'⟩ properties = synced ⟨className, o⟩ properties := by
  funext i
  unfold synced
  cases hinfo : (M.classes className).properties[i]? with
  | none => rfl
  | some info =>
    dsimp only
    split
    · next hlisted => exact h i info ⟨hinfo, hlisted⟩
    · rfl

/-- **What the serializer carries.** Properties of the kinds the serializer is made for come from
one object to another of its class if and only if none of the named ones is a 64-bit primitive and
all named arrays are empty. -/
theorem carries_host_iff {className : String} {o o' : ScriptInstance (M.classes className)}
    {properties : List String} (hser : ∀ i property,
      (M.classes className).Listed properties i property → property.type.Serializable) :
    M.host.Carries properties ⟨className, o⟩ ⟨className, o'⟩ ↔
      ∀ i property, (M.classes className).Listed properties i property →
        property.type.Narrow ∧ ∀ element, property.type = .array element → o.arrays i = [] := by
  constructor
  · rintro ⟨ps, done, s'', hps, hread, hsynced⟩ i property hlisted
    have hnarrow : ∀ i property, (M.classes className).Listed properties i property →
        property.type.Serializable ∧ property.type.Narrow := fun i property hlisted =>
      ⟨hser i property hlisted, narrow_of_serializeObject hser hps hlisted⟩
    obtain ⟨ps', hps', hspec⟩ := serializeObject_spec (E := M.typeIds) (o := o) hnarrow
    obtain rfl : ps = ps' := Except.ok.inj (hps.symm.trans hps')
    obtain ⟨o'', hread', hvalues⟩ := hspec o'
    simp only [host, hread', Except.map, Except.ok.injEq, Prod.mk.injEq] at hread
    obtain ⟨-, rfl⟩ := hread
    have hvalue := congrFun hsynced i
    simp only [host, synced, hlisted.1, if_pos hlisted.2] at hvalue
    rw [hvalues i property hlisted.1, if_pos hlisted.2, ScriptInstance.value_eq hlisted.1,
      Option.some.injEq] at hvalue
    exact ⟨(hnarrow i property hlisted).2, ScriptInstance.transferred_eq_iff.1 hvalue⟩
  · intro h
    have hround : NetSiege.RoundTrips M.typeIds o o' properties := (roundTrips_iff hser).2 h
    obtain ⟨ps, o'', hps, hread, hvalues⟩ := hround
    refine ⟨ps, true, ⟨className, o''⟩, hps, by simp only [host, hread, Except.map], ?_⟩
    refine synced_eq fun i property hlisted => ?_
    rw [hvalues i property hlisted.1, if_pos hlisted.2]

/-- Types whose synced properties the serializer can carry. -/
theorem roundTrips_host {registeredTypes : OrdMap String ScriptObjectInfo}
    (h : ∀ {typeName info}, registeredTypes.find? typeName = some info → M.Synchronizable info) :
    M.host.RoundTrips registeredTypes := by
  rintro typeName info hinfo ⟨_, o⟩ ⟨_, o'⟩ rfl hclass
  cases hclass
  have hser : ∀ i property, (M.classes info.className).Listed info.syncProperties i property →
      property.type.Serializable ∧ property.type.Narrow := fun i property hlisted =>
    ⟨(h hinfo i property hlisted).1, (h hinfo i property hlisted).2.1⟩
  obtain ⟨ps, hps, hspec⟩ := serializeObject_spec (E := M.typeIds) (o := o) hser
  obtain ⟨o'', hread, hvalues⟩ := hspec o'
  refine ⟨ps, ⟨_, o''⟩, hps, by simp only [host, hread, Except.map], ?_⟩
  refine synced_eq fun i property hlisted => ?_
  rw [hvalues i property hlisted.1, if_pos hlisted.2, ScriptInstance.value_eq hlisted.1,
    ScriptInstance.transferred_eq_iff.2 fun element helement =>
      absurd helement ((h hinfo i property hlisted).2.2 element)]

end CampaignModule

/-! ## The test campaign -/

/-- The module of the test campaign. -/
def testModule : CampaignModule where
  classes _ := characterClass
  declares className := className = "Character"
  factory _ := character [] []
  hasCleanup _ := true
  typeIds := testTypeIds

/-- `Character`, with its number and its name synchronised. -/
def characterInfo : ScriptObjectInfo where
  typeName := "Character"
  className := "Character"
  syncProperties := ["bla", "foo"]

/-- The types the test campaign registers. -/
def testTypes : OrdMap String ScriptObjectInfo := (∅ : OrdMap _ _).insert "Character" characterInfo

theorem eq_characterInfo {typeName : String} {info : ScriptObjectInfo}
    (h : testTypes.find? typeName = some info) : typeName = "Character" ∧ info = characterInfo := by
  rw [testTypes, OrdMap.find?_insert] at h
  split at h
  · next heq => exact ⟨heq, (Option.some.inj h).symm⟩
  · cases h

theorem testTypes_roundTrips : testModule.host.RoundTrips testTypes := by
  refine CampaignModule.roundTrips_host fun {typeName info} h i property hlisted => ?_
  obtain ⟨_, rfl⟩ := eq_characterInfo h
  rcases listed_bla_foo hlisted with htype | htype <;> rw [htype]
  · exact ⟨trivial, by decide, nofun⟩
  · exact ⟨trivial, by decide, nofun⟩

/-- The character of the test campaign, at the origin. -/
def geyloard (id : ObjectId) : GameObject testModule.Object where
  id
  name := "geyloard"
  scriptInfo := characterInfo
  contents := some {
    positionMatrix := ⟨List.replicate 16 0, Matrix4.length_zeros⟩
    script := ⟨"Character", character [72, 105] []⟩ }

theorem alive_geyloard (id : ObjectId) : (geyloard id).contents.isSome := rfl

theorem typed_geyloard (id : ObjectId) : (geyloard id).Typed testModule.host testTypes where
  registered := OrdMap.find?_insert_self
  constructible := ⟨⟨⟨"Character", character [] []⟩, rfl⟩, rfl⟩
  script := ⟨_, rfl, rfl⟩

end NetSiege
