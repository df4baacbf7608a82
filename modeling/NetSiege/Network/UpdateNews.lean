import NetSiege.Network.WorldState
import NetSiege.Oms.HostileUpdates
import NetSiege.Script.StoredValues

/-!
# Updates without news (`objectmanager.cpp`, `gameobject.cpp`)

A description tells a world nothing new if the object is there and has the position, the visibility
and the property values of the message; a removal, if the id is not in use. `nothingNew_iff` says
that these are the updates which create, change and remove no object.
-/

namespace NetSiege

open Lib

namespace ObjectManager

/-- Two worlds have the same objects. -/
def SameObjects (m m' : ObjectManager σ) : Prop := ∀ id, m'.objects.lookup id = m.objects.lookup id

/-- None of the descriptions creates or changes an object: after any number of them the world has
the objects it had, and the counter of ids stands where it stood. -/
def Unchanging (H : ScriptHost σ V) (alloc : Allocator σ) (m : ObjectManager σ)
    (objectSet : List ProtoGameObject) : Prop :=
  ∀ n, ∃ m', (objectSet.take n).foldlM (deserializeOne H alloc) m = .ok m' ∧ SameObjects m m' ∧
    m'.nextId = m.nextId

variable {M : CampaignModule} {m m' : ObjectManager M.Object} {alloc : Allocator M.Object}
  {object : ProtoGameObject} {update : WorldStateUpdate}

/-- The contents of an object are those of the message. -/
structure Shows (c : Contents M.Object) (object : ProtoGameObject) : Prop where
  position : object.position.take 16 = c.positionMatrix.floats
  isVisible : object.isVisible.getD false = c.isVisible
  properties : c.script.value.Has object.data.properties

/-- The object of the message is in the world, with the contents of the message. -/
def Knows (m : ObjectManager M.Object) (object : ProtoGameObject) : Prop :=
  ∃ o c, m.objects.lookup object.id = some o ∧ o.contents = some c ∧ Shows c object

/-- The update describes objects the world has already, and removes none. -/
structure NothingNew (m : ObjectManager M.Object) (update : WorldStateUpdate) : Prop where
  known : ∀ object ∈ update.updatedObjects, m.Knows object
  gone : ∀ id ∈ update.removedIds, m.objects.lookup id = none

/-! ## One description -/

theorem host_deserialize_self_iff {script : M.Object} {ps : List Property} :
    (∃ done, M.host.deserialize ps script = .ok (done, script)) ↔ script.value.Has ps := by
  rw [← deserializeObject_self_iff (E := M.typeIds)]
  obtain ⟨className, o⟩ := script
  dsimp only [CampaignModule.host]
  cases deserializeObject M.typeIds ps o with
  | error e => simp [Except.map]
  | ok r => simp [Except.map, Prod.ext_iff]

theorem contents_deserialize_self_iff {c : Contents M.Object} :
    GameObject.deserialize M.host c.script object = .ok c ↔ Shows c object := by
  constructor
  · intro h
    unfold GameObject.deserialize at h
    split at h
    · obtain ⟨⟨done, script⟩, hread, hc⟩ := bind_eq_ok.1 h
      have hc := Except.ok.inj hc
      obtain rfl : script = c.script := congrArg Contents.script hc
      exact ⟨congrArg (·.positionMatrix.floats) hc, congrArg Contents.isVisible hc,
        host_deserialize_self_iff.1 ⟨done, hread⟩⟩
    · cases h
  · intro h
    have hlen : 16 ≤ object.position.length := by
      have htake := congrArg List.length h.position
      rw [c.positionMatrix.size_eq, List.length_take] at htake
      omega
    obtain ⟨done, hread⟩ := host_deserialize_self_iff.2 h.properties
    rw [GameObject.deserialize, dif_pos hlen]
    refine bind_eq_ok.2 ⟨_, hread, congrArg Except.ok ?_⟩
    cases c
    simp only [h.position, h.isVisible]

/-- Every creation moves the counter. -/
theorem ne_add_one (id : ObjectId) : id ≠ id + 1 := by
  intro h
  have hval := congrArg Fin.val h
  rw [Fin.val_add] at hval
  have hone : (1 : ObjectId).val = 1 := rfl
  have hlt := id.isLt
  omega

/-- A description leaves the objects and the counter as they are if and only if it is known. -/
theorem deserializeOne_same_iff (alloc : Allocator M.Object) :
    (∃ m', deserializeOne M.host alloc m object = .ok m' ∧ SameObjects m m' ∧
      m'.nextId = m.nextId) ↔ m.Knows object := by
  constructor
  · rintro ⟨m', h, hsame, hnextId⟩
    unfold deserializeOne at h
    split at h
    · next hnone =>
      obtain ⟨⟨o, m1⟩, hcreate, hread⟩ := bind_eq_ok.1 h
      obtain ⟨-, -, -, hnext⟩ := readContents_fits hread
      rw [hnextId, (createObject_eq_ok hcreate).nextId, nextId_touchType] at hnext
      exact absurd hnext (ne_add_one m.nextId)
    · obtain ⟨o, c, c', ho, hc, hread, rfl⟩ := readContents_eq_ok h
      have hcontents := hsame object.id
      rw [ObjectStore.lookup_setContents, if_pos rfl, ho, Option.map_some] at hcontents
      obtain rfl : c' = c := by
        have heq := congrArg GameObject.contents (Option.some.inj hcontents)
        exact Option.some.inj (heq.trans hc)
      exact ⟨o, c', ho, hc, contents_deserialize_self_iff.1 hread⟩
  · rintro ⟨o, c, ho, hc, hshows⟩
    obtain ⟨p, hp, -⟩ := ObjectStore.lookup_eq_some ho
    refine ⟨{ m with objects := m.objects.setContents object.id c }, ?_, fun id => ?_, rfl⟩
    · simp only [deserializeOne, hp]
      exact readContents_of ho hc (contents_deserialize_self_iff.2 hshows)
    · rw [ObjectStore.lookup_setContents]
      split
      · next heq => rw [heq, ho, Option.map_some, ← hc]
      · rfl

/-! ## A whole update -/

theorem Knows.of_same (hsame : SameObjects m m') (h : m.Knows object) : m'.Knows object := by
  obtain ⟨o, c, ho, hc, hshows⟩ := h
  exact ⟨o, c, (hsame object.id).trans ho, hc, hshows⟩

theorem SameObjects.symm (h : SameObjects m m') : SameObjects m' m := fun id => (h id).symm

theorem SameObjects.trans {m'' : ObjectManager M.Object} (h : SameObjects m m')
    (h' : SameObjects m' m'') : SameObjects m m'' := fun id => (h' id).trans (h id)

theorem exists_foldlM_of_known (alloc : Allocator M.Object) {objectSet : List ProtoGameObject}
    (h : ∀ object ∈ objectSet, m.Knows object) :
    ∃ m', objectSet.foldlM (deserializeOne M.host alloc) m = .ok m' ∧ SameObjects m m' ∧
      m'.nextId = m.nextId := by
  refine exists_foldlM_eq_ok (fun object hobject m1 ⟨hsame1, hnextId1⟩ => ?_) ⟨fun _ => rfl, rfl⟩
  obtain ⟨m2, hone, hsame2, hnextId2⟩ :=
    (deserializeOne_same_iff alloc).2 ((h object hobject).of_same hsame1)
  exact ⟨m2, hone, hsame1.trans hsame2, hnextId2.trans hnextId1⟩

/-- Descriptions are unchanging if and only if they are all known. -/
theorem unchanging_iff {objectSet : List ProtoGameObject} :
    m.Unchanging M.host alloc objectSet ↔ ∀ object ∈ objectSet, m.Knows object := by
  constructor
  · intro h object hobject
    -- the turn of this description is between two prefixes, and both leave the world as it is
    obtain ⟨n, hn⟩ := List.mem_iff_getElem?.1 hobject
    obtain ⟨m1, h1, hsame1, hnextId1⟩ := h n
    obtain ⟨m2, h2, hsame2, hnextId2⟩ := h (n + 1)
    rw [List.take_add_one, hn, Option.toList_some] at h2
    obtain ⟨m1', h1', hone⟩ := foldlM_append_eq_ok.1 h2
    cases h1.symm.trans h1'
    obtain ⟨m2', hone, hm2⟩ := foldlM_cons_eq_ok.1 hone
    cases hm2
    refine Knows.of_same hsame1.symm ((deserializeOne_same_iff alloc).1 ?_)
    exact ⟨m2, hone, hsame1.symm.trans hsame2, hnextId2.trans hnextId1.symm⟩
  · intro h n
    exact exists_foldlM_of_known alloc fun object hobject => h object (List.mem_of_mem_take hobject)

/-- **Updates without news.** An update creates, changes and removes no object if and only if it
tells the world nothing new. -/
theorem nothingNew_iff (alloc : Allocator M.Object) :
    (m.Unchanging M.host alloc update.updatedObjects ∧
      ∃ m', m.applyUpdate M.host alloc update = .ok m' ∧ SameObjects m m') ↔
    m.NothingNew update := by
  rw [unchanging_iff]
  constructor
  · rintro ⟨hknown, m', happly, hsame⟩
    refine ⟨hknown, fun id hid => ?_⟩
    obtain ⟨m1, -, rfl⟩ := applyUpdate_eq_ok.1 happly
    rw [← hsame id]
    exact (lookup_foldl_removeObject (m := m1.flushUpdateCache) _ id).trans (if_pos hid)
  · rintro ⟨hknown, hgone⟩
    refine ⟨hknown, ?_⟩
    obtain ⟨m1, hm1, hsame, -⟩ := exists_foldlM_of_known alloc hknown
    refine ⟨_, applyUpdate_eq_ok.2 ⟨m1, hm1, rfl⟩, fun id => ?_⟩
    refine (lookup_foldl_removeObject (m := m1.flushUpdateCache) _ id).trans ?_
    split
    · next hid => exact (hgone id hid).symm
    · exact hsame id

end ObjectManager

end NetSiege
