import NetSiege.Oms.CampaignModule
import NetSiege.Oms.ObjectManager
import NetSiege.Script.Decoding

/-!
# Updates from a stranger (`objectmanager.cpp`, `gameobject.cpp`)

Nothing checks a `GameObjectSet` before `ObjectManager::deserialize` follows it: the number of
positions is taken for granted, an unknown type is inserted under its name before it is looked up,
and a property is looked up without asking whether there is one. `survives_iff` says which sets of
messages do no harm; only the classes of the objects and the next free id matter, not what the
objects hold.
-/

namespace NetSiege

open Lib

namespace ObjectManager

section
variable {σ V : Type} {H : ScriptHost σ V} {m m' : ObjectManager σ} {id : ObjectId}

/-- The class of the script object under an id. -/
def classUnder (H : ScriptHost σ V) (m : ObjectManager σ) (id : ObjectId) : Option String :=
  ((m.objects.lookup id).bind (·.contents)).map (H.classOf ·.script)

theorem classUnder_eq_some {className : String} : m.classUnder H id = some className ↔
    ∃ o c, m.objects.lookup id = some o ∧ o.contents = some c ∧ H.classOf c.script = className := by
  rw [classUnder, Option.map_eq_some_iff]
  refine ⟨fun ⟨c, hc, hclass⟩ => ?_, fun ⟨o, c, ho, hco, hclass⟩ => ?_⟩
  · obtain ⟨o, ho, hco⟩ := Option.bind_eq_some_iff.1 hc
    exact ⟨o, c, ho, hco, hclass⟩
  · exact ⟨c, Option.bind_eq_some_iff.2 ⟨o, ho, hco⟩, hclass⟩

/-- New contents of the same class. -/
theorem classUnder_setContents {c c' : Contents σ} {o : GameObject σ}
    (ho : m.objects.lookup id = some o) (hc : o.contents = some c)
    (hclass : H.classOf c'.script = H.classOf c.script) :
    classUnder H { m with objects := m.objects.setContents id c' } = m.classUnder H := by
  funext id'
  simp only [classUnder, ObjectStore.lookup_setContents]
  split
  · next heq => simp [heq, ho, hc, hclass]
  · rfl

theorem Created.classUnder {cell : Cell m} {typeName name : String} {o : GameObject σ}
    (h : m.Created H cell typeName name o m') :
    m'.classUnder H = Function.update (m.classUnder H) m.nextId (some o.scriptInfo.className) := by
  funext id
  rw [ObjectManager.classUnder, h.lookup, Function.update_apply]
  split
  · obtain ⟨c, hc, hclass⟩ := h.script
    simp [hc, hclass]
  · rfl

end

/-! ## Messages that do no harm -/

variable {M : CampaignModule} {m m' : ObjectManager M.Object} {alloc : Allocator M.Object}
  {object : ProtoGameObject}

/-- The contents of the message can be read into an object of the class. -/
structure ContentsFit (M : CampaignModule) (className : String) (object : ProtoGameObject) :
    Prop where
  position : 16 ≤ object.position.length
  properties : (M.classes className).Reads object.data.properties

theorem host_deserialize_ok_iff {ps : List Property} {script : M.Object} :
    (∃ r, M.host.deserialize ps script = .ok r) ↔ (M.classes script.className).Reads ps := by
  rw [← deserializeObject_ok_iff (E := M.typeIds) script.value]
  dsimp only [CampaignModule.host]
  cases deserializeObject M.typeIds ps script.value with
  | error e => simp [Except.map]
  | ok r => simp [Except.map]

theorem deserialize_ok_iff {script : M.Object} :
    (∃ c, GameObject.deserialize M.host script object = .ok c) ↔
      ContentsFit M script.className object := by
  refine ⟨fun ⟨c, h⟩ => ?_, fun hfit => ?_⟩
  · rw [GameObject.deserialize] at h
    split at h
    · next hposition =>
      obtain ⟨r, hr, -⟩ := bind_eq_ok.1 h
      exact ⟨hposition, host_deserialize_ok_iff.1 ⟨r, hr⟩⟩
    · cases h
  · obtain ⟨⟨done, script'⟩, hr⟩ := host_deserialize_ok_iff.2 hfit.properties
    rw [GameObject.deserialize, dif_pos hfit.position]
    exact ⟨_, bind_eq_ok.2 ⟨_, hr, rfl⟩⟩

theorem classOf_deserialize {script : M.Object} {c : Contents M.Object}
    (h : GameObject.deserialize M.host script object = .ok c) :
    M.host.classOf c.script = M.host.classOf script := by
  rw [GameObject.deserialize] at h
  split at h
  · obtain ⟨⟨done, script'⟩, hr, h⟩ := bind_eq_ok.1 h
    cases h
    exact M.host.classOf_deserialize hr
  · cases h

theorem readContents_fits {id : ObjectId} (h : m.readContents M.host id object = .ok m') :
    (∃ className, m.classUnder M.host id = some className ∧ ContentsFit M className object) ∧
      m'.registeredTypes = m.registeredTypes ∧ m'.classUnder M.host = m.classUnder M.host ∧
      m'.nextId = m.nextId := by
  obtain ⟨o, c, c', ho, hc, hread, rfl⟩ := readContents_eq_ok h
  exact ⟨⟨c.script.className, classUnder_eq_some.2 ⟨o, c, ho, hc, rfl⟩,
    deserialize_ok_iff.1 ⟨c', hread⟩⟩, rfl,
    classUnder_setContents ho hc (classOf_deserialize hread), rfl⟩

end ObjectManager

/-! ## In the test campaign -/

end NetSiege
