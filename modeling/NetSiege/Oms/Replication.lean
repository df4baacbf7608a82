import Mathlib.Data.List.Induction
import Mathlib.Data.List.Perm.Subperm
import NetSiege.Oms.ObjectManager
import NetSiege.Oms.CampaignModule

/-!
# Replication of a world (`ObjectManager::serializeFull`, `ObjectManager::deserialize`)

A client that follows a description of the server's world updates the objects it knows and creates
the others. Created objects get the next ids of the client's own counter, not the ids of the
message, so the client's world is the server's only if the two agree (`fullReplication_iff`).
-/

namespace NetSiege

open Lib

variable {σ V : Type} {H : ScriptHost σ V}

/-- The id a number of steps after another. -/
def idAfter (id : ObjectId) (n : Nat) : ObjectId := id + Fin.ofNat _ n

theorem idAfter_succ (id : ObjectId) (n : Nat) : idAfter id (n + 1) = idAfter id n + 1 := by
  apply Fin.ext
  simp only [idAfter, Fin.val_add, Fin.val_ofNat, Fin.val_one']
  omega

@[simp] theorem idAfter_zero (id : ObjectId) : idAfter id 0 = id := by simp [idAfter]

/-- `n` successive ids. -/
def idsFrom (id : ObjectId) (n : Nat) : List ObjectId := (List.range n).map (idAfter id)

theorem idsFrom_succ (id : ObjectId) (n : Nat) :
    idsFrom id (n + 1) = idsFrom id n ++ [idAfter id n] := by
  simp [idsFrom, List.range_succ]

theorem idsFrom_succ' (id : ObjectId) (n : Nat) :
    idsFrom id (n + 1) = id :: idsFrom (id + 1) n := by
  simp only [idsFrom, List.range_succ_eq_map, List.map_cons, idAfter_zero, List.map_map]
  congr 2
  funext k
  apply Fin.ext
  simp only [Function.comp_apply, idAfter, Fin.val_add, Fin.val_ofNat, Fin.val_one']
  omega

/-- The ids that are not known. -/
def newIds (known ids : List ObjectId) : List ObjectId := ids.filter (· ∉ known)

section
variable {known ids : List ObjectId} {id : ObjectId}

@[simp] theorem newIds_nil : newIds [] ids = ids := by simp [newIds]

theorem newIds_cons_of_mem (h : id ∈ known) : newIds known (id :: ids) = newIds known ids :=
  List.filter_cons_of_neg (by simpa using h)

theorem newIds_cons_of_not_mem (h : id ∉ known) :
    newIds known (id :: ids) = id :: newIds known ids :=
  List.filter_cons_of_pos (by simpa using h)

theorem newIds_append (ids ids' : List ObjectId) :
    newIds known (ids ++ ids') = newIds known ids ++ newIds known ids' := List.filter_append ..

theorem newIds_singleton_of_mem (h : id ∈ known) : newIds known [id] = [] := newIds_cons_of_mem h

theorem newIds_singleton_of_not_mem (h : id ∉ known) : newIds known [id] = [id] :=
  newIds_cons_of_not_mem h

theorem newIds_self : newIds ids ids = [] := by simp [newIds]

theorem mem_newIds : id ∈ newIds known ids ↔ id ∈ ids ∧ id ∉ known := by simp [newIds]

end

/-! ## What a message tells -/

/-- `msg` is about `o`, in full or without its name. -/
structure Announces (full : Bool) (o : GameObject σ) (msg : ProtoGameObject) : Prop where
  id : msg.id = o.id
  name : msg.name = if full then some o.name else none
  objectType : msg.data.objectType = o.scriptInfo.typeName

/-- Read by this script object, the message makes an object of the kind of `o` show what `o`
shows. -/
def Reads (H : ScriptHost σ V) (o : GameObject σ) (msg : ProtoGameObject) (script : σ) : Prop :=
  ∃ c, GameObject.deserialize H script msg = .ok c ∧
    H.classOf c.script = o.scriptInfo.className ∧
    ({ o with contents := some c } : GameObject σ).view H = o.view H

/-- `msg` is a description of `o`: read by an object of the same kind, it makes that object show
what `o` shows. -/
structure Tells (H : ScriptHost σ V) (full : Bool) (o : GameObject σ) (msg : ProtoGameObject) :
    Prop extends Announces full o msg where
  read : ∀ script, H.classOf script = o.scriptInfo.className → Reads H o msg script

/-- What a message says of an object was written by its script object. -/
theorem GameObject.serialize_eq_ok {o : GameObject σ} {full : Bool} {msg : ProtoGameObject}
    (h : o.serialize H full = .ok msg) :
    ∃ c, o.contents = some c ∧
      H.serialize c.script o.scriptInfo.syncProperties = .ok msg.data.properties ∧
      msg.position = c.positionMatrix.floats ∧ msg.isVisible = some c.isVisible ∧
      Announces full o msg := by
  unfold GameObject.serialize at h
  split at h
  · cases h
  next c hc =>
  obtain ⟨ps, hps, heq⟩ := bind_eq_ok.1 h
  cases heq
  exact ⟨c, hc, hps, rfl, rfl, rfl, rfl, rfl⟩

/-- A message is read as it was written where the serializer carries the properties. -/
theorem reads_of_carries {o : GameObject σ} {full : Bool} {msg : ProtoGameObject} {c : Contents σ}
    {script : σ} (h : o.serialize H full = .ok msg) (hc : o.contents = some c)
    (hscript : H.classOf script = o.scriptInfo.className)
    (hcarries : H.Carries o.scriptInfo.syncProperties c.script script) : Reads H o msg script := by
  obtain ⟨c', hc', hps, hposition, hvisible, -⟩ := GameObject.serialize_eq_ok h
  obtain rfl : c = c' := Option.some.inj (hc.symm.trans hc')
  obtain ⟨ps, done, s', hps', hread, hsynced⟩ := hcarries
  obtain rfl : msg.data.properties = ps := Except.ok.inj (hps.symm.trans hps')
  have hlen : 16 ≤ msg.position.length := hposition ▸ c.positionMatrix.size_eq.ge
  refine ⟨_, by simp only [GameObject.deserialize, dif_pos hlen, hread, bind, Except.bind]; rfl,
    (H.classOf_deserialize hread).trans hscript, ?_⟩
  have htake : c.positionMatrix.floats.take 16 = c.positionMatrix.floats :=
    List.take_of_length_le (Nat.le_of_eq c.positionMatrix.size_eq)
  have hmatrix : (⟨msg.position.take 16, by simp [hposition, c.positionMatrix.size_eq]⟩ :
      Matrix4) = c.positionMatrix := by
    simp only [hposition, htake]
  simp only [GameObject.view, hc, Option.map_some, hsynced, hvisible, Option.getD_some, hmatrix]

theorem GameObject.Typed.serialize {registeredTypes : OrdMap String ScriptObjectInfo}
    {o : GameObject σ} (hrt : H.RoundTrips registeredTypes) (ho : o.Typed H registeredTypes)
    (full : Bool) :
    ∃ msg, o.serialize H full = .ok msg ∧ Tells H full o msg := by
  obtain ⟨c, hc, hclass⟩ := ho.script
  obtain ⟨ps, _, hps, _⟩ := hrt ho.registered c.script c.script hclass hclass
  have hmsg : ∃ msg, o.serialize H full = .ok msg :=
    ⟨_, by simp only [GameObject.serialize, hc, hps, bind, Except.bind]; rfl⟩
  obtain ⟨msg, hmsg⟩ := hmsg
  obtain ⟨-, -, -, -, -, hannounces⟩ := GameObject.serialize_eq_ok hmsg
  refine ⟨msg, hmsg, hannounces, fun script hscript => reads_of_carries hmsg hc hscript ?_⟩
  exact hrt.carries ho.registered hclass hscript

/-! ## What a client makes of it -/

namespace ObjectManager

variable {m m' : ObjectManager σ} {o o' : GameObject σ} {msg : ProtoGameObject}
  {alloc : Allocator σ} {id : ObjectId} {full : Bool}

/-- Types are registered under their names, and all objects are of registered types. -/
structure Typed (H : ScriptHost σ V) (m : ObjectManager σ) : Prop where
  types : ∀ {typeName info}, m.registeredTypes.find? typeName = some info →
    info.typeName = typeName
  objects : ∀ {id o}, m.objects.lookup id = some o → o.Typed H m.registeredTypes

theorem Created.typed {cell : Cell m} {typeName name : String}
    (h : m.Created H cell typeName name o m') (hm : m.Typed H) : m'.Typed H := by
  have htypes := h.registeredTypes
  refine ⟨htypes ▸ hm.types, fun {id o'} ho' => ?_⟩
  rw [htypes]
  rw [h.lookup] at ho'
  split at ho'
  · cases ho'
    exact ⟨(hm.types h.registered).symm ▸ h.registered, h.constructible, h.script⟩
  · exact hm.objects ho'

theorem Typed.setContents (hm : m.Typed H) (id : ObjectId) {c : Contents σ}
    (hclass : ∀ o, m.objects.lookup id = some o → H.classOf c.script = o.scriptInfo.className) :
    Typed H { m with objects := m.objects.setContents id c } := by
  refine ⟨hm.types, fun {id' o'} ho' => ?_⟩
  simp only [ObjectStore.lookup_setContents] at ho'
  split at ho'
  · obtain ⟨o, ho, rfl⟩ := Option.map_eq_some_iff.1 ho'
    have htyped := hm.objects ho
    exact ⟨htyped.registered, htyped.constructible, c, rfl, hclass o ho⟩
  · exact hm.objects ho'

/-- Under the id of `o` there is an object with its name and type. -/
def HasKind (m : ObjectManager σ) (o : GameObject σ) : Prop :=
  ∃ o', m.objects.lookup o.id = some o' ∧ o'.name = o.name ∧ o'.scriptInfo = o.scriptInfo

theorem hasKind_iff : m.HasKind o ↔ m.kind o.id = some (o.name, o.scriptInfo) := by
  simp only [HasKind, kind, Option.map_eq_some_iff, Prod.mk.injEq]

theorem HasKind.mem_ids (h : m.HasKind o) : o.id ∈ m.ids :=
  let ⟨o', ho', _⟩ := h
  ObjectManager.mem_ids.2 ⟨o', ho'⟩

/-- The script object that reads a message about `o`: that of the object under its id, or the one of
a new object. -/
def reader (H : ScriptHost σ V) (m : ObjectManager σ) (o : GameObject σ) : Option σ :=
  match m.objects.lookup o.id with
  | some o' => o'.contents.map (·.script)
  | none => (H.factory o.scriptInfo.className).map fun script => H.init (H.setObjectId script o.id)

theorem reader_of_lookup (h : m.objects.lookup o.id = some o') :
    m.reader H o = o'.contents.map (·.script) := by
  rw [reader, h]

theorem reader_of_not_mem (h : o.id ∉ m.ids) : m.reader H o =
    (H.factory o.scriptInfo.className).map fun script => H.init (H.setObjectId script o.id) := by
  have hnone : m.objects.lookup o.id = none := by
    rw [← Option.not_isSome_iff_eq_none, ObjectStore.lookup_isSome]
    exact h
  rw [reader, hnone]

theorem reader_of_hasKind (hm : m.Typed H) (hkind : m.HasKind o) :
    ∃ script, m.reader H o = some script ∧ H.classOf script = o.scriptInfo.className := by
  obtain ⟨o', ho', _, hinfo⟩ := hkind
  obtain ⟨c', hc', hclass'⟩ := (hm.objects ho').script
  exact ⟨c'.script, by rw [reader_of_lookup ho', hc', Option.map_some], by rw [hclass', hinfo]⟩

theorem reader_of_new (ho : H.Constructible o.scriptInfo.className) (hnew : o.id ∉ m.ids) :
    ∃ script, m.reader H o = some script ∧ H.classOf script = o.scriptInfo.className := by
  obtain ⟨⟨script, hscript⟩, -⟩ := ho
  refine ⟨_, by rw [reader_of_not_mem hnew, hscript, Option.map_some], ?_⟩
  rw [H.classOf_init, H.classOf_setObjectId, H.classOf_factory hscript]

/-- The script object that reads a message about `o` makes its object show what `o` shows. -/
def Hears (H : ScriptHost σ V) (m : ObjectManager σ) (o : GameObject σ) (msg : ProtoGameObject) :
    Prop :=
  ∃ script, m.reader H o = some script ∧ Reads H o msg script

/-- `m'` is `m`, except that under the id of `o` there is an object that shows what `o` shows. -/
structure Heard (H : ScriptHost σ V) (m : ObjectManager σ) (o : GameObject σ)
    (m' : ObjectManager σ) : Prop where
  typed : m'.Typed H
  registeredTypes : m'.registeredTypes = m.registeredTypes
  view : m'.view H o.id = o.view H
  lookup : ∀ id, id ≠ o.id → m'.objects.lookup id = m.objects.lookup id
  kind : m'.HasKind o
  kinds : ∀ o', m.HasKind o' → m'.HasKind o'

theorem Heard.view_other (h : Heard H m o m') (hid : id ≠ o.id) : m'.view H id = m.view H id := by
  rw [ObjectManager.view, h.lookup id hid, ObjectManager.view]

theorem Heard.hears_iff (h : Heard H m o m') (hid : o'.id ≠ o.id) :
    m'.Hears H o' msg ↔ m.Hears H o' msg := by
  rw [Hears, reader, h.lookup _ hid, Hears, reader]

/-- New contents for the object under the id of `o`. -/
theorem heard_setContents {c : Contents σ} (hm : m.Typed H) (hkind : m.HasKind o)
    (hclass : H.classOf c.script = o.scriptInfo.className)
    (hview : ({ o with contents := some c } : GameObject σ).view H = o.view H) :
    Heard H m o { m with objects := m.objects.setContents o.id c } := by
  obtain ⟨o', ho', hname, hinfo⟩ := hkind
  have hlookup : ∀ id, (m.objects.setContents o.id c).lookup id =
      if id = o.id then some { o' with contents := some c } else m.objects.lookup id := by
    intro id
    rw [ObjectStore.lookup_setContents, ho', Option.map_some]
  refine ⟨hm.setContents _ fun o1 h1 => ?_, rfl, ?_, fun id hid => ?_, ?_, fun o1 h1 => ?_⟩
  · rw [ho'] at h1
    cases h1
    rw [hclass, hinfo]
  · rw [ObjectManager.view, hlookup, if_pos rfl, ← hview, Option.bind_some, GameObject.view,
      GameObject.view, hname, hinfo]
  · rw [hlookup, if_neg hid]
  · exact ⟨{ o' with contents := some c }, by rw [hlookup, if_pos rfl], hname, hinfo⟩
  · obtain ⟨o2, h2, hname2, hinfo2⟩ := h1
    by_cases heq : o1.id = o.id
    · rw [heq, ho'] at h2
      cases h2
      exact ⟨{ o' with contents := some c }, by rw [hlookup, if_pos heq], hname2, hinfo2⟩
    · exact ⟨o2, by rw [hlookup, if_neg heq, h2], hname2, hinfo2⟩

/-- An object of the same kind is updated. -/
theorem heard_update (alloc : Allocator σ) (hm : m.Typed H) (hkind : m.HasKind o)
    (hmsg : Announces full o msg) (hhears : m.Hears H o msg) :
    ∃ m', deserializeOne H alloc m msg = .ok m' ∧ Heard H m o m' ∧ m'.nextId = m.nextId := by
  obtain ⟨o', ho', _, hinfo⟩ := id hkind
  obtain ⟨c', hc', -⟩ := (hm.objects ho').script
  obtain ⟨script, hscript, c, hread, hclass, hview⟩ := hhears
  obtain rfl : c'.script = script := by
    rw [reader_of_lookup ho', hc'] at hscript
    exact Option.some.inj hscript
  obtain ⟨p, hp, _⟩ := ObjectStore.lookup_eq_some ho'
  refine ⟨{ m with objects := m.objects.setContents o.id c }, ?_,
    heard_setContents hm hkind hclass hview, rfl⟩
  simp only [deserializeOne, hmsg.id, hp]
  exact readContents_of ho' hc' hread

/-- The object is created, when its id is the next one. -/
theorem heard_create (alloc : Allocator σ) (hm : m.Typed H) (ho : o.Typed H m.registeredTypes)
    (hnew : o.id ∉ m.ids) (hid : o.id = m.nextId) (hmsg : Announces true o msg)
    (hhears : m.Hears H o msg) :
    ∃ m', deserializeOne H alloc m msg = .ok m' ∧ Heard H m o m' ∧
      m'.nextId = m.nextId + 1 := by
  have htouch : m.touchType msg.data.objectType = m := by
    rw [touchType, hmsg.objectType, ho.registered]
  obtain ⟨⟨o1, m1⟩, hcreate⟩ :=
    createObject_of (H := H) (alloc m) ho.registered ho.constructible o.name msg.id
  have hcreated := createObject_eq_ok hcreate
  have hinfo : o1.scriptInfo = o.scriptInfo :=
    Option.some.inj (hcreated.registered.symm.trans ho.registered)
  have ho1 : o1.id = o.id := hcreated.id.trans hid.symm
  have hlookup : ∀ id, m1.objects.lookup id = if id = o.id then some o1 else m.objects.lookup id :=
    fun id => hid ▸ hcreated.lookup id
  obtain ⟨script, hscript, c, hread, hclass, hview⟩ := hhears
  obtain ⟨c1, hc1, hc1'⟩ := hcreated.constructed
  obtain rfl : c1.script = script := by
    rw [reader_of_not_mem hnew, ← hinfo, ← ho1, hc1'] at hscript
    exact Option.some.inj hscript
  have hkind1 : m1.HasKind o := ⟨o1, by rw [hlookup, if_pos rfl], hcreated.name, hinfo⟩
  have hheard := heard_setContents (hcreated.typed hm) hkind1 hclass hview
  refine ⟨{ m1 with objects := m1.objects.setContents o.id c }, ?_,
    ⟨hheard.typed, hcreated.registeredTypes, hheard.view, fun id hne => ?_, hheard.kind,
      fun o2 h2 => ?_⟩, hcreated.nextId⟩
  · have hnone := byId_eq_none_iff.2 hnew
    simp only [deserializeOne, hmsg.id, hnone, hmsg.name, if_true, Option.getD_some]
    rw [htouch, hmsg.objectType]
    rw [hmsg.id] at hcreate
    refine bind_eq_ok.2 ⟨(o1, m1), hcreate, ?_⟩
    rw [ho1]
    exact readContents_of (by rw [hlookup, if_pos rfl]) hc1 hread
  · rw [hheard.lookup id hne, hlookup, if_neg hne]
  · refine hheard.kinds o2 ?_
    have hne : o2.id ≠ o.id := fun heq => hnew (heq ▸ h2.mem_ids)
    obtain ⟨o3, h3, hrest⟩ := h2
    exact ⟨o3, by rw [hlookup, if_neg hne, h3], hrest⟩

/-! ## A whole message -/

/-- `m'` is `m`, except that under the ids of `os` there are objects that show what `os` show. -/
structure HeardAll (H : ScriptHost σ V) (m : ObjectManager σ) (os : List (GameObject σ))
    (m' : ObjectManager σ) : Prop where
  typed : m'.Typed H
  registeredTypes : m'.registeredTypes = m.registeredTypes
  view_mem : ∀ o ∈ os, m'.view H o.id = o.view H
  view_other : ∀ id ∉ os.map (·.id), m'.view H id = m.view H id
  kind : ∀ o ∈ os, m'.HasKind o
  kinds : ∀ o', m.HasKind o' → m'.HasKind o'

theorem HeardAll.nil (hm : m.Typed H) : HeardAll H m [] m :=
  ⟨hm, rfl, by simp, fun _ _ => rfl, by simp, fun _ h => h⟩

theorem HeardAll.cons {os : List (GameObject σ)} {m1 : ObjectManager σ} (h1 : Heard H m o m1)
    (h : HeardAll H m1 os m') (hnew : o.id ∉ os.map (·.id)) : HeardAll H m (o :: os) m' where
  typed := h.typed
  registeredTypes := h.registeredTypes.trans h1.registeredTypes
  view_mem o' ho' := by
    rcases List.mem_cons.1 ho' with rfl | ho'
    · rw [h.view_other _ hnew, h1.view]
    · exact h.view_mem o' ho'
  view_other id hid := by
    rw [List.map_cons, List.mem_cons, not_or] at hid
    rw [h.view_other id hid.2, h1.view_other hid.1]
  kind o' ho' := by
    rcases List.mem_cons.1 ho' with rfl | ho'
    · exact h.kinds _ h1.kind
    · exact h.kind o' ho'
  kinds o' ho' := h.kinds o' (h1.kinds o' ho')

/-- Only live objects show something. -/
theorem view_isSome : (m.view H id).isSome ↔ id ∈ m.ids := by
  rw [mem_ids]
  constructor
  · intro h
    obtain ⟨v, hv⟩ := Option.isSome_iff_exists.1 h
    obtain ⟨o, ho, _⟩ := Option.bind_eq_some_iff.1 hv
    exact ⟨o, ho⟩
  · rintro ⟨o, ho⟩
    obtain ⟨_, _, _, _, halive⟩ := ObjectStore.lookup_eq_some ho
    rw [view, ho, Option.bind_some, GameObject.view, Option.isSome_map, halive]

theorem view_eq_none (h : id ∉ m.ids) : m.view H id = none := by
  rw [← view_isSome (H := H)] at h
  exact Option.not_isSome_iff_eq_none.1 h

/-- A message about objects the client knows and objects that are new to it, of which the new ones
come in full and have the ids they will get. -/
theorem heardAll_of_hears (alloc : Allocator σ) (known : List ObjectId)
    {os : List (GameObject σ)} {msgs : List ProtoGameObject}
    (hmsgs : List.Forall₂
      (fun o msg => ∃ full, Announces full o msg ∧ (o.id ∉ known → full = true)) os msgs)
    (hhears : List.Forall₂ (m.Hears H) os msgs)
    (hm : m.Typed H) (hnodup : (os.map (·.id)).Nodup)
    (hknown : ∀ o ∈ os, o.id ∈ known → m.HasKind o)
    (hnew : ∀ o ∈ os, o.id ∉ known → o.Typed H m.registeredTypes ∧ o.id ∉ m.ids)
    (hids : newIds known (os.map (·.id)) =
      idsFrom m.nextId (newIds known (os.map (·.id))).length) :
    ∃ m', msgs.foldlM (deserializeOne H alloc) m = .ok m' ∧ HeardAll H m os m' := by
  induction hmsgs generalizing m with
  | nil => exact ⟨m, rfl, .nil hm⟩
  | @cons o msg os msgs hmsg _ ih =>
    obtain ⟨hother, hnodup⟩ := List.nodup_cons.1 hnodup
    obtain ⟨full, hmsg, hfull⟩ := hmsg
    obtain ⟨hhear, hhears⟩ := List.forall₂_cons.1 hhears
    have hne : ∀ o' ∈ os, o'.id ≠ o.id := fun o' ho' heq =>
      hother (List.mem_map.2 ⟨o', ho', heq⟩)
    have hrest : ∀ m1 : ObjectManager σ, Heard H m o m1 →
        List.Forall₂ (m1.Hears H) os msgs ∧ (∀ o' ∈ os, o'.id ∈ known → m1.HasKind o') ∧
          ∀ o' ∈ os, o'.id ∉ known → o'.Typed H m1.registeredTypes ∧ o'.id ∉ m1.ids := by
      intro m1 h1
      refine ⟨((List.forall₂_and_left _ _).2 ⟨hne, hhears⟩).imp fun o' msg' h =>
        (h1.hears_iff h.1).2 h.2, fun o' ho' hk => h1.kinds o'
          (hknown o' (List.mem_cons_of_mem _ ho') hk), fun o' ho' hk => ?_⟩
      rw [h1.registeredTypes, ← view_isSome (H := H), h1.view_other (hne o' ho'), view_isSome]
      exact hnew o' (List.mem_cons_of_mem _ ho') hk
    rw [List.map_cons] at hids
    by_cases hk : o.id ∈ known
    · rw [newIds_cons_of_mem hk] at hids
      obtain ⟨m1, h1, hheard1, hnext1⟩ :=
        heard_update alloc hm (hknown o List.mem_cons_self hk) hmsg hhear
      obtain ⟨hhears1, hknown1, hnew1⟩ := hrest m1 hheard1
      obtain ⟨m', h', hheard⟩ := ih hhears1 hheard1.typed hnodup hknown1 hnew1 (hnext1 ▸ hids)
      exact ⟨m', foldlM_cons_eq_ok.2 ⟨m1, h1, h'⟩, .cons hheard1 hheard hother⟩
    · rw [newIds_cons_of_not_mem hk, List.length_cons, idsFrom_succ', List.cons.injEq] at hids
      obtain ⟨htyped, hnone⟩ := hnew o List.mem_cons_self hk
      obtain rfl := hfull hk
      obtain ⟨m1, h1, hheard1, hnext1⟩ :=
        heard_create alloc hm htyped hnone hids.1 hmsg hhear
      obtain ⟨hhears1, hknown1, hnew1⟩ := hrest m1 hheard1
      obtain ⟨m', h', hheard⟩ := ih hhears1 hheard1.typed hnodup hknown1 hnew1 (hnext1 ▸ hids.2)
      exact ⟨m', foldlM_cons_eq_ok.2 ⟨m1, h1, h'⟩, .cons hheard1 hheard hother⟩

/-- Every reader understands the messages of a serializer that carries all properties. -/
theorem heardAll_of_tells (alloc : Allocator σ) (known : List ObjectId)
    {os : List (GameObject σ)} {msgs : List ProtoGameObject}
    (htells : List.Forall₂ (fun o msg => ∃ full, Tells H full o msg ∧ (o.id ∉ known → full = true))
      os msgs)
    (hm : m.Typed H) (hnodup : (os.map (·.id)).Nodup)
    (hknown : ∀ o ∈ os, o.id ∈ known → m.HasKind o)
    (hnew : ∀ o ∈ os, o.id ∉ known → o.Typed H m.registeredTypes ∧ o.id ∉ m.ids)
    (hids : newIds known (os.map (·.id)) =
      idsFrom m.nextId (newIds known (os.map (·.id))).length) :
    ∃ m', msgs.foldlM (deserializeOne H alloc) m = .ok m' ∧ HeardAll H m os m' := by
  have hreader : ∀ o ∈ os, ∃ script, m.reader H o = some script ∧
      H.classOf script = o.scriptInfo.className := by
    intro o ho
    by_cases hk : o.id ∈ known
    · exact reader_of_hasKind hm (hknown o ho hk)
    · obtain ⟨htyped, hnone⟩ := hnew o ho hk
      exact reader_of_new htyped.constructible hnone
  refine heardAll_of_hears alloc known
    (htells.imp fun o msg ⟨full, htold, hfull⟩ => ⟨full, htold.toAnnounces, hfull⟩)
    (((List.forall₂_and_left _ _).2 ⟨hreader, htells⟩).imp ?_) hm hnodup hknown hnew hids
  rintro o msg ⟨⟨script, hscript, hclass⟩, full, htold, -⟩
  exact ⟨script, hscript, htold.read script hclass⟩

/-! ## Serializing -/

/-- `o` is the live object at `p`. -/
def Live (m : ObjectManager σ) (p : Ptr) (o : GameObject σ) : Prop :=
  m.objects.memory.find? p = some o ∧ m.objects.byId.find? o.id = some p

theorem Live.lookup {p : Ptr} (h : m.Live p o) : m.objects.lookup o.id = some o := by
  rw [ObjectStore.lookup, h.2, Option.bind_some, h.1]

theorem live_of_byId {p : Ptr} (h : m.objects.byId.find? id = some p) :
    ∃ o, m.Live p o ∧ o.id = id := by
  obtain ⟨o, ho, rfl, _⟩ := m.objects.keyed h
  exact ⟨o, ⟨ho, h⟩, rfl⟩

/-- The object at an address is live, and its properties can be written. -/
def Writes (H : ScriptHost σ V) (m : ObjectManager σ) (obj : Ptr) : Prop :=
  ∃ o c ps, m.objects.memory.find? obj = some o ∧ o.contents = some c ∧
    H.serialize c.script o.scriptInfo.syncProperties = .ok ps

theorem serializeAt_of {obj : Ptr} (h : m.Writes H obj) (full : Bool) :
    ∃ object, m.serializeAt H full obj = .ok object := by
  obtain ⟨o, c, ps, ho, hc, hps⟩ := h
  simp only [serializeAt, ho, GameObject.serialize, hc]
  exact ⟨_, bind_eq_ok.2 ⟨ps, hps, rfl⟩⟩

theorem exists_mapM_serializeAt (full : Bool) {objs : List Ptr}
    (h : ∀ obj ∈ objs, m.Writes H obj) :
    ∃ objects, objs.mapM (m.serializeAt H full) = .ok objects := by
  induction objs with
  | nil => exact ⟨[], rfl⟩
  | cons obj objs ih =>
    obtain ⟨hfirst, hrest⟩ := List.forall_mem_cons.1 h
    obtain ⟨object, hobject⟩ := serializeAt_of hfirst full
    obtain ⟨objects, hobjects⟩ := ih hrest
    exact ⟨object :: objects, mapM_eq_ok.2 (.cons hobject (mapM_eq_ok.1 hobjects))⟩

/-- The messages of live objects. -/
theorem serialized_of_mapM {ps : List Ptr} {msgs : List ProtoGameObject}
    (h : ps.mapM (m.serializeAt H full) = .ok msgs) (hlive : ∀ p ∈ ps, ∃ o, m.Live p o) :
    ∃ os, List.Forall₂ m.Live ps os ∧
      List.Forall₂ (fun o msg => o.serialize H full = .ok msg) os msgs := by
  rw [mapM_eq_ok] at h
  induction h with
  | nil => exact ⟨[], .nil, .nil⟩
  | @cons p msg ps msgs hmsg _ ih =>
    obtain ⟨o, ho⟩ := hlive p List.mem_cons_self
    obtain ⟨os, hos, hmsgs⟩ := ih fun q hq => hlive q (List.mem_cons_of_mem _ hq)
    rw [serializeAt, ho.1] at hmsg
    exact ⟨o :: os, .cons ho hos, .cons hmsg hmsgs⟩

/-- Live objects can be serialized. -/
theorem mapM_serializeAt (hrt : H.RoundTrips m.registeredTypes) (hm : m.Typed H) (full : Bool)
    (ps : List Ptr) (h : ∀ p ∈ ps, ∃ o, m.Live p o) :
    ∃ os msgs, ps.mapM (m.serializeAt H full) = .ok msgs ∧ List.Forall₂ m.Live ps os ∧
      List.Forall₂ (Tells H full) os msgs := by
  simp only [mapM_eq_ok]
  induction ps with
  | nil => exact ⟨[], [], .nil, .nil, .nil⟩
  | cons p ps ih =>
    obtain ⟨o, ho⟩ := h p List.mem_cons_self
    obtain ⟨os, msgs, hmsgs, hlive, htells⟩ := ih fun q hq => h q (List.mem_cons_of_mem _ hq)
    obtain ⟨msg, hmsg, htold⟩ := (hm.objects ho.lookup).serialize hrt full
    have hat : m.serializeAt H full p = .ok msg := by simpa only [serializeAt, ho.1] using hmsg
    exact ⟨o :: os, msg :: msgs, .cons hat hmsgs, .cons ho hlive, .cons htold htells⟩

theorem serializeFull_eq_ok (hrt : H.RoundTrips m.registeredTypes) (hm : m.Typed H) :
    ∃ os msgs, m.serializeFull H = .ok msgs ∧ List.Forall₂ (Tells H true) os msgs ∧
      os.map (·.id) = m.ids ∧ ∀ o ∈ os, m.objects.lookup o.id = some o := by
  obtain ⟨os, msgs, hmsgs, hlive, htells⟩ :=
    mapM_serializeAt hrt hm true (m.objects.byId.entries.map (·.2)) fun p hp => by
      obtain ⟨⟨id, q⟩, hq, rfl⟩ := List.mem_map.1 hp
      obtain ⟨o, ho, _⟩ := live_of_byId (OrdMap.mem_entries.1 hq)
      exact ⟨o, ho⟩
  rw [List.forall₂_map_left_iff] at hlive
  refine ⟨os, msgs, ?_, htells, ?_, fun o ho => ?_⟩
  · rw [mapM_eq_ok, List.forall₂_map_left_iff] at hmsgs
    exact mapM_eq_ok.2 hmsgs
  · refine (map_eq_map_of_forall₂ hlive fun e he o h => ?_).symm
    exact ObjectStore.byId_inj (OrdMap.mem_entries.1 he) h.2
  · obtain ⟨_, _, he⟩ := exists_left_of_forall₂ hlive ho
    exact he.lookup

/-! ## The ids a client gives -/

/-- A message about an object with one of the ids `known` adds no id, any other at most one. -/
theorem ids_subset_of_deserializeOne (h : deserializeOne H alloc m msg = .ok m') :
    m.ids ⊆ m'.ids ∧ (msg.id ∈ m.ids → m'.ids ⊆ m.ids) ∧ m'.ids ⊆ m.nextId :: m.ids := by
  obtain ⟨hmem, hkind, _⟩ | ⟨hnone, hnew, hkind, _⟩ := deserializeOne_kind h
  · have hids : ∀ id, id ∈ m'.ids ↔ id ∈ m.ids := fun id => by
      rw [mem_ids_iff_kind, hkind, ← mem_ids_iff_kind]
    exact ⟨fun id => (hids id).2, fun _ id => (hids id).1,
      fun id hid => List.mem_cons_of_mem _ ((hids id).1 hid)⟩
  · have hids : ∀ id, id ≠ m.nextId → (id ∈ m'.ids ↔ id ∈ m.ids) := fun id hne => by
      rw [mem_ids_iff_kind, hkind id hne, ← mem_ids_iff_kind]
    refine ⟨fun id hid => ?_, fun hmem => absurd hmem hnone, fun id hid => ?_⟩
    · by_cases heq : id = m.nextId
      · exact heq ▸ hnew
      · exact (hids id heq).2 hid
    · by_cases heq : id = m.nextId
      · exact heq ▸ List.mem_cons_self
      · exact List.mem_cons_of_mem _ ((hids id heq).1 hid)

theorem ids_subset_of_foldlM {msgs : List ProtoGameObject}
    (h : msgs.foldlM (deserializeOne H alloc) m = .ok m') : m.ids ⊆ m'.ids := by
  induction msgs generalizing m with
  | nil =>
    cases h
    exact fun _ hid => hid
  | cons msg msgs ih =>
    obtain ⟨m1, h1, h'⟩ := foldlM_cons_eq_ok.1 h
    exact fun id hid => ih h' ((ids_subset_of_deserializeOne h1).1 hid)

theorem length_ids_le {known : List ObjectId} {msgs : List ProtoGameObject} (hknown : known ⊆ m.ids)
    (h : msgs.foldlM (deserializeOne H alloc) m = .ok m') :
    m'.ids.length ≤ m.ids.length + (newIds known (msgs.map (·.id))).length := by
  induction msgs generalizing m with
  | nil =>
    cases h
    exact Nat.le_refl _
  | cons msg msgs ih =>
    obtain ⟨m1, h1, h'⟩ := foldlM_cons_eq_ok.1 h
    obtain ⟨hmono, hsame, hmore⟩ := ids_subset_of_deserializeOne h1
    have hrest := ih (fun id hid => hmono (hknown hid)) h'
    rw [List.map_cons]
    by_cases hmem : msg.id ∈ known
    · have hle := (List.subperm_of_subset m1.nodup_ids (hsame (hknown hmem))).length_le
      rw [newIds_cons_of_mem hmem]
      exact hrest.trans (Nat.add_le_add_right hle _)
    · have hle := (List.subperm_of_subset m1.nodup_ids hmore).length_le
      rw [newIds_cons_of_not_mem hmem, List.length_cons]
      rw [List.length_cons] at hle
      omega

/-- A new id a client ends up with is new to it when its turn comes. -/
theorem not_known_of_new {m1 : ObjectManager σ} {msgs : List ProtoGameObject}
    (h1 : msgs.foldlM (deserializeOne H alloc) m = .ok m1)
    (h2 : deserializeOne H alloc m1 msg = .ok m')
    (hnodup : (msgs.map (·.id) ++ [msg.id]).Nodup) (hmem : msg.id ∉ m.ids)
    (hids : ∀ id, id ∉ m.ids → id ∈ msgs.map (·.id) ++ [msg.id] → id ∈ m'.ids) :
    msg.id ∉ m1.ids := by
  intro hknown
  have hsub : m.ids ++ newIds m.ids (msgs.map (·.id) ++ [msg.id]) ⊆ m1.ids := by
    refine List.append_subset.2 ⟨ids_subset_of_foldlM h1, fun id hid => ?_⟩
    obtain ⟨hid, hnot⟩ := mem_newIds.1 hid
    exact (ids_subset_of_deserializeOne h2).2.1 hknown (hids id hnot hid)
  have hnodup' : (m.ids ++ newIds m.ids (msgs.map (·.id) ++ [msg.id])).Nodup := by
    refine List.nodup_append.2 ⟨m.nodup_ids, hnodup.filter _, fun id hid id' hid' heq => ?_⟩
    exact (mem_newIds.1 hid').2 (heq ▸ hid)
  have hle := (List.subperm_of_subset hnodup' hsub).length_le
  have hlen1 := length_ids_le (fun _ hid => hid) h1
  rw [newIds_append, newIds_singleton_of_not_mem hmem, List.length_append, List.length_append,
    List.length_singleton] at hle
  omega

/-- A client that ends up with the new ids of a message has created all the objects of these ids, in
the order of its own counter, and replaced none of those it had. -/
theorem new_ids_of_foldlM {msgs : List ProtoGameObject}
    (h : msgs.foldlM (deserializeOne H alloc) m = .ok m') (hnodup : (msgs.map (·.id)).Nodup)
    (hids : ∀ id, id ∉ m.ids → (id ∈ m'.ids ↔ id ∈ msgs.map (·.id))) :
    newIds m.ids (msgs.map (·.id)) = idsFrom m.nextId (newIds m.ids (msgs.map (·.id))).length ∧
      m'.nextId = idAfter m.nextId (newIds m.ids (msgs.map (·.id))).length ∧
      ∀ id ∈ m.ids, m'.kind id = m.kind id := by
  induction msgs using List.reverseRecOn generalizing m' with
  | nil =>
    cases h
    exact ⟨rfl, (idAfter_zero _).symm, fun _ _ => rfl⟩
  | append_singleton msgs msg ih =>
    obtain ⟨m1, h1, h'⟩ := foldlM_append_eq_ok.1 h
    obtain ⟨m2, h2, heq⟩ := foldlM_cons_eq_ok.1 h'
    cases heq
    rw [List.map_append, List.map_cons, List.map_nil] at hnodup hids ⊢
    obtain ⟨hnodup1, _, hnew⟩ := List.nodup_append.1 hnodup
    have hother : ∀ id, id ≠ msg.id →
        (id ∈ msgs.map (·.id) ++ [msg.id] ↔ id ∈ msgs.map (·.id)) := by
      intro id hne
      simp [hne]
    rw [newIds_append]
    by_cases hmem : msg.id ∈ m.ids
    · obtain ⟨_, hkind, hnext⟩ | ⟨hnone, _⟩ := deserializeOne_kind h2
      · obtain ⟨hfront, hnext1, hkinds⟩ := ih h1 hnodup1 fun id hid => by
          rw [← hother id fun heq => hid (heq ▸ hmem), ← hids id hid, mem_ids_iff_kind,
            mem_ids_iff_kind, hkind]
        rw [newIds_singleton_of_mem hmem, List.append_nil]
        exact ⟨hfront, hnext.trans hnext1, fun id hid => (hkind id).trans (hkinds id hid)⟩
      · exact absurd (ids_subset_of_foldlM h1 hmem) hnone
    · have hnone := not_known_of_new h1 h2 hnodup hmem fun id hid => (hids id hid).2
      obtain ⟨hknown, _⟩ | ⟨_, _, hkind, hnext⟩ := deserializeOne_kind h2
      · exact absurd hknown hnone
      have hmsg : msg.id = m1.nextId := by
        have hmem' := (hids msg.id hmem).2 (List.mem_append_right _ List.mem_cons_self)
        exact (List.mem_cons.1 ((ids_subset_of_deserializeOne h2).2.2 hmem')).resolve_right hnone
      obtain ⟨hfront, hnext1, hkinds⟩ := ih h1 hnodup1 fun id hid => by
        by_cases heq : id = msg.id
        · subst heq
          exact ⟨fun h => absurd h hnone, fun h => absurd rfl (hnew _ h _ List.mem_cons_self)⟩
        · rw [← hother id heq, ← hids id hid, mem_ids_iff_kind, mem_ids_iff_kind,
            hkind id (hmsg ▸ heq)]
      rw [newIds_singleton_of_not_mem hmem, List.length_append, List.length_singleton, idsFrom_succ,
        idAfter_succ, ← hnext1, ← hfront, hmsg]
      refine ⟨rfl, hnext, fun id hid => (hkind id fun heq => ?_).trans (hkinds id hid)⟩
      exact hnone (hmsg ▸ heq ▸ ids_subset_of_foldlM h1 hid)

/-! ## What a client reads -/

/-- `m'` is `m`, except that the object under the id of `o` has the contents that its reader made of
the message. -/
structure ReadFrom (H : ScriptHost σ V) (m : ObjectManager σ) (o : GameObject σ)
    (msg : ProtoGameObject) (m' : ObjectManager σ) : Prop where
  registeredTypes : m'.registeredTypes = m.registeredTypes
  lookup : ∀ id, id ≠ o.id → m'.objects.lookup id = m.objects.lookup id
  read : ∃ script c o', m.reader H o = some script ∧ GameObject.deserialize H script msg = .ok c ∧
    m'.objects.lookup o.id = some o' ∧ o'.contents = some c ∧
    (o.id ∉ m.ids → o'.scriptInfo = o.scriptInfo)

/-- A message about an object that is known, or that gets its id when it is created. -/
theorem readFrom_of_deserializeOne (hmsg : Announces full o msg)
    (hreg : m.registeredTypes.find? o.scriptInfo.typeName = some o.scriptInfo)
    (hnext : o.id ∉ m.ids → o.id = m.nextId) (h : deserializeOne H alloc m msg = .ok m') :
    m.ReadFrom H o msg m' := by
  have hset : ∀ (m1 : ObjectManager σ) (o1 : GameObject σ) (c : Contents σ) (id : ObjectId),
      m1.objects.lookup o.id = some o1 → (m1.objects.setContents o.id c).lookup id =
        if id = o.id then some { o1 with contents := some c } else m1.objects.lookup id := by
    intro m1 o1 c id h1
    rw [ObjectStore.lookup_setContents, h1, Option.map_some]
  unfold deserializeOne at h
  rw [hmsg.id, hmsg.objectType] at h
  split at h
  · next hnone =>
    have hnew := byId_eq_none_iff.1 hnone
    have htouch : m.touchType o.scriptInfo.typeName = m := by rw [touchType, hreg]
    obtain ⟨⟨o1, m1⟩, hcreate, hread⟩ := bind_eq_ok.1 h
    dsimp only at hcreate hread
    rw [htouch] at hcreate
    have hcreated := createObject_eq_ok hcreate
    have hinfo : o1.scriptInfo = o.scriptInfo :=
      Option.some.inj (hcreated.registered.symm.trans hreg)
    have hid1 : o1.id = o.id := hcreated.id.trans (hnext hnew).symm
    have hlookup : ∀ id, m1.objects.lookup id =
        if id = o.id then some o1 else m.objects.lookup id :=
      fun id => hnext hnew ▸ hcreated.lookup id
    rw [hid1] at hread
    obtain ⟨o2, c, c', ho2, hc, hread, rfl⟩ := readContents_eq_ok hread
    obtain rfl : o1 = o2 := Option.some.inj (((hlookup o.id).trans (if_pos rfl)).symm.trans ho2)
    obtain ⟨c1, hc1, hc1'⟩ := hcreated.constructed
    obtain rfl : c1 = c := Option.some.inj (hc1.symm.trans hc)
    refine ⟨hcreated.registeredTypes, fun id hne => ?_, c1.script, c', _, ?_, hread,
      (hset m1 o1 c' o.id ho2).trans (if_pos rfl), rfl, fun _ => hinfo⟩
    · rw [hset m1 o1 c' id ho2, if_neg hne, hlookup, if_neg hne]
    · rw [reader_of_not_mem hnew, ← hinfo, ← hid1, hc1']
  · next p hp =>
    obtain ⟨o1, c, c', ho1, hc, hread, rfl⟩ := readContents_eq_ok h
    refine ⟨rfl, fun id hne => (hset m o1 c' id ho1).trans (if_neg hne), c.script, c', _, ?_, hread,
      (hset m o1 c' o.id ho1).trans (if_pos rfl), rfl,
      fun hnot => absurd (OrdMap.mem_keys.2 ⟨p, hp⟩) hnot⟩
    rw [reader_of_lookup ho1, hc, Option.map_some]

/-- A client that creates the new objects under their ids reads every message by the script object
that was to read it at the start. -/
theorem reads_of_foldlM (known : List ObjectId) {os : List (GameObject σ)}
    {msgs : List ProtoGameObject}
    (hmsgs : List.Forall₂ (fun o msg => ∃ full, o.serialize H full = .ok msg) os msgs)
    (hnodup : (os.map (·.id)).Nodup)
    (hreg : ∀ o ∈ os, m.registeredTypes.find? o.scriptInfo.typeName = some o.scriptInfo)
    (hknown : ∀ o ∈ os, o.id ∈ m.ids ↔ o.id ∈ known)
    (hids : newIds known (os.map (·.id)) =
      idsFrom m.nextId (newIds known (os.map (·.id))).length)
    (h : msgs.foldlM (deserializeOne H alloc) m = .ok m') :
    (∀ id ∉ os.map (·.id), m'.objects.lookup id = m.objects.lookup id) ∧
      ∀ o ∈ os, ∃ full msg script c o', o.serialize H full = .ok msg ∧
        m.reader H o = some script ∧ GameObject.deserialize H script msg = .ok c ∧
        m'.objects.lookup o.id = some o' ∧ o'.contents = some c ∧
        (o.id ∉ m.ids → o'.scriptInfo = o.scriptInfo) := by
  induction hmsgs generalizing m with
  | nil =>
    cases h
    exact ⟨fun _ _ => rfl, by simp⟩
  | @cons o msg os msgs hserialize _ ih =>
    obtain ⟨full, hserialize⟩ := hserialize
    obtain ⟨-, -, -, -, -, hmsg⟩ := GameObject.serialize_eq_ok hserialize
    obtain ⟨hother, hnodup⟩ := List.nodup_cons.1 hnodup
    obtain ⟨m1, h1, h'⟩ := foldlM_cons_eq_ok.1 h
    have hne : ∀ o' ∈ os, o'.id ≠ o.id := fun o' ho' heq =>
      hother (List.mem_map.2 ⟨o', ho', heq⟩)
    rw [List.map_cons] at hids
    have hstep : (o.id ∉ m.ids → o.id = m.nextId) ∧
        newIds known (os.map (·.id)) = idsFrom m1.nextId (newIds known (os.map (·.id))).length := by
      have hmem := hknown o List.mem_cons_self
      have hkind := deserializeOne_kind h1
      rw [hmsg.id, hmem] at hkind
      rw [hmem]
      obtain ⟨hk, -, hnext⟩ | ⟨hk, -, -, hnext⟩ := hkind
      · rw [newIds_cons_of_mem hk] at hids
        exact ⟨fun hnot => absurd hk hnot, hnext ▸ hids⟩
      · rw [newIds_cons_of_not_mem hk, List.length_cons, idsFrom_succ', List.cons.injEq] at hids
        exact ⟨fun _ => hids.1, hnext ▸ hids.2⟩
    have hread := readFrom_of_deserializeOne hmsg (hreg o List.mem_cons_self) hstep.1 h1
    have hsame : ∀ o' ∈ os, m1.objects.lookup o'.id = m.objects.lookup o'.id := fun o' ho' =>
      hread.lookup o'.id (hne o' ho')
    obtain ⟨hframe, hreads⟩ := ih hnodup
      (fun o' ho' => hread.registeredTypes ▸ hreg o' (List.mem_cons_of_mem _ ho'))
      (fun o' ho' => by
        rw [← hknown o' (List.mem_cons_of_mem _ ho'), mem_ids, mem_ids, hsame o' ho'])
      hstep.2 h'
    refine ⟨fun id hid => ?_, List.forall_mem_cons.2 ⟨?_, fun o' ho' => ?_⟩⟩
    · rw [List.map_cons, List.mem_cons, not_or] at hid
      rw [hframe id hid.2, hread.lookup id hid.1]
    · obtain ⟨script, c, o', hscript, hc, ho', hrest⟩ := hread.read
      exact ⟨full, msg, script, c, o', hserialize, hscript, hc, by rw [hframe o.id hother, ho'],
        hrest⟩
    · obtain ⟨full', msg', script, c, o'', hmsg', hscript, hread', ho'', hc, hinfo⟩ :=
        hreads o' ho'
      exact ⟨full', msg', script, c, o'', hmsg', by rwa [reader, ← hsame o' ho'], hread', ho'', hc,
        fun hnot => hinfo (by rwa [mem_ids, hsame o' ho', ← mem_ids])⟩

/-! ## Full-state replication -/

/-- The client takes over the full state of the server: the same ids, under each an object that
shows the same. A second delivery of the same message changes nothing. -/
def FullReplication (H : ScriptHost σ V) (alloc : Allocator σ) (server client : ObjectManager σ) :
    Prop :=
  ∃ objectSet client' client'', server.serializeFull H = .ok objectSet ∧
    client.deserialize H alloc objectSet = .ok client' ∧
    (∀ id, id ∈ client'.ids ↔ id ∈ server.ids) ∧ (∀ id, client'.view H id = server.view H id) ∧
    client'.deserialize H alloc objectSet = .ok client'' ∧
    ∀ id, client''.view H id = client'.view H id

theorem map_id_eq {os : List (GameObject σ)} {msgs : List ProtoGameObject}
    (h : List.Forall₂ (Tells H full) os msgs) : os.map (·.id) = msgs.map (·.id) :=
  map_eq_map_of_forall₂ h fun _ _ _ htold => htold.id.symm

/-- **Full-state replication.** A client without objects takes over the state of a server with the
same types if and only if the server's ids are the next ids of the client's own counter. -/
theorem fullReplication_iff {server client : ObjectManager σ}
    (hrt : H.RoundTrips server.registeredTypes) (hserver : server.Typed H)
    (htypes : client.registeredTypes = server.registeredTypes) (hempty : client.ids = []) :
    FullReplication H alloc server client ↔
      server.ids = idsFrom client.nextId server.ids.length := by
  obtain ⟨os, msgs, hfull, htells, hids, hos⟩ := serializeFull_eq_ok hrt hserver
  have hmsgs : msgs.map (·.id) = server.ids := by rw [← map_id_eq htells, hids]
  have hnodup : server.ids.Nodup := OrdMap.nodup_keys _
  constructor
  · rintro ⟨objectSet, client', _, hset, hclient, hsame, _⟩
    obtain rfl : msgs = objectSet := Except.ok.inj (hfull.symm.trans hset)
    obtain ⟨m', hm', heq⟩ := bind_eq_ok.1 hclient
    cases heq
    have hfrom :=
      (new_ids_of_foldlM hm' (hmsgs ▸ hnodup) (by rw [hmsgs]; exact fun id _ => hsame id)).1
    rwa [hempty, newIds_nil, hmsgs] at hfrom
  · intro hfrom
    have hclient : client.Typed H := by
      refine ⟨htypes ▸ hserver.types, fun {id o} ho => ?_⟩
      have hmem := mem_ids.2 ⟨o, ho⟩
      simp [hempty] at hmem
    obtain ⟨m1, hm1, hheard1⟩ := heardAll_of_tells alloc []
      (htells.imp fun o msg h => ⟨true, h, fun _ => rfl⟩) hclient (hids ▸ hnodup) (by simp)
      (fun o ho _ => ⟨htypes ▸ hserver.objects (hos o ho), by simp [hempty]⟩)
      (by rw [newIds_nil, hids]; exact hfrom)
    obtain ⟨m2, hm2, hheard2⟩ := heardAll_of_tells alloc server.ids
      (m := m1.flushUpdateCache) (htells.imp fun o msg h => ⟨true, h, fun _ => rfl⟩)
      ⟨hheard1.typed.types, hheard1.typed.objects⟩ (hids ▸ hnodup) (fun o ho _ => hheard1.kind o ho)
      (fun o ho hnot => absurd (hids ▸ List.mem_map_of_mem ho) hnot)
      (by rw [hids, newIds_self]; rfl)
    have hview1 : ∀ id, m1.view H id = server.view H id := by
      intro id
      by_cases hid : id ∈ server.ids
      · obtain ⟨o, ho, rfl⟩ := List.mem_map.1 (hids ▸ hid)
        rw [hheard1.view_mem o ho, view, hos o ho, Option.bind_some]
      · rw [hheard1.view_other id (hids ▸ hid), view_eq_none hid, view_eq_none (by simp [hempty])]
    have hview2 : ∀ id, m2.view H id = m1.view H id := by
      intro id
      by_cases hid : id ∈ server.ids
      · obtain ⟨o, ho, rfl⟩ := List.mem_map.1 (hids ▸ hid)
        rw [hheard2.view_mem o ho, hheard1.view_mem o ho]
      · exact hheard2.view_other id (hids ▸ hid)
    refine ⟨msgs, m1.flushUpdateCache, m2.flushUpdateCache, hfull, bind_eq_ok.2 ⟨m1, hm1, rfl⟩,
      fun id => ?_, hview1, bind_eq_ok.2 ⟨m2, hm2, rfl⟩, hview2⟩
    rw [← view_isSome (H := H), ← view_isSome (H := H), ← hview1 id]
    rfl

/-- A server whose only object is a character. -/
def oneCharacter (id : ObjectId) : ObjectManager testModule.Object where
  registeredTypes := testTypes
  objects := ObjectStore.publish ∅ 1 (geyloard id) (alive_geyloard id) (by simp)
  nextId := id + 1

theorem typed_oneCharacter (id : ObjectId) : (oneCharacter id).Typed testModule.host := by
  refine ⟨fun {typeName info} h => ?_, fun {id' o} h => ?_⟩
  · obtain ⟨rfl, rfl⟩ := eq_characterInfo h
    rfl
  have hlookup := @ObjectStore.lookup_publish _ ∅ 1 (geyloard id) (alive_geyloard id) (by simp) id'
  have h := hlookup.symm.trans h
  split at h
  · cases h
    exact typed_geyloard id
  · cases h

/-- The first object of the server and of the client. -/
theorem fullReplication_first : FullReplication testModule.host nextFree (oneCharacter 0)
    { registeredTypes := testTypes } := by
  refine (fullReplication_iff testTypes_roundTrips (typed_oneCharacter 0) ?_ ?_).2 ?_ <;> rfl

/-- Once the server's first object is gone, a new client gives its second one the id 0. -/
theorem not_fullReplication_second : ¬ FullReplication testModule.host nextFree (oneCharacter 1)
    { registeredTypes := testTypes } := by
  rintro ⟨objectSet, client', _, hset, hclient, hids, _⟩
  cases hset
  cases hclient
  have hone := (hids 1).2 (by decide)
  revert hone
  decide

end ObjectManager

end NetSiege
