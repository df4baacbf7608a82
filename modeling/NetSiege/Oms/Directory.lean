import NetSiege.Network.WorldState

/-!
# Asking for objects (`objectmanager.cpp`)

Scripts ask for objects by id or by name, and names need not be unique. To them the manager is a
`Roster`: the objects there are with their names, the oldest first, of which `find` takes the first
with the name. Whatever happened to the manager, `gameObjectFind` and `gameObjectExists` answer from
its roster (`answers_from_roster`), as long as the ids do not go round.
-/

namespace NetSiege

open Lib

/-! ## What scripts see -/

/-- The objects there are, as their serial numbers and names, and the next serial number. -/
structure Roster where
  entries : List (Nat × String) := []
  next : Nat := 0

/-- What may happen to the objects of a manager. -/
inductive DirectoryOp (σ : Type) where
  | store (op : ObjectManager.StoreOp σ)
  | clear
  | deserialize (alloc : ObjectManager.Allocator σ) (objectSet : List ProtoGameObject)

namespace Roster

/-- A new object is the youngest. -/
def create (r : Roster) (name : String) : Roster where
  entries := r.entries ++ [(r.next, name)]
  next := r.next + 1

def remove (r : Roster) (serial : Nat) : Roster :=
  { r with entries := r.entries.filter fun e => e.1 ≠ serial }

def clear (r : Roster) : Roster := { r with entries := [] }

/-- An object that is not there is created. -/
def hear (r : Roster) (serial : Nat) (name : String) : Roster :=
  if serial ∈ r.entries.map (·.1) then r else r.create name

/-- The oldest object with the name. -/
def find (r : Roster) (name : String) : Option (Nat × String) := r.entries.find? (·.2 = name)

/-- The name of an object. -/
def nameOf (r : Roster) (serial : Nat) : Option String :=
  (r.entries.find? (·.1 = serial)).map (·.2)

/-- The roster after an operation. -/
def after {σ : Type} (r : Roster) : DirectoryOp σ → Roster
  | .store (.createObject _ _ _ name) => r.create name
  | .store (.removeObject id) => r.remove id.val
  | .store (.mutate ..) => r
  | .clear => r.clear
  | .deserialize _ objectSet =>
    objectSet.foldl (fun r object => r.hear object.id.val (object.name.getD "")) r

theorem next_hear (r : Roster) (serial : Nat) (name : String) :
    r.next ≤ (r.hear serial name).next := by
  unfold hear
  split
  · exact Nat.le_refl _
  · exact Nat.le_succ _

theorem next_foldl_hear (objectSet : List ProtoGameObject) (r : Roster) :
    r.next ≤
      (objectSet.foldl (fun r object => r.hear object.id.val (object.name.getD "")) r).next := by
  induction objectSet generalizing r with
  | nil => exact Nat.le_refl _
  | cons object objectSet ih => exact (r.next_hear _ _).trans (ih _)

theorem next_after {σ : Type} (r : Roster) (op : DirectoryOp σ) : r.next ≤ (r.after op).next := by
  cases op with
  | store op =>
    cases op with
    | createObject => exact Nat.le_succ _
    | removeObject | mutate => exact Nat.le_refl _
  | clear => exact Nat.le_refl _
  | deserialize alloc objectSet => exact next_foldl_hear objectSet r

end Roster

namespace ObjectManager

variable {σ V : Type} {H : ScriptHost σ V} {m m' : ObjectManager σ} {id : ObjectId}

/-- `ObjectManager::findObject` of a name: the first in the order of the ids, `none` for
`std::out_of_range`. -/
def findObjectByName (m : ObjectManager σ) (name : String) : Option (GameObject σ) :=
  (m.objects.byId.entries.find? fun it =>
    (m.objects.memory.find? it.2).map (·.name) == some name).bind fun it =>
      m.objects.memory.find? it.2

/-- `ObjectManager::findObject` of an id. -/
def findObjectById (m : ObjectManager σ) (id : ObjectId) : Option (GameObject σ) :=
  m.objects.lookup id

/-- `gameObjectFind(string)`, `none` for a null handle. -/
def asFindObjectByName (m : ObjectManager σ) (name : String) : Option σ :=
  (m.findObjectByName name).bind fun object => object.contents.map (·.script)

/-- `gameObjectFind(int)`. -/
def asFindObjectById (m : ObjectManager σ) (id : ObjectId) : Option σ :=
  (m.findObjectById id).bind fun object => object.contents.map (·.script)

/-- `gameObjectExists(string)`. -/
def asObjectExistsByName (m : ObjectManager σ) (name : String) : Bool :=
  (m.findObjectByName name).isSome

/-- `gameObjectExists(int)`. -/
def asObjectExistsById (m : ObjectManager σ) (id : ObjectId) : Bool :=
  (m.findObjectById id).isSome

/-- The name of the object under an id. -/
def nameOf (m : ObjectManager σ) (id : ObjectId) : Option String :=
  (m.objects.lookup id).map (·.name)

/-- The manager after an operation, if it comes through. -/
def directoryStep (H : ScriptHost σ V) (m : ObjectManager σ) :
    DirectoryOp σ → Option (ObjectManager σ)
  | .store op => m.step H op
  | .clear => some m.clear
  | .deserialize alloc objectSet => (m.deserialize H alloc objectSet).toOption

/-- A manager and its roster after an operation. -/
def rosterStep (H : ScriptHost σ V) (s : ObjectManager σ × Roster) (op : DirectoryOp σ) :
    Option (ObjectManager σ × Roster) :=
  (s.1.directoryStep H op).map (·, s.2.after op)

/-- The answers are those of the roster, and an object that is found has its script object. -/
structure AnswersFrom (m : ObjectManager σ) (r : Roster) : Prop where
  byName : ∀ name, (m.findObjectByName name).map (fun o => (o.id.val, o.name)) = r.find name
  byId : ∀ id, (m.findObjectById id).map (·.name) = r.nameOf id.val
  scriptByName : ∀ name, (m.asFindObjectByName name).isSome = (r.find name).isSome
  scriptById : ∀ id, (m.asFindObjectById id).isSome = (r.nameOf id.val).isSome
  existsByName : ∀ name, m.asObjectExistsByName name = (r.find name).isSome
  existsById : ∀ id, m.asObjectExistsById id = (r.nameOf id.val).isSome

/-! ## The first with a name -/

theorem nameOf_eq_some {name : String} :
    m.nameOf id = some name ↔ ∃ o, m.objects.lookup id = some o ∧ o.name = name := by
  rw [nameOf, Option.map_eq_some_iff]

theorem lookup_of_byId {p : Ptr} (hp : m.objects.byId.find? id = some p) :
    m.objects.lookup id = m.objects.memory.find? p := by
  rw [ObjectStore.lookup, hp, Option.bind_some]

/-- What the loop of `findObject` finds. -/
theorem findObjectByName_eq_some {name : String} {o : GameObject σ} :
    m.findObjectByName name = some o ↔
      m.objects.lookup o.id = some o ∧ o.name = name ∧
        ∀ id, m.nameOf id = some name → o.id ≤ id := by
  have hfirst : ∀ it : ObjectId × Ptr,
      m.objects.byId.entries.find? (fun it =>
        (m.objects.memory.find? it.2).map (·.name) == some name) = some it ↔
      (m.objects.byId.find? it.1 = some it.2 ∧ m.nameOf it.1 = some name) ∧
        ∀ id, m.nameOf id = some name → it.1 ≤ id := by
    rintro ⟨id, p⟩
    rw [← List.head?_filter, OrdMap.head?_eq_some_iff (m.objects.byId.sorted.filter _)]
    simp only [List.mem_filter, OrdMap.mem_entries, beq_iff_eq, Prod.forall, and_imp]
    constructor
    · rintro ⟨⟨hp, hname⟩, hleast⟩
      refine ⟨⟨hp, ?_⟩, fun id' hid' => ?_⟩
      · rw [nameOf, lookup_of_byId hp, hname]
      · obtain ⟨o', ho', _⟩ := nameOf_eq_some.1 hid'
        obtain ⟨p', hp', _⟩ := ObjectStore.lookup_eq_some ho'
        refine hleast id' p' hp' ?_
        rw [← lookup_of_byId hp']
        exact hid'
    · rintro ⟨⟨hp, hname⟩, hleast⟩
      rw [nameOf, lookup_of_byId hp] at hname
      refine ⟨⟨hp, hname⟩, fun id' p' hp' hname' => hleast id' ?_⟩
      rw [nameOf, lookup_of_byId hp', hname']
  rw [findObjectByName, Option.bind_eq_some_iff]
  constructor
  · rintro ⟨⟨id, p⟩, hit, ho⟩
    obtain ⟨⟨hp, hname⟩, hleast⟩ := (hfirst _).1 hit
    obtain ⟨o', ho', hid, _⟩ := m.objects.keyed hp
    cases ho.symm.trans ho'
    cases hid
    refine ⟨(lookup_of_byId hp).trans ho, ?_, hleast⟩
    rw [nameOf, lookup_of_byId hp, ho] at hname
    exact Option.some.inj hname
  · rintro ⟨ho, hname, hleast⟩
    obtain ⟨p, hp, hmemory, _⟩ := ObjectStore.lookup_eq_some ho
    refine ⟨(o.id, p), (hfirst _).2 ⟨⟨hp, ?_⟩, hleast⟩, hmemory⟩
    exact nameOf_eq_some.2 ⟨o, ho, hname⟩

/-! ## The roster of a manager -/

/-- The roster lists the objects of the manager. -/
structure Lists (r : Roster) (m : ObjectManager σ) : Prop where
  entries : ∀ serial name, (serial, name) ∈ r.entries ↔
    ∃ id : ObjectId, id.val = serial ∧ m.nameOf id = some name
  sorted : r.entries.Pairwise (·.1 < ·.1)
  below : ∀ e ∈ r.entries, e.1 < r.next
  nextId : m.nextId = Fin.ofNat (2 ^ 32) r.next

section
variable {r : Roster}

/-- Nothing is there. -/
theorem lists_nil {n : Nat} (hnone : ∀ id, m.nameOf id = none)
    (hnext : m.nextId = Fin.ofNat (2 ^ 32) n) : Lists ⟨[], n⟩ m where
  entries serial name := by
    constructor
    · intro hmem
      cases hmem
    · rintro ⟨id, _, hid⟩
      cases (hnone id).symm.trans hid
  sorted := .nil
  below := List.forall_mem_nil _
  nextId := hnext

theorem Lists.mem (h : Lists r m) {name : String} :
    (id.val, name) ∈ r.entries ↔ m.nameOf id = some name := by
  rw [h.entries]
  constructor
  · rintro ⟨id', hid, hname⟩
    rwa [← Fin.ext hid]
  · exact fun hname => ⟨id, rfl, hname⟩

theorem Lists.mem_serials (h : Lists r m) :
    id.val ∈ r.entries.map (·.1) ↔ (m.nameOf id).isSome := by
  rw [Option.isSome_iff_exists, List.mem_map]
  constructor
  · rintro ⟨⟨serial, name⟩, hmem, rfl⟩
    exact ⟨name, h.mem.1 hmem⟩
  · rintro ⟨name, hname⟩
    exact ⟨(id.val, name), h.mem.2 hname, rfl⟩

/-- The next id, while the ids have not gone round. -/
theorem Lists.val_nextId (h : Lists r m) (hfew : r.next < 2 ^ 32) : m.nextId.val = r.next := by
  rw [h.nextId]
  exact Nat.mod_eq_of_lt hfew

/-- The same objects are there. -/
theorem Lists.of_nameOf (h : Lists r m) (hname : ∀ id, m'.nameOf id = m.nameOf id)
    (hnext : m'.nextId = m.nextId) : Lists r m' where
  entries serial name := by
    rw [h.entries]
    simp only [hname]
  sorted := h.sorted
  below := h.below
  nextId := hnext.trans h.nextId

/-- A new object. -/
theorem Lists.create (h : Lists r m) (hfew : r.next < 2 ^ 32) {name : String}
    (hname : ∀ id, m'.nameOf id = if id = m.nextId then some name else m.nameOf id)
    (hnext : m'.nextId = m.nextId + 1) : Lists (r.create name) m' where
  entries serial name' := by
    have hval := h.val_nextId hfew
    rw [Roster.create, List.mem_append, List.mem_singleton, h.entries]
    constructor
    · rintro (⟨id, rfl, hid⟩ | hnew)
      · refine ⟨id, rfl, ?_⟩
        have hlt : id.val < r.next := h.below _ (h.mem.2 hid)
        rw [hname, if_neg fun heq => Nat.ne_of_lt hlt (by rw [heq, hval]), hid]
      · obtain ⟨rfl, rfl⟩ := Prod.mk.inj hnew
        exact ⟨m.nextId, hval, by rw [hname, if_pos rfl]⟩
    · rintro ⟨id, rfl, hid⟩
      rw [hname] at hid
      split at hid
      · next heq =>
        cases hid
        exact .inr (by rw [heq, hval])
      · exact .inl ⟨id, rfl, hid⟩
  sorted := by
    refine List.pairwise_append.2 ⟨h.sorted, List.pairwise_singleton .., fun e he e' he' => ?_⟩
    cases List.mem_singleton.1 he'
    exact h.below e he
  below e he := by
    rcases List.mem_append.1 he with he | he
    · exact Nat.lt_succ_of_lt (h.below e he)
    · cases List.mem_singleton.1 he
      exact Nat.lt_succ_self _
  nextId := by
    rw [hnext, h.nextId]
    exact Fin.ext (by simp [Roster.create, Fin.val_add])

/-- An object less. -/
theorem Lists.remove (h : Lists r m)
    (hname : ∀ id', m'.nameOf id' = if id' = id then none else m.nameOf id')
    (hnext : m'.nextId = m.nextId) : Lists (r.remove id.val) m' where
  entries serial name := by
    rw [Roster.remove, List.mem_filter, h.entries, decide_eq_true_eq]
    constructor
    · rintro ⟨⟨id', rfl, hid'⟩, hne⟩
      exact ⟨id', rfl, by rw [hname, if_neg fun heq => hne (congrArg Fin.val heq), hid']⟩
    · rintro ⟨id', rfl, hid'⟩
      rw [hname] at hid'
      split at hid'
      · cases hid'
      · next hne => exact ⟨⟨id', rfl, hid'⟩, fun heq => hne (Fin.ext heq)⟩
  sorted := h.sorted.filter _
  below e he := h.below e (List.mem_filter.1 he).1
  nextId := hnext.trans h.nextId

/-- The answers are those of the roster. -/
theorem Lists.answersFrom (h : Lists r m) : m.AnswersFrom r := by
  have hbyName : ∀ name, (m.findObjectByName name).map (fun o => (o.id.val, o.name)) =
      r.find name := by
    intro name
    refine Option.ext fun ⟨serial, name'⟩ => ?_
    rw [Option.map_eq_some_iff, Roster.find, ← List.head?_filter,
      OrdMap.head?_eq_some_iff (h.sorted.filter _)]
    simp only [List.mem_filter, decide_eq_true_eq, Prod.forall, and_imp, Prod.mk.injEq,
      findObjectByName_eq_some]
    constructor
    · rintro ⟨o, ⟨ho, rfl, hleast⟩, rfl, rfl⟩
      refine ⟨⟨h.mem.2 (nameOf_eq_some.2 ⟨o, ho, rfl⟩), rfl⟩, fun serial name hmem hname => ?_⟩
      obtain ⟨id, rfl, hid⟩ := (h.entries _ _).1 hmem
      exact hleast id (hname ▸ hid)
    · rintro ⟨⟨hmem, rfl⟩, hleast⟩
      obtain ⟨id, rfl, hid⟩ := (h.entries _ _).1 hmem
      obtain ⟨o, ho, hname⟩ := nameOf_eq_some.1 hid
      obtain ⟨_, _, _, rfl, _⟩ := ObjectStore.lookup_eq_some ho
      exact ⟨o, ⟨ho, hname, fun id hid => hleast id.val name' (h.mem.2 hid) rfl⟩, rfl, hname⟩
  have hbyId : ∀ id, (m.findObjectById id).map (·.name) = r.nameOf id.val := by
    intro id
    refine Option.ext fun name => ?_
    rw [Roster.nameOf, OrdMap.find?_eq_some_iff_mem h.sorted]
    exact h.mem.symm
  have hscript : ∀ found : Option (GameObject σ),
      (∀ o, found = some o → m.objects.lookup o.id = some o) →
        (found.bind fun object => object.contents.map (·.script)).isSome = found.isSome := by
    rintro (_ | o) hfound
    · rfl
    · obtain ⟨_, _, _, _, halive⟩ := ObjectStore.lookup_eq_some (hfound o rfl)
      rw [Option.bind_some, Option.isSome_map, halive, Option.isSome_some]
  refine ⟨hbyName, hbyId, fun name => ?_, fun id => ?_, fun name => ?_, fun id => ?_⟩
  · rw [← hbyName, Option.isSome_map]
    exact hscript _ fun o ho => (findObjectByName_eq_some.1 ho).1
  · rw [← hbyId, Option.isSome_map]
    refine hscript _ fun o ho => ?_
    obtain ⟨_, _, _, rfl, _⟩ := ObjectStore.lookup_eq_some ho
    exact ho
  · rw [← hbyName, Option.isSome_map]
    rfl
  · rw [← hbyId, Option.isSome_map]
    rfl

/-! ## What the operations do to the names -/

theorem Created.nameOf {cell : Cell m} {typeName name : String} {o : GameObject σ}
    (h : m.Created H cell typeName name o m') (id : ObjectId) :
    m'.nameOf id = if id = m.nextId then some name else m.nameOf id := by
  rw [ObjectManager.nameOf, h.lookup]
  split
  · rw [Option.map_some, h.name]
  · rfl

theorem nameOf_setContents (id : ObjectId) (c : Contents σ) (id' : ObjectId) :
    nameOf { m with objects := m.objects.setContents id c } id' = m.nameOf id' := by
  simp only [nameOf, ObjectStore.lookup_setContents]
  split
  · next heq =>
    rw [heq, Option.map_map]
    rfl
  · rfl

theorem nameOf_remove (id : ObjectId) (f : GameObject σ → GameObject σ) (id' : ObjectId) :
    nameOf { m with objects := m.objects.remove id f } id' =
      if id' = id then none else m.nameOf id' := by
  rw [nameOf, ObjectStore.lookup_remove]
  split <;> rfl

theorem nameOf_touchType (typeName : String) (id : ObjectId) :
    (m.touchType typeName).nameOf id = m.nameOf id := by
  unfold touchType
  split <;> rfl

/-- An object that is not known is created under the next id. -/
theorem deserializeOne_nameOf {alloc : Allocator σ} {object : ProtoGameObject}
    (h : deserializeOne H alloc m object = .ok m') :
    (m.nameOf object.id).isSome ∧ (∀ id, m'.nameOf id = m.nameOf id) ∧ m'.nextId = m.nextId ∨
      m.nameOf object.id = none ∧
        (∀ id, m'.nameOf id = if id = m.nextId then some (object.name.getD "") else m.nameOf id) ∧
        m'.nextId = m.nextId + 1 := by
  unfold deserializeOne at h
  split at h
  · next hnone =>
    obtain ⟨⟨o, m1⟩, hcreate, hread⟩ := bind_eq_ok.1 h
    have hcreated := createObject_eq_ok hcreate
    obtain ⟨_, _, c', _, _, _, rfl⟩ := readContents_eq_ok hread
    refine .inr ⟨by rw [nameOf, ObjectStore.lookup, hnone]; rfl, fun id => ?_,
      by simpa using hcreated.nextId⟩
    rw [nameOf_setContents, hcreated.nameOf, nextId_touchType, nameOf_touchType]
  · next p hp =>
    obtain ⟨o, _, c', _, _, _, rfl⟩ := readContents_eq_ok h
    refine .inl ⟨?_, nameOf_setContents _ _, rfl⟩
    rw [nameOf, Option.isSome_map, ObjectStore.lookup_isSome]
    exact OrdMap.mem_keys.2 ⟨p, hp⟩

theorem Lists.hear (h : Lists r m) {alloc : Allocator σ} {object : ProtoGameObject}
    (hone : deserializeOne H alloc m object = .ok m')
    (hfew : (r.hear object.id.val (object.name.getD "")).next ≤ 2 ^ 32) :
    Lists (r.hear object.id.val (object.name.getD "")) m' := by
  obtain ⟨hknown, hsame, hnext⟩ | ⟨hnone, hnew, hnext⟩ := deserializeOne_nameOf hone
  · rw [Roster.hear, if_pos (h.mem_serials.2 hknown)]
    exact h.of_nameOf hsame hnext
  · have hnot : object.id.val ∉ r.entries.map (·.1) := by
      rw [h.mem_serials, hnone]
      exact Bool.false_ne_true
    rw [Roster.hear, if_neg hnot] at hfew ⊢
    exact h.create (Nat.lt_of_succ_le hfew) hnew hnext

theorem Lists.hearAll {alloc : Allocator σ} {objectSet : List ProtoGameObject} (h : Lists r m)
    (hall : objectSet.foldlM (deserializeOne H alloc) m = .ok m')
    (hfew : (objectSet.foldl
      (fun r object => r.hear object.id.val (object.name.getD "")) r).next ≤ 2 ^ 32) :
    Lists (objectSet.foldl (fun r object => r.hear object.id.val (object.name.getD "")) r) m' := by
  induction objectSet generalizing r m with
  | nil =>
    cases hall
    exact h
  | cons object objectSet ih =>
    rw [List.foldlM_cons] at hall
    obtain ⟨m1, hone, hrest⟩ := bind_eq_ok.1 hall
    have hle := Roster.next_foldl_hear objectSet (r.hear object.id.val (object.name.getD ""))
    exact ih (h.hear hone (hle.trans hfew)) hrest hfew

/-- In every step, while the ids have not gone round. -/
theorem Lists.step {op : DirectoryOp σ} (h : Lists r m) (hfew : (r.after op).next ≤ 2 ^ 32)
    (hstep : m.directoryStep H op = some m') : Lists (r.after op) m' := by
  cases op with
  | store op =>
    cases step_cases hstep with
    | created hfresh hcreated =>
      exact h.create (Nat.lt_of_succ_le hfew) hcreated.nameOf hcreated.nextId
    | removed hp => exact h.remove (nameOf_remove _ _) rfl
    | absent hnone =>
      refine h.remove (fun id' => ?_) rfl
      split
      · next heq =>
        rw [heq, nameOf, ObjectStore.lookup, hnone]
        rfl
      · rfl
    | mutated hp ho hclass => exact h.of_nameOf (nameOf_setContents _ _) rfl
  | clear =>
    cases hstep
    exact lists_nil (fun _ => rfl) h.nextId
  | deserialize alloc objectSet =>
    have hdeserialize : m.deserialize H alloc objectSet = .ok m' := by
      rw [directoryStep] at hstep
      cases hresult : m.deserialize H alloc objectSet with
      | error e =>
        rw [hresult] at hstep
        cases hstep
      | ok m2 =>
        rw [hresult] at hstep
        cases hstep
        rfl
    obtain ⟨m1, hall, heq⟩ := bind_eq_ok.1 hdeserialize
    cases heq
    exact (h.hearAll hall hfew).of_nameOf (fun _ => rfl) rfl

/-- **Scripts see a roster.** In every run of a manager, with any creations, removals, mutations,
updates received and clearings, as long as the ids have not gone round: asked for a name, the
manager finds the oldest object there is with it, asked for an id, that object, and nothing if there
is none. -/
theorem answers_from_roster (registeredTypes : OrdMap String ScriptObjectInfo)
    {ops : List (DirectoryOp σ)} {s : ObjectManager σ × Roster}
    (hrun : run (rosterStep H) ({ registeredTypes }, {}) ops = some s)
    (hfew : s.2.next ≤ 2 ^ 32) : s.1.AnswersFrom s.2 := by
  have hlists : s.2.next ≤ 2 ^ 32 → Lists s.2 s.1 := run_invariant
    (fun s : ObjectManager σ × Roster => s.2.next ≤ 2 ^ 32 → Lists s.2 s.1)
    (fun s op s' h hstep hfew => by
      obtain ⟨m', hm', rfl⟩ := Option.map_eq_some_iff.1 hstep
      exact (h ((s.2.next_after op).trans hfew)).step hfew hm')
    (fun _ => lists_nil (fun _ => rfl) rfl) hrun
  exact (hlists hfew).answersFrom

/-- Of two characters of one name, when the first is gone, the second is found. -/
theorem answers_from_roster_namesake :
    ∃ ops s, run (rosterStep testModule.host) ({ registeredTypes := testTypes }, {}) ops = some s ∧
      s.2.entries = [(1, "geyloard")] ∧
      (s.1.findObjectByName "geyloard").map (fun o => (o.id.val, o.name)) =
        some (1, "geyloard") ∧
      s.1.asObjectExistsById 0 = false := by
  have hrun : run (rosterStep testModule.host) ({ registeredTypes := testTypes }, {})
      [.store (.createObject 0 ⟨List.replicate 16 0, Matrix4.length_zeros⟩ "Character" "geyloard"),
        .store (.createObject 1 ⟨List.replicate 16 0, Matrix4.length_zeros⟩ "Character" "geyloard"),
        .store (.removeObject 0)] = some (_, ⟨[(1, "geyloard")], 2⟩) := rfl
  have hanswers := answers_from_roster testTypes hrun (by decide)
  exact ⟨_, _, hrun, rfl, hanswers.byName "geyloard", hanswers.existsById 0⟩

end

end ObjectManager

end NetSiege
