import NetSiege.Network.WorldState

/-!
# The pending sets between two flushes (`objectmanager.cpp`)

The pending sets of a manager are to record what happened since the last flush: the objects created,
the objects altered and the ids removed. An `Interval` keeps beside the manager what did happen.
`removeObject` leaves the sets of new and of altered objects as they are, so the record is right
exactly as long as no object in them is taken out of the store (`Interval.consistent_iff`).
-/

namespace NetSiege

open Lib

namespace ObjectManager

variable {σ V : Type} {H : ScriptHost σ V} {m m' : ObjectManager σ} {id : ObjectId} {p : Ptr}

/-- A call of a manager. A creation comes with the memory it gets, `addUpdatedObject` with the id of
the live object it is given. -/
inductive Call where
  | createObject (address : Ptr) (garbage : Matrix4) (typeName name : String)
  | removeObject (id : ObjectId)
  | addUpdatedObject (id : ObjectId)
  | clear
  | serializeChanges
  | flushUpdateCache

/-- A manager, and what happened to it since the last flush: the objects it created, the ids
`removeObject` removed and the ids whose objects `clear` dropped. -/
structure Interval (σ : Type) where
  manager : ObjectManager σ
  created : List Ptr := []
  removed : List ObjectId := []
  cleared : List ObjectId := []

/-- The objects `serializeChanges` serializes. -/
def serialized (m : ObjectManager σ) : List Ptr := m.newObjects.keys ++ m.alteredOnly

theorem isPending_of_serialized (h : p ∈ m.serialized) : m.IsPending p :=
  (List.mem_append.1 h).imp_right fun h => (List.mem_filter.1 h).1

theorem exists_live_iff : (∃ o, m.Live p o) ↔ m.InWorld p := by
  constructor
  · exact fun ⟨o, ho⟩ => ⟨o.id, ho.2⟩
  · intro ⟨id, hid⟩
    obtain ⟨o, ho, -⟩ := live_of_byId hid
    exact ⟨o, ho⟩

namespace Interval

variable {s s' : Interval σ} {call : Call}

/-- A call and its effect. There is no next state if the call traps, or if there is no such object
to update. -/
def next (H : ScriptHost σ V) (s : Interval σ) : Call → Option (Interval σ)
  | .createObject address garbage typeName name =>
    (step H s.manager (.createObject address garbage typeName name)).map fun m =>
      { s with manager := m, created := address :: s.created }
  | .removeObject id => some { s with
      manager := s.manager.removeObject H id
      removed := if id ∈ s.manager.ids then id :: s.removed else s.removed }
  | .addUpdatedObject id =>
    (s.manager.objects.byId.find? id).map fun obj =>
      { s with manager := s.manager.addUpdatedObject obj }
  | .clear => some { s with
      manager := s.manager.clear
      cleared := s.manager.ids ++ s.cleared }
  | .serializeChanges => (s.manager.serializeChanges H).toOption.map fun _ => s
  | .flushUpdateCache => some { manager := s.manager.flushUpdateCache }

/-- The pending sets mention live objects only, and record what happened since the last flush. No
object that is serialized has been released. -/
structure Consistent (s : Interval σ) : Prop where
  pending : ∀ p, s.manager.IsPending p → ∃ o, s.manager.Live p o
  newObjects : ∀ p, p ∈ s.manager.newObjects.keys ↔ (∃ o, s.manager.Live p o) ∧ p ∈ s.created
  removedIds : ∀ id, id ∈ s.manager.removedIds.keys ↔ id ∈ s.removed
  serialized : ∀ p ∈ s.manager.serialized,
    ∃ o, s.manager.objects.memory.find? p = some o ∧ o.contents.isSome

/-- The id under which a call takes away the object that is there. -/
def takes (s : Interval σ) : Call → Option ObjectId
  | .createObject .. => some s.manager.nextId
  | .removeObject id => some id
  | _ => none

/-- A call takes away no object that is in a pending set, unless it traps. -/
def Spares (H : ScriptHost σ V) (s : Interval σ) (call : Call) : Prop :=
  ∀ id p, s.takes call = some id → s.manager.objects.byId.find? id = some p →
    s.manager.IsPending p → s.next H call = none

/-- The ids whose objects were dropped are among the removed ones. -/
def RecordsCleared (s : Interval σ) : Prop := ∀ id ∈ s.cleared, id ∈ s.manager.removedIds.keys

/-- `clear` finds no live object whose id is not among the removed ones already. -/
def ClearsRemoved (s : Interval σ) (call : Call) : Prop :=
  call = .clear → ∀ id ∈ s.manager.ids, id ∈ s.manager.removedIds.keys

/-- What a call does. -/
inductive NextCases (H : ScriptHost σ V) (s : Interval σ) : Call → Interval σ → Prop
  | created {address : Ptr} {garbage : Matrix4} {typeName name : String} {o : GameObject σ}
      {m' : ObjectManager σ} (h : address ∉ s.manager.references)
      (hcreated : s.manager.Created H ⟨address, garbage, h⟩ typeName name o m') :
      NextCases H s (.createObject address garbage typeName name)
        { s with manager := m', created := address :: s.created }
  | removed {id : ObjectId} {p : Ptr} (hp : s.manager.objects.byId.find? id = some p) :
      NextCases H s (.removeObject id) { s with
        manager := { s.manager with
          objects := s.manager.objects.remove id (·.onRemove H)
          removedIds := s.manager.removedIds.insert id () }
        removed := id :: s.removed }
  | absent {id : ObjectId} (hnone : s.manager.objects.byId.find? id = none) :
      NextCases H s (.removeObject id) s
  | updated {id : ObjectId} {p : Ptr} (hp : s.manager.objects.byId.find? id = some p) :
      NextCases H s (.addUpdatedObject id) { s with manager := s.manager.addUpdatedObject p }
  | cleared :
      NextCases H s .clear { s with
        manager := s.manager.clear
        cleared := s.manager.ids ++ s.cleared }
  | serialized : NextCases H s .serializeChanges s
  | flushed : NextCases H s .flushUpdateCache { manager := s.manager.flushUpdateCache }

theorem next_cases (h : s.next H call = some s') : NextCases H s call s' := by
  cases call with
  | createObject address garbage typeName name =>
    obtain ⟨m', hstep, rfl⟩ := Option.map_eq_some_iff.1 h
    cases step_cases hstep with
    | created hfresh hcreated => exact .created hfresh hcreated
  | removeObject id =>
    cases h
    cases hp : s.manager.objects.byId.find? id with
    | none =>
      have hid : id ∉ s.manager.ids := byId_eq_none_iff.1 hp
      simp only [removeObject, hp, hid, if_false]
      exact .absent hp
    | some p =>
      have hid : id ∈ s.manager.ids := OrdMap.mem_keys.2 ⟨p, hp⟩
      simp only [removeObject, hp, hid, if_true]
      exact .removed hp
  | addUpdatedObject id =>
    obtain ⟨p, hp, rfl⟩ := Option.map_eq_some_iff.1 h
    exact .updated hp
  | clear =>
    cases h
    exact .cleared
  | serializeChanges =>
    obtain ⟨_, _, rfl⟩ := Option.map_eq_some_iff.1 h
    exact .serialized
  | flushUpdateCache =>
    cases h
    exact .flushed

/-! ## What the calls preserve -/

/-- The objects of the pending sets are not released, as they are live. -/
theorem consistent_of (hpending : ∀ p, s.manager.IsPending p → s.manager.InWorld p)
    (hnew : ∀ p, p ∈ s.manager.newObjects.keys ↔ s.manager.InWorld p ∧ p ∈ s.created)
    (hremoved : ∀ id, id ∈ s.manager.removedIds.keys ↔ id ∈ s.removed) : s.Consistent where
  pending p hp := exists_live_iff.2 (hpending p hp)
  newObjects p := by rw [exists_live_iff, hnew]
  removedIds := hremoved
  serialized p hp := by
    obtain ⟨id, hid⟩ := hpending p (isPending_of_serialized hp)
    obtain ⟨o, ho, -, halive⟩ := s.manager.objects.keyed hid
    exact ⟨o, ho, halive⟩

theorem Consistent.inWorld (h : s.Consistent) (hp : s.manager.IsPending p) : s.manager.InWorld p :=
  exists_live_iff.1 (h.pending p hp)

theorem Consistent.mem_newObjects (h : s.Consistent) :
    p ∈ s.manager.newObjects.keys ↔ s.manager.InWorld p ∧ p ∈ s.created := by
  rw [h.newObjects, exists_live_iff]

theorem Consistent.created {cell : Cell s.manager} {typeName name : String} {o : GameObject σ}
    (h : s.Consistent) (hcreated : s.manager.Created H cell typeName name o m')
    (hspares : ∀ p, s.manager.objects.byId.find? s.manager.nextId = some p →
      ¬ s.manager.IsPending p) :
    Consistent { s with manager := m', created := cell.address :: s.created } := by
  -- an object that is pending stays where it is
  have hstays : ∀ {q}, s.manager.IsPending q → m'.InWorld q := fun {q} hq =>
    hcreated.inWorld (fun hid => hspares q hid hq) (h.inWorld hq)
  refine consistent_of (fun q hq => ?_) (fun q => ?_) (fun id => ?_)
  · rcases hcreated.isPending.1 hq with rfl | hq
    · exact hcreated.inWorld_self
    · exact hstays hq
  · rw [hcreated.newObjects, OrdMap.mem_keys_insert, List.mem_cons]
    constructor
    · intro hq
      rcases hq with rfl | hq
      · exact ⟨hcreated.inWorld_self, .inl rfl⟩
      · exact ⟨hstays (.inl hq), .inr (h.mem_newObjects.1 hq).2⟩
    · intro ⟨hin, hq⟩
      rcases hcreated.eq_or_inWorld hin with heq | ⟨hin, _⟩
      · exact .inl heq
      · exact hq.imp_right fun hq => h.mem_newObjects.2 ⟨hin, hq⟩
  · rw [hcreated.removedIds]
    exact h.removedIds id

theorem Consistent.removed (h : s.Consistent) (hid : s.manager.objects.byId.find? id = some p)
    (hp : ¬ s.manager.IsPending p) :
    Consistent { s with
      manager := { s.manager with
        objects := s.manager.objects.remove id (·.onRemove H)
        removedIds := s.manager.removedIds.insert id () }
      removed := id :: s.removed } := by
  have hstays : ∀ {q}, s.manager.IsPending q →
      ∃ id', (s.manager.objects.remove id (·.onRemove H)).byId.find? id' = some q := by
    intro q hq
    refine inWorld_remove_iff.2 ⟨h.inWorld hq, fun hid' => ?_⟩
    rw [hid] at hid'
    exact hp (Option.some.inj hid' ▸ hq)
  refine consistent_of (fun q hq => hstays hq) (fun q => ?_) (fun id' => ?_)
  · constructor
    · exact fun hq => ⟨hstays (.inl hq), (h.mem_newObjects.1 hq).2⟩
    · intro ⟨hin, hq⟩
      exact h.mem_newObjects.2 ⟨(inWorld_remove_iff.1 hin).1, hq⟩
  · rw [OrdMap.mem_keys_insert, List.mem_cons, h.removedIds]

theorem Consistent.updated (h : s.Consistent) (hid : s.manager.objects.byId.find? id = some p) :
    Consistent { s with manager := s.manager.addUpdatedObject p } := by
  refine consistent_of (fun q hq => ?_) (fun q => h.mem_newObjects) h.removedIds
  rcases hq with hq | hq
  · exact h.inWorld (.inl hq)
  · rcases OrdMap.mem_keys_insert.1 hq with rfl | hq
    · exact ⟨id, hid⟩
    · exact h.inWorld (.inr hq)

theorem Consistent.cleared (h : s.Consistent) :
    Consistent { s with manager := s.manager.clear, cleared := s.manager.ids ++ s.cleared } := by
  have hnot : ∀ q, ¬ s.manager.clear.IsPending q := fun q => not_isPending_of_empty rfl rfl
  refine consistent_of (fun q hq => absurd hq (hnot q)) (fun q => ?_) h.removedIds
  exact ⟨fun hq => absurd (.inl hq) (hnot q), fun ⟨⟨_, hid⟩, _⟩ => nomatch hid⟩

theorem consistent_flushed : Consistent { manager := s.manager.flushUpdateCache } := by
  have hnot : ∀ q, ¬ s.manager.flushUpdateCache.IsPending q := fun q =>
    not_isPending_of_empty rfl rfl
  refine consistent_of (fun q hq => absurd hq (hnot q)) (fun q => ?_) (fun id => ⟨nofun, nofun⟩)
  exact ⟨fun hq => absurd (.inl hq) (hnot q), fun ⟨_, hq⟩ => nomatch hq⟩

/-- Calls that spare the pending objects keep the record. -/
theorem Consistent.next (h : s.Consistent) (hspares : s.Spares H call)
    (hnext : s.next H call = some s') : s'.Consistent := by
  have hspares : ∀ id p, s.takes call = some id → s.manager.objects.byId.find? id = some p →
      ¬ s.manager.IsPending p := fun id p htakes hid hp => by
    rw [hspares id p htakes hid hp] at hnext
    cases hnext
  cases next_cases hnext with
  | created hfresh hcreated => exact h.created hcreated fun p => hspares _ p rfl
  | removed hp => exact h.removed hp (hspares _ _ rfl hp)
  | absent => exact h
  | updated hp => exact h.updated hp
  | cleared => exact h.cleared
  | serialized => exact h
  | flushed => exact consistent_flushed

/-- A call that does not spare them breaks it: the pending object is no longer in the store. -/
theorem spares_of_consistent (hnext : ∀ s', s.next H call = some s' → s'.Consistent) :
    s.Spares H call := by
  intro id p htakes hid hp
  cases h : s.next H call with
  | none => rfl
  | some s' =>
    have hs' := hnext s' h
    cases next_cases h with
    | created hfresh hcreated =>
      cases htakes
      have hin := hs'.inWorld (hcreated.isPending.2 (.inr hp))
      exact absurd hid (hcreated.inWorld_of_isPending hp hin).2
    | removed =>
      cases htakes
      exact absurd hid (inWorld_remove_iff.1 (hs'.inWorld (p := p) hp)).2
    | absent hnone =>
      cases htakes
      rw [hid] at hnone
      cases hnone
    | updated => cases htakes
    | cleared => cases htakes
    | serialized => cases htakes
    | flushed => cases htakes

theorem consistent_next_iff (h : s.Consistent) :
    (∀ s', s.next H call = some s' → s'.Consistent) ↔ s.Spares H call :=
  ⟨spares_of_consistent, fun hspares _ hnext => h.next hspares hnext⟩

/-- Dropped ids are on record, unless `clear` drops a live one that is not. -/
theorem recordsCleared_next_iff (h : s.RecordsCleared) :
    (∀ s', s.next H call = some s' → s'.RecordsCleared) ↔ s.ClearsRemoved call := by
  constructor
  · intro hnext hclear id hid
    subst hclear
    exact hnext _ rfl id (List.mem_append_left _ hid)
  · intro hclears s' hnext
    cases next_cases hnext with
    | created hfresh hcreated =>
      intro id hid
      rw [hcreated.removedIds]
      exact h id hid
    | removed => exact fun id hid => OrdMap.mem_keys_insert.2 (.inr (h id hid))
    | absent => exact h
    | updated => exact h
    | cleared =>
      intro id hid
      rcases List.mem_append.1 hid with hid | hid
      · exact hclears rfl id hid
      · exact h id hid
    | serialized => exact h
    | flushed => exact fun id hid => nomatch hid

/-! ## Runs -/

/-- A new manager in a process that has used some ids, with its types. -/
def start (registeredTypes : OrdMap String ScriptObjectInfo) (nextId : ObjectId) : Interval σ :=
  { manager := { registeredTypes, nextId } }

theorem consistent_start (registeredTypes : OrdMap String ScriptObjectInfo) (nextId : ObjectId) :
    (start (σ := σ) registeredTypes nextId).Consistent :=
  consistent_flushed (s := { manager := { registeredTypes, nextId } })

/-- **The pending sets.** In every state of a run they mention live objects only and record what was
created and removed since the last flush, if and only if no call takes away an object that is in one
of them. The ids of the objects that `clear` drops are among the removed ones as well if and only
if, moreover, those of the live objects it finds are. -/
theorem consistent_iff (registeredTypes : OrdMap String ScriptObjectInfo) (nextId : ObjectId)
    (calls : List Call) :
    ((∀ pre s, pre <+: calls → run (next H) (start registeredTypes nextId) pre = some s →
        s.Consistent) ↔
      Along (next H) (Spares H) (start registeredTypes nextId) calls) ∧
    ((∀ pre s, pre <+: calls → run (next H) (start registeredTypes nextId) pre = some s →
        s.Consistent ∧ s.RecordsCleared) ↔
      Along (next H) (fun s call => s.Spares H call ∧ s.ClearsRemoved call)
        (start registeredTypes nextId) calls) := by
  have hstart := consistent_start (σ := σ) registeredTypes nextId
  have hcleared : (start (σ := σ) registeredTypes nextId).RecordsCleared := nofun
  constructor
  · rw [forall_prefix_iff_along hstart]
    exact Along.iff_of_invariant Consistent (fun _ _ s' _ h hnext => h s' hnext)
      (fun _ _ h => consistent_next_iff h) hstart
  · rw [forall_prefix_iff_along (Q := fun s : Interval σ => s.Consistent ∧ s.RecordsCleared)
      ⟨hstart, hcleared⟩]
    refine Along.iff_of_invariant (fun s : Interval σ => s.Consistent ∧ s.RecordsCleared)
      (fun _ _ s' _ h hnext => h s' hnext) (fun s call h => ?_) ⟨hstart, hcleared⟩
    rw [← consistent_next_iff h.1, ← recordsCleared_next_iff h.2]
    exact ⟨fun hnext => ⟨fun s' hs' => (hnext s' hs').1, fun s' hs' => (hnext s' hs').2⟩,
      fun hnext s' hs' => ⟨hnext.1 s' hs', hnext.2 s' hs'⟩⟩

/-- A character is created and removed before the next flush: it is serialized after its release. -/
theorem inconsistent_created_removed : ∃ s : Interval testModule.Object,
    run (next testModule.host) (start testTypes 0)
        [.createObject 1 ⟨List.replicate 16 0, rfl⟩ "Character" "geyloard", .removeObject 0] =
      some s ∧
      1 ∈ s.manager.serialized ∧ s.manager.objects.byId.find? 0 = none ∧
      (s.manager.objects.memory.find? 1).map (·.contents) = some none ∧ ¬ s.Consistent := by
  refine ⟨_, rfl, List.mem_cons_self, rfl, rfl, fun h => ?_⟩
  obtain ⟨id, hid⟩ := h.inWorld (p := 1) (.inl List.mem_cons_self)
  cases hid

end Interval

end ObjectManager

end NetSiege
