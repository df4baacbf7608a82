import Mathlib.Data.Finset.Card
import Mathlib.Data.Fintype.Card
import NetSiege.Lib.MapIterator
import NetSiege.Oms.ObjectIdentity

/-!
# A frame (`ObjectManager::step`)

`ObjectManager::step` walks over `m_objectsById` and calls `step` on every object it meets. The
iterator is moved on before the call, so that an object may remove itself; what it stands on during
the call is the object whose turn is next, and nothing keeps the called script from removing that
one (`StepPass.eachOnce_iff`).
-/

namespace NetSiege

open Lib

namespace ObjectManager

variable {σ V : Type} {H : ScriptHost σ V}

/-- `ObjectManager::step` in progress, with the objects `step` was called on so far. -/
structure StepPass (σ : Type) where
  process : Process σ
  it : Iter ObjectId
  stepped : List (ObjectId × Ptr) := []

/-- The loop takes a turn, or the script of the object whose turn it is does something. -/
inductive StepInput where
  | turn
  | script (action : Action)

namespace StepPass

variable {s s' : StepPass σ} {inputs : List StepInput} {e : ObjectId × Ptr}

/-- The objects of the store, in the order of the loop. -/
def store (s : StepPass σ) : OrdMap ObjectId Ptr := s.process.manager.objects.byId

/-- Where the loop begins. -/
def start (process : Process σ) : StepPass σ where
  process
  it := .begin process.manager.objects.byId

/-- `auto obj = it->second; it++; obj->step(dt)`, up to what the script does. There is no turn at
`end()`, and none with an iterator that was invalidated. -/
def turn (s : StepPass σ) : Option (StepPass σ) :=
  if s.it.valid then
    match s.it.key with
    | none => none
    | some id =>
      match s.store.find? id with
      | none => none
      | some obj => some { s with it := .next s.store id, stepped := s.stepped ++ [(id, obj)] }
  else none

/-- An action erases the entry under the id. -/
def erases (action : Action) (id : ObjectId) : Bool :=
  match action with
  | .removeObject id' => id = id'
  | .clear => true
  | _ => false

/-- A step of the pass. -/
def step (H : ScriptHost σ V) (s : StepPass σ) : StepInput → Option (StepPass σ)
  | .turn => s.turn
  | .script action => (s.process.step H action).map fun process =>
      { s with process, it := s.it.erase (erases action) }

/-- A property of all states of a pass. -/
def Always (H : ScriptHost σ V) (process : Process σ) (inputs : List StepInput)
    (Q : StepPass σ → Prop) : Prop :=
  ∀ pre s, pre <+: inputs → run (step H) (start process) pre = some s → Q s

/-- The object was gone before its turn came. -/
def Gone (H : ScriptHost σ V) (process : Process σ) (inputs : List StepInput)
    (e : ObjectId × Ptr) : Prop :=
  ¬ Always H process inputs fun s => (∀ v ∈ s.stepped, v.1 < e.1) → e ∈ s.store.entries

/-- The pass never uses an iterator that was invalidated: as long as it has not come to `end()` it
goes on, to an object that is in the store. It calls `step` on no object twice, takes a turn for
each id at most, and has called `step` when it comes to `end()` on all objects that were in the
store when it began and when their turn came. -/
structure EachOnce (H : ScriptHost σ V) (process : Process σ) (inputs : List StepInput) :
    Prop where
  valid : Always H process inputs fun s => s.it.valid = true
  goesOn : Always H process inputs fun s => ∀ id, s.it.key = some id →
    ∃ obj s', s.store.find? id = some obj ∧ s.turn = some s' ∧ s'.stepped = s.stepped ++ [(id, obj)]
  once : Always H process inputs fun s => s.stepped.Pairwise (·.1 < ·.1)
  ends : Always H process inputs fun s => s.stepped.length ≤ 2 ^ 32
  complete : Always H process inputs fun s => s.it.key = none →
    ∀ e ∈ process.manager.objects.byId.entries, e ∈ s.stepped ∨ Gone H process inputs e

/-- The script leaves the object whose turn is next in the store. -/
def SparesNext (s : StepPass σ) : StepInput → Prop
  | .turn => True
  | .script action => ∀ id, s.it.key = some id → erases action id = false

theorem turn_eq_some (h : s.turn = some s') : ∃ id obj, s.it.key = some id ∧
    s.store.find? id = some obj ∧
    s' = { s with it := .next s.store id, stepped := s.stepped ++ [(id, obj)] } := by
  unfold turn at h
  split at h
  · split at h
    · cases h
    · next id hid =>
      split at h
      · cases h
      · next obj hobj =>
        cases h
        exact ⟨id, obj, hid, hobj, rfl⟩
  · cases h

theorem turn_of {id : ObjectId} {obj : Ptr} (hvalid : s.it.valid = true) (hid : s.it.key = some id)
    (hobj : s.store.find? id = some obj) :
    s.turn = some { s with it := .next s.store id, stepped := s.stepped ++ [(id, obj)] } := by
  simp only [turn, hvalid, hid, hobj, if_true]

/-- Only what an action erases leaves the store. -/
theorem mem_keys_of_action {process process' : Process σ} {action : Action} {id : ObjectId}
    (h : process.step H action = some process') (hid : id ∈ process.manager.objects.byId.keys)
    (herases : erases action id = false) : id ∈ process'.manager.objects.byId.keys := by
  cases Process.step_cases h with
  | began hbyId => rwa [hbyId]
  | initialised _ hbyId =>
    rw [hbyId]
    exact OrdMap.mem_keys_insert.2 (.inr hid)
  | removed _ hbyId =>
    obtain ⟨p, hp⟩ := OrdMap.mem_keys.1 hid
    refine OrdMap.mem_keys.2 ⟨p, ?_⟩
    rw [hbyId, if_neg (of_decide_eq_false herases), hp]
  | kept hbyId => rwa [hbyId]
  | cleared => cases herases
  | othersCreated => exact hid

/-- An iterator that is valid after the step was spared. What erases entries always happens. -/
theorem sparesNext_of_valid {i : StepInput}
    (h : ∀ s', s.step H i = some s' → s'.it.valid = true) : s.SparesNext i := by
  cases i with
  | turn => trivial
  | script action =>
    intro id hid
    cases hstep : s.process.step H action with
    | some process =>
      exact (Iter.erase_valid_iff.1 (h _ (Option.map_eq_some_iff.2 ⟨process, hstep, rfl⟩))).2 id hid
    | none =>
      cases action with
      | removeObject | clear => cases hstep
      | createObject | initialised | deserialize | deserializeNext | flushUpdateCache
      | othersCreate => rfl

/-! ## What the pass preserves -/

/-- The iterator leads to an object of the store, and the ids go up. -/
structure Inv (s : StepPass σ) : Prop where
  valid : s.it.valid = true
  mem : ∀ id, s.it.key = some id → id ∈ s.store.keys
  sorted : s.stepped.Pairwise (·.1 < ·.1)
  ahead : ∀ id, s.it.key = some id → ∀ v ∈ s.stepped, v.1 < id

theorem Inv.start (process : Process σ) : (start process).Inv where
  valid := rfl
  mem _ hid := OrdMap.mem_of_firstKey? hid
  sorted := .nil
  ahead _ _ _ hv := nomatch hv

theorem Inv.turn (hs : s.Inv) (h : s.turn = some s') : s'.Inv := by
  obtain ⟨id, obj, hid, hobj, rfl⟩ := turn_eq_some h
  have hahead := hs.ahead id hid
  exact {
    valid := rfl
    mem := fun id' hid' => OrdMap.mem_of_nextKey? hid'
    sorted := List.pairwise_append.2 ⟨hs.sorted, List.pairwise_singleton _ _,
      fun v hv w hw => by
        rw [List.mem_singleton.1 hw]
        exact hahead v hv⟩
    ahead := fun id' hid' v hv => by
      have hlt : id < id' := OrdMap.lt_of_nextKey? hid'
      rcases List.mem_append.1 hv with hv | hv
      · exact lt_trans (hahead v hv) hlt
      · rwa [List.mem_singleton.1 hv] }

theorem Inv.step {i : StepInput} (hs : s.Inv) (hspares : s.SparesNext i)
    (h : s.step H i = some s') : s'.Inv := by
  cases i with
  | turn => exact hs.turn h
  | script action =>
    obtain ⟨process, hstep, rfl⟩ := Option.map_eq_some_iff.1 h
    exact {
      valid := Iter.erase_valid_iff.2 ⟨hs.valid, hspares⟩
      mem := fun id hid => mem_keys_of_action hstep (hs.mem id hid) (hspares id hid)
      sorted := hs.sorted
      ahead := hs.ahead }

theorem always_inv {process : Process σ}
    (h : Along (StepPass.step H) SparesNext (start process) inputs) :
    Always H process inputs Inv :=
  (forall_prefix_iff_along (.start process)).2 <|
    h.imp_of_invariant Inv (fun _ _ _ hs hspares hstep => hs.step hspares hstep)
      (fun _ _ hs hspares _ hstep => hs.step hspares hstep) (.start process)

/-- Strictly increasing ids are no more than there are ids. -/
theorem Inv.length_le (hs : s.Inv) : s.stepped.length ≤ 2 ^ 32 := by
  have hnodup : (s.stepped.map (·.1)).Nodup :=
    (List.pairwise_map.2 hs.sorted).imp fun h => ne_of_lt h
  have hcard := hnodup.length_le_card
  rwa [List.length_map, Fintype.card_fin] at hcard

/-- The object has been stepped, or the iterator has not passed it. -/
def Due (e : ObjectId × Ptr) (s : StepPass σ) : Prop :=
  e ∈ s.stepped ∨ (∀ v ∈ s.stepped, v.1 < e.1) ∧ ∃ id, s.it.key = some id ∧ id ≤ e.1

theorem Due.start {process : Process σ} (he : e ∈ process.manager.objects.byId.entries) :
    Due e (start process) := by
  obtain ⟨id, hid, hle⟩ := OrdMap.exists_firstKey? (List.mem_map.2 ⟨e, he, rfl⟩)
  exact .inr ⟨nofun, id, hid, hle⟩

theorem Due.turn (hdue : Due e s) (he : (∀ v ∈ s.stepped, v.1 < e.1) → e ∈ s.store.entries)
    (h : s.turn = some s') : Due e s' := by
  obtain ⟨id, obj, hid, hobj, rfl⟩ := turn_eq_some h
  rcases hdue with hmem | ⟨hbefore, id', hid', hle⟩
  · exact .inl (List.mem_append_left _ hmem)
  obtain rfl := Option.some.inj (hid.symm.trans hid')
  have hstore := he hbefore
  rcases lt_or_eq_of_le hle with hlt | rfl
  · obtain ⟨next, hnext, hle⟩ := OrdMap.exists_nextKey? (List.mem_map.2 ⟨e, hstore, rfl⟩) hlt
    refine .inr ⟨fun v hv => ?_, next, hnext, hle⟩
    rcases List.mem_append.1 hv with hv | hv
    · exact hbefore v hv
    · rwa [List.mem_singleton.1 hv]
  · have hobj' : s.store.find? e.1 = some e.2 := OrdMap.mem_entries.1 hstore
    obtain rfl : obj = e.2 := Option.some.inj (hobj.symm.trans hobj')
    exact .inl (List.mem_append_right _ List.mem_cons_self)

theorem Due.step {i : StepInput} (hdue : Due e s)
    (he : (∀ v ∈ s.stepped, v.1 < e.1) → e ∈ s.store.entries) (h : s.step H i = some s') :
    Due e s' := by
  cases i with
  | turn => exact hdue.turn he h
  | script action =>
    obtain ⟨process, _, rfl⟩ := Option.map_eq_some_iff.1 h
    exact hdue

/-- An object that stays until its turn is not passed over. -/
theorem always_due {process : Process σ} (he : e ∈ process.manager.objects.byId.entries)
    (hstays : Always H process inputs fun s =>
      (∀ v ∈ s.stepped, v.1 < e.1) → e ∈ s.store.entries) :
    Always H process inputs (Due e) := by
  have halong : Along (StepPass.step H) (fun s _ => (∀ v ∈ s.stepped, v.1 < e.1) →
      e ∈ s.store.entries) (StepPass.start process) inputs :=
    along_iff_forall_split.2 fun pre i post hsplit s hs => hstays pre s ⟨i :: post, hsplit.symm⟩ hs
  exact (forall_prefix_iff_along (.start he)).2 <|
    halong.imp_of_invariant (Due e) (fun _ _ _ hdue hmem hstep => hdue.step hmem hstep)
      (fun _ _ hdue hmem _ hstep => hdue.step hmem hstep) (.start he)

/-- **A frame.** The pass over the objects steps each of them once if and only if no script removes
the object whose turn is next. -/
theorem eachOnce_iff (process : Process σ) (inputs : List StepInput) :
    EachOnce H process inputs ↔ Along (step H) SparesNext (start process) inputs := by
  constructor
  · intro h
    have hvalid : Along (step H) (fun s i => ∀ s', s.step H i = some s' → s'.it.valid = true)
        (start process) inputs :=
      (forall_prefix_iff_along (Q := fun s : StepPass σ => s.it.valid = true) rfl).1 h.valid
    exact hvalid.imp_of_invariant (fun _ => True) (fun _ _ _ _ _ _ => trivial)
      (fun s i _ hstep => sparesNext_of_valid hstep) trivial
  · intro h
    have hinv := always_inv h
    exact {
      valid := fun pre s hpre hs => (hinv pre s hpre hs).valid
      goesOn := fun pre s hpre hs id hid => by
        have hs := hinv pre s hpre hs
        obtain ⟨obj, hobj⟩ := OrdMap.mem_keys.1 (hs.mem id hid)
        exact ⟨obj, _, hobj, turn_of hs.valid hid hobj, rfl⟩
      once := fun pre s hpre hs => (hinv pre s hpre hs).sorted
      ends := fun pre s hpre hs => (hinv pre s hpre hs).length_le
      complete := fun pre s hpre hs hend e he => by
        refine or_iff_not_imp_right.2 fun hgone => ?_
        have hdue := always_due he (not_not.1 hgone) pre s hpre hs
        refine hdue.resolve_right fun ⟨_, id, hid, _⟩ => ?_
        rw [hend] at hid
        cases hid }

theorem oneCharacter_fresh (id : ObjectId) :
    (oneCharacter 0).objects.byId.find? id ≠ some 2 := by
  intro h
  change ((∅ : OrdMap ObjectId Ptr).insert 0 1).find? id = some 2 at h
  rw [OrdMap.find?_insert] at h
  split at h <;> cases h

/-- The characters 0 and 1. -/
def twoCharacters : Process testModule.Object where
  manager := { oneCharacter 0 with
    objects :=
      (oneCharacter 0).objects.publish 2 (geyloard 1) (alive_geyloard 1) oneCharacter_fresh
    nextId := 2 }
  created := 2

/-- The first one removes the second in its step, and the loop is left with an iterator to it. -/
theorem not_eachOnce_removed :
    ¬ EachOnce testModule.host twoCharacters [.turn, .script (.removeObject 1)] := by
  intro h
  have hvalid := h.valid [.turn, .script (.removeObject 1)] _ (List.prefix_refl _) rfl
  revert hvalid
  decide

end StepPass

end ObjectManager

end NetSiege
