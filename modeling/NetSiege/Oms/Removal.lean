import Mathlib.Data.List.Perm.Subperm
import Mathlib.Logic.Relation
import NetSiege.Oms.Replication

/-!
# Removal with cleanup scripts (`ObjectManager::removeObject`, `GameObject::_onRemove`)

`removeObject` runs the `cleanup()` of an object before it erases the object, and a `cleanup()` may
remove objects itself. Until it returns, its own object can still be found: a script that comes back
to it runs the `cleanup()` again. A removal is what it should be exactly when that cannot happen
(`removesOnce_iff`).
-/

namespace NetSiege

open Lib Relation

namespace ObjectManager

variable {σ V : Type}

/-- What the cleanup scripts do: the ids the runs of an object's `cleanup()` pass to
`gameObjectRemove`, in order. -/
abbrev CleanupScripts := ObjectId → Nat → List ObjectId

/-- `_onRemove` runs the `cleanup()` of the object. -/
def runsCleanup (H : ScriptHost σ V) (o : GameObject σ) : Bool :=
  o.contents.isSome && H.hasCleanup o.scriptInfo.className

/-- There is an object under the id, with a `cleanup()`. -/
def hasCleanup (H : ScriptHost σ V) (m : ObjectManager σ) (id : ObjectId) : Bool :=
  (m.objects.lookup id).any (runsCleanup H)

/-- A manager during a removal, with the ids of the objects whose `cleanup()` was run, and of those
erased. -/
structure Removal (σ : Type) where
  manager : ObjectManager σ
  cleanups : List ObjectId := []
  erased : List ObjectId := []

/-- `m_objectsById.erase(it)` and what follows, after the cleanup. The iterator is one only as long
as the entry is there. -/
def Removal.erase (H : ScriptHost σ V) (s : Removal σ) (id : ObjectId) (obj : Ptr) :
    Except (Option Trap) (Removal σ) :=
  if s.manager.objects.byId.find? id = some obj then
    .ok { s with manager := s.manager.removeObject H id, erased := s.erased ++ [id] }
  else .error (some .outOfBounds)

/-- `ObjectManager::removeObject`, with at most `depth` calls inside each other. -/
def removeNested (H : ScriptHost σ V) (scripts : CleanupScripts) :
    Nat → Removal σ → ObjectId → Except (Option Trap) (Removal σ)
  | 0, _, _ => .error none
  | depth + 1, s, id =>
    match s.manager.objects.byId.find? id with
    | none => .ok s
    | some obj =>
      let onRemove : Except (Option Trap) (Removal σ) :=
        if s.manager.hasCleanup H id then
          (scripts id (s.cleanups.count id)).foldlM (removeNested H scripts depth)
            { s with cleanups := s.cleanups ++ [id] }
        else .ok s
      onRemove >>= (·.erase H id obj)

/-- The removal of `id` from `m` has erased every object it removed once, has run the cleanup of
each once, also counting their later destruction, and has recorded their ids and no others. -/
structure Removal.Exact (H : ScriptHost σ V) (m : ObjectManager σ) (id : ObjectId)
    (s : Removal σ) : Prop where
  removed : id ∈ m.ids → id ∈ s.erased
  once : s.erased.Nodup
  cleanups : ∀ x, s.cleanups.count x = if x ∈ s.erased ∧ m.hasCleanup H x then 1 else 0
  ids : ∀ x, x ∈ s.manager.ids ↔ x ∈ m.ids ∧ x ∉ s.erased
  removedIds : ∀ x, x ∈ s.manager.removedIds.keys ↔ x ∈ m.removedIds.keys ∨ x ∈ s.erased
  destruction : ∀ x ∈ s.erased, ∃ p, m.objects.byId.find? x = some p ∧
    ∀ o, s.manager.objects.memory.find? p = some o → runsCleanup H o = false

/-- `removeObject` returns, and does what it should. -/
def RemovesOnce (H : ScriptHost σ V) (scripts : CleanupScripts) (m : ObjectManager σ)
    (id : ObjectId) : Prop :=
  ∃ depth s, removeNested H scripts depth { manager := m } id = .ok s ∧ s.Exact H m id

/-- The cleanup of one object of the store removes another. -/
def Calls (H : ScriptHost σ V) (scripts : CleanupScripts) (m : ObjectManager σ)
    (x y : ObjectId) : Prop :=
  m.hasCleanup H x = true ∧ y ∈ scripts x 0 ∧ y ∈ m.ids

/-- From the object, the removals never come back to one whose cleanup they come from. -/
def NeverReturns (H : ScriptHost σ V) (scripts : CleanupScripts) (m : ObjectManager σ)
    (id : ObjectId) : Prop :=
  ∀ x, ReflTransGen (m.Calls H scripts) id x → ¬ TransGen (m.Calls H scripts) x x

variable {H : ScriptHost σ V} {scripts : CleanupScripts} {m : ObjectManager σ}
  {s s' s1 : Removal σ} {id x y : ObjectId} {obj : Ptr} {ids ids' : List ObjectId}

theorem Calls.mem_ids (h : m.Calls H scripts x y) : x ∈ m.ids := by
  obtain ⟨o, ho, _⟩ := (Option.any_eq_true _ _).1 h.1
  exact ObjectManager.mem_ids.2 ⟨o, ho⟩

/-! ## What a removal preserves -/

theorem runsCleanup_onRemove (o : GameObject σ) : runsCleanup H (o.onRemove H) = false := by
  unfold GameObject.onRemove
  split
  · rfl
  · next h => simp [runsCleanup, h]

/-- What is left of `m` without the erased objects. -/
structure Removal.Inv (H : ScriptHost σ V) (m : ObjectManager σ) (s : Removal σ) : Prop where
  byId : ∀ x, s.manager.objects.byId.find? x =
    if x ∈ s.erased then none else m.objects.byId.find? x
  lookup : ∀ x, s.manager.objects.lookup x = if x ∈ s.erased then none else m.objects.lookup x
  once : s.erased.Nodup
  removedIds : ∀ x, x ∈ s.manager.removedIds.keys ↔ x ∈ m.removedIds.keys ∨ x ∈ s.erased
  destruction : ∀ x ∈ s.erased, ∃ p, m.objects.byId.find? x = some p ∧
    ∀ o, s.manager.objects.memory.find? p = some o → runsCleanup H o = false

theorem Removal.Inv.start (m : ObjectManager σ) : Removal.Inv H m { manager := m } where
  byId _ := by simp
  lookup _ := by simp
  once := .nil
  removedIds _ := by simp
  destruction _ hx := nomatch hx

theorem Removal.Inv.mem_ids (hs : s.Inv H m) (x : ObjectId) :
    x ∈ s.manager.ids ↔ x ∈ m.ids ∧ x ∉ s.erased := by
  rw [ids, OrdMap.mem_keys, hs.byId, ids, OrdMap.mem_keys]
  split
  · next hx => simp [hx]
  · next hx => simp [hx]

theorem memory_remove {st : ObjectStore σ} {f : GameObject σ → GameObject σ} {p : Ptr}
    {o' : GameObject σ} (h : (st.remove id f).memory.find? p = some o') :
    ∃ o, st.memory.find? p = some o ∧ o' = if st.byId.find? id = some p then f o else o := by
  unfold ObjectStore.remove at h
  split at h
  · next hnone => exact ⟨o', h, by simp [hnone]⟩
  · next q hq =>
    rw [OrdMap.find?_mapVal] at h
    obtain ⟨o, ho, rfl⟩ := Option.map_eq_some_iff.1 h
    refine ⟨o, ho, ?_⟩
    simp only [hq, Option.some.injEq, eq_comm]

theorem Removal.erase_eq_ok (h : s.erase H id obj = .ok s') :
    s.manager.objects.byId.find? id = some obj ∧
      s' = { s with manager := s.manager.removeObject H id, erased := s.erased ++ [id] } := by
  unfold Removal.erase at h
  split at h
  · next hobj =>
    cases h
    exact ⟨hobj, rfl⟩
  · cases h

theorem Removal.Inv.erase (hs : s.Inv H m) (h : s.erase H id obj = .ok s') : s'.Inv H m := by
  obtain ⟨hobj, rfl⟩ := Removal.erase_eq_ok h
  have hbyId := hs.byId id
  rw [hobj] at hbyId
  have hnew : id ∉ s.erased := fun hid => by
    rw [if_pos hid] at hbyId
    cases hbyId
  rw [if_neg hnew] at hbyId
  have hmem : ∀ x, x ∈ s.erased ++ [id] ↔ x = id ∨ x ∈ s.erased := fun x => by
    rw [List.mem_append, List.mem_singleton, or_comm]
  have hremove : s.manager.removeObject H id = { s.manager with
      objects := s.manager.objects.remove id (·.onRemove H)
      removedIds := s.manager.removedIds.insert id () } := by
    rw [removeObject, hobj]
  rw [hremove]
  exact {
    byId := fun x => by
      rw [ObjectStore.byId_remove, hs.byId]
      by_cases hx : x = id <;> simp [hmem, hx]
    lookup := fun x => by
      rw [ObjectStore.lookup_remove, hs.lookup]
      by_cases hx : x = id <;> simp [hmem, hx]
    once := by
      rw [List.nodup_append]
      exact ⟨hs.once, List.nodup_singleton id, fun x hx y hy heq =>
        hnew (List.mem_singleton.1 hy ▸ heq ▸ hx)⟩
    removedIds := fun x => by
      rw [OrdMap.mem_keys_insert, hs.removedIds, hmem]
      tauto
    destruction := fun x hx => by
      rcases (hmem x).1 hx with rfl | hx
      · refine ⟨obj, hbyId.symm, fun o' ho' => ?_⟩
        obtain ⟨o, _, rfl⟩ := memory_remove ho'
        rw [if_pos hobj]
        exact runsCleanup_onRemove o
      · obtain ⟨p, hp, hdestroyed⟩ := hs.destruction x hx
        refine ⟨p, hp, fun o' ho' => ?_⟩
        obtain ⟨o, ho, rfl⟩ := memory_remove ho'
        split
        · exact runsCleanup_onRemove o
        · exact hdestroyed o ho }

/-! ## A removal that returns -/

/-- Every object comes behind those its cleanup removes. -/
def Ordered (H : ScriptHost σ V) (scripts : CleanupScripts) (m : ObjectManager σ)
    (l : List ObjectId) : Prop :=
  ∀ pre x post, l = pre ++ x :: post → ∀ y, m.Calls H scripts x y → y ∈ pre

theorem Ordered.concat (hs : m.Ordered H scripts ids)
    (hx : ∀ y, m.Calls H scripts x y → y ∈ ids) : m.Ordered H scripts (ids ++ [x]) := by
  intro pre z post hsplit y hcall
  rcases List.eq_nil_or_concat post with rfl | ⟨post, last, rfl⟩
  · obtain ⟨rfl, hz⟩ := List.append_inj' hsplit rfl
    cases hz
    exact hx y hcall
  · rw [List.concat_eq_append, ← List.cons_append, ← List.append_assoc] at hsplit
    exact hs pre z post (List.append_inj' hsplit rfl).1 y hcall

/-- An object is not removed by the cleanups it runs. -/
theorem Ordered.irrefl (hs : m.Ordered H scripts ids) (honce : ids.Nodup) (hx : x ∈ ids) :
    ¬ TransGen (m.Calls H scripts) x x := by
  have hbefore : ∀ y, TransGen (m.Calls H scripts) x y →
      ∀ pre post, ids = pre ++ x :: post → y ∈ pre := by
    intro y hy
    induction hy with
    | single hcall => exact fun pre post hsplit => hs pre x post hsplit _ hcall
    | tail _ hcall ih =>
      intro pre post hsplit
      obtain ⟨pre1, pre2, rfl⟩ := List.append_of_mem (ih pre post hsplit)
      rw [List.append_assoc] at hsplit
      exact List.mem_append_left _ (hs pre1 _ _ hsplit _ hcall)
  obtain ⟨pre, post, rfl⟩ := List.append_of_mem hx
  intro hcycle
  have hmem := hbefore x hcycle pre post rfl
  exact (List.nodup_append.1 honce).2.2 x hmem x List.mem_cons_self rfl

/-- What the removals of the ids do, one after the other, if they all return. -/
structure Removed (H : ScriptHost σ V) (scripts : CleanupScripts) (m : ObjectManager σ)
    (s : Removal σ) (ids : List ObjectId) (s' : Removal σ) : Prop where
  inv : s'.Inv H m
  erased : s.erased <+: s'.erased
  cleanups : s.cleanups <+: s'.cleanups
  gone : ∀ x ∈ ids, x ∈ m.ids → x ∈ s'.erased
  ordered : s'.cleanups.Nodup → m.Ordered H scripts s.erased → m.Ordered H scripts s'.erased

theorem Removed.refl (hs : s.Inv H m) : m.Removed H scripts s [] s :=
  ⟨hs, List.prefix_refl _, List.prefix_refl _, nofun, fun _ h => h⟩

theorem Removed.trans (h : m.Removed H scripts s ids s1) (h' : m.Removed H scripts s1 ids' s') :
    m.Removed H scripts s (ids ++ ids') s' where
  inv := h'.inv
  erased := h.erased.trans h'.erased
  cleanups := h.cleanups.trans h'.cleanups
  gone x hx hm := by
    rcases List.mem_append.1 hx with hx | hx
    · exact h'.erased.subset (h.gone x hx hm)
    · exact h'.gone x hx hm
  ordered hnodup hordered :=
    h'.ordered hnodup (h.ordered (hnodup.sublist h'.cleanups.sublist) hordered)

theorem removed_foldlM {remove : Removal σ → ObjectId → Except (Option Trap) (Removal σ)}
    (hremove : ∀ s x s', s.Inv H m → remove s x = .ok s' → m.Removed H scripts s [x] s')
    (hs : s.Inv H m) (h : ids.foldlM remove s = .ok s') : m.Removed H scripts s ids s' := by
  induction ids generalizing s with
  | nil =>
    cases h
    exact .refl hs
  | cons x ids ih =>
    obtain ⟨s1, h1, hrest⟩ := foldlM_cons_eq_ok.1 h
    have hfirst := hremove s x s1 hs h1
    exact hfirst.trans (ih hfirst.inv hrest)

/-- A removal that returns found no object, or has erased one after its cleanup. -/
theorem removeNested_eq_ok (h : removeNested H scripts (depth + 1) s x = .ok s') :
    s.manager.objects.byId.find? x = none ∧ s' = s ∨
      ∃ obj s1, s.manager.objects.byId.find? x = some obj ∧ s1.erase H x obj = .ok s' ∧
        (s.manager.hasCleanup H x = true ∧ (scripts x (s.cleanups.count x)).foldlM
            (removeNested H scripts depth) { s with cleanups := s.cleanups ++ [x] } = .ok s1 ∨
          s.manager.hasCleanup H x = false ∧ s1 = s) := by
  unfold removeNested at h
  split at h
  · next hnone =>
    cases h
    exact .inl ⟨hnone, rfl⟩
  · next obj hobj =>
    obtain ⟨s1, hcleanup, herase⟩ := bind_eq_ok.1 h
    refine .inr ⟨obj, s1, hobj, herase, ?_⟩
    split at hcleanup
    · next hhas => exact .inl ⟨hhas, hcleanup⟩
    · next hnone =>
      cases hcleanup
      exact .inr ⟨eq_false_of_ne_true hnone, rfl⟩

/-- In the store an object is as it was in `m`. -/
theorem Removal.Inv.hasCleanup_eq (hs : s.Inv H m) (hx : x ∉ s.erased) :
    s.manager.hasCleanup H x = m.hasCleanup H x := by
  rw [hasCleanup, hs.lookup, if_neg hx, hasCleanup]

theorem Removal.Inv.not_mem_erased (hs : s.Inv H m)
    (h : s.manager.objects.byId.find? x = some obj) : x ∉ s.erased := fun hx => by
  rw [hs.byId, if_pos hx] at h
  cases h

theorem removed_removeNested (hs : s.Inv H m) (h : removeNested H scripts depth s x = .ok s') :
    m.Removed H scripts s [x] s' := by
  induction depth generalizing s x s' with
  | zero => cases h
  | succ depth ih =>
    obtain ⟨hnone, rfl⟩ | ⟨obj, s1, hobj, herase, hcleanup⟩ := removeNested_eq_ok h
    · refine { Removed.refl hs with gone := fun y hy hm => ?_ }
      obtain rfl := List.mem_singleton.1 hy
      by_contra hnot
      exact byId_eq_none_iff.1 hnone ((hs.mem_ids _).2 ⟨hm, hnot⟩)
    have hhas := hs.hasCleanup_eq (hs.not_mem_erased hobj)
    obtain ⟨_, rfl⟩ := Removal.erase_eq_ok herase
    obtain ⟨_, hfold⟩ | ⟨hnone, rfl⟩ := hcleanup
    · have hs0 : Removal.Inv H m { s with cleanups := s.cleanups ++ [x] } := { hs with }
      have hfold := removed_foldlM (fun s y s' hs h => ih hs h) hs0 hfold
      refine ⟨hfold.inv.erase herase, hfold.erased.trans (List.prefix_append _ _),
        (List.prefix_append _ _).trans hfold.cleanups, fun y hy _ => List.mem_append_right _ hy,
        fun hnodup hordered => (hfold.ordered hnodup hordered).concat fun y hcall => ?_⟩
      -- a second run would be counted twice
      have hfirst : s.cleanups.count x = 0 := by
        have hnew := hnodup.sublist hfold.cleanups.sublist
        exact List.count_eq_zero.2 fun hx =>
          (List.nodup_append.1 hnew).2.2 x hx x List.mem_cons_self rfl
      exact hfold.gone y (by rw [hfirst]; exact hcall.2.1) hcall.2.2
    · refine ⟨hs.erase herase, List.prefix_append _ _, List.prefix_refl _,
        fun y hy _ => List.mem_append_right _ hy,
        fun _ hordered => hordered.concat fun y hcall => ?_⟩
      have hcleanup := hcall.1
      rw [← hhas, hnone] at hcleanup
      cases hcleanup

/-- Where the removals come back to an object, the removal does not do what it should. -/
theorem neverReturns_of_removesOnce (h : RemovesOnce H scripts m id) :
    NeverReturns H scripts m id := by
  obtain ⟨depth, s, hs, hexact⟩ := h
  have hremoved := removed_removeNested (.start m) hs
  have hnodup : s.cleanups.Nodup := List.nodup_iff_count_le_one.2 fun x => by
    rw [hexact.cleanups]
    split
    · exact Nat.le_refl 1
    · exact Nat.zero_le 1
  have hordered := hremoved.ordered hnodup fun pre x post hsplit => by
    cases pre <;> cases hsplit
  have hreached : ∀ x, ReflTransGen (m.Calls H scripts) id x → id ∈ m.ids → x ∈ s.erased := by
    intro x hx hid
    induction hx with
    | refl => exact hexact.removed hid
    | tail _ hcall ih =>
      obtain ⟨pre, post, hsplit⟩ := List.append_of_mem ih
      rw [hsplit]
      exact List.mem_append_left _ (hordered pre _ post hsplit _ hcall)
  intro x hx hcycle
  obtain ⟨y, hcall, _⟩ := TransGen.head'_iff.1 (TransGen.trans_right hx hcycle)
  have hid := hcall.mem_ids
  exact hordered.irrefl hexact.once (hreached x hx hid) hcycle

/-! ## A removal without returns -/

/-- A removal inside the cleanups of the objects on the stack: each cleanup was run once, of the
objects erased and of those on the stack. -/
structure Underway (H : ScriptHost σ V) (m : ObjectManager σ) (stack : List ObjectId)
    (s : Removal σ) : Prop where
  inv : s.Inv H m
  cleanups : ∀ x, s.cleanups.count x =
    if (x ∈ s.erased ∨ x ∈ stack) ∧ m.hasCleanup H x then 1 else 0
  waiting : ∀ x ∈ stack, x ∉ s.erased

variable {stack : List ObjectId}

theorem Underway.start (m : ObjectManager σ) : Underway H m [] { manager := m } where
  inv := .start m
  cleanups _ := by simp
  waiting _ hx := nomatch hx

/-- The cleanup of the next object begins. -/
theorem Underway.push (hs : Underway H m stack s) (hx : x ∉ s.erased) (hstack : x ∉ stack)
    (hhas : m.hasCleanup H x = true) :
    Underway H m (x :: stack) { s with cleanups := s.cleanups ++ [x] } where
  inv := { hs.inv with }
  cleanups y := by
    rw [List.count_append, hs.cleanups, List.count_singleton]
    by_cases hy : y = x
    · subst hy
      simp [hx, hstack, hhas]
    · simp [hy, Ne.symm hy]
  waiting y hy := by
    rcases List.mem_cons.1 hy with rfl | hy
    · exact hx
    · exact hs.waiting y hy

/-- An object without a cleanup. -/
theorem Underway.skip (hs : Underway H m stack s) (hx : x ∉ s.erased)
    (hhas : m.hasCleanup H x = false) : Underway H m (x :: stack) s where
  inv := hs.inv
  cleanups y := by
    rw [hs.cleanups]
    by_cases hy : y = x
    · simp [hy, hhas]
    · simp [hy]
  waiting y hy := by
    rcases List.mem_cons.1 hy with rfl | hy
    · exact hx
    · exact hs.waiting y hy

/-- The object of the innermost cleanup is erased. -/
theorem Underway.pop (hs : Underway H m (x :: stack) s) (hstack : x ∉ stack)
    (h : s.erase H x obj = .ok s') : Underway H m stack s' := by
  have hinv := hs.inv.erase h
  obtain ⟨_, rfl⟩ := Removal.erase_eq_ok h
  refine ⟨hinv, fun y => ?_, fun y hy hmem => ?_⟩
  · change s.cleanups.count y = _
    rw [hs.cleanups]
    simp only [List.mem_cons, List.mem_append, List.not_mem_nil, or_false, or_assoc]
  · rcases List.mem_append.1 hmem with hmem | hmem
    · exact hs.waiting y (List.mem_cons_of_mem _ hy) hmem
    · exact hstack (List.mem_singleton.1 hmem ▸ hy)

/-- The cleanup of the next object, where all removals in it return. -/
theorem Underway.cleanup (scripts : CleanupScripts)
    (remove : Removal σ → ObjectId → Except (Option Trap) (Removal σ))
    (hs : Underway H m stack s) (hx : x ∉ s.erased) (hstack : x ∉ stack)
    (hremove : m.hasCleanup H x = true → ∀ y ∈ scripts x 0, ∀ s, Underway H m (x :: stack) s →
      ∃ s', remove s y = .ok s' ∧ Underway H m (x :: stack) s') :
    ∃ s1, Underway H m (x :: stack) s1 ∧
      (if s.manager.hasCleanup H x then
        (scripts x (s.cleanups.count x)).foldlM remove { s with cleanups := s.cleanups ++ [x] }
      else .ok s) = .ok s1 := by
  rw [hs.inv.hasCleanup_eq hx]
  cases hhas : m.hasCleanup H x with
  | false => exact ⟨s, hs.skip hx hhas, by simp⟩
  | true =>
    have hfirst : s.cleanups.count x = 0 := by simp [hs.cleanups, hx, hstack]
    rw [hfirst, if_pos rfl]
    obtain ⟨s1, hs1, h1⟩ := exists_foldlM_eq_ok (hremove hhas) (hs.push hx hstack hhas)
    exact ⟨s1, h1, hs1⟩

/-- The stack cannot become longer than the store. -/
theorem removeNested_of_neverReturns (hnever : NeverReturns H scripts m id) (depth : Nat)
    (hs : Underway H m stack s) (hnodup : stack.Nodup) (hsub : stack ⊆ m.ids)
    (hdepth : m.ids.length < stack.length + depth)
    (hpath : x ∈ m.ids → ReflTransGen (m.Calls H scripts) id x ∧
      ∀ z ∈ stack, TransGen (m.Calls H scripts) z x) :
    ∃ s', removeNested H scripts depth s x = .ok s' ∧ Underway H m stack s' := by
  induction depth generalizing stack s x with
  | zero =>
    have hle := (hnodup.subperm hsub).length_le
    omega
  | succ depth ih =>
    cases hobj : s.manager.objects.byId.find? x with
    | none => exact ⟨s, by simp only [removeNested, hobj], hs⟩
    | some obj =>
      have herased := hs.inv.not_mem_erased hobj
      have hmobj : m.objects.byId.find? x = some obj := by
        rw [← hobj, hs.inv.byId, if_neg herased]
      have hx : x ∈ m.ids := OrdMap.mem_keys.2 ⟨obj, hmobj⟩
      obtain ⟨hreach, habove⟩ := hpath hx
      have hstack : x ∉ stack := fun hmem => hnever x hreach (habove x hmem)
      obtain ⟨s1, hs1, hrun⟩ := hs.cleanup scripts (removeNested H scripts depth) herased hstack
        fun hhas y hy s hs => by
          apply ih hs (List.nodup_cons.2 ⟨hstack, hnodup⟩) (List.cons_subset.2 ⟨hx, hsub⟩)
          · rw [List.length_cons]
            omega
          · intro hym
            have hcall : m.Calls H scripts x y := ⟨hhas, hy, hym⟩
            exact ⟨hreach.tail hcall, List.forall_mem_cons.2 ⟨.single hcall,
              fun z hz => (habove z hz).tail hcall⟩⟩
      have hobj1 : s1.manager.objects.byId.find? x = some obj := by
        rw [hs1.inv.byId, if_neg (hs1.waiting x List.mem_cons_self), hmobj]
      have herase : s1.erase H x obj = .ok { s1 with
          manager := s1.manager.removeObject H x, erased := s1.erased ++ [x] } := if_pos hobj1
      refine ⟨_, ?_, hs1.pop hstack herase⟩
      simp only [removeNested, hobj]
      exact bind_eq_ok.2 ⟨s1, hrun, herase⟩

/-- **Removal.** Removing an object runs the cleanup of everything it removes once, and returns, if
and only if following the removals in the cleanups never leads back to an object. -/
theorem removesOnce_iff : RemovesOnce H scripts m id ↔ NeverReturns H scripts m id := by
  refine ⟨neverReturns_of_removesOnce, fun hnever => ?_⟩
  obtain ⟨s, hs, hunderway⟩ := removeNested_of_neverReturns hnever (m.ids.length + 1)
    (.start m) .nil (List.nil_subset _) (by rw [List.length_nil]; omega)
    fun _ => ⟨.refl, nofun⟩
  have hremoved := removed_removeNested (.start m) hs
  exact ⟨_, s, hs, {
    removed := hremoved.gone id List.mem_cons_self
    once := hunderway.inv.once
    cleanups := fun x => by simpa using hunderway.cleanups x
    ids := hunderway.inv.mem_ids
    removedIds := hunderway.inv.removedIds
    destruction := hunderway.inv.destruction }⟩

/-- A character whose `cleanup()` removes it once more. -/
theorem not_removesOnce_itself :
    ¬ RemovesOnce testModule.host (fun _ _ => [0]) (oneCharacter 0) 0 := by
  rintro ⟨depth, s, hs, _⟩
  have hdeeper : ∀ depth s, s.manager = oneCharacter 0 →
      removeNested testModule.host (fun _ _ => [0]) depth s 0 = .error none := by
    intro depth
    induction depth with
    | zero => exact fun _ _ => rfl
    | succ depth ih =>
      rintro ⟨_, cleanups, erased⟩ rfl
      change ([0].foldlM (removeNested testModule.host (fun _ _ => [0]) depth)
        ⟨oneCharacter 0, cleanups ++ [0], erased⟩ >>= _) = _
      rw [List.foldlM_cons, ih _ rfl]
      rfl
  rw [hdeeper depth _ rfl] at hs
  cases hs

end ObjectManager

end NetSiege
