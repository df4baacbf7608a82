import NetSiege.Lib.OrdMap

/-!
# Iterators into ordered maps

An iterator stands on an entry of a map, which is told by its key, or at `end()`. Insertions leave
it where it is; erasing the entry it stands on invalidates it for good. `firstKey?` and `nextKey?`
are the keys `begin()` and `++` lead to.
-/

namespace Lib

/-- An iterator into a map: the key of its entry, `none` for `end()`, and whether it still is
one. -/
structure Iter (κ : Type _) where
  key : Option κ
  valid : Bool := true
deriving DecidableEq

namespace OrdMap

variable {κ ν : Type _} [LinearOrder κ] {m : OrdMap κ ν} {k k' : κ}

/-- The first key. -/
def firstKey? (m : OrdMap κ ν) : Option κ := m.keys.head?

/-- The first key behind `k`. -/
def nextKey? (m : OrdMap κ ν) (k : κ) : Option κ := m.keys.find? (k < ·)

theorem sorted_keys (m : OrdMap κ ν) : m.keys.Pairwise (· < ·) := List.pairwise_map.2 m.sorted

theorem mem_of_firstKey? (h : m.firstKey? = some k) : k ∈ m.keys := List.mem_of_head? h

/-- Nothing lies before the first key. -/
theorem exists_firstKey? (h : k ∈ m.keys) : ∃ k', m.firstKey? = some k' ∧ k' ≤ k := by
  have hsorted := m.sorted_keys
  unfold firstKey?
  cases hkeys : m.keys with
  | nil =>
    rw [hkeys] at h
    cases h
  | cons k' ks =>
    rw [hkeys] at h hsorted
    refine ⟨k', rfl, ?_⟩
    rcases List.mem_cons.1 h with rfl | h
    · exact le_rfl
    · exact le_of_lt ((List.pairwise_cons.1 hsorted).1 k h)

theorem mem_of_nextKey? (h : m.nextKey? k = some k') : k' ∈ m.keys := List.mem_of_find?_eq_some h

theorem lt_of_nextKey? (h : m.nextKey? k = some k') : k < k' := by
  simpa using List.find?_some h

/-- Nothing lies between a key and the next one. -/
theorem exists_nextKey? {x : κ} (hx : x ∈ m.keys) (h : k < x) :
    ∃ k', m.nextKey? k = some k' ∧ k' ≤ x := by
  have hsorted := m.sorted_keys
  unfold nextKey?
  generalize m.keys = ks at hx hsorted
  induction ks with
  | nil => cases hx
  | cons y ks ih =>
    obtain ⟨hy, hks⟩ := List.pairwise_cons.1 hsorted
    rw [List.find?_cons]
    by_cases hlt : k < y
    · refine ⟨y, by simp [hlt], ?_⟩
      rcases List.mem_cons.1 hx with rfl | hx
      · exact le_rfl
      · exact le_of_lt (hy x hx)
    · rcases List.mem_cons.1 hx with rfl | hx
      · exact absurd h hlt
      · simp only [hlt, decide_false]
        exact ih hx hks

/-- From the `n`-th key the next one is the key behind it. -/
theorem nextKey?_getElem (h : m.keys[n]? = some k) : m.nextKey? k = m.keys[n + 1]? := by
  have hsorted := m.sorted_keys
  unfold nextKey?
  generalize m.keys = ks at h hsorted
  induction ks generalizing n with
  | nil => cases h
  | cons y ks ih =>
    obtain ⟨hy, hks⟩ := List.pairwise_cons.1 hsorted
    rw [List.find?_cons, List.getElem?_cons_succ]
    cases n with
    | zero =>
      cases h
      simp only [lt_irrefl, decide_false]
      cases ks with
      | nil => rfl
      | cons z ks => simp [hy z List.mem_cons_self]
    | succ n =>
      have hlt : y < k := hy k (List.mem_of_getElem? h)
      simp only [not_lt_of_gt hlt, decide_false]
      exact ih h hks

end OrdMap

namespace Iter

variable {κ ν : Type _} {it : Iter κ} {k : κ}

/-- The iterator after the entries with the keys for which `erased` holds are erased. -/
def erase (it : Iter κ) (erased : κ → Bool) : Iter κ :=
  { it with valid := it.valid && !it.key.any erased }

theorem erase_valid_iff {erased : κ → Bool} :
    (it.erase erased).valid = true ↔
      it.valid = true ∧ ∀ k, it.key = some k → erased k = false := by
  cases hk : it.key <;> simp [erase, hk]

/-- `begin()`. -/
def begin [LinearOrder κ] (m : OrdMap κ ν) : Iter κ := { key := m.firstKey? }

/-- `it++`, from the entry with the key `k`. -/
def next [LinearOrder κ] (m : OrdMap κ ν) (k : κ) : Iter κ := { key := m.nextKey? k }

end Iter

end Lib
