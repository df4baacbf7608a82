import Mathlib.Data.List.Nodup
import Mathlib.Order.Lattice

/-!
# Ordered maps

`OrdMap κ ν` is a finite map kept as the list of its entries in strictly increasing key order, the
order in which an iterator over a search tree meets them. Lookup, insertion and removal are
described by `find?`; `mem_entries` ties the iteration order to it.
-/

namespace Lib

/-- A finite map as its entries in strictly increasing key order. -/
structure OrdMap (κ ν : Type _) [LinearOrder κ] where
  entries : List (κ × ν)
  sorted : entries.Pairwise (·.1 < ·.1)

namespace OrdMap

variable {κ ν : Type _} [LinearOrder κ] {m : OrdMap κ ν} {k : κ} {v : ν}

instance [DecidableEq ν] : DecidableEq (OrdMap κ ν) := fun m m' =>
  decidable_of_iff (m.entries = m'.entries) <| by
    cases m
    cases m'
    simp

instance : EmptyCollection (OrdMap κ ν) := ⟨⟨[], .nil⟩⟩

instance : Inhabited (OrdMap κ ν) := ⟨∅⟩

/-- The keys, in order. -/
def keys (m : OrdMap κ ν) : List κ := m.entries.map (·.1)

/-- The value stored under a key. -/
def find? (m : OrdMap κ ν) (k : κ) : Option ν := (m.entries.find? (·.1 = k)).map (·.2)

/-- Put a pair in its place in a list of entries, replacing one with the same key. -/
def insertEntry (k : κ) (v : ν) : List (κ × ν) → List (κ × ν)
  | [] => [(k, v)]
  | e :: es =>
    if k < e.1 then (k, v) :: e :: es
    else if k = e.1 then (k, v) :: es
    else e :: insertEntry k v es

theorem mem_insertEntry {es : List (κ × ν)} {e : κ × ν} (h : e ∈ insertEntry k v es) :
    e = (k, v) ∨ e ∈ es := by
  induction es with
  | nil => simpa [insertEntry] using h
  | cons e' es ih =>
    rw [insertEntry] at h
    split at h
    · simpa using h
    · split at h
      · rcases List.mem_cons.1 h with h | h
        · exact .inl h
        · exact .inr (List.mem_cons_of_mem _ h)
      · rcases List.mem_cons.1 h with h | h
        · exact .inr (h ▸ List.mem_cons_self)
        · exact (ih h).imp_right (List.mem_cons_of_mem _)

theorem sorted_insertEntry {es : List (κ × ν)} (h : es.Pairwise (·.1 < ·.1)) :
    (insertEntry k v es).Pairwise (·.1 < ·.1) := by
  induction es with
  | nil => simp [insertEntry]
  | cons e es ih =>
    obtain ⟨he, hes⟩ := List.pairwise_cons.1 h
    rw [insertEntry]
    split
    · next hlt =>
      refine List.pairwise_cons.2 ⟨fun e' he' => ?_, h⟩
      rcases List.mem_cons.1 he' with rfl | he'
      · exact hlt
      · exact lt_trans hlt (he e' he')
    · next hnlt =>
      split
      · next heq => exact List.pairwise_cons.2 ⟨fun e' he' => heq ▸ he e' he', hes⟩
      · next hne =>
        refine List.pairwise_cons.2 ⟨fun e' he' => ?_, ih hes⟩
        rcases mem_insertEntry he' with rfl | he'
        · exact lt_of_le_of_ne (not_lt.1 hnlt) (Ne.symm hne)
        · exact he e' he'

/-- `m[k] = v`. -/
def insert (m : OrdMap κ ν) (k : κ) (v : ν) : OrdMap κ ν :=
  ⟨insertEntry k v m.entries, sorted_insertEntry m.sorted⟩

/-- The map without a key. -/
def erase (m : OrdMap κ ν) (k : κ) : OrdMap κ ν :=
  ⟨m.entries.filter (·.1 ≠ k), m.sorted.filter _⟩

/-- Replace every value. -/
def mapVal (m : OrdMap κ ν) (f : κ → ν → ν) : OrdMap κ ν :=
  ⟨m.entries.map fun e => (e.1, f e.1 e.2), List.pairwise_map.2 m.sorted⟩

theorem find?_eq_some_iff_mem {es : List (κ × ν)} (h : es.Pairwise (·.1 < ·.1)) :
    (es.find? (·.1 = k)).map (·.2) = some v ↔ (k, v) ∈ es := by
  induction es with
  | nil => simp
  | cons e es ih =>
    obtain ⟨he, hes⟩ := List.pairwise_cons.1 h
    rw [List.find?_cons]
    by_cases hk : e.1 = k
    · simp only [hk, decide_true, Option.map_some, Option.some.injEq, List.mem_cons]
      constructor
      · rintro rfl
        exact .inl (by rw [← hk])
      · rintro (h | h)
        · rw [← h]
        · exact absurd (he _ h) (by simp [hk])
    · have hne : (k, v) ≠ e := fun h => hk (by rw [← h])
      simp only [hk, decide_false, ih hes, List.mem_cons, hne, false_or]

/-- The first of a list of entries is the one with the least key. -/
theorem head?_eq_some_iff {es : List (κ × ν)} (h : es.Pairwise (·.1 < ·.1)) {e : κ × ν} :
    es.head? = some e ↔ e ∈ es ∧ ∀ e' ∈ es, e.1 ≤ e'.1 := by
  cases es with
  | nil => simp
  | cons first es =>
    have hlt : ∀ e' ∈ es, first.1 < e'.1 := (List.pairwise_cons.1 h).1
    rw [List.head?_cons, Option.some.injEq]
    constructor
    · rintro rfl
      refine ⟨List.mem_cons_self, List.forall_mem_cons.2 ⟨le_rfl, fun e' he' => ?_⟩⟩
      exact le_of_lt (hlt e' he')
    · rintro ⟨he, hle⟩
      have hfirst := hle first List.mem_cons_self
      rcases List.mem_cons.1 he with he | he
      · exact he.symm
      · exact absurd (hlt e he) (not_lt.2 hfirst)

/-- The last of a list of entries is the one with the greatest key. -/
theorem getLast?_eq_some_iff {es : List (κ × ν)} (h : es.Pairwise (·.1 < ·.1)) {e : κ × ν} :
    es.getLast? = some e ↔ e ∈ es ∧ ∀ e' ∈ es, e'.1 ≤ e.1 := by
  rcases List.eq_nil_or_concat es with rfl | ⟨es, last, rfl⟩
  · simp
  rw [List.concat_eq_append] at h ⊢
  obtain ⟨_, _, hlt⟩ := List.pairwise_append.1 h
  rw [List.getLast?_append_of_ne_nil _ (List.cons_ne_nil _ _), List.getLast?_singleton,
    Option.some.injEq]
  have hmax : ∀ e' ∈ es ++ [last], e'.1 ≤ last.1 := by
    intro e' he'
    rcases List.mem_append.1 he' with he' | he'
    · exact le_of_lt (hlt e' he' last List.mem_cons_self)
    · rw [List.mem_singleton.1 he']
  constructor
  · rintro rfl
    exact ⟨List.mem_append_right _ List.mem_cons_self, hmax⟩
  · rintro ⟨he, hle⟩
    rcases List.mem_append.1 he with he | he
    · have hlast := hle last (List.mem_append_right _ List.mem_cons_self)
      exact absurd (hlt e he last List.mem_cons_self) (not_lt.2 hlast)
    · exact (List.mem_singleton.1 he).symm

/-- Iteration meets exactly the entries lookup finds. -/
theorem mem_entries : (k, v) ∈ m.entries ↔ m.find? k = some v :=
  (find?_eq_some_iff_mem m.sorted).symm

theorem mem_keys : k ∈ m.keys ↔ ∃ v, m.find? k = some v := by
  simp only [keys, List.mem_map, Prod.exists, exists_and_right, exists_eq_right, mem_entries]

theorem nodup_keys (m : OrdMap κ ν) : m.keys.Nodup :=
  (List.pairwise_map.2 m.sorted).imp fun h => ne_of_lt h

@[simp] theorem find?_empty : (∅ : OrdMap κ ν).find? k = none := rfl

theorem find?_insert (m : OrdMap κ ν) (k k' : κ) (v : ν) :
    (m.insert k v).find? k' = if k' = k then some v else m.find? k' := by
  obtain ⟨es, h⟩ := m
  simp only [insert, find?]
  induction es with
  | nil => by_cases hk : k' = k <;> simp [insertEntry, hk, eq_comm]
  | cons e es ih =>
    have hes := (List.pairwise_cons.1 h).2
    rw [insertEntry]
    split
    · by_cases hk : k' = k
      · simp [hk]
      · simp [List.find?_cons, hk, Ne.symm hk]
    · split
      · next heq =>
        by_cases hk : k' = k
        · simp [hk]
        · simp [hk, Ne.symm hk, ← heq]
      · next hne =>
        rw [List.find?_cons, List.find?_cons]
        by_cases he : e.1 = k'
        · have hk : k' ≠ k := fun h => hne (by rw [he, h])
          simp [he, hk]
        · simp only [he, decide_false]
          exact ih hes

@[simp] theorem find?_insert_self : (m.insert k v).find? k = some v := by simp [find?_insert]

theorem find?_insert_of_ne {k' : κ} (h : k' ≠ k) : (m.insert k v).find? k' = m.find? k' := by
  simp [find?_insert, h]

theorem mem_keys_insert {k' : κ} : k' ∈ (m.insert k v).keys ↔ k' = k ∨ k' ∈ m.keys := by
  rw [mem_keys, mem_keys, find?_insert]
  split
  · next heq => simp [heq]
  · next hne => simp [hne]

/-- There is one entry under a key in use. -/
theorem filter_entries_of_find? (h : m.find? k = some v) :
    (m.entries.filter fun e => e.1 = k) = [(k, v)] := by
  have hnodup : m.entries.Nodup := List.Nodup.of_map _ m.nodup_keys
  refine List.perm_singleton.1 ((List.perm_ext_iff_of_nodup (hnodup.filter _) (by simp)).2 ?_)
  rintro ⟨k', v'⟩
  rw [List.mem_filter, decide_eq_true_eq, List.mem_singleton, mem_entries]
  constructor
  · rintro ⟨he, rfl⟩
    rw [Option.some.inj (he.symm.trans h)]
  · rintro ⟨⟩
    exact ⟨h, rfl⟩

/-- A pair whose key is past all others comes last. -/
theorem keys_insert_of_lt (h : ∀ k' ∈ m.keys, k' < k) : (m.insert k v).keys = m.keys ++ [k] := by
  obtain ⟨es, hes⟩ := m
  simp only [keys, insert] at h ⊢
  clear hes
  induction es with
  | nil => rfl
  | cons e es ih =>
    obtain ⟨he, hes⟩ := List.forall_mem_cons.1 h
    rw [insertEntry, if_neg (not_lt.2 (le_of_lt he)), if_neg (ne_of_gt he), List.map_cons, ih hes,
      List.map_cons, List.cons_append]

theorem find?_erase (m : OrdMap κ ν) (k k' : κ) :
    (m.erase k).find? k' = if k' = k then none else m.find? k' := by
  apply Option.ext
  intro v
  rw [← mem_entries, erase, List.mem_filter, mem_entries]
  by_cases hk : k' = k <;> simp [hk]

@[simp] theorem find?_mapVal (m : OrdMap κ ν) (f : κ → ν → ν) (k : κ) :
    (m.mapVal f).find? k = (m.find? k).map (f k) := by
  apply Option.ext
  intro v
  rw [← mem_entries, mapVal, List.mem_map, Option.map_eq_some_iff]
  constructor
  · rintro ⟨⟨k', v'⟩, hmem, heq⟩
    cases heq
    exact ⟨v', mem_entries.1 hmem, rfl⟩
  · rintro ⟨v', hfind, rfl⟩
    exact ⟨(k, v'), mem_entries.2 hfind, rfl⟩

/-- A map is what is found in it. -/
theorem ext_of_find? {m m' : OrdMap κ ν} (h : ∀ k, m.find? k = m'.find? k) : m = m' := by
  have hmem : ∀ e, e ∈ m.entries ↔ e ∈ m'.entries := fun e => by
    rw [mem_entries, mem_entries, h]
  have hperm : m.entries.Perm m'.entries := (List.perm_ext_iff_of_nodup
    (List.Nodup.of_map _ m.nodup_keys) (List.Nodup.of_map _ m'.nodup_keys)).2 hmem
  obtain ⟨es, hes⟩ := m
  obtain ⟨es', hes'⟩ := m'
  have heq : es = es' := hperm.eq_of_pairwise
    (fun e e' _ _ hlt hgt => absurd (lt_trans hlt hgt) (lt_irrefl _)) hes hes'
  cases heq
  rfl

end OrdMap

end Lib
