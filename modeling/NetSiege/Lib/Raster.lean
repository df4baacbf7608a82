import Mathlib.Data.List.Nodup
import Mathlib.Data.List.ProdSigma
import Mathlib.Data.List.Range
import Mathlib.Data.Prod.Basic
import Mathlib.Logic.Function.Basic

/-!
# Rasters

A raster of `size` columns holds the sample of column `ix` and row `iy` at the index
`iy * size + ix`. `mapRect` is a pair of loops that rewrites the samples of a rectangle in place;
`mapRect_apply` says that it rewrites each of them once, and no other.
-/

namespace Lib

variable {α ι κ : Type _} [DecidableEq κ]

/-- A loop that writes only other entries. -/
theorem foldl_update_of_forall_ne (key : ι → κ) (f : ι → α → α) {l : List ι} {data : κ → α}
    {k : κ} (h : ∀ i ∈ l, key i ≠ k) :
    l.foldl (fun data i => Function.update data (key i) (f i (data (key i)))) data k =
      data k := by
  induction l generalizing data with
  | nil => rfl
  | cons i l ih =>
    obtain ⟨hi, hl⟩ := List.forall_mem_cons.1 h
    rw [List.foldl_cons, ih hl, Function.update_of_ne hi.symm]

/-- A loop that rewrites distinct entries in place. -/
theorem foldl_update_of_mem (key : ι → κ) (f : ι → α → α) {l : List ι} {data : κ → α} {i : ι}
    (hnodup : (l.map key).Nodup) (hi : i ∈ l) :
    l.foldl (fun data i => Function.update data (key i) (f i (data (key i)))) data (key i) =
      f i (data (key i)) := by
  induction l generalizing data with
  | nil => cases hi
  | cons j l ih =>
    obtain ⟨hj, hnodup⟩ := List.nodup_cons.1 hnodup
    rw [List.foldl_cons]
    obtain rfl | hi := List.mem_cons.1 hi
    · have hne : ∀ j ∈ l, key j ≠ key i := fun j hmem heq =>
        hj (List.mem_map.2 ⟨j, hmem, heq⟩)
      rw [foldl_update_of_forall_ne key f hne, Function.update_self]
    · have hne : key i ≠ key j := fun heq => hj (List.mem_map.2 ⟨i, hi, heq⟩)
      rw [ih hnodup hi, Function.update_of_ne hne]

/-- The loops over the columns and the rows of a rectangle. -/
def mapRect (left top right bottom size : Nat) (f : Nat → Nat → α → α) (data : Nat → α) : Nat → α :=
  (List.range' left (right - left)).foldl (fun data ix =>
    (List.range' top (bottom - top)).foldl (fun data iy =>
      Function.update data (iy * size + ix) (f ix iy (data (iy * size + ix)))) data) data

variable {left top right bottom size ix iy : Nat} {f : Nat → Nat → α → α} {data : Nat → α}

theorem mapRect_eq_foldl : mapRect left top right bottom size f data =
    (List.range' left (right - left) ×ˢ List.range' top (bottom - top)).foldl (fun data p =>
      Function.update data (p.2 * size + p.1) (f p.1 p.2 (data (p.2 * size + p.1)))) data := by
  change _ = List.foldl _ data (List.product _ _)
  rw [mapRect, List.product, List.foldl_flatMap]
  simp only [List.foldl_map]

/-- The index of a sample tells its column and its row. -/
theorem index_inj {jx jy : Nat} (hix : ix < size) (hjx : jx < size)
    (h : iy * size + ix = jy * size + jx) : ix = jx ∧ iy = jy := by
  have hpos : 0 < size := Nat.zero_lt_of_lt hix
  have hcolumn := congrArg (· % size) h
  simp only [Nat.mul_add_mod', Nat.mod_eq_of_lt hix, Nat.mod_eq_of_lt hjx] at hcolumn
  subst hcolumn
  exact ⟨rfl, Nat.eq_of_mul_eq_mul_right hpos (Nat.add_right_cancel h)⟩

theorem mem_rect : (ix, iy) ∈ List.range' left (right - left) ×ˢ List.range' top (bottom - top) ↔
    left ≤ ix ∧ ix < right ∧ top ≤ iy ∧ iy < bottom := by
  rw [List.mem_product, List.mem_range'_1, List.mem_range'_1]
  omega

theorem nodup_rect (hright : right ≤ size) :
    ((List.range' left (right - left) ×ˢ List.range' top (bottom - top)).map
      fun p => p.2 * size + p.1).Nodup := by
  refine (List.Nodup.product List.nodup_range' List.nodup_range').map_on ?_
  rintro ⟨ix, iy⟩ hi ⟨jx, jy⟩ hj h
  obtain ⟨hx, hy⟩ := index_inj ((mem_rect.1 hi).2.1.trans_le hright)
    ((mem_rect.1 hj).2.1.trans_le hright) h
  exact Prod.ext hx hy

theorem mapRect_apply (hright : right ≤ size) (hix : ix < size) :
    mapRect left top right bottom size f data (iy * size + ix) =
      if left ≤ ix ∧ ix < right ∧ top ≤ iy ∧ iy < bottom then
        f ix iy (data (iy * size + ix))
      else data (iy * size + ix) := by
  rw [mapRect_eq_foldl]
  split
  · next hmem =>
    exact foldl_update_of_mem (fun p : Nat × Nat => p.2 * size + p.1) (fun p => f p.1 p.2)
      (nodup_rect hright) (mem_rect.2 hmem)
  · next hmem =>
    refine foldl_update_of_forall_ne (fun p : Nat × Nat => p.2 * size + p.1)
      (fun p => f p.1 p.2) ?_
    rintro ⟨jx, jy⟩ hj heq
    obtain ⟨rfl, rfl⟩ := index_inj ((mem_rect.1 hj).2.1.trans_le hright) hix heq
    exact hmem (mem_rect.1 hj)

end Lib
