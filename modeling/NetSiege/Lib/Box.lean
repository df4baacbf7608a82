import Mathlib.Data.Prod.Basic
import Mathlib.Order.Bounds.Defs
import Mathlib.Order.Lattice
import Mathlib.Order.MinMax
import Mathlib.Tactic.Tauto

/-!
# Boxes

A `Box` is a rectangle with inclusive bounds. `insert` extends the four bounds to a further point;
`isLeast_foldl_insert` says that a scan of points with it ends with the least box that contains them
all.
-/

namespace Lib

variable {α : Type _}

/-- A rectangle with inclusive bounds. -/
structure Box (α : Type _) where
  left : α
  top : α
  right : α
  bottom : α
deriving DecidableEq

namespace Box

/-- The box of one point. -/
def point (p : α × α) : Box α := ⟨p.1, p.2, p.1, p.2⟩

variable [LinearOrder α] {b c : Box α} {p : α × α}

/-- A box lies in another. -/
instance : PartialOrder (Box α) where
  le b c := c.left ≤ b.left ∧ c.top ≤ b.top ∧ b.right ≤ c.right ∧ b.bottom ≤ c.bottom
  le_refl _ := ⟨le_rfl, le_rfl, le_rfl, le_rfl⟩
  le_trans _ _ _ h h' := ⟨h'.1.trans h.1, h'.2.1.trans h.2.1, h.2.2.1.trans h'.2.2.1,
    h.2.2.2.trans h'.2.2.2⟩
  le_antisymm b c h h' := by
    obtain ⟨hl, ht, hr, hb⟩ := h
    obtain ⟨hl', ht', hr', hb'⟩ := h'
    cases b
    cases c
    exact congr (congr (congr (congrArg Box.mk (hl'.antisymm hl)) (ht'.antisymm ht))
      (hr.antisymm hr')) (hb.antisymm hb')

/-- A point lies in a box. -/
instance : Membership (α × α) (Box α) where
  mem b p := b.left ≤ p.1 ∧ b.top ≤ p.2 ∧ p.1 ≤ b.right ∧ p.2 ≤ b.bottom

theorem le_def : b ≤ c ↔
    c.left ≤ b.left ∧ c.top ≤ b.top ∧ b.right ≤ c.right ∧ b.bottom ≤ c.bottom := .rfl

theorem mem_def : p ∈ b ↔ b.left ≤ p.1 ∧ b.top ≤ p.2 ∧ p.1 ≤ b.right ∧ p.2 ≤ b.bottom := .rfl

theorem point_le_iff : point p ≤ b ↔ p ∈ b := .rfl

/-- The bounds extended to a point. -/
def insert (b : Box α) (p : α × α) : Box α :=
  ⟨min b.left p.1, min b.top p.2, max b.right p.1, max b.bottom p.2⟩

theorem insert_le_iff : b.insert p ≤ c ↔ b ≤ c ∧ p ∈ c := by
  simp only [le_def, mem_def, insert, le_min_iff, max_le_iff]
  tauto

/-- The loop rule of a scan: the box is in another if and only if the first one was and the points
are. -/
theorem foldl_insert_le_iff {l : List (α × α)} :
    l.foldl insert b ≤ c ↔ b ≤ c ∧ ∀ q ∈ l, q ∈ c := by
  induction l generalizing b with
  | nil => simp
  | cons q l ih => rw [List.foldl_cons, ih, insert_le_iff, List.forall_mem_cons, and_assoc]

/-- A scan from a point of the list gives the least box of the points. -/
theorem isLeast_foldl_insert {l : List (α × α)} (hp : p ∈ l) :
    IsLeast {c : Box α | ∀ q ∈ l, q ∈ c} (l.foldl insert (point p)) := by
  refine ⟨(foldl_insert_le_iff.1 le_rfl).2, fun c hc => ?_⟩
  exact foldl_insert_le_iff.2 ⟨point_le_iff.2 (hc p hp), hc⟩

end Box

end Lib
