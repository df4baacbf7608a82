import Mathlib.Algebra.GroupWithZero.Nat
import Mathlib.Data.List.Basic

/-!
# Bytes in a buffer

`slice` reads a range of a buffer, `overwrite` replaces one (a `memcpy` that stays inside), and the
lemmas say what a read sees after a write. `leBytes` and `ofLeBytes` are the little-endian encoding
of a number in a given number of bytes.
-/

namespace Lib

variable {α : Type _} {l bs : List α} {a n off : Nat}

/-- The `n` entries from index `off` on. -/
def slice (l : List α) (off n : Nat) : List α := (l.drop off).take n

/-- `l` with the entries from index `off` on replaced by `bs`. -/
def overwrite (l : List α) (off : Nat) (bs : List α) : List α :=
  l.take off ++ bs ++ l.drop (off + bs.length)

theorem length_slice (h : off + n ≤ l.length) : (slice l off n).length = n := by
  simp only [slice, List.length_take, List.length_drop]
  omega

theorem slice_append_left (h : off + n ≤ l.length) : slice (l ++ bs) off n = slice l off n := by
  rw [slice, slice, List.drop_append_of_le_length (by omega), List.take_append_of_le_length]
  rw [List.length_drop]
  omega

/-- A range that ends before a cut does not see it. -/
theorem slice_take (h : off + n ≤ a) : slice (l.take a) off n = slice l off n := by
  rw [slice, slice, List.drop_take, List.take_take, Nat.min_eq_left (by omega)]

theorem slice_eq_iff_drop (h : bs.length = n) : slice l off n = bs ↔ bs <+: l.drop off := by
  rw [slice, List.prefix_iff_eq_take, h, eq_comm]

theorem append_prefix_drop_iff {as : List α} :
    as ++ bs <+: l.drop off ↔ as <+: l.drop off ∧ bs <+: l.drop (off + as.length) := by
  constructor
  · rintro ⟨t, ht⟩
    refine ⟨⟨bs ++ t, by rw [← ht, List.append_assoc]⟩, ⟨t, ?_⟩⟩
    rw [← List.drop_drop, ← ht, List.append_assoc, List.drop_left]
  · rintro ⟨⟨t, ht⟩, ⟨t', ht'⟩⟩
    rw [← List.drop_drop, ← ht, List.drop_left] at ht'
    exact ⟨t', by rw [List.append_assoc, ht', ht]⟩

/-- A prefix that ends before the cut does not see it. -/
theorem prefix_drop_take_iff (h : off + bs.length ≤ n) :
    bs <+: (l.take n).drop off ↔ bs <+: l.drop off := by
  rw [List.drop_take, List.prefix_take_iff]
  exact and_iff_left (by omega)

@[simp] theorem length_overwrite (h : off + bs.length ≤ l.length) :
    (overwrite l off bs).length = l.length := by
  simp only [overwrite, List.length_append, List.length_take, List.length_drop]
  omega

theorem slice_overwrite_self (h : off + bs.length ≤ l.length) :
    slice (overwrite l off bs) off bs.length = bs := by
  have hlen : (l.take off).length = off := by simp; omega
  rw [slice, overwrite, List.append_assoc, List.drop_append_of_le_length (by omega),
    List.drop_of_length_le (by omega), List.nil_append, List.take_left]

theorem slice_overwrite_before (h : off + bs.length ≤ l.length) (ha : a + n ≤ off) :
    slice (overwrite l off bs) a n = slice l a n := by
  have hlen : (l.take off).length = off := by simp; omega
  rw [overwrite, List.append_assoc, slice_append_left (by omega)]
  conv_rhs => rw [← List.take_append_drop off l]
  rw [slice_append_left (by omega)]

theorem drop_overwrite (h : off + bs.length ≤ l.length) (ha : off + bs.length ≤ a) :
    (overwrite l off bs).drop a = l.drop a := by
  have hlen : (l.take off ++ bs).length = off + bs.length := by
    simp only [List.length_append, List.length_take]
    omega
  rw [overwrite, List.drop_append, List.drop_of_length_le (by omega), List.nil_append,
    List.drop_drop, hlen, Nat.add_sub_cancel' ha]

theorem slice_overwrite_after (h : off + bs.length ≤ l.length) (ha : off + bs.length ≤ a) :
    slice (overwrite l off bs) a n = slice l a n := by
  rw [slice, slice, drop_overwrite h ha]

theorem getElem?_slice (h : a < n) : (slice l off n)[a]? = l[off + a]? := by
  rw [slice, List.getElem?_take_of_lt h, List.getElem?_drop]

/-- What lies outside the range that is overwritten stays. -/
theorem getElem?_overwrite_of_outside (h : off + bs.length ≤ l.length)
    (ha : a < off ∨ off + bs.length ≤ a) : (overwrite l off bs)[a]? = l[a]? := by
  rcases ha with hbefore | hafter
  · rw [overwrite, List.append_assoc, List.getElem?_append_left (by simp; omega),
      List.getElem?_take_of_lt hbefore]
  · have hdrop := congrArg (·[a - (off + bs.length)]?) (drop_overwrite h (Nat.le_refl _))
    simpa only [List.getElem?_drop, Nat.add_sub_cancel' hafter] using hdrop

theorem slice_congr {l' : List α} (h : ∀ k, a ≤ k → k < a + n → l[k]? = l'[k]?) :
    slice l a n = slice l' a n := by
  refine List.ext_getElem? fun k => ?_
  rw [slice, slice, List.getElem?_take, List.getElem?_take]
  split
  · rw [List.getElem?_drop, List.getElem?_drop, h (a + k) (by omega) (by omega)]
  · rfl

theorem take_overwrite (h : off + bs.length ≤ l.length) :
    (overwrite l off bs).take (off + bs.length) = l.take off ++ bs := by
  have hlen : (l.take off ++ bs).length = off + bs.length := by
    simp only [List.length_append, List.length_take]
    omega
  rw [overwrite, ← hlen, List.take_left]

/-- Two ranges overwritten one behind the other are one range. -/
theorem overwrite_append {as : List α} (h : off + as.length ≤ l.length) :
    overwrite (overwrite l off as) (off + as.length) bs = overwrite l off (as ++ bs) := by
  have hdrop := drop_overwrite (a := off + as.length + bs.length) h (Nat.le_add_right _ _)
  rw [overwrite, take_overwrite h, hdrop, overwrite, List.length_append, ← Nat.add_assoc,
    ← List.append_assoc]

/-! ## Little-endian numbers -/

/-- Arithmetic of 32-bit numbers. -/
instance neZero_two_pow_32 : NeZero (2 ^ 32) := ⟨by decide⟩

/-- The `n` low bytes of a number, least significant first. -/
def leBytes : Nat → Nat → List UInt8
  | 0, _ => []
  | n + 1, v => UInt8.ofNat v :: leBytes n (v / 256)

/-- The number with the given bytes, least significant first. -/
def ofLeBytes : List UInt8 → Nat
  | [] => 0
  | b :: bs => b.toNat + 256 * ofLeBytes bs

@[simp] theorem length_leBytes (n v : Nat) : (leBytes n v).length = n := by
  induction n generalizing v with
  | zero => rfl
  | succ n ih => simp [leBytes, ih]

theorem take_leBytes {m : Nat} (h : n ≤ m) (v : Nat) : (leBytes m v).take n = leBytes n v := by
  induction n generalizing m v with
  | zero => rfl
  | succ n ih =>
    obtain ⟨m, rfl⟩ : ∃ k, m = k + 1 := ⟨m - 1, by omega⟩
    rw [leBytes, leBytes, List.take_succ_cons, ih (by omega)]

theorem ofLeBytes_leBytes {n v : Nat} (h : v < 256 ^ n) : ofLeBytes (leBytes n v) = v := by
  induction n generalizing v with
  | zero => simp at h; simp [leBytes, ofLeBytes, h]
  | succ n ih =>
    have hdiv : v / 256 < 256 ^ n := by
      rw [Nat.div_lt_iff_lt_mul (by decide)]
      rwa [Nat.pow_succ] at h
    simp only [leBytes, ofLeBytes, ih hdiv, UInt8.toNat_ofNat']
    omega

theorem leBytes_ofLeBytes (bs : List UInt8) : leBytes bs.length (ofLeBytes bs) = bs := by
  induction bs with
  | nil => rfl
  | cons b bs ih =>
    have hb := b.toNat_lt
    have hhead : UInt8.ofNat (b.toNat + 256 * ofLeBytes bs) = b := by
      apply UInt8.toNat_inj.1
      rw [UInt8.toNat_ofNat']
      omega
    have htail : (b.toNat + 256 * ofLeBytes bs) / 256 = ofLeBytes bs := by omega
    rw [List.length_cons, ofLeBytes, leBytes, hhead, htail, ih]

theorem ofLeBytes_lt (bs : List UInt8) : ofLeBytes bs < 256 ^ bs.length := by
  induction bs with
  | nil => simp [ofLeBytes]
  | cons b bs ih =>
    have hb := b.toNat_lt
    rw [ofLeBytes, List.length_cons, Nat.pow_succ]
    omega

/-- Bytes of one length are determined by their number. -/
theorem ofLeBytes_inj {as bs : List UInt8} (h : as.length = bs.length) :
    ofLeBytes as = ofLeBytes bs ↔ as = bs := by
  constructor
  · intro heq
    rw [← leBytes_ofLeBytes as, ← leBytes_ofLeBytes bs, h, heq]
  · rintro rfl
    rfl

end Lib
