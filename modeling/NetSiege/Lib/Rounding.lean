import Mathlib.Algebra.GroupWithZero.Nat
import Mathlib.Data.Nat.Log
import Mathlib.Tactic.Common

/-!
# Rounding to floating point numbers

A floating point number is a multiple of the smallest one, and so is counted in units of that one.
`roundFloat p` rounds a fraction to a number of units with a significand of `p` bits, to nearest
with ties to even, as conversions and divisions of floating point numbers do where nothing
overflows. It is monotone (`roundFloat_mono`), so that a comparison with a rounded number is decided
by where two neighbours go.
-/

namespace Lib

variable {m n d p : Nat}

/-- The integer nearest to `n / d`, of two the even one. -/
def roundHalfEven (n d : Nat) : Nat :=
  if 2 * (n % d) < d ∨ 2 * (n % d) = d ∧ n / d % 2 = 0 then n / d else n / d + 1

theorem div_le_roundHalfEven (n d : Nat) : n / d ≤ roundHalfEven n d := by
  unfold roundHalfEven
  split
  · exact Nat.le_refl _
  · exact Nat.le_succ _

theorem roundHalfEven_le_div_succ (n d : Nat) : roundHalfEven n d ≤ n / d + 1 := by
  unfold roundHalfEven
  split
  · exact Nat.le_succ _
  · exact Nat.le_refl _

theorem roundHalfEven_mono (d : Nat) (h : m ≤ n) : roundHalfEven m d ≤ roundHalfEven n d := by
  rcases Nat.lt_or_eq_of_le (Nat.div_le_div_right (c := d) h) with hlt | heq
  · calc roundHalfEven m d ≤ m / d + 1 := roundHalfEven_le_div_succ m d
      _ ≤ n / d := hlt
      _ ≤ roundHalfEven n d := div_le_roundHalfEven n d
  · have hm := Nat.div_add_mod m d
    have hn := Nat.div_add_mod n d
    have hmod : m % d ≤ n % d := by
      rw [heq] at hm
      omega
    unfold roundHalfEven
    rw [← heq]
    split
    · split
      · exact Nat.le_refl _
      · exact Nat.le_succ _
    · split
      · omega
      · exact Nat.le_refl _

theorem roundHalfEven_mul (hd : 0 < d) (q : Nat) : roundHalfEven (q * d) d = q := by
  rw [roundHalfEven, Nat.mul_mod_left, Nat.mul_div_cancel q hd, if_pos (.inl (by omega))]

/-- The distance of the numbers with a significand of `p` bits around `n / d`. -/
def ulp (p n d : Nat) : Nat := 2 ^ ((n / d).log2 + 1 - p)

/-- The number with a significand of `p` bits nearest to `n / d`, of two the one with an even
significand. -/
def roundFloat (p n d : Nat) : Nat := roundHalfEven n (d * ulp p n d) * ulp p n d

theorem ulp_pos (p n d : Nat) : 0 < ulp p n d := Nat.two_pow_pos _

theorem ulp_mono (p d : Nat) (h : m ≤ n) : ulp p m d ≤ ulp p n d := by
  have hlog : (m / d).log2 ≤ (n / d).log2 := by
    rw [Nat.log2_eq_log_two, Nat.log2_eq_log_two]
    exact Nat.log_mono_right (Nat.div_le_div_right h)
  exact Nat.pow_le_pow_right (by decide) (by omega)

/-- A multiple of the distance that is not exceeded is not exceeded by what is rounded. -/
theorem roundFloat_le_mul_ulp (hd : 0 < d) {q : Nat} (h : n ≤ q * (d * ulp p n d)) :
    roundFloat p n d ≤ q * ulp p n d := by
  refine Nat.mul_le_mul_right _ ?_
  calc roundHalfEven n (d * ulp p n d)
    _ ≤ roundHalfEven (q * (d * ulp p n d)) (d * ulp p n d) := roundHalfEven_mono _ h
    _ = q := roundHalfEven_mul (Nat.mul_pos hd (ulp_pos p n d)) q

theorem mul_ulp_le_roundFloat (hd : 0 < d) {q : Nat} (h : q * (d * ulp p n d) ≤ n) :
    q * ulp p n d ≤ roundFloat p n d := by
  refine Nat.mul_le_mul_right _ ?_
  calc q = roundHalfEven (q * (d * ulp p n d)) (d * ulp p n d) :=
        (roundHalfEven_mul (Nat.mul_pos hd (ulp_pos p n d)) q).symm
    _ ≤ roundHalfEven n (d * ulp p n d) := roundHalfEven_mono _ h

/-- Rounding does not pass the power of two above. -/
theorem roundFloat_le_two_pow (hd : 0 < d) : roundFloat p n d ≤ 2 ^ p * ulp p n d := by
  refine roundFloat_le_mul_ulp hd ?_
  have hlog : n / d < 2 ^ ((n / d).log2 + 1) := Nat.lt_log2_self
  have hpow : 2 ^ ((n / d).log2 + 1) ≤ 2 ^ p * ulp p n d := by
    rw [ulp, ← Nat.pow_add]
    exact Nat.pow_le_pow_right (by decide) (by omega)
  have hlt : n < 2 ^ p * ulp p n d * d :=
    (Nat.div_lt_iff_lt_mul hd).1 (Nat.lt_of_lt_of_le hlog hpow)
  rw [Nat.mul_comm d, ← Nat.mul_assoc]
  exact Nat.le_of_lt hlt

/-- Nor the one below. -/
theorem two_pow_le_roundFloat (hp : 0 < p) (hd : 0 < d) (hlog : p ≤ (n / d).log2) :
    2 ^ (n / d).log2 ≤ roundFloat p n d := by
  have hpow : 2 ^ (n / d).log2 = 2 ^ (p - 1) * ulp p n d := by
    rw [ulp, ← Nat.pow_add]
    congr 1
    omega
  have hne : n / d ≠ 0 := by
    intro hzero
    rw [hzero, Nat.log2_zero] at hlog
    omega
  have hle : 2 ^ (n / d).log2 * d ≤ n := (Nat.le_div_iff_mul_le hd).1 (Nat.log2_self_le hne)
  rw [hpow] at hle ⊢
  refine mul_ulp_le_roundFloat hd ?_
  rwa [Nat.mul_comm d, ← Nat.mul_assoc]

/-- **Rounding is monotone.** -/
theorem roundFloat_mono (hp : 0 < p) (hd : 0 < d) (h : m ≤ n) :
    roundFloat p m d ≤ roundFloat p n d := by
  rcases Nat.lt_or_eq_of_le (ulp_mono p d h) with hlt | heq
  · have hexp := (Nat.pow_lt_pow_iff_right (by decide)).1 hlt
    calc roundFloat p m d ≤ 2 ^ p * ulp p m d := roundFloat_le_two_pow hd
      _ = 2 ^ (p + ((m / d).log2 + 1 - p)) := (Nat.pow_add 2 p _).symm
      _ ≤ 2 ^ (n / d).log2 := Nat.pow_le_pow_right (by decide) (by omega)
      _ ≤ roundFloat p n d := two_pow_le_roundFloat hp hd (by omega)
  · rw [roundFloat, roundFloat, heq]
    exact Nat.mul_le_mul_right _ (roundHalfEven_mono _ h)

end Lib
