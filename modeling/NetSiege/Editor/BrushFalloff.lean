import Mathlib.Algebra.Order.Ring.Rat
import Mathlib.Tactic.NormNum
import Mathlib.Tactic.Ring
import NetSiege.Editor.HeightBrush

/-!
# How a brush falls off (`brush.cpp`)

`brushFunction` is 1 up to the hardness and goes down to 0 at the rim as `(1 - t²)²` does. The rim
itself has the value 1, by a case of its own (`brushFunction_one`).
-/

namespace NetSiege

namespace HeightBrush

variable {K : Type} [Field K] [LinearOrder K] [IsStrictOrderedRing K] {x y hard : K}

omit [IsStrictOrderedRing K] in
theorem brushProfile_of_le (hx : x ≤ 1) : brushProfile x = (1 - x * x) ^ 2 := by
  rw [brushProfile, if_neg (not_lt.2 hx)]
  ring

omit [IsStrictOrderedRing K] in
theorem brushProfile_of_lt (hx : 1 < x) : brushProfile x = 0 := if_pos hx

theorem brushProfile_nonneg (x : K) : 0 ≤ brushProfile x := by
  obtain hx | hx := le_or_gt x 1
  · rw [brushProfile_of_le hx]
    exact sq_nonneg _
  · rw [brushProfile_of_lt hx]

@[simp] theorem brushProfile_zero : brushProfile (0 : K) = 1 := by
  rw [brushProfile_of_le zero_le_one]
  ring

omit [IsStrictOrderedRing K] in
@[simp] theorem brushProfile_one : brushProfile (1 : K) = 0 := by
  rw [brushProfile_of_le le_rfl]
  ring

/-- The profile goes down from the middle to the rim. -/
theorem brushProfile_lt (hx : 0 ≤ x) (hxy : x < y) (hy : y ≤ 1) :
    brushProfile y < brushProfile x := by
  rw [brushProfile_of_le hy, brushProfile_of_le (hxy.le.trans hy)]
  have hsq : x * x < y * y := mul_self_lt_mul_self hx hxy
  have hone : y * y ≤ 1 := mul_le_one₀ hy (hx.trans hxy.le) hy
  exact pow_lt_pow_left₀ (sub_lt_sub_left hsq 1) (sub_nonneg.2 hone) two_ne_zero

theorem brushProfile_antitone (hx : 0 ≤ x) (hxy : x ≤ y) : brushProfile y ≤ brushProfile x := by
  obtain rfl | hlt := hxy.eq_or_lt
  · exact le_rfl
  · obtain hy | hy := le_or_gt y 1
    · exact (brushProfile_lt hx hlt hy).le
    · rw [brushProfile_of_lt hy]
      exact brushProfile_nonneg x

/-! ## The function -/

omit [IsStrictOrderedRing K] in
/-- The rim counts as the middle. -/
@[simp] theorem brushFunction_one (hard : K) : brushFunction 1 hard = 1 := if_pos rfl

/-- Where the profile is read, off the rim. -/
def falloff (x hard : K) : K := max 0 ((x - hard) / (1 - hard))

omit [IsStrictOrderedRing K] in
theorem falloff_nonneg (x hard : K) : 0 ≤ falloff x hard := le_max_left _ _

theorem falloff_mono (h1 : hard < 1) (hxy : x ≤ y) : falloff x hard ≤ falloff y hard := by
  apply max_le_max le_rfl
  exact div_le_div_of_nonneg_right (sub_le_sub_right hxy hard) (sub_nonneg.2 h1.le)

theorem falloff_of_le (h1 : hard < 1) (hx : x ≤ hard) : falloff x hard = 0 :=
  max_eq_left (div_nonpos_of_nonpos_of_nonneg (sub_nonpos.2 hx) (sub_nonneg.2 h1.le))

theorem falloff_of_lt (h1 : hard < 1) (hx : hard < x) : falloff x hard = (x - hard) / (1 - hard) :=
  max_eq_right (div_pos (sub_pos.2 hx) (sub_pos.2 h1)).le

/-- Beyond the hardness, the place goes up with the distance. -/
theorem falloff_lt (h1 : hard < 1) (hy : hard < y) (hxy : x < y) :
    falloff x hard < falloff y hard := by
  have hpos : 0 < 1 - hard := sub_pos.2 h1
  rw [falloff_of_lt h1 hy]
  apply max_lt (div_pos (sub_pos.2 hy) hpos)
  exact div_lt_div_of_pos_right (sub_lt_sub_right hxy hard) hpos

theorem falloff_one (h1 : hard < 1) : falloff 1 hard = 1 := by
  rw [falloff_of_lt h1 h1, div_self (sub_pos.2 h1).ne']

theorem brushFunction_of_ne (hx : x ≠ 1) (h1 : hard < 1) :
    brushFunction x hard = brushProfile (falloff x hard) := by
  rw [brushFunction, if_neg hx]
  split
  · next hgt => rw [if_neg (sub_ne_zero.2 h1.ne'), falloff_of_lt h1 hgt]
  · next hle => rw [falloff_of_le h1 (not_lt.1 hle), brushProfile_zero]

theorem brushFunction_of_le (h1 : hard < 1) (hx : x ≤ hard) : brushFunction x hard = 1 := by
  rw [brushFunction_of_ne (hx.trans_lt h1).ne h1, falloff_of_le h1 hx, brushProfile_zero]

theorem brushFunction_of_lt (h1 : hard < 1) (hx : 1 < x) : brushFunction x hard = 0 := by
  have hout := falloff_lt h1 (h1.trans hx) hx
  rw [falloff_one h1] at hout
  rw [brushFunction_of_ne hx.ne' h1, brushProfile_of_lt hout]

/-- Off the rim the values go down outwards. -/
theorem brushFunction_antitone (h1 : hard < 1) (hx : x ≠ 1) (hy : y ≠ 1) (hxy : x ≤ y) :
    brushFunction y hard ≤ brushFunction x hard := by
  rw [brushFunction_of_ne hx h1, brushFunction_of_ne hy h1]
  exact brushProfile_antitone (falloff_nonneg x hard) (falloff_mono h1 hxy)

/-- Between the hardness and the rim they do so strictly. -/
theorem brushFunction_lt (h1 : hard < 1) (hxy : x < y) (hy : hard < y) (hy1 : y < 1) :
    brushFunction y hard < brushFunction x hard := by
  have hin := (falloff_lt h1 h1 hy1).le
  rw [falloff_one h1] at hin
  rw [brushFunction_of_ne (hxy.trans hy1).ne h1, brushFunction_of_ne hy1.ne h1]
  exact brushProfile_lt (falloff_nonneg x hard) (falloff_lt h1 hy hxy) hin

theorem brushFunction_nonneg (h1 : hard < 1) (x : K) : 0 ≤ brushFunction x hard := by
  obtain rfl | hx := eq_or_ne x 1
  · rw [brushFunction_one]
    exact zero_le_one
  · rw [brushFunction_of_ne hx h1]
    exact brushProfile_nonneg _

theorem brushFunction_le_one (h1 : hard < 1) (x : K) : brushFunction x hard ≤ 1 := by
  obtain rfl | hx := eq_or_ne x 1
  · rw [brushFunction_one]
  · rw [brushFunction_of_ne hx h1, ← brushProfile_zero]
    exact brushProfile_antitone le_rfl (falloff_nonneg x hard)

/-- Between the hardness and the rim the value is less than 1. -/
theorem brushFunction_lt_one (h1 : hard < 1) (hx : hard < x) (hne : x ≠ 1) :
    brushFunction x hard < 1 := by
  obtain hx1 | hx1 := hne.lt_or_gt
  · have hlt := brushFunction_lt h1 hx hx hx1
    rwa [brushFunction_of_le h1 le_rfl] at hlt
  · rw [brushFunction_of_lt h1 hx1]
    exact zero_lt_one

/-- The weight is not zero up to the rim. -/
theorem brushFunction_pos (h1 : hard < 1) (hx : x ≤ 1) : 0 < brushFunction x hard := by
  obtain rfl | hx1 := hx.eq_or_lt
  · rw [brushFunction_one]
    exact zero_lt_one
  · have hin := falloff_lt h1 h1 hx1
    rw [falloff_one h1] at hin
    rw [brushFunction_of_ne hx1.ne h1, ← brushProfile_one]
    exact brushProfile_lt (falloff_nonneg x hard) hin le_rfl

/-! ## Equal weights -/

/-- The distances with the full weight; the rim counts as the middle. -/
def Full (x hard : K) : Prop := x ≤ hard ∨ x = 1

theorem brushFunction_eq_one_iff (h1 : hard < 1) : brushFunction x hard = 1 ↔ Full x hard := by
  refine ⟨fun h => ?_, fun h => ?_⟩
  · by_contra hfull
    obtain ⟨hle, hne⟩ := not_or.1 hfull
    exact (brushFunction_lt_one h1 (not_le.1 hle) hne).ne h
  · obtain hle | rfl := h
    · exact brushFunction_of_le h1 hle
    · exact brushFunction_one hard

omit [IsStrictOrderedRing K] in
theorem between_of_not_full (hx : x ≤ 1) (h : ¬ Full x hard) : hard < x ∧ x < 1 := by
  obtain ⟨hle, hne⟩ := not_or.1 h
  exact ⟨not_le.1 hle, lt_of_le_of_ne hx hne⟩

/-- Up to the rim, two weights are the same at the same distance, or when both are full. -/
theorem brushFunction_eq_iff (h1 : hard < 1) (hx1 : x ≤ 1) (hy1 : y ≤ 1) :
    brushFunction x hard = brushFunction y hard ↔ x = y ∨ Full x hard ∧ Full y hard := by
  refine ⟨fun h => ?_, fun h => ?_⟩
  · by_cases hfull : Full x hard
    · have hx := (brushFunction_eq_one_iff h1).2 hfull
      exact .inr ⟨hfull, (brushFunction_eq_one_iff h1).1 (h.symm.trans hx)⟩
    · have hfull' : ¬ Full y hard := fun hy =>
        hfull ((brushFunction_eq_one_iff h1).1 (h.trans ((brushFunction_eq_one_iff h1).2 hy)))
      obtain ⟨hx, hx1⟩ := between_of_not_full hx1 hfull
      obtain ⟨hy, hy1⟩ := between_of_not_full hy1 hfull'
      obtain hlt | heq | hgt := lt_trichotomy x y
      · exact absurd h (brushFunction_lt h1 hlt hy hy1).ne'
      · exact .inl heq
      · exact absurd h (brushFunction_lt h1 hgt hx hx1).ne
  · obtain rfl | ⟨hx, hy⟩ := h
    · rfl
    · rw [(brushFunction_eq_one_iff h1).2 hx, (brushFunction_eq_one_iff h1).2 hy]

end HeightBrush

/-- A brush of hardness `h` falls off smoothly at the distances `x` and `y`. -/
structure FallsOff (h x y : Rat) : Prop where
  range : 0 ≤ brushFunction x h ∧ brushFunction x h ≤ 1
  full : x ≤ h → brushFunction x h = 1
  null : 1 ≤ x → brushFunction x h = 0
  antitone : x ≤ y → brushFunction y h ≤ brushFunction x h

/-- **The brush.** It falls off smoothly at two distances, if and only if the first is not that of
the rim, and neither is the second when the first lies between the hardness and the rim. -/
theorem fallsOff_iff (h x y : Rat) (h1 : h < 1) : FallsOff h x y ↔
    x ≠ 1 ∧ ¬ (y = 1 ∧ h < x ∧ x < 1) := by
  have heq := HeightBrush.brushFunction_eq
  refine ⟨fun hfall => ⟨?_, ?_⟩, fun ⟨hne, hrim⟩ => ⟨?_, ?_, ?_, ?_⟩⟩
  · rintro rfl
    have hnull := hfall.null le_rfl
    rw [← heq, HeightBrush.brushFunction_one] at hnull
    exact one_ne_zero hnull
  · rintro ⟨rfl, hlt, hlt1⟩
    have hle := hfall.antitone hlt1.le
    rw [← heq, ← heq, HeightBrush.brushFunction_one] at hle
    exact absurd hle (not_le.2 (HeightBrush.brushFunction_lt_one h1 hlt hlt1.ne))
  · rw [← heq]
    exact ⟨HeightBrush.brushFunction_nonneg h1 x, HeightBrush.brushFunction_le_one h1 x⟩
  · rw [← heq]
    exact HeightBrush.brushFunction_of_le h1
  · intro hle
    rw [← heq]
    exact HeightBrush.brushFunction_of_lt h1 (lt_of_le_of_ne hle hne.symm)
  · intro hxy
    rw [← heq, ← heq]
    obtain rfl | hy1 := eq_or_ne y 1
    · have hfull : x ≤ h := not_lt.1 fun hlt => hrim ⟨rfl, hlt, lt_of_le_of_ne hxy hne⟩
      rw [HeightBrush.brushFunction_of_le h1 hfull]
      exact HeightBrush.brushFunction_le_one h1 1
    · exact HeightBrush.brushFunction_antitone h1 hne hy1 hxy

/-- A soft brush halfway to the rim, and a point outside. -/
theorem fallsOff_halfway : FallsOff 0 (1 / 2) 2 :=
  (fallsOff_iff 0 (1 / 2) 2 zero_lt_one).2 ⟨by norm_num, by norm_num⟩

/-- At the rim the brush has its full strength. -/
theorem not_fallsOff_rim : ¬ ∀ h x y : Rat, 0 ≤ h → h < 1 → 0 ≤ x → 0 ≤ y → FallsOff h x y := by
  intro hall
  have hnull := (hall 0 1 1 le_rfl zero_lt_one zero_le_one zero_le_one).null le_rfl
  rw [← HeightBrush.brushFunction_eq, HeightBrush.brushFunction_one] at hnull
  exact one_ne_zero hnull

end NetSiege
