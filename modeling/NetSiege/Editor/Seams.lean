import Mathlib.Algebra.Order.Ring.Abs
import Mathlib.Analysis.Real.Sqrt
import Mathlib.Data.Rat.Cast.Order
import Mathlib.Data.Rat.Floor
import Mathlib.Data.Rat.Sqrt
import Mathlib.Tactic.FieldSimp
import Mathlib.Tactic.Ring
import NetSiege.Editor.BrushFalloff

/-!
# Seams between tiles (`brush.cpp`)

The last samples of a tile and the first samples of its neighbour lie on the same line, but the
brush converts positions with the number of samples of a tile, not with the number of the gaps
between them: the two samples are one sample apart for it. `HeightBrush.joined_update_iff` says when
`update` edits them alike all the same.
-/

namespace NetSiege

namespace HeightBrush

/-! ## Distances -/

section
variable {K : Type} [Field K] [LinearOrder K] [IsStrictOrderedRing K] {sqrt : Rat → K}
  {q q' c brushSize hard : Rat}

/-- The square root is exact. -/
def ExactSqrt (sqrt : Rat → K) : Prop := ∀ q, 0 ≤ q → 0 ≤ sqrt q ∧ sqrt q ^ 2 = (q : K)

theorem scaled_le_iff (hsqrt : ExactSqrt sqrt) (hb : 0 < brushSize) (hc : 0 ≤ c) (hq : 0 ≤ q) :
    scaled sqrt brushSize q ≤ (c : K) ↔ q ≤ (c * (brushSize / 2)) ^ 2 := by
  obtain ⟨hd, hsq⟩ := hsqrt q hq
  have hb' : (0 : K) < (brushSize : K) / 2 := div_pos (Rat.cast_pos.2 hb) two_pos
  have hc' : (0 : K) ≤ (c : K) * ((brushSize : K) / 2) :=
    mul_nonneg (Rat.cast_nonneg.2 hc) hb'.le
  have hscaled : scaled sqrt brushSize q = sqrt q / ((brushSize : K) / 2) := by
    rw [scaled, div_div_eq_mul_div, div_mul_eq_mul_div]
  rw [hscaled, div_le_iff₀ hb', ← sq_le_sq₀ hd hc', hsq, ← Rat.cast_le (K := K)]
  push_cast
  rfl

theorem scaled_inj (hsqrt : ExactSqrt sqrt) (hb : 0 < brushSize) (hq : 0 ≤ q) (hq' : 0 ≤ q') :
    scaled sqrt brushSize q = scaled sqrt brushSize q' ↔ q = q' := by
  obtain ⟨hd, hsq⟩ := hsqrt q hq
  obtain ⟨hd', hsq'⟩ := hsqrt q' hq'
  have hb' : (brushSize : K) ≠ 0 := Rat.cast_ne_zero.2 hb.ne'
  rw [scaled, scaled, mul_left_inj' two_ne_zero, div_left_inj' hb',
    ← pow_left_inj₀ hd hd' two_ne_zero, hsq, hsq', Rat.cast_inj]

theorem scaled_eq_one_iff (hsqrt : ExactSqrt sqrt) (hb : 0 < brushSize) (hq : 0 ≤ q) :
    scaled sqrt brushSize q = 1 ↔ q = (brushSize / 2) ^ 2 := by
  have hb' : (0 : K) < brushSize := Rat.cast_pos.2 hb
  obtain ⟨hd, hsq⟩ := hsqrt ((brushSize / 2) ^ 2) (sq_nonneg _)
  have hrim : sqrt ((brushSize / 2) ^ 2) = (brushSize : K) / 2 := by
    rw [← pow_left_inj₀ hd (div_pos hb' two_pos).le two_ne_zero, hsq]
    push_cast
    rfl
  have hone : scaled sqrt brushSize ((brushSize / 2) ^ 2) = 1 := by
    rw [scaled, hrim]
    field_simp
  rw [← hone, scaled_inj hsqrt hb hq (sq_nonneg _)]

end

/-! ## The samples a brush reaches -/

/-- A brush edits the sample at an offset from the pointer: it is inside the rectangle, whose right
column and bottom row are left out, and not beyond the rim. -/
def Reaches (radius dx dz : Rat) : Prop :=
  dx + 1 ≤ radius ∧ dz + 1 ≤ radius ∧ dx ^ 2 + dz ^ 2 ≤ radius ^ 2

/-- A sample at an offset from the pointer has the full weight. -/
def FullAt (hard radius dx dz : Rat) : Prop :=
  dx ^ 2 + dz ^ 2 ≤ (hard * radius) ^ 2 ∨ dx ^ 2 + dz ^ 2 = radius ^ 2

/-- A reached sample lies inside the lower bounds of the rectangle. -/
theorem Reaches.lower {radius dx dz : Rat} (h : Reaches radius dx dz) :
    -radius - 1 < dx ∧ -radius - 1 < dz := by
  obtain ⟨hx, hz, hsq⟩ := h
  constructor
  · nlinarith [sq_nonneg dz]
  · nlinarith [sq_nonneg dx]

theorem Reaches.radius_pos {radius dx dz : Rat} (h : Reaches radius dx dz) : 0 < 2 * radius := by
  obtain ⟨hlower, -⟩ := h.lower
  obtain ⟨hx, -⟩ := h
  linarith

section
variable {K : Type} [Field K] [LinearOrder K] {sqrt : Rat → K} {hard radius dx dz dx' dz' : Rat}

/-- The weight of the sample at an offset from the pointer, zero outside the rectangle. -/
def weightAt (sqrt : Rat → K) (hard radius dx dz : Rat) : K :=
  if (-radius - 1 < dx ∧ dx + 1 ≤ radius) ∧ -radius - 1 < dz ∧ dz + 1 ≤ radius then
    brushFunction (scaled sqrt (2 * radius) (dx ^ 2 + dz ^ 2)) (hard : K)
  else 0

theorem weightAt_comm : weightAt sqrt hard radius dx dz = weightAt sqrt hard radius dz dx := by
  rw [weightAt, weightAt, add_comm (dx ^ 2)]
  exact if_congr and_comm rfl rfl

theorem mem_brushRect {x z : Rat} {size ix iy : Nat} (hix : ix < size) (hiy : iy < size) :
    (brushRect x z (2 * radius) size).left ≤ ix ∧ ix < (brushRect x z (2 * radius) size).right ∧
        (brushRect x z (2 * radius) size).top ≤ iy ∧
        iy < (brushRect x z (2 * radius) size).bottom ↔
      (-radius - 1 < ix - x ∧ ix - x + 1 ≤ radius) ∧
        -radius - 1 < iy - z ∧ iy - z + 1 ≤ radius := by
  simp only [brushRect, clampIndex_le_iff hix, clampIndex_le_iff hiy, lt_clampIndex hix,
    lt_clampIndex hiy]
  constructor
  · rintro ⟨hl, hr, ht, hb⟩
    exact ⟨⟨by linarith, by linarith⟩, by linarith, by linarith⟩
  · rintro ⟨⟨hl, hr⟩, ht, hb⟩
    exact ⟨by linarith, by linarith, by linarith, by linarith⟩

/-- The radius of a brush on a tile, in samples. -/
def radiusOn (b : Brush γ) (ter : Terrain) : Rat :=
  (b.settings b.mode).size / ter.worldSize * ter.size / 2

theorem reach_eq {b : Brush γ} {ter : Terrain} {position : Vector3} {ix iy : Nat}
    (hix : ix < ter.size) (hiy : iy < ter.size) :
    reach sqrt b ter position ix iy =
      weightAt sqrt (b.settings b.mode).hardness (radiusOn b ter)
        (ix - (ter.heightIndices position).x) (iy - (ter.heightIndices position).z) := by
  have hsize : (b.settings b.mode).size / ter.worldSize * ter.size = 2 * radiusOn b ter :=
    (mul_div_cancel₀ _ two_ne_zero).symm
  simp only [reach, hsize, mem_brushRect hix hiy]
  rfl

theorem weightAt_of_reaches (h : Reaches radius dx dz) :
    weightAt sqrt hard radius dx dz =
      brushFunction (scaled sqrt (2 * radius) (dx ^ 2 + dz ^ 2)) (hard : K) :=
  if_pos ⟨⟨h.lower.1, h.1⟩, h.lower.2, h.2.1⟩

variable [IsStrictOrderedRing K]

theorem scaled_le_one_iff (hsqrt : ExactSqrt sqrt) (hr : 0 < 2 * radius) :
    scaled sqrt (2 * radius) (dx ^ 2 + dz ^ 2) ≤ 1 ↔ dx ^ 2 + dz ^ 2 ≤ radius ^ 2 := by
  have hle := scaled_le_iff hsqrt hr zero_le_one (add_nonneg (sq_nonneg dx) (sq_nonneg dz))
  rwa [Rat.cast_one, one_mul, mul_div_cancel_left₀ _ two_ne_zero] at hle

theorem full_scaled_iff (hsqrt : ExactSqrt sqrt) (h0 : 0 ≤ hard) (hr : 0 < 2 * radius) :
    Full (scaled sqrt (2 * radius) (dx ^ 2 + dz ^ 2)) (hard : K) ↔ FullAt hard radius dx dz := by
  have hq : 0 ≤ dx ^ 2 + dz ^ 2 := add_nonneg (sq_nonneg dx) (sq_nonneg dz)
  rw [Full, FullAt, scaled_le_iff hsqrt hr h0 hq, scaled_eq_one_iff hsqrt hr hq,
    mul_div_cancel_left₀ _ two_ne_zero]

theorem weightAt_of_not_reaches (hsqrt : ExactSqrt sqrt) (h1 : hard < 1)
    (h : ¬ Reaches radius dx dz) : weightAt sqrt hard radius dx dz = 0 := by
  rw [weightAt]
  split
  · next hin =>
    obtain ⟨⟨hl, hx⟩, ht, hz⟩ := hin
    have hr : 0 < 2 * radius := by linarith
    have hout : ¬ scaled sqrt (2 * radius) (dx ^ 2 + dz ^ 2) ≤ 1 := fun hle =>
      h ⟨hx, hz, (scaled_le_one_iff hsqrt hr).1 hle⟩
    exact brushFunction_of_lt (by exact_mod_cast h1) (not_le.1 hout)
  · rfl

theorem weightAt_pos (hsqrt : ExactSqrt sqrt) (h1 : hard < 1) (h : Reaches radius dx dz) :
    0 < weightAt sqrt hard radius dx dz := by
  rw [weightAt_of_reaches h]
  exact brushFunction_pos (by exact_mod_cast h1) ((scaled_le_one_iff hsqrt h.radius_pos).2 h.2.2)

/-- Two samples have the same weight for a brush. -/
def SameWeight (hard radius dx dz dx' dz' : Rat) : Prop :=
  ¬ Reaches radius dx dz ∧ ¬ Reaches radius dx' dz' ∨
    Reaches radius dx dz ∧ Reaches radius dx' dz' ∧
      (dx ^ 2 + dz ^ 2 = dx' ^ 2 + dz' ^ 2 ∨ FullAt hard radius dx dz ∧ FullAt hard radius dx' dz')

theorem weightAt_eq_iff (hsqrt : ExactSqrt sqrt) (h0 : 0 ≤ hard) (h1 : hard < 1) :
    weightAt sqrt hard radius dx dz = weightAt sqrt hard radius dx' dz' ↔
      SameWeight hard radius dx dz dx' dz' := by
  by_cases h : Reaches radius dx dz <;> by_cases h' : Reaches radius dx' dz'
  · have hr := h.radius_pos
    have hle := (scaled_le_one_iff hsqrt hr).2 h.2.2
    have hle' := (scaled_le_one_iff hsqrt hr).2 h'.2.2
    rw [weightAt_of_reaches h, weightAt_of_reaches h',
      brushFunction_eq_iff (by exact_mod_cast h1) hle hle',
      scaled_inj hsqrt hr (by positivity) (by positivity), full_scaled_iff hsqrt h0 hr,
      full_scaled_iff hsqrt h0 hr]
    simp [SameWeight, h, h']
  · rw [weightAt_of_not_reaches hsqrt h1 h']
    simp [SameWeight, h, h', (weightAt_pos hsqrt h1 h).ne']
  · rw [weightAt_of_not_reaches hsqrt h1 h]
    simp [SameWeight, h, h', (weightAt_pos hsqrt h1 h').ne]
  · rw [weightAt_of_not_reaches hsqrt h1 h, weightAt_of_not_reaches hsqrt h1 h']
    simp [SameWeight, h, h']

end

end HeightBrush

/-! ## The grid of the tiles -/

variable {γ : Type}

/-- Where the tiles of a group are, and the slot that is found for a position. -/
structure Scene.IsGrid (G : Scene γ) (group : γ) (origin : Vector3) (worldSize : Rat) : Prop where
  worldSize_pos : 0 < worldSize
  worldSize_eq : ∀ {tile ter}, G.getTerrain group tile = some ter → ter.worldSize = worldSize
  position_x : ∀ {tile ter}, G.getTerrain group tile = some ter →
    ter.position.x = origin.x + tile.x * worldSize
  position_z : ∀ {tile ter}, G.getTerrain group tile = some ter →
    ter.position.z = origin.z - tile.y * worldSize
  terrainSlot : ∀ position, G.terrainSlot group position =
    ⟨⌊(position.x - origin.x) / worldSize + 1 / 2⌋, ⌊(origin.z - position.z) / worldSize + 1 / 2⌋⟩

/-- The position in tiles, from the corner of the tile at 0. -/
def inTiles (origin : Vector3) (worldSize : Rat) (position : Vector3) : Rat × Rat :=
  ((position.x - origin.x) / worldSize + 1 / 2, (origin.z - position.z) / worldSize + 1 / 2)

namespace Scene.IsGrid

variable {G : Scene γ} {group : γ} {origin position : Vector3} {worldSize : Rat} {tile : Tile}
  {ter : Terrain}

theorem heightIndices_x (H : G.IsGrid group origin worldSize)
    (hter : G.getTerrain group tile = some ter) : (ter.heightIndices position).x =
      ((inTiles origin worldSize position).1 - tile.x) * ter.size := by
  have hpos := H.worldSize_pos.ne'
  simp only [Terrain.heightIndices, Terrain.relative, Vector3.scale, inTiles, H.worldSize_eq hter,
    H.position_x hter]
  field_simp
  ring

theorem heightIndices_z (H : G.IsGrid group origin worldSize)
    (hter : G.getTerrain group tile = some ter) : (ter.heightIndices position).z =
      ((inTiles origin worldSize position).2 - tile.y) * ter.size := by
  have hpos := H.worldSize_pos.ne'
  simp only [Terrain.heightIndices, Terrain.relative, Vector3.scale, inTiles, H.worldSize_eq hter,
    H.position_z hter]
  field_simp
  ring

end Scene.IsGrid

theorem BrushSession.mem_around_iff {slot tile : Tile} : tile ∈ around slot ↔
    (slot.x - 1 ≤ tile.x ∧ tile.x ≤ slot.x + 1) ∧ slot.y - 1 ≤ tile.y ∧ tile.y ≤ slot.y + 1 := by
  obtain ⟨x, y⟩ := tile
  obtain ⟨slotX, slotY⟩ := slot
  simp only [around, List.mem_cons, List.not_mem_nil, Tile.mk.injEq, or_false]
  omega

theorem BrushSession.nodup_around (slot : Tile) : (around slot).Nodup := by
  obtain ⟨slotX, slotY⟩ := slot
  simp only [around, List.nodup_cons, List.mem_cons, List.not_mem_nil, Tile.mk.injEq, or_false,
    not_or, List.nodup_nil, and_true, not_false_eq_true]
  omega

namespace HeightBrush

variable {K : Type} [Field K] [LinearOrder K] {G : Scene γ} {sqrt : Rat → K} {group : γ}
  {origin position : Vector3} {worldSize : Rat} {average : K} {s : HeightBrush γ K} {tile : Tile}
  {ter : Terrain} {ix iy : Nat}

/-- Along one axis: a sample inside the bounds of the brush is in the slot of the pointer or next
to it. -/
theorem near_floor {pointer n radius : Rat} {x : Int} {i : Nat} (hn : 0 < n)
    (hi : (i : Rat) + 1 ≤ n) (hradius : radius ≤ n / 2)
    (hl : -radius - 1 < i - (pointer - x) * n) (hr : i - (pointer - x) * n + 1 ≤ radius) :
    ⌊pointer⌋ - 1 ≤ x ∧ x ≤ ⌊pointer⌋ + 1 := by
  have hi0 : (0 : Rat) ≤ i := Nat.cast_nonneg i
  have hupper : pointer - x < 3 / 2 := lt_of_mul_lt_mul_right (by linarith) hn.le
  have hlower : -(1 / 2) < pointer - x := lt_of_mul_lt_mul_right (by linarith) hn.le
  have hfloor := Int.floor_le pointer
  have hlt := Int.lt_floor_add_one pointer
  constructor
  · have hcast : (⌊pointer⌋ : Rat) < ((x + 2 : Int) : Rat) := by
      push_cast
      linarith
    have hint : ⌊pointer⌋ < x + 2 := by exact_mod_cast hcast
    omega
  · have hcast : (x : Rat) < ((⌊pointer⌋ + 2 : Int) : Rat) := by
      push_cast
      linarith
    have hint : x < ⌊pointer⌋ + 2 := by exact_mod_cast hcast
    omega

/-- A brush of at most one tile does not reach beyond the tiles around its slot. -/
theorem reach_of_not_mem_around (H : G.IsGrid group origin worldSize) {b : Brush γ}
    (hsize : (b.settings b.mode).size ≤ worldSize) (hter : G.getTerrain group tile = some ter)
    (hix : ix < ter.size) (hiy : iy < ter.size)
    (hmem : tile ∉ BrushSession.around (G.terrainSlot group position)) :
    reach sqrt b ter position ix iy = 0 := by
  rw [reach_eq hix hiy, weightAt]
  refine if_neg fun hin => hmem ?_
  obtain ⟨⟨hl, hr⟩, ht, hb⟩ := hin
  have hn : (0 : Rat) < ter.size := by exact_mod_cast Nat.zero_lt_of_lt hix
  have hradius : radiusOn b ter ≤ ter.size / 2 := by
    rw [radiusOn, H.worldSize_eq hter]
    have hle : (b.settings b.mode).size / worldSize ≤ 1 := (div_le_one H.worldSize_pos).2 hsize
    have hmul := mul_le_mul_of_nonneg_right hle hn.le
    linarith
  rw [H.heightIndices_x hter] at hl hr
  rw [H.heightIndices_z hter] at ht hb
  have hx : (ix : Rat) + 1 ≤ ter.size := by exact_mod_cast hix
  have hy : (iy : Rat) + 1 ≤ ter.size := by exact_mod_cast hiy
  rw [BrushSession.mem_around_iff, H.terrainSlot]
  exact ⟨near_floor hn hx hradius hl hr, near_floor hn hy hradius ht hb⟩

/-- `update` edits every loaded tile by the weights of its samples. -/
theorem heights_update (H : G.IsGrid group origin worldSize)
    (hgroup : s.brush.group = some group) (hmode : s.brush.mode.isHeight)
    (hsize : (s.brush.settings s.brush.mode).size ≤ worldSize)
    (hter : G.getTerrain group tile = some ter) (hix : ix < ter.size) (hiy : iy < ter.size)
    (shift : Bool) :
    (s.update G sqrt (some position) average fun _ => shift).heights tile (iy * ter.size + ix) =
      s.heights tile (iy * ter.size + ix) + reach sqrt s.brush ter position ix iy *
        pull s.brush average shift (s.heights tile (iy * ter.size + ix)) := by
  simp only [update, hgroup, hmode, if_true]
  by_cases hmem : tile ∈ BrushSession.around (G.terrainSlot group position)
  · exact heights_foldl (BrushSession.nodup_around _) hmem hter hix
  · rw [heights_foldl_of_not_mem hmem, reach_of_not_mem_around H hsize hter hix hiy hmem, zero_mul,
      add_zero]

/-! ## Seams -/

/-- A tile has its neighbours at the seams behind its last column and behind its last row. -/
inductive Side where
  | horizontal
  | vertical

namespace Side

/-- The tile behind the seam. -/
def neighbour : Side → Tile → Tile
  | horizontal, tile => ⟨tile.x + 1, tile.y⟩
  | vertical, tile => ⟨tile.x, tile.y + 1⟩

/-- The column and the row of a sample, from its places across and along the seam. -/
def sample : Side → Nat → Nat → Nat × Nat
  | horizontal, across, along => (across, along)
  | vertical, across, along => (along, across)

/-- The index of a sample. -/
def index (side : Side) (size across along : Nat) : Nat :=
  (side.sample across along).2 * size + (side.sample across along).1

/-- How far behind the pointer the seam is, in samples of the tile. -/
def across (side : Side) (ter : Terrain) (position : Vector3) : Rat :=
  match side with
  | horizontal => ter.size - (ter.heightIndices position).x
  | vertical => ter.size - (ter.heightIndices position).z

/-- How far a place along the seam is from the pointer. -/
def along (side : Side) (ter : Terrain) (position : Vector3) (i : Nat) : Rat :=
  match side with
  | horizontal => i - (ter.heightIndices position).z
  | vertical => i - (ter.heightIndices position).x

end Side

/-- The last samples of a tile have the heights of the first samples of its neighbour. -/
def Joined (side : Side) (size : Nat) (heights : Tile → Nat → K) (tile : Tile) : Prop :=
  ∀ i < size, heights tile (side.index size (size - 1) i) =
    heights (side.neighbour tile) (side.index size 0 i)

/-- The brush leaves a height as it is. -/
def Still (b : Brush γ) (average : K) (shift : Bool) (height : K) : Prop :=
  (b.settings b.mode).strength = 0 ∨
    match b.mode with
    | .heightRaise => False
    | .heightSmooth => average = height
    | .heightFlatten => shift = true ∨ b.height = height
    | .none | .height | .layerPaint => True

/-- The brush does the same on both sides of the seam: it reaches neither of the two samples, or
both of them, and then the pointer is halfway between them, or both have the full weight. -/
def SeamAlike (hard radius across along : Rat) : Prop :=
  ¬ Reaches radius (across - 1) along ∧ ¬ Reaches radius across along ∨
    Reaches radius (across - 1) along ∧ Reaches radius across along ∧
      (across = 1 / 2 ∨
        FullAt hard radius (across - 1) along ∧ FullAt hard radius across along)

theorem sameWeight_seam_iff {hard radius across along : Rat} :
    SameWeight hard radius (across - 1) along across along ↔
      SeamAlike hard radius across along := by
  have hmid : (across - 1) ^ 2 + along ^ 2 = across ^ 2 + along ^ 2 ↔ across = 1 / 2 := by
    constructor
    · intro h
      linarith
    · rintro rfl
      ring
  rw [SameWeight, SeamAlike, hmid]

theorem pull_eq_zero_iff [IsStrictOrderedRing K] {b : Brush γ} {shift : Bool} {height : K} :
    pull b average shift height = 0 ↔ Still b average shift height := by
  rw [pull, Still]
  cases b.mode with
  | heightRaise => cases shift <;> simp
  | heightSmooth => simp [sub_eq_zero, or_comm]
  | heightFlatten => cases shift <;> simp [sub_eq_zero, or_comm]
  | none => simp
  | height => simp
  | layerPaint => simp

section
variable {side : Side} {ter' : Terrain} {b : Brush γ} {a i : Nat}

theorem Side.sample_lt {size : Nat} (ha : a < size) (hi : i < size) :
    (side.sample a i).1 < size ∧ (side.sample a i).2 < size := by
  cases side with
  | horizontal => exact ⟨ha, hi⟩
  | vertical => exact ⟨hi, ha⟩

theorem reach_sample (ha : a < ter.size) (hi : i < ter.size) :
    reach sqrt b ter position (side.sample a i).1 (side.sample a i).2 =
      weightAt sqrt (b.settings b.mode).hardness (radiusOn b ter)
        (a - ter.size + side.across ter position) (side.along ter position i) := by
  obtain ⟨hcolumn, hrow⟩ := side.sample_lt ha hi
  rw [reach_eq hcolumn hrow]
  cases side with
  | horizontal =>
    rw [Side.across, sub_add_sub_cancel]
    rfl
  | vertical =>
    rw [Side.across, sub_add_sub_cancel]
    exact weightAt_comm

theorem heights_update_index (H : G.IsGrid group origin worldSize)
    (hgroup : s.brush.group = some group) (hmode : s.brush.mode.isHeight)
    (hbrush : (s.brush.settings s.brush.mode).size ≤ worldSize)
    (hter : G.getTerrain group tile = some ter) (ha : a < ter.size) (hi : i < ter.size)
    {shift : Bool} :
    (s.update G sqrt (some position) average fun _ => shift).heights tile
        (side.index ter.size a i) =
      s.heights tile (side.index ter.size a i) +
        reach sqrt s.brush ter position (side.sample a i).1 (side.sample a i).2 *
          pull s.brush average shift (s.heights tile (side.index ter.size a i)) := by
  obtain ⟨hcolumn, hrow⟩ := side.sample_lt ha hi
  exact heights_update H hgroup hmode hbrush hter hcolumn hrow shift

/-- The seam is as many samples farther for the neighbour as a tile has. -/
theorem across_neighbour (H : G.IsGrid group origin worldSize)
    (hter : G.getTerrain group tile = some ter)
    (hter' : G.getTerrain group (side.neighbour tile) = some ter') (hsize : ter'.size = ter.size) :
    side.across ter' position = ter.size + side.across ter position := by
  cases side with
  | horizontal =>
    simp only [Side.across, H.heightIndices_x hter, H.heightIndices_x hter', Side.neighbour, hsize]
    push_cast
    ring
  | vertical =>
    simp only [Side.across, H.heightIndices_z hter, H.heightIndices_z hter', Side.neighbour, hsize]
    push_cast
    ring

theorem along_neighbour (H : G.IsGrid group origin worldSize)
    (hter : G.getTerrain group tile = some ter)
    (hter' : G.getTerrain group (side.neighbour tile) = some ter') (hsize : ter'.size = ter.size) :
    side.along ter' position i = side.along ter position i := by
  cases side with
  | horizontal =>
    simp only [Side.along, H.heightIndices_z hter, H.heightIndices_z hter', Side.neighbour, hsize]
  | vertical =>
    simp only [Side.along, H.heightIndices_x hter, H.heightIndices_x hter', Side.neighbour, hsize]

theorem radiusOn_neighbour (H : G.IsGrid group origin worldSize)
    (hter : G.getTerrain group tile = some ter)
    (hter' : G.getTerrain group (side.neighbour tile) = some ter') (hsize : ter'.size = ter.size) :
    radiusOn b ter' = radiusOn b ter := by
  rw [radiusOn, radiusOn, H.worldSize_eq hter, H.worldSize_eq hter', hsize]

/-- The weights of the two samples at a place of the seam. -/
theorem reach_seam_eq_iff [IsStrictOrderedRing K] (hsqrt : ExactSqrt sqrt)
    (h0 : 0 ≤ (b.settings b.mode).hardness) (h1 : (b.settings b.mode).hardness < 1)
    (H : G.IsGrid group origin worldSize) (hter : G.getTerrain group tile = some ter)
    (hter' : G.getTerrain group (side.neighbour tile) = some ter') (hsize : ter'.size = ter.size)
    (hi : i < ter.size) :
    reach sqrt b ter position (side.sample (ter.size - 1) i).1 (side.sample (ter.size - 1) i).2 =
        reach sqrt b ter' position (side.sample 0 i).1 (side.sample 0 i).2 ↔
      SeamAlike (b.settings b.mode).hardness (radiusOn b ter) (side.across ter position)
        (side.along ter position i) := by
  have hpos : 0 < ter.size := Nat.zero_lt_of_lt hi
  have hlast : ((ter.size - 1 : Nat) : Rat) - ter.size + side.across ter position =
      side.across ter position - 1 := by
    rw [Nat.cast_sub hpos]
    push_cast
    ring
  have hfirst : ((0 : Nat) : Rat) - ter'.size + side.across ter' position =
      side.across ter position := by
    rw [across_neighbour H hter hter' hsize, hsize]
    push_cast
    ring
  rw [reach_sample (Nat.sub_lt hpos one_pos) hi,
    reach_sample (hsize ▸ hpos) (hsize ▸ hi), hlast, hfirst, along_neighbour H hter hter' hsize,
    radiusOn_neighbour H hter hter' hsize, weightAt_eq_iff hsqrt h0 h1, sameWeight_seam_iff]

end

section
variable [IsStrictOrderedRing K] (hsqrt : ExactSqrt sqrt) (H : G.IsGrid group origin worldSize)
  (hgroup : s.brush.group = some group) (hmode : s.brush.mode.isHeight)
  (hbrush : (s.brush.settings s.brush.mode).size ≤ worldSize)
  (h0 : 0 ≤ (s.brush.settings s.brush.mode).hardness)
  (h1 : (s.brush.settings s.brush.mode).hardness < 1) (side : Side) {ter' : Terrain}
  (hter : G.getTerrain group tile = some ter)
  (hter' : G.getTerrain group (side.neighbour tile) = some ter') (hsize : ter'.size = ter.size)
include hsqrt H hgroup hmode hbrush h0 h1 hter hter' hsize

/-- At one place of a seam, two equal heights stay equal if the brush leaves them as they are, or
does the same on both sides. -/
theorem update_seam_iff {i : Nat} (hi : i < ter.size)
    (hequal : s.heights tile (side.index ter.size (ter.size - 1) i) =
      s.heights (side.neighbour tile) (side.index ter.size 0 i))
    (position : Vector3) (average : K) (shift : Bool) :
    (s.update G sqrt (some position) average fun _ => shift).heights tile
        (side.index ter.size (ter.size - 1) i) =
      (s.update G sqrt (some position) average fun _ => shift).heights (side.neighbour tile)
        (side.index ter.size 0 i) ↔
    Still s.brush average shift (s.heights tile (side.index ter.size (ter.size - 1) i)) ∨
      SeamAlike (s.brush.settings s.brush.mode).hardness (radiusOn s.brush ter)
        (side.across ter position) (side.along ter position i) := by
  have hpos : 0 < ter.size := Nat.zero_lt_of_lt hi
  rw [heights_update_index H hgroup hmode hbrush hter (Nat.sub_lt hpos one_pos) hi,
    ← hsize, heights_update_index H hgroup hmode hbrush hter' (hsize ▸ hpos) (hsize ▸ hi), hsize,
    ← hequal, add_right_inj, mul_eq_mul_right_iff, pull_eq_zero_iff, or_comm,
    reach_seam_eq_iff hsqrt h0 h1 H hter hter' hsize hi]

/-- **Seams.** A brush of at most one tile keeps the two sides of a seam at equal heights if and
only if, at each place of the seam, it leaves the height as it is or does the same on both sides. -/
theorem joined_update_iff (hjoined : Joined side ter.size s.heights tile) (position : Vector3)
    (average : K) (shift : Bool) :
    Joined side ter.size (s.update G sqrt (some position) average fun _ => shift).heights tile ↔
      ∀ i < ter.size,
        Still s.brush average shift (s.heights tile (side.index ter.size (ter.size - 1) i)) ∨
        SeamAlike (s.brush.settings s.brush.mode).hardness (radiusOn s.brush ter)
          (side.across ter position) (side.along ter position i) :=
  forall₂_congr fun i hi => update_seam_iff hsqrt H hgroup hmode hbrush h0 h1 side hter hter' hsize
    hi (hjoined i hi) position average shift

end

/-- A tile of 65 units with one sample for each. -/
def unitTerrain (tile : Tile) : Terrain where
  position := ⟨tile.x * 65, 0, -(tile.y * 65)⟩
  worldSize := 65
  size := 65
  layerBlendMapSize := 65

/-- Such tiles, with the tile at 0 in the middle. -/
def unitScene : Scene Unit where
  getTerrain _ tile := some (unitTerrain tile)
  terrainSlot _ position := ⟨⌊position.x / 65 + 1 / 2⌋, ⌊-position.z / 65 + 1 / 2⌋⟩
  sqrt := Rat.sqrt

theorem isGrid_unitScene : unitScene.IsGrid () ⟨0, 0, 0⟩ 65 where
  worldSize_pos := by norm_num
  worldSize_eq hter := by
    cases hter
    rfl
  position_x hter := by
    cases hter
    exact (zero_add _).symm
  position_z hter := by
    cases hter
    exact (zero_sub _).symm
  terrainSlot position := by
    rw [sub_zero, zero_sub]
    rfl

theorem exactSqrt_real : ExactSqrt fun q => √(q : ℝ) := fun _ hq =>
  ⟨Real.sqrt_nonneg _, Real.sq_sqrt (Rat.cast_nonneg.2 hq)⟩

/-- A flat terrain, and the brush as it is made, in the mode that raises. -/
def flatBrush (K : Type) [Zero K] : HeightBrush Unit K where
  brush := {
    mode := .heightRaise
    height := 0
    group := some ()
    settings := Brush.defaultSettings
    blendLayer := 1 }
  heights _ _ := 0

theorem joined_flatBrush (K : Type) [Zero K] (side : Side) (size : Nat) (tile : Tile) :
    Joined side size (flatBrush K).heights tile := fun _ _ => rfl

theorem radiusOn_flatBrush (K : Type) [Zero K] (tile : Tile) :
    radiusOn (flatBrush K).brush (unitTerrain tile) = 5 / 2 := by
  norm_num [radiusOn, flatBrush, Brush.defaultSettings, unitTerrain]

theorem heightIndices_unitTerrain (position : Vector3) :
    ((unitTerrain ⟨0, 0⟩).heightIndices position).x = position.x + 65 / 2 ∧
      ((unitTerrain ⟨0, 0⟩).heightIndices position).z = 65 / 2 - position.z := by
  constructor
  · simp only [Terrain.heightIndices, Terrain.relative, Vector3.scale, unitTerrain]
    push_cast
    ring
  · simp only [Terrain.heightIndices, Terrain.relative, Vector3.scale, unitTerrain]
    push_cast
    ring

/-- In the middle of a tile, the brush reaches no seam. -/
theorem joined_update_middle :
    Joined .horizontal 65 ((flatBrush ℝ).update unitScene (fun q => √(q : ℝ)) (some ⟨0, 0, 0⟩) 0
      fun _ => false).heights ⟨0, 0⟩ := by
  refine (joined_update_iff exactSqrt_real isGrid_unitScene rfl rfl (by decide) (by decide)
    (by decide) .horizontal rfl rfl rfl (joined_flatBrush ℝ _ _ _) ⟨0, 0, 0⟩ 0 false).2
    fun i hi => .inr (.inl ?_)
  rw [radiusOn_flatBrush, Side.across, (heightIndices_unitTerrain _).1]
  norm_num [Reaches, unitTerrain]

/-- On the seam, the brush raises the sample of the neighbour by 1 / 5, and that of the tile by
less. -/
theorem not_joined_update_seam : Joined .horizontal 65 (flatBrush ℝ).heights ⟨0, 0⟩ ∧
    ¬ Joined .horizontal 65 ((flatBrush ℝ).update unitScene (fun q => √(q : ℝ))
      (some ⟨65 / 2, 0, 1 / 2⟩) 0 fun _ => false).heights ⟨0, 0⟩ := by
  refine ⟨joined_flatBrush ℝ _ _ _, fun h => ?_⟩
  have hrow := (update_seam_iff exactSqrt_real isGrid_unitScene rfl rfl (by decide) (by decide)
    (by decide) .horizontal rfl rfl rfl (by decide) rfl ⟨65 / 2, 0, 1 / 2⟩ 0 false).1
    (h 32 (by decide))
  rw [radiusOn_flatBrush, Side.across, Side.along, (heightIndices_unitTerrain _).1,
    (heightIndices_unitTerrain _).2] at hrow
  norm_num [Still, SeamAlike, Reaches, FullAt, unitTerrain, flatBrush, Brush.defaultSettings]
    at hrow

end HeightBrush

end NetSiege
