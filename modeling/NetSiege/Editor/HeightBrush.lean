import Mathlib.Algebra.Order.Field.Basic
import Mathlib.Data.Rat.Cast.Defs
import Mathlib.Tactic.Linarith
import NetSiege.Editor.Brush
import NetSiege.Lib.Raster

/-!
# The height brush over a field (`brush.cpp`)

`HeightBrush` is the brush with the height maps of its group while a `HeightmapEdit` is its current
command. The heights are in any ordered field, which may have the square roots that the rational
numbers lack; over the rational numbers it is the brush of a `BrushSession` (`ofSession_update`).
-/

namespace NetSiege

open Lib

/-- `Brush`, and the heights of the tiles of its group. -/
structure HeightBrush (γ K : Type) where
  brush : Brush γ
  heights : Tile → Nat → K

/-- The position in the samples of the height map. -/
def Terrain.heightIndices (ter : Terrain) (position : Vector3) : Vector3 :=
  let relative := ter.relative position
  { relative with z := 1 - relative.z }.scale ter.size

/-! ## Rectangles -/

theorem clampIndex_le (v : Rat) (size : Nat) : clampIndex v size ≤ size := by
  rw [clampIndex]
  omega

/-- The conversion to `int` and the clamping, below the size. -/
theorem lt_clampIndex {v : Rat} {k size : Nat} (hk : k < size) :
    k < clampIndex v size ↔ (k : Rat) + 1 ≤ v := by
  have htrunc : k < clampIndex v size ↔ (k : Int) + 1 ≤ v.num.tdiv v.den := by
    rw [clampIndex]
    omega
  rw [htrunc]
  obtain hnum | hnum := le_or_gt 0 v.num
  · rw [Int.tdiv_eq_ediv_of_nonneg hnum, ← Rat.floor_def, Rat.le_floor_iff]
    norm_cast
  · have hneg : v < 0 := Rat.num_neg.1 hnum
    have htdiv : 0 ≤ (-v.num).tdiv v.den :=
      Int.tdiv_nonneg (Int.neg_nonneg.2 hnum.le) (Int.natCast_nonneg _)
    rw [Int.neg_tdiv] at htdiv
    have hk0 : (0 : Rat) ≤ k := Nat.cast_nonneg k
    refine ⟨fun h => ?_, fun h => ?_⟩
    · omega
    · linarith

theorem clampIndex_le_iff {v : Rat} {k size : Nat} (hk : k < size) :
    clampIndex v size ≤ k ↔ v < (k : Rat) + 1 := by
  rw [← not_lt, lt_clampIndex hk, not_le]

namespace HeightBrush

section
variable {γ K : Type} [Field K] [LinearOrder K]

/-- `BRUSH`. -/
def brushProfile (x : K) : K := if x > 1 then 0 else x * x * x * x - 2 * x * x + 1

/-- `brushFunction`. -/
def brushFunction (x hard : K) : K :=
  if x = 1 then 1
  else if x > hard then
    -- a quotient by 0 is infinite here, and above 1
    if 1 - hard = 0 then 0 else brushProfile ((x - hard) / (1 - hard))
  else 1

/-- `dist / brushSize * 2`, from the square of the distance. -/
def scaled (sqrt : Rat → K) (brushSize distSq : Rat) : K := sqrt distSq / (brushSize : K) * 2

/-- The weight of a sample, without the bounds of the rectangle. -/
def weight (sqrt : Rat → K) (indices : Vector3) (brushSize hardness : Rat) (ix iy : Nat) : K :=
  brushFunction (scaled sqrt brushSize ((ix - indices.x) ^ 2 + (iy - indices.z) ^ 2)) (hardness : K)

/-- The height samples after the loops of `Brush::applyHeightBrush`, and `m_height`. -/
def editHeights (sqrt : Rat → K) (b : Brush γ) (position indices : Vector3) (rect : Rect)
    (terSize : Nat) (brushSize : Rat) (average : K) (shift : Bool) (heightdata : Nat → K) :
    (Nat → K) × Rat :=
  let settings := b.settings b.mode
  let weight := weight sqrt indices brushSize settings.hardness
  let loops (f : Nat → Nat → K → K) :=
    mapRect rect.left rect.top rect.right rect.bottom terSize f heightdata
  -- the loop of the modes that pull the heights towards a value
  let pull (target : K) := loops fun ix iy height =>
    height + weight ix iy * ((target - height) * ((settings.strength : K) / 10))
  match b.mode with
  | .heightRaise =>
    let strength := (settings.strength : K) * if shift then -1 / 10 else 1 / 10
    (loops fun ix iy height => height + weight ix iy * strength, b.height)
  | .heightSmooth => (pull average, b.height)
  | .heightFlatten => if shift then (heightdata, position.y) else (pull b.height, b.height)
  | .none | .height | .layerPaint => (heightdata, b.height)

/-- `Brush::applyHeightBrush`. -/
def applyHeightBrush (G : Scene γ) (sqrt : Rat → K) (group : γ) (position : Vector3) (average : K)
    (shift : Tile → Bool) (s : HeightBrush γ K) (tile : Tile) : HeightBrush γ K :=
  match G.getTerrain group tile with
  | none => s
  | some ter =>
    let indices := ter.heightIndices position
    let brushSize := (s.brush.settings s.brush.mode).size / ter.worldSize * ter.size
    let rect := brushRect indices.x indices.z brushSize ter.size
    if rect.bottom = rect.top ∨ rect.left = rect.right then s
    else
      let (heightdata, height) := editHeights sqrt s.brush position indices rect ter.size brushSize
        average (shift tile) (s.heights tile)
      { brush := { s.brush with height }, heights := Function.update s.heights tile heightdata }

/-- `Brush::update`, in the modes of the height brush. -/
def update (G : Scene γ) (sqrt : Rat → K) (s : HeightBrush γ K) (hit : Option Vector3) (average : K)
    (shift : Tile → Bool) : HeightBrush γ K :=
  match s.brush.group, hit with
  | some group, some position =>
    if s.brush.mode.isHeight then
      (BrushSession.around (G.terrainSlot group position)).foldl
        (applyHeightBrush G sqrt group position average shift) s
    else s
  | _, _ => s

/-! ## What a call does to a sample -/

/-- What the full weight adds to a height. -/
def pull (b : Brush γ) (average : K) (shift : Bool) (height : K) : K :=
  let settings := b.settings b.mode
  match b.mode with
  | .heightRaise => (settings.strength : K) * if shift then -1 / 10 else 1 / 10
  | .heightSmooth => (average - height) * ((settings.strength : K) / 10)
  | .heightFlatten =>
    if shift then 0 else (b.height - height) * ((settings.strength : K) / 10)
  | .none | .height | .layerPaint => 0

/-- The weight of a sample, zero outside the rectangle. -/
def reach (sqrt : Rat → K) (b : Brush γ) (ter : Terrain) (position : Vector3) (ix iy : Nat) : K :=
  let settings := b.settings b.mode
  let indices := ter.heightIndices position
  let brushSize := settings.size / ter.worldSize * ter.size
  let rect := brushRect indices.x indices.z brushSize ter.size
  if rect.left ≤ ix ∧ ix < rect.right ∧ rect.top ≤ iy ∧ iy < rect.bottom then
    weight sqrt indices brushSize settings.hardness ix iy
  else 0

variable {G : Scene γ} {sqrt : Rat → K} {group : γ} {position : Vector3} {average : K}
  {s : HeightBrush γ K} {tile tile' : Tile} {ter : Terrain} {ix iy : Nat}

theorem editHeights_apply {b : Brush γ} {indices : Vector3} {rect : Rect} {terSize : Nat}
    {brushSize : Rat} {shift : Bool} {heightdata : Nat → K} (hright : rect.right ≤ terSize)
    (hix : ix < terSize) :
    (editHeights sqrt b position indices rect terSize brushSize average shift heightdata).1
        (iy * terSize + ix) =
      heightdata (iy * terSize + ix) +
        (if rect.left ≤ ix ∧ ix < rect.right ∧ rect.top ≤ iy ∧ iy < rect.bottom then
          weight sqrt indices brushSize (b.settings b.mode).hardness ix iy else 0) *
        pull b average shift (heightdata (iy * terSize + ix)) := by
  rw [editHeights, pull]
  cases b.mode with
  | heightRaise =>
    simp only [mapRect_apply hright hix]
    split <;> simp
  | heightSmooth =>
    simp only [mapRect_apply hright hix]
    split <;> simp
  | heightFlatten =>
    cases shift with
    | true => simp
    | false =>
      simp only [Bool.false_eq_true, if_false, mapRect_apply hright hix]
      split <;> simp
  | none => simp
  | height => simp
  | layerPaint => simp

/-- The flatten brush takes the height of the pointer for its own, and edits nothing then. -/
theorem editHeights_height {b : Brush γ} {indices : Vector3} {rect : Rect} {terSize : Nat}
    {brushSize : Rat} {shift : Bool} {heightdata : Nat → K} :
    (editHeights sqrt b position indices rect terSize brushSize average shift heightdata).2 =
        b.height ∨ b.mode = .heightFlatten ∧ shift = true := by
  rw [editHeights]
  cases hmode : b.mode with
  | heightFlatten =>
    cases shift with
    | true => exact .inr ⟨rfl, rfl⟩
    | false => exact .inl rfl
  | heightRaise => exact .inl rfl
  | heightSmooth => exact .inl rfl
  | none => exact .inl rfl
  | height => exact .inl rfl
  | layerPaint => exact .inl rfl

theorem heights_applyHeightBrush_self {shift : Tile → Bool}
    (hter : G.getTerrain group tile = some ter) (hix : ix < ter.size) :
    (s.applyHeightBrush G sqrt group position average shift tile).heights tile
        (iy * ter.size + ix) =
      s.heights tile (iy * ter.size + ix) + reach sqrt s.brush ter position ix iy *
        pull s.brush average (shift tile) (s.heights tile (iy * ter.size + ix)) := by
  rw [applyHeightBrush, hter, reach]
  dsimp only
  split
  · next hempty =>
    rw [if_neg, zero_mul, add_zero]
    omega
  · exact (congrFun (Function.update_self ..) _).trans
      (editHeights_apply (clampIndex_le ..) hix)

theorem heights_applyHeightBrush_of_ne {shift : Tile → Bool} (hne : tile' ≠ tile) :
    (s.applyHeightBrush G sqrt group position average shift tile).heights tile' =
      s.heights tile' := by
  unfold applyHeightBrush
  split
  · rfl
  · dsimp only
    split
    · rfl
    · exact Function.update_of_ne hne ..

omit [LinearOrder K] in
theorem pull_congr {b : Brush γ} {shift : Bool} {m : Rat} {height : K}
    (hheight : m = b.height ∨ b.mode = .heightFlatten ∧ shift = true) :
    pull { b with height := m } average shift height = pull b average shift height := by
  obtain rfl | ⟨hmode, rfl⟩ := hheight
  · rfl
  · rw [pull, pull]
    simp only [hmode, if_true]

/-- Where the keyboard does not change, the calls of `update` all find the same brush. -/
theorem pull_applyHeightBrush {shift : Bool} {height : K} :
    pull (s.applyHeightBrush G sqrt group position average (fun _ => shift) tile).brush average
      shift height = pull s.brush average shift height := by
  unfold applyHeightBrush
  split
  · rfl
  · dsimp only
    split
    · rfl
    · exact pull_congr editHeights_height

theorem reach_applyHeightBrush {shift : Tile → Bool} :
    reach sqrt (s.applyHeightBrush G sqrt group position average shift tile).brush =
      reach sqrt s.brush := by
  unfold applyHeightBrush
  split
  · rfl
  · dsimp only
    split <;> rfl

theorem heights_foldl_of_not_mem {shift : Tile → Bool} {tiles : List Tile} (h : tile ∉ tiles) :
    (tiles.foldl (applyHeightBrush G sqrt group position average shift) s).heights tile =
      s.heights tile := by
  induction tiles generalizing s with
  | nil => rfl
  | cons first tiles ih =>
    obtain ⟨hfirst, htiles⟩ := not_or.1 (mt List.mem_cons.2 h)
    rw [List.foldl_cons, ih htiles, heights_applyHeightBrush_of_ne hfirst]

/-- The calls edit each of their tiles once. -/
theorem heights_foldl {shift : Bool} {tiles : List Tile} (hnodup : tiles.Nodup)
    (hmem : tile ∈ tiles) (hter : G.getTerrain group tile = some ter) (hix : ix < ter.size) :
    (tiles.foldl (applyHeightBrush G sqrt group position average fun _ => shift) s).heights tile
        (iy * ter.size + ix) =
      s.heights tile (iy * ter.size + ix) + reach sqrt s.brush ter position ix iy *
        pull s.brush average shift (s.heights tile (iy * ter.size + ix)) := by
  induction tiles generalizing s with
  | nil => cases hmem
  | cons first tiles ih =>
    obtain ⟨hfirst, hnodup⟩ := List.nodup_cons.1 hnodup
    rw [List.foldl_cons]
    obtain rfl | hmem := List.mem_cons.1 hmem
    · rw [heights_foldl_of_not_mem hfirst, heights_applyHeightBrush_self hter hix]
    · have hne : tile ≠ first := fun heq => hfirst (heq ▸ hmem)
      rw [ih hnodup hmem, heights_applyHeightBrush_of_ne hne, pull_applyHeightBrush,
        reach_applyHeightBrush]

end

/-! ## The brush of a session -/

section
variable {γ : Type} [DecidableEq γ] {G : Scene γ} {s : BrushSession γ} {group : γ}

theorem brushProfile_eq (x : Rat) : brushProfile x = NetSiege.brushProfile x := by
  rw [brushProfile, NetSiege.brushProfile]

theorem brushFunction_eq (x hard : Rat) : brushFunction x hard = NetSiege.brushFunction x hard := by
  rw [brushFunction, NetSiege.brushFunction, brushProfile_eq]

theorem forRect_eq (rect : Rect) (size : Nat) (f : Nat → Nat → Rat → Rat) (data : Nat → Rat) :
    forRect rect size f data = mapRect rect.left rect.top rect.right rect.bottom size f data := rfl

omit [DecidableEq γ] in
theorem weight_eq (indices : Vector3) (brushSize hardness : Rat) (ix iy : Nat) :
    weight G.sqrt indices brushSize hardness ix iy =
      NetSiege.brushFunction (G.dist indices ix iy / brushSize * 2) hardness :=
  brushFunction_eq _ _

omit [DecidableEq γ] in
theorem editHeights_eq (b : Brush γ) (position indices : Vector3) (rect : Rect) (terSize : Nat)
    (brushSize average : Rat) (shift : Bool) (heightdata : Nat → Rat) :
    editHeights G.sqrt b position indices rect terSize brushSize average shift heightdata =
      BrushSession.editHeights G b position indices rect terSize brushSize average shift
        heightdata := by
  simp only [editHeights, BrushSession.editHeights, weight_eq, forRect_eq]
  cases b.mode <;> rfl

/-- The heights of a group in a session. -/
def ofSession (group : γ) (s : BrushSession γ) : HeightBrush γ Rat where
  brush := s.brush
  heights tile := s.maps ⟨group, tile, .heightmap⟩

/-- The current command is for heights. -/
def HasHeightCommand (s : BrushSession γ) : Prop :=
  ∃ cmd, s.currentCommand = some cmd ∧ cmd.kind = .heightmap

theorem heights_update_ofSession {group : γ} {tile : Tile} {data : Nat → Rat} {maps : Maps γ} :
    (fun tile' => Function.update maps ⟨group, tile, .heightmap⟩ data ⟨group, tile', .heightmap⟩) =
      Function.update (fun tile' => maps ⟨group, tile', .heightmap⟩) tile data := by
  funext tile'
  by_cases htile : tile' = tile
  · subst htile
    rw [Function.update_self, Function.update_self]
  · rw [Function.update_of_ne htile, Function.update_of_ne]
    exact fun heq => htile (congrArg MapId.tile heq)

/-- A call of `applyHeightBrush` in the session. -/
theorem ofSession_applyHeightBrush (h : HasHeightCommand s) (position : Vector3) (average : Rat)
    (shift : Tile → Bool) (tile : Tile) :
    ∃ s', BrushSession.applyHeightBrush G group position average shift s tile = some s' ∧
      HasHeightCommand s' ∧ ofSession group s' =
        (ofSession group s).applyHeightBrush G G.sqrt group position average shift tile := by
  obtain ⟨cmd, hcmd, hkind⟩ := h
  rw [BrushSession.applyHeightBrush, applyHeightBrush]
  cases G.getTerrain group tile with
  | none => exact ⟨s, rfl, ⟨cmd, hcmd, hkind⟩, rfl⟩
  | some ter =>
    simp only [hcmd, hkind, ne_eq, not_true_eq_false, if_false, editHeights_eq,
      Terrain.heightIndices]
    split
    · next hempty =>
      exact ⟨s, rfl, ⟨cmd, hcmd, hkind⟩, (if_pos hempty).symm⟩
    · next hempty =>
      refine ⟨_, rfl, ⟨cmd.monitorTerrain s.maps tile, rfl, ?_⟩, ?_⟩
      · rw [Edit.monitorTerrain]
        split <;> exact hkind
      · refine Eq.trans ?_ (if_neg hempty).symm
        exact congrArg (HeightBrush.mk _) heights_update_ofSession

theorem ofSession_foldl (tiles : List Tile) (h : HasHeightCommand s) (position : Vector3)
    (average : Rat) (shift : Tile → Bool) :
    ∃ s', run (BrushSession.applyHeightBrush G group position average shift) s tiles = some s' ∧
      ofSession group s' =
        tiles.foldl (applyHeightBrush G G.sqrt group position average shift)
          (ofSession group s) := by
  induction tiles generalizing s with
  | nil => exact ⟨s, rfl, rfl⟩
  | cons tile tiles ih =>
    obtain ⟨s₁, h₁, hcmd, heq⟩ := ofSession_applyHeightBrush (G := G) h position average shift tile
    obtain ⟨s', hs', heq'⟩ := ih hcmd
    refine ⟨s', ?_, ?_⟩
    · rw [run_cons, h₁]
      exact hs'
    · rw [heq', heq, List.foldl_cons]

/-- Over the rational numbers, `update` is that of the session. -/
theorem ofSession_update (h : HasHeightCommand s) (hgroup : s.brush.group = some group)
    (hmode : s.brush.mode.isHeight) (hit : Option Vector3) (average : Rat) (shift : Tile → Bool) :
    ∃ s', s.update G hit average shift = some s' ∧
      ofSession group s' = (ofSession group s).update G G.sqrt hit average shift := by
  have hbrush : (ofSession group s).brush = s.brush := rfl
  obtain ⟨cmd, hcmd, hkind⟩ := h
  cases hit with
  | none =>
    simp only [BrushSession.update, update, hbrush, hcmd, hgroup]
    exact ⟨s, rfl, rfl⟩
  | some position =>
    simp only [BrushSession.update, update, hbrush, hcmd, hgroup, hmode, if_true]
    exact ofSession_foldl _ ⟨cmd, hcmd, hkind⟩ position average shift

end

end HeightBrush

end NetSiege
