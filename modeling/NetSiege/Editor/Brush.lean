import Mathlib.Algebra.Group.Pi.Basic
import Mathlib.Data.Rat.Defs
import NetSiege.Editor.TerrainPaging
import NetSiege.Lib.UndoStack

/-!
# The terrain brush (`brush.h`, `brush.cpp`, `undocommands.h`, `undocommands.cpp`)

A stroke collects the maps it touches in an `Edit`, a `HeightmapEdit` or a `BlendmapEdit`: each with
its content when it was first touched, and after `finalize` with the difference. `BrushSession` is
the `Brush` with its undo stack and the maps of the loaded terrain, over exact rational numbers. The
terrain itself (`Scene`) does not change.
-/

namespace NetSiege

open Lib

/-- `Ogre::Vector3`. -/
structure Vector3 where
  x : Rat
  y : Rat
  z : Rat

/-- `Ogre::Rect`. -/
structure Rect where
  left : Nat
  top : Nat
  right : Nat
  bottom : Nat

/-- `Ogre::Terrain`, without its maps. -/
structure Terrain where
  position : Vector3
  worldSize : Rat
  size : Nat
  layerBlendMapSize : Nat

/-- The loaded tiles of the terrain groups `γ`, the slot a group finds for a position, and the
square root. -/
structure Scene (γ : Type) where
  getTerrain : γ → Tile → Option Terrain
  terrainSlot : γ → Vector3 → Tile
  sqrt : Rat → Rat

/-- The height map of a tile, or the blend map of one of its layers. -/
inductive MapKind where
  | heightmap
  | blendmap (layerIndex : Int)
deriving DecidableEq

/-- A map of a tile of a group. -/
structure MapId (γ : Type) where
  group : γ
  tile : Tile
  kind : MapKind
deriving DecidableEq

/-- The samples of every map. -/
abbrev Maps (γ : Type) := MapId γ → Nat → Rat

variable {γ : Type} [DecidableEq γ]

/-! ## The commands -/

/-- `_change_t` of a command; the bounds, which nothing reads, are left out. -/
structure Change where
  tile : Tile
  deltaMap : Nat → Rat

/-- `undo::HeightmapEdit` and `undo::BlendmapEdit`. -/
structure Edit (γ : Type) where
  terrainGroup : γ
  kind : MapKind
  changes : List Change := []
  firstRedo : Bool := true

namespace Edit

/-- The map of a tile the command is about. -/
def mapId (e : Edit γ) (tile : Tile) : MapId γ := ⟨e.terrainGroup, tile, e.kind⟩

/-- `HeightmapEdit::HeightmapEdit`. -/
def heightmapEdit (terrainGroup : γ) : Edit γ := { terrainGroup, kind := .heightmap }

/-- `BlendmapEdit::BlendmapEdit`. -/
def blendmapEdit (terrainGroup : γ) (layerIndex : Int) : Edit γ :=
  { terrainGroup, kind := .blendmap layerIndex }

/-- `monitorTerrain`, the same for both commands but for the bounds. -/
def monitorTerrain (e : Edit γ) (maps : Maps γ) (tile : Tile) : Edit γ :=
  if e.changes.any (·.tile = tile) then e
  else { e with changes := e.changes ++ [⟨tile, maps (e.mapId tile)⟩] }

/-- `finalize` of both commands. -/
def finalize (e : Edit γ) (maps : Maps γ) : Edit γ :=
  { e with changes := e.changes.map fun change =>
      { change with deltaMap := maps (e.mapId change.tile) - change.deltaMap } }

/-- `applyDeltas` of both commands, on loaded tiles. -/
def applyDeltas (add : Bool) (e : Edit γ) (maps : Maps γ) : Edit γ × Maps γ :=
  if e.firstRedo then ({ e with firstRedo := false }, maps)
  else (e, e.changes.foldl (fun maps change =>
    let heightmap := maps (e.mapId change.tile)
    Function.update maps (e.mapId change.tile)
      (if add then heightmap + change.deltaMap else heightmap - change.deltaMap)) maps)

/-- `redo` of both commands. -/
def redo : Edit γ → Maps γ → Edit γ × Maps γ := applyDeltas true

/-- `undo` of both commands. -/
def undo : Edit γ → Maps γ → Edit γ × Maps γ := applyDeltas false

end Edit

/-! ## The brush -/

/-- `Brush::mode_t`. -/
inductive BrushMode where
  | none
  | height
  | heightRaise
  | heightSmooth
  | heightFlatten
  | layerPaint
deriving DecidableEq

namespace BrushMode

/-- The value of the enumerator. -/
def value : BrushMode → Nat
  | none => 0
  | height => 1
  | heightRaise => 1 + 2
  | heightSmooth => 1 + 4
  | heightFlatten => 1 + 8
  | layerPaint => 16

/-- `mode & M_HEIGHT`. -/
def isHeight (mode : BrushMode) : Bool := mode.value &&& height.value != 0

end BrushMode

/-- `Brush::settings_t`. -/
structure BrushSettings where
  strength : Rat := 0
  size : Rat := 0
  hardness : Rat := 0

/-- `Brush`, without its command and its stack. -/
structure Brush (γ : Type) where
  mode : BrushMode := .none
  height : Rat
  group : Option γ
  settings : BrushMode → BrushSettings
  blendLayer : Int
  enabled : Bool := true

/-- The settings the constructor makes; other modes have those of an empty map entry. -/
def Brush.defaultSettings : BrushMode → BrushSettings
  | .heightFlatten | .heightSmooth | .heightRaise | .layerPaint => ⟨2, 5, 0⟩
  | .none | .height => {}

namespace Brush

/-- `Brush::setSize`. -/
def setSize (b : Brush γ) (x : Rat) : Brush γ :=
  { b with settings := Function.update b.settings b.mode { b.settings b.mode with size := x } }

/-- `Brush::setHardness`. -/
def setHardness (b : Brush γ) (x : Rat) : Brush γ :=
  { b with settings := Function.update b.settings b.mode { b.settings b.mode with hardness := x } }

/-- `Brush::setStrength`. -/
def setStrength (b : Brush γ) (x : Rat) : Brush γ :=
  { b with settings := Function.update b.settings b.mode { b.settings b.mode with strength := x } }

/-- `Brush::setMode` without the stroke. -/
def changeMode (b : Brush γ) (mode : BrushMode) : Brush γ :=
  let b := { b with mode }
  let b := b.setSize (b.settings mode).size
  let b := b.setStrength (b.settings mode).strength
  b.setHardness (b.settings mode).hardness

end Brush

/-- `BRUSH`. -/
def brushProfile (x : Rat) : Rat := if x > 1 then 0 else x * x * x * x - 2 * x * x + 1

/-- `brushFunction`. -/
def brushFunction (x hard : Rat) : Rat :=
  if x = 1 then 1
  else if x > hard then
    -- a quotient by 0 is infinite here, and above 1
    if 1 - hard = 0 then 0 else brushProfile ((x - hard) / (1 - hard))
  else 1

/-- The brush, its current command, the undo stack and the maps. -/
structure BrushSession (γ : Type) where
  brush : Brush γ
  currentCommand : Option (Edit γ) := none
  stack : UndoStack (Edit γ) := {}
  maps : Maps γ

/-- `Clamp<int>(v, 0, size)`. -/
def clampIndex (v : Rat) (size : Nat) : Nat := (max (min (v.num.tdiv v.den) size) 0).toNat

/-- The samples a brush at `(x, z)` reaches on a map. -/
def brushRect (x z brushSize : Rat) (size : Nat) : Rect where
  left := clampIndex (x - brushSize / 2) size
  top := clampIndex (z - brushSize / 2) size
  right := clampIndex (x + brushSize / 2) size
  bottom := clampIndex (z + brushSize / 2) size

/-- The two loops over the samples of a rectangle, with the index of each sample. -/
def forRect (rect : Rect) (size : Nat) (f : Nat → Nat → Rat → Rat) (data : Nat → Rat) : Nat → Rat :=
  (List.range' rect.left (rect.right - rect.left)).foldl (fun data ix =>
    (List.range' rect.top (rect.bottom - rect.top)).foldl (fun data iy =>
      Function.update data (iy * size + ix) (f ix iy (data (iy * size + ix)))) data) data

/-- The distance of a sample from the brush. -/
def Scene.dist (G : Scene γ) (indices : Vector3) (ix iy : Nat) : Rat :=
  G.sqrt ((ix - indices.x) ^ 2 + (iy - indices.z) ^ 2)

/-- `(position - ter->getPosition())/ter->getWorldSize() + 0.5`. -/
def Terrain.relative (ter : Terrain) (position : Vector3) : Vector3 where
  x := (position.x - ter.position.x) / ter.worldSize + 1 / 2
  y := (position.y - ter.position.y) / ter.worldSize + 1 / 2
  z := (position.z - ter.position.z) / ter.worldSize + 1 / 2

/-- `indices *= size`. -/
def Vector3.scale (v : Vector3) (size : Rat) : Vector3 := ⟨v.x * size, v.y * size, v.z * size⟩

namespace BrushSession

/-- The height samples after the loops of `Brush::applyHeightBrush`, and `m_height`. -/
def editHeights (G : Scene γ) (b : Brush γ) (position indices : Vector3) (rect : Rect)
    (terSize : Nat) (brushSize average : Rat) (shift : Bool) (heightdata : Nat → Rat) :
    (Nat → Rat) × Rat :=
  let settings := b.settings b.mode
  let weight ix iy := brushFunction (G.dist indices ix iy / brushSize * 2) settings.hardness
  -- the loop of the modes that pull the heights towards a value
  let pull target := forRect rect terSize (fun ix iy height =>
    height + weight ix iy * ((target - height) * (settings.strength / 10))) heightdata
  match b.mode with
  | .heightRaise =>
    let strength := settings.strength * if shift then -1 / 10 else 1 / 10
    (forRect rect terSize (fun ix iy height => height + weight ix iy * strength) heightdata,
      b.height)
  | .heightSmooth => (pull average, b.height)
  | .heightFlatten => if shift then (heightdata, position.y) else (pull b.height, b.height)
  | .none | .height | .layerPaint => (heightdata, b.height)

/-- `Brush::applyHeightBrush`, `none` when the assertion on the command fails. `shift` is the state
of the shift key. -/
def applyHeightBrush (G : Scene γ) (group : γ) (position : Vector3) (average : Rat)
    (shift : Tile → Bool) (s : BrushSession γ) (tile : Tile) : Option (BrushSession γ) :=
  match G.getTerrain group tile with
  | none => some s
  | some ter =>
    match s.currentCommand with
    | some cmd =>
      if cmd.kind ≠ .heightmap then none
      else
        let relative := ter.relative position
        let terSize := ter.size
        let indices := { relative with z := 1 - relative.z }.scale terSize
        let brushSize := (s.brush.settings s.brush.mode).size / ter.worldSize * terSize
        let rect := brushRect indices.x indices.z brushSize terSize
        if rect.bottom = rect.top ∨ rect.left = rect.right then some s
        else
          let mapId : MapId γ := ⟨group, tile, .heightmap⟩
          let (heightdata, height) := editHeights G s.brush position indices rect terSize brushSize
            average (shift tile) (s.maps mapId)
          some { s with
            brush := { s.brush with height }
            currentCommand := some (cmd.monitorTerrain s.maps tile)
            maps := Function.update s.maps mapId heightdata }
    | none => none

/-- `Brush::applyLayerBrush`, likewise. -/
def applyLayerBrush (G : Scene γ) (group : γ) (position : Vector3) (shift : Tile → Bool)
    (s : BrushSession γ) (tile : Tile) : Option (BrushSession γ) :=
  match G.getTerrain group tile with
  | none => some s
  | some ter =>
    match s.currentCommand with
    | some cmd =>
      match cmd.kind with
      | .heightmap => none
      | .blendmap layerIndex =>
        let s := { s with currentCommand := some (cmd.monitorTerrain s.maps tile) }
        let settings := s.brush.settings s.brush.mode
        let size := ter.layerBlendMapSize
        let indices := (ter.relative position).scale size
        let brushSize := settings.size / ter.worldSize * size
        let strength := settings.strength * if shift tile then -1 / 100 else 1 / 100
        let mapId : MapId γ := ⟨group, tile, .blendmap layerIndex⟩
        let rect := brushRect indices.x indices.z brushSize size
        if rect.bottom = rect.top ∨ rect.left = rect.right then some s
        else
          let data := forRect rect size (fun ix iy value =>
            let distWeight := brushFunction (G.dist indices ix iy / brushSize * 2) settings.hardness
            let value := value + distWeight * strength
            let value := if value > 1 then 1 else value
            if value < 0 then 0 else value) (s.maps mapId)
          some { s with maps := Function.update s.maps mapId data }
    | none => none

/-- The tiles around a slot, in the order of the calls in `Brush::update`. -/
def around (slot : Tile) : List Tile :=
  [slot, ⟨slot.x - 1, slot.y - 1⟩, ⟨slot.x + 1, slot.y - 1⟩, ⟨slot.x - 1, slot.y + 1⟩,
    ⟨slot.x + 1, slot.y + 1⟩, ⟨slot.x + 1, slot.y⟩, ⟨slot.x - 1, slot.y⟩, ⟨slot.x, slot.y + 1⟩,
    ⟨slot.x, slot.y - 1⟩]

/-- `Brush::update`; `hit` is the result of the ray test, `average` that of `getAverageHeight`. -/
def update (G : Scene γ) (s : BrushSession γ) (hit : Option Vector3) (average : Rat)
    (shift : Tile → Bool) : Option (BrushSession γ) :=
  match s.currentCommand, s.brush.group, hit with
  | some _, some group, some position =>
    let slot := G.terrainSlot group position
    if s.brush.mode.isHeight then
      run (applyHeightBrush G group position average shift) s (around slot)
    else if s.brush.mode = .layerPaint then
      run (applyLayerBrush G group position shift) s (around slot)
    else some s
  | _, _, _ => some s

/-- `Brush::stopStroke`. -/
def stopStroke (s : BrushSession γ) : BrushSession γ :=
  match s.brush.group, s.currentCommand with
  | some _, some cmd =>
    let (stack, maps) := UndoStack.push Edit.redo (s.stack, s.maps) (cmd.finalize s.maps)
    { s with stack, maps, currentCommand := none }
  | _, _ => s

/-- `Brush::startStroke`, `none` when the assertion fails. -/
def startStroke (s : BrushSession γ) : Option (BrushSession γ) :=
  match s.brush.group with
  | none => some s
  | some group =>
    if !s.brush.enabled then some s
    else
      let s := s.stopStroke
      match s.currentCommand with
      | some _ => none
      | none =>
        if s.brush.mode.isHeight then
          some { s with currentCommand := some (.heightmapEdit group) }
        else if s.brush.mode = .layerPaint ∧ s.brush.blendLayer > 0 then
          some { s with currentCommand := some (.blendmapEdit group s.brush.blendLayer) }
        else some s

/-- `Brush::setMode`. -/
def setMode (s : BrushSession γ) (mode : BrushMode) : BrushSession γ :=
  match s.brush.group with
  | none => s
  | some _ =>
    let s := s.stopStroke
    { s with brush := s.brush.changeMode mode }

/-- `Brush::setEnabled`. -/
def setEnabled (s : BrushSession γ) (enabled : Bool) : BrushSession γ :=
  let s := { s with brush := { s.brush with enabled } }
  if !enabled then s.stopStroke else s

/-- `QUndoStack::undo`. -/
def undo (s : BrushSession γ) : BrushSession γ :=
  let (stack, maps) := UndoStack.undo Edit.undo (s.stack, s.maps)
  { s with stack, maps }

/-- `QUndoStack::redo`. -/
def redo (s : BrushSession γ) : BrushSession γ :=
  let (stack, maps) := UndoStack.redo Edit.redo (s.stack, s.maps)
  { s with stack, maps }

/-- What the editor may call. -/
inductive Input where
  | startStroke
  | update (hit : Option Vector3) (average : Rat) (shift : Tile → Bool)
  | stopStroke
  | setMode (mode : BrushMode)
  | setEnabled (enabled : Bool)
  | setBlendLayer (layer : Int)
  | setStrength (x : Rat)
  | setSize (x : Rat)
  | setHardness (x : Rat)
  | undo
  | redo

/-- The session after a call, if no assertion fails. -/
def step (G : Scene γ) (s : BrushSession γ) : Input → Option (BrushSession γ)
  | .startStroke => s.startStroke
  | .update hit average shift => s.update G hit average shift
  | .stopStroke => some s.stopStroke
  | .setMode mode => some (s.setMode mode)
  | .setEnabled enabled => some (s.setEnabled enabled)
  | .setBlendLayer layer => some { s with brush := { s.brush with blendLayer := layer } }
  | .setStrength x => some { s with brush := s.brush.setStrength x }
  | .setSize x => some { s with brush := s.brush.setSize x }
  | .setHardness x => some { s with brush := s.brush.setHardness x }
  | .undo => some s.undo
  | .redo => some s.redo

/-! ## What the functions do -/

variable {G : Scene γ} {s s' : BrushSession γ} {group : γ} {tile : Tile}

/-- The current command monitors a map, and the map is written. -/
def Touches (s s' : BrushSession γ) : Prop :=
  ∃ cmd tile data brush, s.currentCommand = some cmd ∧ brush.group = s.brush.group ∧
    s' = { s with
      brush
      currentCommand := some (cmd.monitorTerrain s.maps tile)
      maps := Function.update s.maps (cmd.mapId tile) data }

theorem touches_of_writes {cmd : Edit γ} {brush : Brush γ} {data : Nat → Rat}
    (hcmd : s.currentCommand = some cmd) (hbrush : brush.group = s.brush.group) :
    s.Touches ⟨brush, some (cmd.monitorTerrain s.maps tile), s.stack,
      Function.update s.maps (cmd.mapId tile) data⟩ := ⟨cmd, tile, data, brush, hcmd, hbrush, rfl⟩

theorem applyHeightBrush_cases {position : Vector3} {average : Rat} {shift : Tile → Bool}
    (hgroup : ∀ cmd, s.currentCommand = some cmd → cmd.terrainGroup = group)
    (h : applyHeightBrush G group position average shift s tile = some s') :
    s' = s ∨ s.Touches s' := by
  rw [applyHeightBrush] at h
  split at h
  · cases h
    exact .inl rfl
  · next ter hter =>
    split at h
    · next cmd hcmd =>
      split at h
      · cases h
      · next hkind =>
        rw [not_not] at hkind
        have hmap : cmd.mapId tile = ⟨group, tile, .heightmap⟩ := by
          rw [Edit.mapId, hgroup cmd hcmd, hkind]
        dsimp only at h
        rw [← hmap] at h
        split at h
        · cases h
          exact .inl rfl
        · cases h
          exact .inr (touches_of_writes hcmd rfl)
    · cases h

theorem applyLayerBrush_cases {position : Vector3} {shift : Tile → Bool}
    (hgroup : ∀ cmd, s.currentCommand = some cmd → cmd.terrainGroup = group)
    (h : applyLayerBrush G group position shift s tile = some s') :
    s' = s ∨ s.Touches s' := by
  rw [applyLayerBrush] at h
  split at h
  · cases h
    exact .inl rfl
  · next ter hter =>
    split at h
    · next cmd hcmd =>
      split at h
      · cases h
      · next layerIndex hkind =>
        have hmap : cmd.mapId tile = ⟨group, tile, .blendmap layerIndex⟩ := by
          rw [Edit.mapId, hgroup cmd hcmd, hkind]
        dsimp only at h
        rw [← hmap] at h
        split at h
        · cases h
          -- the map is monitored and not written
          exact .inr ⟨cmd, tile, s.maps (cmd.mapId tile), s.brush, hcmd, rfl,
            by rw [Function.update_eq_self]⟩
        · cases h
          exact .inr (touches_of_writes hcmd rfl)
    · cases h

end BrushSession

end NetSiege
