import Mathlib.Data.Fintype.Card
import Mathlib.Data.Fintype.Prod
import Mathlib.Data.Rat.Defs
import NetSiege.Lib.Box
import NetSiege.Lib.Run

/-!
# The slots of a campaign (`campaignmanager.cpp`, `undocommands.cpp`)

A campaign keeps the packed indices of its terrain slots and the boundary of the slots. The file
`world.scene` lists the slots. The boundary is computed anew after every change
(`slotBoundary_tight`). What `save` writes can be read back if there is a slot
(`load_save_iff`).
-/

namespace NetSiege

open Lib

/-! ## The file -/

/-- `TiXmlAttribute`, with what `QueryIntValue` and `QueryDoubleValue` read in its text. -/
structure TiXmlAttribute where
  name : String
  intValue : Option Int
  doubleValue : Option Rat

/-- `TiXmlNode`; declarations, comments and texts are `other`. -/
inductive TiXmlNode where
  | element (value : String) (attributes : List TiXmlAttribute) (nodes : List TiXmlNode)
  | other

namespace TiXmlNode

/-- `ToElement`, as a test. -/
def isElement : TiXmlNode → Bool
  | element .. => true
  | other => false

/-- `ValueStr`. -/
def valueStr : TiXmlNode → String
  | element value _ _ => value
  | other => ""

/-- The elements `FirstChildElement` and `NextSiblingElement` go through. -/
def childElements : TiXmlNode → List TiXmlNode
  | element _ _ nodes => nodes.filter isElement
  | other => []

/-- `TiXmlAttributeSet::Find`. -/
def findAttribute (name : String) : TiXmlNode → Option TiXmlAttribute
  | element _ attributes _ => attributes.find? (·.name = name)
  | other => none

/-- `QueryIntAttribute`, `none` when it leaves the variable as it is. -/
def queryIntAttribute (node : TiXmlNode) (name : String) : Option Int :=
  (node.findAttribute name).bind (·.intValue)

/-- `QueryFloatAttribute`, likewise. -/
def queryFloatAttribute (node : TiXmlNode) (name : String) : Option Rat :=
  (node.findAttribute name).bind (·.doubleValue)

end TiXmlNode

/-- What `SetAttribute` makes of an `int`. -/
def TiXmlAttribute.ofInt (name : String) (value : Int) : TiXmlAttribute :=
  ⟨name, some value, some value⟩

/-- What `SetDoubleAttribute` makes of a `double`. -/
def TiXmlAttribute.ofDouble (name : String) (value : Rat) : TiXmlAttribute :=
  ⟨name, some (value.num.tdiv value.den), some value⟩

/-- A file: the nodes of its `TiXmlDocument`. -/
abbrev WorldScene := List TiXmlNode

/-! ## The campaign -/

/-- `Ogre::TerrainGroup`, as far as it numbers the slots. -/
structure TerrainGroup where
  packIndex : Int → Int → UInt32
  unpackIndex : UInt32 → Int × Int

/-- A 16-bit slot coordinate. -/
def Is16Bit (x : Int) : Prop := -32768 ≤ x ∧ x < 32768

/-- The index of 16-bit coordinates is unpacked to them. -/
def TerrainGroup.Inverse (G : TerrainGroup) : Prop :=
  ∀ x y, Is16Bit x → Is16Bit y → G.unpackIndex (G.packIndex x y) = (x, y)

/-- A 16-bit number that is a negative coordinate from 2^15 on. -/
def signed (n : Nat) : Int := if n < 32768 then n else (n : Int) - 65536

/-- The coordinates in the two halves of the index. -/
def TerrainGroup.halves : TerrainGroup where
  packIndex x y := .ofNat ((x % 65536).toNat * 65536 + (y % 65536).toNat)
  unpackIndex key := (signed (key.toNat / 65536), signed (key.toNat % 65536))

theorem TerrainGroup.inverse_halves : halves.Inverse := by
  intro x y ⟨hx, hx'⟩ ⟨hy, hy'⟩
  simp only [halves, UInt32.toNat_ofNat', signed]
  refine Prod.ext ?_ ?_
  · dsimp only
    split
    · omega
    · omega
  · dsimp only
    split
    · omega
    · omega

/-- Then every index is that of the coordinates it is unpacked to: there are as many indices as
pairs of coordinates. -/
theorem TerrainGroup.Inverse.packIndex_unpackIndex {G : TerrainGroup} (h : G.Inverse)
    (key : UInt32) : G.packIndex (G.unpackIndex key).1 (G.unpackIndex key).2 = key := by
  let pack (p : Fin 65536 × Fin 65536) : Fin UInt32.size :=
    (G.packIndex ((p.1 : Int) - 32768) ((p.2 : Int) - 32768)).toFin
  have hbits : ∀ i : Fin 65536, Is16Bit ((i : Int) - 32768) := by
    intro i
    have hi := i.isLt
    exact ⟨by omega, by omega⟩
  have hinj : Function.Injective pack := by
    intro p q hpq
    have heq := congrArg G.unpackIndex (UInt32.toFin_inj.1 hpq)
    rw [h _ _ (hbits _) (hbits _), h _ _ (hbits _) (hbits _), Prod.mk.injEq] at heq
    refine Prod.ext (Fin.ext ?_) (Fin.ext ?_)
    · omega
    · omega
  have hcard : Fintype.card (Fin 65536 × Fin 65536) = Fintype.card (Fin UInt32.size) := by
    rw [Fintype.card_prod, Fintype.card_fin, Fintype.card_fin]
  obtain ⟨p, hp⟩ := ((Fintype.bijective_iff_injective_and_card pack).2 ⟨hinj, hcard⟩).2 key.toFin
  rw [← UInt32.toFin_inj.1 hp, h _ _ (hbits _) (hbits _)]

/-- `CampaignManager`, with its slots and the terrain it makes for them. -/
structure CampaignSlots where
  definedTerrainSlots : List UInt32 := []
  slotBoundary : Box Int
  terrainSize : UInt16
  worldSize : Rat

namespace CampaignSlots

variable (G : TerrainGroup)

/-- `CampaignManager::isSlotDefined`. -/
def isSlotDefined (m : CampaignSlots) (x y : Int) : Bool :=
  m.definedTerrainSlots.any (· = G.packIndex x y)

/-- The body of the loop of `updateSlotBoundary`. -/
def extend (boundary : Box Int) (p : Int × Int) : Box Int :=
  let boundary := if boundary.left > p.1 then { boundary with left := p.1 } else boundary
  let boundary := if boundary.right < p.1 then { boundary with right := p.1 } else boundary
  let boundary := if boundary.top > p.2 then { boundary with top := p.2 } else boundary
  if boundary.bottom < p.2 then { boundary with bottom := p.2 } else boundary

/-- `CampaignManager::updateSlotBoundary`. -/
def updateSlotBoundary (m : CampaignSlots) : CampaignSlots :=
  match m.definedTerrainSlots with
  | [] => { m with slotBoundary := ⟨0, 0, 0, 0⟩ }
  | first :: _ =>
    let slotBoundary := m.definedTerrainSlots.foldl
      (fun boundary idx => extend boundary (G.unpackIndex idx)) (Box.point (G.unpackIndex first))
    { m with slotBoundary }

/-- `CampaignManager::initialize`. -/
def initializeSlots (m : CampaignSlots) (terrainSize : UInt16) (realWorldSize : Rat) :
    CampaignSlots :=
  updateSlotBoundary G { m with
    terrainSize
    worldSize := realWorldSize
    definedTerrainSlots := m.definedTerrainSlots ++ [G.packIndex 0 0] }

/-- One turn of the loop of `CampaignManager::load`, `none` when a coordinate is not set. -/
def loadTile (slots : List UInt32) (tileTag : TiXmlNode) : Option (List UInt32) := do
  let x ← tileTag.queryIntAttribute "x"
  let y ← tileTag.queryIntAttribute "y"
  return slots ++ [G.packIndex x y]

/-- `CampaignManager::load`, `none` when an assertion fails, a null pointer is followed or a
variable is read that was not set. -/
def load (m : CampaignSlots) (worldScene : WorldScene) : Option CampaignSlots := do
  let sceneTag ← worldScene.find? (·.isElement)
  guard (sceneTag.valueStr = "scene")
  let tilesTag ← sceneTag.childElements.find? (·.valueStr = "tiles")
  let terrainSize ← tilesTag.queryIntAttribute "size"
  let worldSize := (tilesTag.queryFloatAttribute "worldsize").getD m.worldSize
  let definedTerrainSlots ← tilesTag.childElements.foldlM (loadTile G) m.definedTerrainSlots
  let m := updateSlotBoundary G
    { m with terrainSize := .ofInt terrainSize, worldSize, definedTerrainSlots }
  guard (m.definedTerrainSlots.length > 0)
  return m

/-- The element `CampaignManager::save` makes for a slot. -/
def tileTag (idx : UInt32) : TiXmlNode :=
  let (x, y) := G.unpackIndex idx
  .element "tile" [.ofInt "x" x, .ofInt "y" y] []

/-- The `world.scene` of `CampaignManager::save`. -/
def save (m : CampaignSlots) : WorldScene :=
  let tagTiles := TiXmlNode.element "tiles"
    [.ofInt "size" m.terrainSize.toNat, .ofDouble "worldsize" m.worldSize]
    (m.definedTerrainSlots.map (tileTag G))
  [.other, .element "scene" [] [tagTiles]]

end CampaignSlots

/-! ## The commands -/

/-- The loop of `ModifyTerrainSlot::remove` from an index on. -/
def eraseSlots (packed : UInt32) (definedSlots : List UInt32) (i : Nat) : List UInt32 :=
  if h : i < definedSlots.length then
    -- the index goes on over the element that moves up
    if packed = definedSlots[i] then eraseSlots packed (definedSlots.eraseIdx i) (i + 1)
    else eraseSlots packed definedSlots (i + 1)
  else definedSlots
termination_by definedSlots.length - i
decreasing_by
  · rw [List.length_eraseIdx_of_lt h]
    omega
  · omega

/-- `undo::ModifyTerrainSlot`. -/
structure ModifyTerrainSlot where
  directionAdd : Bool
  x : Int
  y : Int

namespace ModifyTerrainSlot

variable (G : TerrainGroup)

/-- The index of the slot. -/
def packed (c : ModifyTerrainSlot) : UInt32 := G.packIndex c.x c.y

/-- `ModifyTerrainSlot::add`, without the terrain it makes. -/
def add (c : ModifyTerrainSlot) (campaign : CampaignSlots) : CampaignSlots :=
  let definedSlots := campaign.definedTerrainSlots
  let definedSlots :=
    if !campaign.isSlotDefined G c.x c.y then definedSlots ++ [c.packed G] else definedSlots
  .updateSlotBoundary G { campaign with definedTerrainSlots := definedSlots }

/-- `ModifyTerrainSlot::remove`. -/
def remove (c : ModifyTerrainSlot) (campaign : CampaignSlots) : CampaignSlots :=
  .updateSlotBoundary G { campaign with
    definedTerrainSlots := eraseSlots (c.packed G) campaign.definedTerrainSlots 0 }

/-- `ModifyTerrainSlot::redo`. -/
def redo (c : ModifyTerrainSlot) (campaign : CampaignSlots) : CampaignSlots :=
  if c.directionAdd then c.add G campaign else c.remove G campaign

/-- `ModifyTerrainSlot::undo`. -/
def undo (c : ModifyTerrainSlot) (campaign : CampaignSlots) : CampaignSlots :=
  if c.directionAdd then c.remove G campaign else c.add G campaign

end ModifyTerrainSlot

namespace CampaignSlots

/-- What changes the slots. -/
inductive SlotCall where
  | initializeSlots (terrainSize : UInt16) (realWorldSize : Rat)
  | load (worldScene : WorldScene)
  | redo (c : ModifyTerrainSlot)
  | undo (c : ModifyTerrainSlot)

/-- The campaign after a call, if no assertion fails. -/
def step (G : TerrainGroup) (m : CampaignSlots) : SlotCall → Option CampaignSlots
  | .initializeSlots terrainSize realWorldSize =>
    some (m.initializeSlots G terrainSize realWorldSize)
  | .load worldScene => m.load G worldScene
  | .redo c => some (c.redo G m)
  | .undo c => some (c.undo G m)

/-! ## The boundary -/

section
variable {G : TerrainGroup} {m m' : CampaignSlots}

theorem extend_eq (b : Box Int) (p : Int × Int) : extend b p = b.insert p := by
  obtain ⟨left, top, right, bottom⟩ := b
  simp only [extend, Box.insert]
  grind

/-- The boundary is the least box that contains the slots, and that of no slot is the null box. -/
def Tight (G : TerrainGroup) (m : CampaignSlots) : Prop :=
  if m.definedTerrainSlots = [] then m.slotBoundary = ⟨0, 0, 0, 0⟩
  else IsLeast {b : Box Int | ∀ idx ∈ m.definedTerrainSlots, G.unpackIndex idx ∈ b} m.slotBoundary

theorem updateSlotBoundary_slots : (m.updateSlotBoundary G).definedTerrainSlots =
    m.definedTerrainSlots := by
  rw [updateSlotBoundary]
  split
  · rfl
  · rfl

theorem slotBoundary_of_nil (h : m.definedTerrainSlots = []) :
    (m.updateSlotBoundary G).slotBoundary = ⟨0, 0, 0, 0⟩ := by
  simp only [updateSlotBoundary, h]

theorem slotBoundary_of_cons {first : UInt32} {rest : List UInt32}
    (h : m.definedTerrainSlots = first :: rest) : (m.updateSlotBoundary G).slotBoundary =
      (m.definedTerrainSlots.map G.unpackIndex).foldl Box.insert
        (.point (G.unpackIndex first)) := by
  simp only [updateSlotBoundary, h, extend_eq, List.foldl_map]

theorem tight_updateSlotBoundary (G : TerrainGroup) (m : CampaignSlots) :
    (m.updateSlotBoundary G).Tight G := by
  rw [Tight, updateSlotBoundary_slots]
  cases hslots : m.definedTerrainSlots with
  | nil =>
    rw [if_pos rfl]
    exact slotBoundary_of_nil hslots
  | cons first rest =>
    have hmem : G.unpackIndex first ∈ m.definedTerrainSlots.map G.unpackIndex :=
      List.mem_map_of_mem (hslots ▸ List.mem_cons_self)
    have hleast := Box.isLeast_foldl_insert hmem
    rw [← slotBoundary_of_cons hslots] at hleast
    rw [if_neg (List.cons_ne_nil first rest), ← hslots]
    simpa only [List.forall_mem_map] using hleast

/-- Its bounds are in order. -/
theorem Tight.ordered (h : m.Tight G) : m.slotBoundary.left ≤ m.slotBoundary.right ∧
    m.slotBoundary.top ≤ m.slotBoundary.bottom := by
  rw [Tight] at h
  split at h
  · rw [h]
    exact ⟨le_rfl, le_rfl⟩
  · next hne =>
    obtain ⟨idx, hidx⟩ := List.exists_mem_of_ne_nil _ hne
    obtain ⟨hleft, htop, hright, hbottom⟩ := h.1 idx hidx
    exact ⟨hleft.trans hright, htop.trans hbottom⟩

/-- Every call ends with a new boundary. -/
theorem step_eq {call : SlotCall} (h : m.step G call = some m') :
    ∃ m₁, m' = updateSlotBoundary G m₁ := by
  cases call with
  | initializeSlots terrainSize realWorldSize =>
    cases h
    exact ⟨_, rfl⟩
  | load worldScene =>
    simp only [step, load, Option.bind_eq_bind, Option.bind_eq_some_iff, Option.pure_def,
      Option.some.injEq] at h
    obtain ⟨_, _, _, _, _, _, _, _, _, _, _, _, rfl⟩ := h
    exact ⟨_, rfl⟩
  | redo c =>
    cases h
    rw [ModifyTerrainSlot.redo]
    split
    · exact ⟨_, rfl⟩
    · exact ⟨_, rfl⟩
  | undo c =>
    cases h
    rw [ModifyTerrainSlot.undo]
    split
    · exact ⟨_, rfl⟩
    · exact ⟨_, rfl⟩

/-- **The slot boundary.** After every call of a run it is the least box that contains the slots. -/
theorem slotBoundary_tight (G : TerrainGroup) (m m' : CampaignSlots) (calls : List SlotCall)
    (call : SlotCall) (h : run (step G) m (calls ++ [call]) = some m') : m'.Tight G := by
  rw [run_append, Option.bind_eq_some_iff] at h
  obtain ⟨m₁, -, hstep⟩ := h
  rw [run_cons, Option.bind_eq_some_iff] at hstep
  obtain ⟨m₂, hcall, heq⟩ := hstep
  cases heq
  obtain ⟨m₃, rfl⟩ := step_eq hcall
  exact tight_updateSlotBoundary G m₃

/-- A second slot, to the left of the first. -/
theorem slotBoundary_tight_two : Tight .halves
    ((⟨true, -1, 2⟩ : ModifyTerrainSlot).redo .halves
      (initializeSlots .halves ⟨[], ⟨0, 0, 0, 0⟩, 0, 0⟩ 513 200)) :=
  slotBoundary_tight .halves ⟨[], ⟨0, 0, 0, 0⟩, 0, 0⟩ _ [.initializeSlots 513 200]
    (.redo ⟨true, -1, 2⟩) rfl

/-! ## Writing and reading the file -/

theorem foldlM_loadTile (hG : G.Inverse) (slots acc : List UInt32) :
    (slots.map (tileTag G)).foldlM (loadTile G) acc = some (acc ++ slots) := by
  induction slots generalizing acc with
  | nil => rw [List.map_nil, List.foldlM_nil, List.append_nil]; rfl
  | cons idx slots ih =>
    have htile : loadTile G acc (tileTag G idx) = some (acc ++ [idx]) := by
      simp [loadTile, tileTag, TiXmlNode.queryIntAttribute, TiXmlNode.findAttribute,
        TiXmlAttribute.ofInt, hG.packIndex_unpackIndex]
    rw [List.map_cons, List.foldlM_cons, htile, Option.bind_eq_bind, Option.bind_some, ih,
      List.append_assoc]
    rfl

/-- The old boundary is forgotten. -/
theorem updateSlotBoundary_forget (b : Box Int) :
    updateSlotBoundary G { m with slotBoundary := b } = updateSlotBoundary G m := by
  obtain ⟨slots, boundary, size, worldSize⟩ := m
  cases slots with
  | nil => rfl
  | cons first rest => rfl

/-- What is read is what was written, in a campaign that had no slot. -/
theorem load_save {fresh : CampaignSlots} (hG : G.Inverse) (hfresh : fresh.definedTerrainSlots = [])
    (m : CampaignSlots) : fresh.load G (m.save G) =
      if m.definedTerrainSlots = [] then none else some (m.updateSlotBoundary G) := by
  have helements : (m.definedTerrainSlots.map (tileTag G)).filter TiXmlNode.isElement =
      m.definedTerrainSlots.map (tileTag G) := by
    rw [List.filter_eq_self, List.forall_mem_map]
    exact fun _ _ => rfl
  have hsize : UInt16.ofInt m.terrainSize.toNat = m.terrainSize := by
    have hlt := m.terrainSize.toNat_lt
    rw [UInt16.ofInt, ← UInt16.toNat_inj, UInt16.toNat_ofNat']
    omega
  simp [load, save, TiXmlNode.isElement, TiXmlNode.valueStr, TiXmlNode.childElements, helements,
    TiXmlNode.queryIntAttribute, TiXmlNode.queryFloatAttribute, TiXmlNode.findAttribute,
    TiXmlAttribute.ofInt, TiXmlAttribute.ofDouble, foldlM_loadTile hG, hfresh,
    updateSlotBoundary_slots]
  rw [hsize, updateSlotBoundary_forget]
  cases m.definedTerrainSlots with
  | nil => rfl
  | cons first rest => rfl

theorem updateSlotBoundary_idem : updateSlotBoundary G (updateSlotBoundary G m) =
    updateSlotBoundary G m := by
  obtain ⟨slots, boundary, size, worldSize⟩ := m
  cases slots with
  | nil => rfl
  | cons first rest => rfl

/-- A campaign without a slot, or one that a call has led to. -/
theorem updateSlotBoundary_of_run {fresh : CampaignSlots} (hfresh : fresh.definedTerrainSlots = [])
    {calls : List SlotCall} (h : run (step G) fresh calls = some m) :
    m.definedTerrainSlots = [] ∨ m.updateSlotBoundary G = m := by
  refine run_invariant (fun m => m.definedTerrainSlots = [] ∨ m.updateSlotBoundary G = m)
    (fun m₁ call m₂ _ hstep => .inr ?_) (.inl hfresh) h
  obtain ⟨m₃, rfl⟩ := step_eq hstep
  exact updateSlotBoundary_idem

/-- A campaign without a slot can load the file of `m` as `m` has it. -/
def LoadsBack (G : TerrainGroup) (fresh m : CampaignSlots) : Prop :=
  ∃ m', fresh.load G (m.save G) = some m' ∧ m'.definedTerrainSlots = m.definedTerrainSlots ∧
    m'.slotBoundary = m.slotBoundary ∧ m'.terrainSize = m.terrainSize

/-- **Saved worlds.** A world that was saved can be loaded back, with its slots, their boundary and
its size, if and only if it has a slot. -/
theorem load_save_iff (G : TerrainGroup) (hG : G.Inverse) (fresh fresh' m : CampaignSlots)
    (hfresh : fresh.definedTerrainSlots = []) (hfresh' : fresh'.definedTerrainSlots = [])
    (calls : List SlotCall) (h : run (step G) fresh calls = some m) :
    LoadsBack G fresh' m ↔ m.definedTerrainSlots ≠ [] := by
  rw [LoadsBack, load_save hG hfresh']
  refine ⟨fun ⟨m', hm', _⟩ hnil => ?_, fun hne => ⟨m, ?_, rfl, rfl, rfl⟩⟩
  · rw [if_pos hnil] at hm'
    cases hm'
  · rw [if_neg hne, (updateSlotBoundary_of_run hfresh h).resolve_left hne]

/-- The world as it is made. -/
theorem load_save_initial : LoadsBack .halves ⟨[], ⟨0, 0, 0, 0⟩, 0, 0⟩
    (initializeSlots .halves ⟨[], ⟨0, 0, 0, 0⟩, 0, 0⟩ 513 200) :=
  (load_save_iff .halves TerrainGroup.inverse_halves ⟨[], ⟨0, 0, 0, 0⟩, 0, 0⟩
    ⟨[], ⟨0, 0, 0, 0⟩, 0, 0⟩ _ rfl rfl [.initializeSlots 513 200] rfl).2 (List.cons_ne_nil _ _)

/-- After its only slot was removed it cannot be loaded. -/
theorem not_loadsBack_removed : ¬ ∀ calls m,
    run (step .halves) ⟨[], ⟨0, 0, 0, 0⟩, 0, 0⟩ (.initializeSlots 513 200 :: calls) = some m →
    LoadsBack .halves ⟨[], ⟨0, 0, 0, 0⟩, 0, 0⟩ m := by
  intro hall
  obtain ⟨m', hload, -⟩ := hall [.redo ⟨false, 0, 0⟩] _ rfl
  have hslots : (ModifyTerrainSlot.redo .halves ⟨false, 0, 0⟩
      (initializeSlots .halves ⟨[], ⟨0, 0, 0, 0⟩, 0, 0⟩ 513 200)).definedTerrainSlots = [] := by
    simp [ModifyTerrainSlot.redo, ModifyTerrainSlot.remove, updateSlotBoundary_slots,
      initializeSlots, ModifyTerrainSlot.packed, eraseSlots]
  rw [load_save TerrainGroup.inverse_halves rfl, if_pos hslots] at hload
  cases hload

end

end CampaignSlots

end NetSiege
