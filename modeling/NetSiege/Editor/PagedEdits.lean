import NetSiege.Editor.UndoHistory

/-!
# Undo on paged-out tiles (`undocommands.cpp`, `campaignmanager.cpp`)

The commands bring in a tile that is not loaded, each in its own way, and save it under the name
`TerrainGroup::generateFilename` makes, a name without a directory. `TerrainDefiner::define` looks
for the temporary file and for the file in the campaign's `world` directory, so that what was
undone there is not what is paged in: `PagedGroup.along_undoneAlike_iff` says when it is.
-/

namespace NetSiege

open Lib

/-- The maps of a tile. -/
abbrev TileContent := MapKind → Nat → Rat

/-- A change on a tile. -/
def Change.apply (add : Bool) (kind : MapKind) (change : Change) (content : TileContent) :
    TileContent :=
  let heightmap := content kind
  Function.update content kind
    (if add then heightmap + change.deltaMap else heightmap - change.deltaMap)

/-- A command on the undo stack. -/
structure RecordedEdit (γ : Type) extends Edit γ where
  settled : firstRedo = false
  distinct : toEdit.Distinct

/-- The campaign, and the files of the names from `TerrainGroup::generateFilename`, where these
names do not lead to the campaign's `world` directory. -/
structure PagedGroup where
  campaign : CampaignManager TileContent
  generated : Tile → Option TileContent := fun _ => none

namespace PagedGroup

variable {γ : Type}

/-- The file `generateFilename` names; `inWorld` says that it is in the `world` directory. -/
def generatedFile (inWorld : Bool) (g : PagedGroup) (tile : Tile) : Option TileContent :=
  if inWorld then g.campaign.files (.tileFilepath tile) else g.generated tile

/-- `Ogre::Terrain::save` to the file `generateFilename` names. -/
def saveGenerated (inWorld : Bool) (g : PagedGroup) (tile : Tile) (content : TileContent) :
    PagedGroup :=
  if inWorld then
    let filePath := TilePath.tileFilepath tile
    { g with campaign.files := Function.update g.campaign.files filePath (some content) }
  else { g with generated := Function.update g.generated tile (some content) }

/-- What a command brings in for a tile that is not loaded: `HeightmapEdit` what `defineTerrain` and
`loadTerrain` find, `BlendmapEdit` what it prepares, `none` when `prepare` throws. -/
def fetch (flat : TileContent) (inWorld : Bool) (kind : MapKind) (g : PagedGroup) (tile : Tile) :
    Option TileContent :=
  match kind with
  | .heightmap => some ((g.generatedFile inWorld tile).getD flat)
  | .blendmap _ => g.campaign.files (.tileFilepath tile)

/-- One turn of the loop of `applyDeltas`. -/
def applyChange (flat : TileContent) (inWorld add : Bool) (kind : MapKind) (g : PagedGroup)
    (change : Change) : Option PagedGroup :=
  let g := { g with campaign := g.campaign.setTileModified change.tile }
  match g.campaign.terrain change.tile with
  | some ter =>
    let terrain := some (change.apply add kind ter)
    some { g with campaign.terrain := Function.update g.campaign.terrain change.tile terrain }
  | none =>
    (g.fetch flat inWorld kind change.tile).map fun ter =>
      g.saveGenerated inWorld change.tile (change.apply add kind ter)

/-- `applyDeltas` of both commands. -/
def applyDeltas (flat : TileContent) (inWorld add : Bool) (e : Edit γ) (g : PagedGroup) :
    Option (Edit γ × PagedGroup) :=
  if e.firstRedo then some ({ e with firstRedo := false }, g)
  else (e.changes.foldlM (applyChange flat inWorld add e.kind) g).map (e, ·)

/-- Page-in. -/
def loadPage (flat : TileContent) (g : PagedGroup) (tile : Tile) : PagedGroup :=
  { g with campaign := g.campaign.loadPage flat tile }

/-- An event of the editor, or `redo` (`add`) or `undo` of a command. -/
inductive Input (γ : Type) where
  | event (event : EditorEvent TileContent)
  | applyDeltas (add : Bool) (e : RecordedEdit γ)

/-- The next state, `none` when a command throws. -/
def step (flat : TileContent) (inWorld : Bool) (g : PagedGroup) : Input γ → Option PagedGroup
  | .event event =>
    some { g with campaign := (EditSession.next flat { campaign := g.campaign } event).campaign }
  | .applyDeltas add e => (g.applyDeltas flat inWorld add e.toEdit).map (·.2)

/-- A command leaves a tile that is not loaded such that it is paged in as it would be if it had
been loaded. Only `save` writes the file of a tile. -/
def UndoneAlike (flat : TileContent) (inWorld : Bool) (g : PagedGroup) : Input γ → Prop
  | .event .save => True
  | .event event => ∀ g', g.step (γ := γ) flat inWorld (.event event) = some g' →
      ∀ tile, g'.campaign.files (.tileFilepath tile) = g.campaign.files (.tileFilepath tile)
  | .applyDeltas add e => ∀ change ∈ e.changes, g.campaign.terrain change.tile = none →
      ∃ a b, g.step flat inWorld (.applyDeltas add e) = some a ∧
        (g.loadPage flat change.tile).step flat inWorld (.applyDeltas add e) = some b ∧
        (a.loadPage flat change.tile).campaign.terrain change.tile =
          b.campaign.terrain change.tile ∧
        a.campaign.files (.tileFilepath change.tile) =
          g.campaign.files (.tileFilepath change.tile)

/-- The changes of a command on tiles that are not loaded are zero; there is a file for `prepare`,
and one to be overwritten. -/
def Idle (inWorld : Bool) (g : PagedGroup) : Input γ → Prop
  | .event _ => True
  | .applyDeltas _ e => ∀ change ∈ e.changes, g.campaign.terrain change.tile = none →
      (inWorld ∨ e.kind ≠ .heightmap → (g.campaign.files (.tileFilepath change.tile)).isSome) ∧
      (inWorld ∨ g.campaign.isSlotDefined change.tile → change.deltaMap = 0)

/-! ## One tile -/

/-- What the functions read and write of a tile. -/
structure TileView where
  terrain : Option TileContent
  file : Option TileContent
  tmpFile : Option TileContent
  generated : Option TileContent
  slotDefined : Bool

namespace TileView

variable {flat : TileContent} {inWorld add : Bool} {kind : MapKind} {change : Change}
  {v v' : TileView} {ter : TileContent}

/-- `generatedFile` of the tile. -/
def generatedFile (inWorld : Bool) (v : TileView) : Option TileContent :=
  if inWorld then v.file else v.generated

/-- `saveGenerated` of the tile. -/
def saveGenerated (inWorld : Bool) (v : TileView) (content : TileContent) : TileView :=
  if inWorld then { v with file := some content } else { v with generated := some content }

/-- `fetch` of the tile. -/
def fetch (flat : TileContent) (inWorld : Bool) (kind : MapKind) (v : TileView) :
    Option TileContent :=
  match kind with
  | .heightmap => some ((v.generatedFile inWorld).getD flat)
  | .blendmap _ => v.file

/-- `applyChange` on its tile. -/
def applyChange (flat : TileContent) (inWorld add : Bool) (kind : MapKind) (change : Change)
    (v : TileView) : Option TileView :=
  match v.terrain with
  | some ter => some { v with terrain := some (change.apply add kind ter) }
  | none => (v.fetch flat inWorld kind).map fun ter =>
      v.saveGenerated inWorld (change.apply add kind ter)

/-- `TerrainDefiner::define` of the tile. -/
def define (flat : TileContent) (v : TileView) : Option TileContent :=
  if v.slotDefined then some ((v.tmpFile.or v.file).getD flat) else none

/-- Page-in of the tile. -/
def loadPage (flat : TileContent) (v : TileView) : TileView :=
  { v with terrain := v.terrain.or (v.define flat) }

theorem apply_eq_self_iff {content : TileContent} :
    change.apply add kind content = content ↔ change.deltaMap = 0 := by
  rw [Change.apply, Function.update_eq_self_iff]
  cases add <;> simp

theorem applyChange_of_loaded (h : v.terrain = some ter) :
    v.applyChange flat inWorld add kind change =
      some { v with terrain := some (change.apply add kind ter) } := by
  rw [applyChange, h]

theorem applyChange_of_none (h : v.terrain = none) :
    v.applyChange flat inWorld add kind change = (v.fetch flat inWorld kind).map fun ter =>
      v.saveGenerated inWorld (change.apply add kind ter) := by
  rw [applyChange, h]

/-- A file that is overwritten is not changed if it was there, and the change is zero. -/
theorem file_saveGenerated_iff (add : Bool) (change : Change)
    (h : v.fetch flat inWorld kind = some ter) :
    (v.saveGenerated inWorld (change.apply add kind ter)).file = v.file ↔
      (inWorld → v.file.isSome ∧ change.deltaMap = 0) := by
  cases inWorld with
  | false => simp [saveGenerated]
  | true =>
    change some (change.apply add kind ter) = v.file ↔ _
    cases hfile : v.file with
    | none => simp
    | some content =>
      have hcontent : content = ter := by
        cases kind with
        | heightmap => simpa [fetch, generatedFile, hfile] using h
        | blendmap => simpa [fetch, hfile] using h
      rw [hcontent, Option.some_inj, apply_eq_self_iff]
      simp

/-- What a tile is paged in from depends on the files that `TerrainDefiner::define` looks for. -/
theorem terrain_loadPage_saveGenerated {content : TileContent} (h : v.terrain = none)
    (hfile : (v.saveGenerated inWorld content).file = v.file) :
    ((v.saveGenerated inWorld content).loadPage flat).terrain = v.define flat := by
  cases inWorld with
  | false => simp [saveGenerated, loadPage, h, define]
  | true =>
    have hsame : some content = v.file := hfile
    simp [saveGenerated, loadPage, h, define, hsame]

/-- What the tile is paged in as stays what the change makes of it once it is loaded, if it is zero
or the tile is never loaded. -/
theorem define_alike_iff (add : Bool) (change : Change) (h : v.terrain = none)
    (hfetch : v.fetch flat inWorld kind = some ter) :
    (∃ b, (v.loadPage flat).applyChange flat inWorld add kind change = some b ∧
      v.define flat = b.terrain) ↔ (v.slotDefined → change.deltaMap = 0) := by
  cases hslot : v.slotDefined with
  | false =>
    have hload : v.loadPage flat = v := by
      obtain ⟨_, _, _, _, _⟩ := v
      cases h
      cases hslot
      rfl
    rw [hload, applyChange_of_none h, hfetch, define, hslot, if_neg Bool.false_ne_true]
    refine ⟨fun _ => nofun, fun _ => ⟨_, rfl, ?_⟩⟩
    cases inWorld <;> exact h.symm
  | true =>
    have hdefine : v.define flat = some ((v.tmpFile.or v.file).getD flat) := by
      rw [define, hslot, if_pos rfl]
    rw [applyChange, loadPage, h, hdefine]
    change (∃ b, some _ = some b ∧ _) ↔ _
    simp only [Option.some.injEq, exists_eq_left', true_implies]
    rw [eq_comm, apply_eq_self_iff]

theorem alike_iff (h : v.terrain = none) :
    (∃ a b, v.applyChange flat inWorld add kind change = some a ∧
      (v.loadPage flat).applyChange flat inWorld add kind change = some b ∧
      (a.loadPage flat).terrain = b.terrain ∧ a.file = v.file) ↔
    (inWorld ∨ kind ≠ .heightmap → v.file.isSome) ∧
      (inWorld ∨ v.slotDefined → change.deltaMap = 0) := by
  cases hfetch : v.fetch flat inWorld kind with
  | none =>
    have hfile : kind ≠ .heightmap ∧ v.file = none := by
      cases kind with
      | heightmap => cases hfetch
      | blendmap => exact ⟨nofun, hfetch⟩
    rw [applyChange_of_none h, hfetch]
    simp [hfile]
  | some ter =>
    have hfile : kind ≠ .heightmap → v.file.isSome := by
      cases kind with
      | heightmap => exact fun hne => absurd rfl hne
      | blendmap => exact fun _ => Option.isSome_of_eq_some hfetch
    have hdefine := define_alike_iff add change h hfetch
    have hsaved := file_saveGenerated_iff add change hfetch
    rw [applyChange_of_none h, hfetch, Option.map_some]
    refine ⟨fun ⟨a, b, ha, hb, hter, hsame⟩ => ?_, fun ⟨hexists, hzero⟩ => ?_⟩
    · cases ha
      rw [terrain_loadPage_saveGenerated h hsame] at hter
      have hworld := hsaved.1 hsame
      refine ⟨fun hcase => hcase.elim (fun hin => (hworld hin).1) hfile, fun hcase => ?_⟩
      exact hcase.elim (fun hin => (hworld hin).2) (hdefine.1 ⟨b, hb, hter⟩)
    · have hsame := hsaved.2 fun hin => ⟨hexists (.inl hin), hzero (.inl hin)⟩
      obtain ⟨b, hb, hter⟩ := hdefine.2 fun hslot => hzero (.inr hslot)
      exact ⟨_, b, rfl, hb, (terrain_loadPage_saveGenerated h hsame).trans hter, hsame⟩

end TileView

/-- The tile in the group. -/
def view (g : PagedGroup) (tile : Tile) : TileView where
  terrain := g.campaign.terrain tile
  file := g.campaign.files (.tileFilepath tile)
  tmpFile := g.campaign.files (.tmpTileFilepath tile)
  generated := g.generated tile
  slotDefined := g.campaign.isSlotDefined tile

variable {flat : TileContent} {inWorld add : Bool} {kind : MapKind} {change : Change}
  {g g' : PagedGroup} {tile : Tile}

theorem view_setTileModified (g : PagedGroup) (tile : Tile) :
    view { g with campaign := g.campaign.setTileModified tile } = g.view := by
  unfold CampaignManager.setTileModified
  split
  · rfl
  · rfl

theorem view_saveGenerated_self {content : TileContent} :
    (g.saveGenerated inWorld tile content).view tile =
      (g.view tile).saveGenerated inWorld content := by
  cases inWorld with
  | true => simp [saveGenerated, TileView.saveGenerated, view, CampaignManager.isSlotDefined]
  | false => simp [saveGenerated, TileView.saveGenerated, view]

theorem view_saveGenerated_of_ne {content : TileContent} (h : tile ≠ change.tile) :
    (g.saveGenerated inWorld change.tile content).view tile = g.view tile := by
  cases inWorld with
  | true => simp [saveGenerated, view, CampaignManager.isSlotDefined, h]
  | false => simp [saveGenerated, view, h]

theorem fetch_eq : g.fetch flat inWorld kind tile = (g.view tile).fetch flat inWorld kind := by
  cases kind with
  | heightmap => cases inWorld <;> rfl
  | blendmap => rfl

/-- A turn of the loop acts on its tile. -/
theorem view_applyChange_self :
    (g.applyChange flat inWorld add kind change).map (·.view change.tile) =
      (g.view change.tile).applyChange flat inWorld add kind change := by
  rw [applyChange, TileView.applyChange, ← view_setTileModified g change.tile]
  generalize { g with campaign := g.campaign.setTileModified change.tile } = g
  change Option.map _ (match g.campaign.terrain change.tile with | some _ => _ | none => _) =
    match g.campaign.terrain change.tile with | some _ => _ | none => _
  cases hter : g.campaign.terrain change.tile with
  | some ter => simp [view, CampaignManager.isSlotDefined]
  | none =>
    simp only [Option.map_map, Function.comp_def, view_saveGenerated_self, fetch_eq]

/-- The other tiles are as they were. -/
theorem view_applyChange_of_ne (h : g.applyChange flat inWorld add kind change = some g')
    (hne : tile ≠ change.tile) : g'.view tile = g.view tile := by
  rw [applyChange] at h
  rw [← view_setTileModified g change.tile]
  generalize { g with campaign := g.campaign.setTileModified change.tile } = g at h ⊢
  dsimp only at h
  split at h
  · cases h
    simp [view, CampaignManager.isSlotDefined, hne]
  · obtain ⟨ter, -, rfl⟩ := Option.map_eq_some_iff.1 h
    exact view_saveGenerated_of_ne hne

theorem define_eq : g.campaign.define flat tile = (g.view tile).define flat := by
  simp only [CampaignManager.define, TileView.define, view]
  cases g.campaign.files (.tmpTileFilepath tile) with
  | some tmpFile => rfl
  | none => cases g.campaign.files (.tileFilepath tile) <;> rfl

theorem view_loadPage_self (flat : TileContent) (g : PagedGroup) (tile : Tile) :
    (g.loadPage flat tile).view tile = (g.view tile).loadPage flat := by
  obtain ⟨⟨ter, hter⟩, heq⟩ | ⟨hter, heq⟩ := CampaignManager.loadPage_cases flat g.campaign tile
  · rw [loadPage, heq]
    simp [TileView.loadPage, view, hter]
  · rw [loadPage, heq]
    change TileView.mk (Function.update g.campaign.terrain tile _ tile) _ _ _ _ =
      { g.view tile with terrain := (g.campaign.terrain tile).or ((g.view tile).define flat) }
    rw [Function.update_self, hter, Option.none_or, define_eq]
    rfl

theorem view_loadPage_of_ne {tile' : Tile} (hne : tile' ≠ tile) :
    (g.loadPage flat tile).view tile' = g.view tile' := by
  obtain ⟨-, heq⟩ | ⟨-, heq⟩ := CampaignManager.loadPage_cases flat g.campaign tile
  · rw [loadPage, heq]
  · rw [loadPage, heq]
    simp [view, CampaignManager.isSlotDefined, hne]

/-! ## All tiles of a command -/

section
variable {changes : List Change}

theorem view_foldlM_of_forall_ne
    (h : changes.foldlM (applyChange flat inWorld add kind) g = some g')
    (hne : ∀ change ∈ changes, tile ≠ change.tile) : g'.view tile = g.view tile := by
  induction changes generalizing g with
  | nil =>
    cases h
    rfl
  | cons change changes ih =>
    rw [List.foldlM_cons, Option.bind_eq_bind, Option.bind_eq_some_iff] at h
    obtain ⟨g₁, h₁, h⟩ := h
    obtain ⟨hself, hrest⟩ := List.forall_mem_cons.1 hne
    rw [ih h hrest, view_applyChange_of_ne h₁ hself]

/-- The loop acts on each of its tiles once. -/
theorem view_foldlM (hnodup : (changes.map (·.tile)).Nodup)
    (h : changes.foldlM (applyChange flat inWorld add kind) g = some g') (hmem : change ∈ changes) :
    (g.view change.tile).applyChange flat inWorld add kind change =
      some (g'.view change.tile) := by
  induction changes generalizing g with
  | nil => cases hmem
  | cons first changes ih =>
    rw [List.foldlM_cons, Option.bind_eq_bind, Option.bind_eq_some_iff] at h
    obtain ⟨g₁, h₁, h⟩ := h
    obtain ⟨hfirst, hnodup⟩ := List.nodup_cons.1 hnodup
    obtain rfl | hmem := List.mem_cons.1 hmem
    · have hkept : g'.view change.tile = g₁.view change.tile :=
        view_foldlM_of_forall_ne h fun other hother heq =>
          hfirst (List.mem_map.2 ⟨other, hother, heq.symm⟩)
      rw [hkept, ← view_applyChange_self, h₁, Option.map_some]
    · have hne : change.tile ≠ first.tile := fun heq =>
        hfirst (List.mem_map.2 ⟨change, hmem, heq⟩)
      rw [← view_applyChange_of_ne h₁ hne]
      exact ih hnodup h hmem

/-- The loop comes to its end if every tile that is not loaded can be brought in. -/
theorem isSome_foldlM (hnodup : (changes.map (·.tile)).Nodup)
    (h : ∀ change ∈ changes,
      ((g.view change.tile).applyChange flat inWorld add kind change).isSome) :
    ∃ g', changes.foldlM (applyChange flat inWorld add kind) g = some g' := by
  induction changes generalizing g with
  | nil => exact ⟨g, rfl⟩
  | cons change changes ih =>
    obtain ⟨hself, hrest⟩ := List.forall_mem_cons.1 h
    obtain ⟨hfirst, hnodup⟩ := List.nodup_cons.1 hnodup
    rw [← view_applyChange_self, Option.isSome_map] at hself
    obtain ⟨g₁, h₁⟩ := Option.isSome_iff_exists.1 hself
    obtain ⟨g', h'⟩ := ih hnodup (g := g₁) fun other hother => by
      have hne : other.tile ≠ change.tile := fun heq =>
        hfirst (List.mem_map.2 ⟨other, hother, heq⟩)
      rw [view_applyChange_of_ne h₁ hne]
      exact hrest other hother
    refine ⟨g', ?_⟩
    rw [List.foldlM_cons, h₁]
    exact h'

end

theorem step_applyDeltas (e : RecordedEdit γ) :
    g.step flat inWorld (.applyDeltas add e) =
      e.changes.foldlM (applyChange flat inWorld add e.kind) g := by
  rw [step, applyDeltas, e.settled, if_neg Bool.false_ne_true, Option.map_map]
  simp

/-! ## Loaded tiles -/

/-- The maps of the loaded tiles. -/
def maps (g : PagedGroup) : Maps γ := fun i =>
  match g.campaign.terrain i.tile with
  | some content => content i.kind
  | none => 0

theorem maps_of_loaded {i : MapId γ} {content : TileContent}
    (h : g.campaign.terrain i.tile = some content) : g.maps i = content i.kind := by
  rw [maps, h]

/-- On loaded tiles a command does what it does to the maps of a brush session. -/
theorem maps_step_applyDeltas [DecidableEq γ] {e : RecordedEdit γ}
    (h : ∀ change ∈ e.changes, (g.campaign.terrain change.tile).isSome) :
    ∃ g', g.step flat inWorld (.applyDeltas add e) = some g' ∧
      ∀ i : MapId γ, i.group = e.terrainGroup →
        g'.maps i = (e.toEdit.applyDeltas add g.maps).2 i := by
  have hend : ∃ g', e.changes.foldlM (applyChange flat inWorld add e.kind) g = some g' := by
    refine isSome_foldlM e.distinct fun change hchange => ?_
    obtain ⟨ter, hter⟩ := Option.isSome_iff_exists.1 (h change hchange)
    have hterrain : (g.view change.tile).terrain = some ter := hter
    exact Option.isSome_of_eq_some (TileView.applyChange_of_loaded hterrain)
  obtain ⟨g', hg'⟩ := hend
  refine ⟨g', (step_applyDeltas e).trans hg', fun i hgroup => ?_⟩
  obtain ⟨_, tile, kind⟩ := i
  cases hgroup
  have happly : (e.toEdit.applyDeltas add g.maps).2 ⟨e.terrainGroup, tile, kind⟩ =
      if add then g.maps ⟨e.terrainGroup, tile, kind⟩ + e.effect ⟨e.terrainGroup, tile, kind⟩
      else g.maps ⟨e.terrainGroup, tile, kind⟩ - e.effect ⟨e.terrainGroup, tile, kind⟩ := by
    rw [Edit.applyDeltas_eq add e.settled]
    cases add <;> rfl
  rw [happly]
  by_cases htile : ∃ change ∈ e.changes, change.tile = tile
  · obtain ⟨change, hchange, rfl⟩ := htile
    obtain ⟨ter, hter⟩ := Option.isSome_iff_exists.1 (h change hchange)
    have hview := view_foldlM e.distinct hg' hchange
    rw [TileView.applyChange_of_loaded hter] at hview
    have hter' := congrArg TileView.terrain (Option.some.inj hview)
    rw [maps_of_loaded hter'.symm, maps_of_loaded (i := ⟨e.terrainGroup, change.tile, kind⟩) hter]
    by_cases hkind : kind = e.kind
    · subst hkind
      have heffect : e.effect ⟨e.terrainGroup, change.tile, e.kind⟩ = change.deltaMap :=
        sumChanges_of_mem (Edit.mapId_injective (e := e.toEdit)) e.distinct hchange
      rw [heffect]
      exact Function.update_self ..
    · have heffect : e.effect ⟨e.terrainGroup, change.tile, kind⟩ = 0 :=
        sumChanges_of_not_mem fun other hother heq => hkind (congrArg MapId.kind heq).symm
      rw [heffect, add_zero, sub_zero, ite_self]
      exact Function.update_of_ne hkind ..
  · have hkept : g'.view tile = g.view tile :=
      view_foldlM_of_forall_ne hg' fun change hchange heq => htile ⟨change, hchange, heq.symm⟩
    have heffect : e.effect ⟨e.terrainGroup, tile, kind⟩ = 0 := by
      refine sumChanges_of_not_mem fun change hchange heq => htile ⟨change, hchange, ?_⟩
      exact congrArg MapId.tile heq
    have hter : g'.campaign.terrain tile = g.campaign.terrain tile :=
      congrArg TileView.terrain hkept
    rw [heffect, add_zero, sub_zero, ite_self, maps, maps, hter]

/-- Only `save` writes the file of a tile. -/
theorem files_next {m : CampaignManager TileContent} {event : EditorEvent TileContent}
    (h : event ≠ .save) :
    (EditSession.next flat { campaign := m } event).campaign.files (.tileFilepath tile) =
      m.files (.tileFilepath tile) := by
  cases event with
  | applyBrush tile' content =>
    obtain ⟨-, heq⟩ | hbrushed := m.applyBrush_cases tile' content
    · exact congrArg (fun m => CampaignManager.files m _) heq
    · exact congrFun hbrushed.files _
  | unloadPage tile' inProgress =>
    have hcases := m.unloadPage_cases tile' inProgress
    simp only [EditSession.next]
    generalize m.unloadPage tile' inProgress = m' at hcases ⊢
    cases hcases with
    | held => rfl
    | @stored ter =>
      have hne : TilePath.tileFilepath tile ≠ .tmpTileFilepath tile' := by simp
      exact Function.update_of_ne hne (some ter) m.files
    | dropped => rfl
  | loadPage tile' =>
    simp only [EditSession.next]
    obtain ⟨-, heq⟩ | ⟨-, heq⟩ := CampaignManager.loadPage_cases flat m tile' <;> rw [heq]
  | save => exact absurd rfl h

theorem undoneAlike_of_event (event : EditorEvent TileContent) :
    UndoneAlike (γ := γ) flat inWorld g (.event event) := by
  have hfiles : event ≠ .save → ∀ g', g.step (γ := γ) flat inWorld (.event event) = some g' →
      ∀ tile, g'.campaign.files (.tileFilepath tile) =
        g.campaign.files (.tileFilepath tile) := by
    intro hne g' h tile
    cases h
    exact files_next hne
  cases event with
  | save => trivial
  | applyBrush => exact hfiles nofun
  | unloadPage => exact hfiles nofun
  | loadPage => exact hfiles nofun

section
variable {e : RecordedEdit γ}

/-- What `Idle` says of the tile of a change. -/
theorem Idle.alike (H : Idle inWorld g (.applyDeltas add e)) (flat : TileContent)
    (hmem : change ∈ e.changes) (hter : g.campaign.terrain change.tile = none) :
    ∃ a b, (g.view change.tile).applyChange flat inWorld add e.kind change = some a ∧
      ((g.view change.tile).loadPage flat).applyChange flat inWorld add e.kind change = some b ∧
      (a.loadPage flat).terrain = b.terrain ∧ a.file = (g.view change.tile).file := by
  have hterrain : (g.view change.tile).terrain = none := hter
  exact (TileView.alike_iff hterrain).2 (H change hmem hter)

theorem Idle.isSome_applyChange (H : Idle inWorld g (.applyDeltas add e)) (flat : TileContent)
    (hmem : change ∈ e.changes) :
    ((g.view change.tile).applyChange flat inWorld add e.kind change).isSome := by
  cases hter : g.campaign.terrain change.tile with
  | some ter => exact Option.isSome_of_eq_some (TileView.applyChange_of_loaded hter)
  | none =>
    obtain ⟨a, -, ha, -⟩ := H.alike flat hmem hter
    exact Option.isSome_of_eq_some ha

/-- A command that comes to its end does so when one of its tiles is loaded before. -/
theorem Idle.isSome_applyChange_loadPage (H : Idle inWorld g (.applyDeltas add e))
    (flat : TileContent) (tile : Tile) (hmem : change ∈ e.changes) :
    (((g.loadPage flat tile).view change.tile).applyChange flat inWorld add e.kind
      change).isSome := by
  by_cases htile : change.tile = tile
  · rw [← htile, view_loadPage_self]
    cases hter : g.campaign.terrain change.tile with
    | some ter =>
      have hload : ((g.view change.tile).loadPage flat).terrain = some ter := by
        rw [TileView.loadPage, view, hter, Option.some_or]
      exact Option.isSome_of_eq_some (TileView.applyChange_of_loaded hload)
    | none =>
      obtain ⟨-, b, -, hb, -⟩ := H.alike flat hmem hter
      exact Option.isSome_of_eq_some hb
  · rw [view_loadPage_of_ne htile]
    exact H.isSome_applyChange flat hmem

theorem undoneAlike_iff (input : Input γ) :
    UndoneAlike flat inWorld g input ↔ Idle inWorld g input := by
  cases input with
  | event event => exact ⟨fun _ => trivial, fun _ => undoneAlike_of_event event⟩
  | applyDeltas add e =>
    have hnodup := e.distinct
    refine ⟨fun H change hmem hter => ?_, fun H change hmem hter => ?_⟩
    · obtain ⟨a, b, ha, hb, hcontent, hfile⟩ := H change hmem hter
      rw [step_applyDeltas] at ha hb
      have hview := view_foldlM hnodup hb hmem
      rw [view_loadPage_self] at hview
      have hload := view_loadPage_self flat a change.tile
      have hterrain : (g.view change.tile).terrain = none := hter
      apply (TileView.alike_iff hterrain).1
      exact ⟨a.view change.tile, b.view change.tile, view_foldlM hnodup ha hmem, hview,
        hload ▸ hcontent, hfile⟩
    · obtain ⟨va, vb, hva, hvb, hcontent, hfile⟩ := H.alike flat hmem hter
      obtain ⟨a, ha⟩ := isSome_foldlM hnodup fun _ => H.isSome_applyChange flat
      obtain ⟨b, hb⟩ := isSome_foldlM hnodup fun _ =>
        H.isSome_applyChange_loadPage flat change.tile
      have hview := view_foldlM hnodup hb hmem
      rw [view_loadPage_self, hvb] at hview
      cases hview
      cases hva.symm.trans (view_foldlM hnodup ha hmem)
      have hload := view_loadPage_self flat a change.tile
      refine ⟨a, b, (step_applyDeltas e).trans ha, (step_applyDeltas e).trans hb, ?_, hfile⟩
      exact (congrArg TileView.terrain hload).trans hcontent

end

/-- In a run of the editor, `undo` and `redo` do on paged-out tiles what they do on loaded ones if
and only if the commands change nothing there. -/
theorem along_undoneAlike_iff (flat : TileContent) (inWorld : Bool) (g : PagedGroup)
    (inputs : List (Input γ)) :
    Along (step flat inWorld) (UndoneAlike flat inWorld) g inputs ↔
      Along (step flat inWorld) (Idle inWorld) g inputs :=
  Along.iff_of_invariant (fun _ => True) (fun _ _ _ _ _ _ => trivial)
    (fun _ input _ => undoneAlike_iff input) trivial

/-- A campaign of one flat tile, which is loaded. -/
def flatTile : PagedGroup where
  campaign := {
    definedTerrainSlots := [⟨0, 0⟩]
    terrain := Function.update (fun _ => none) ⟨0, 0⟩ (some 0)
    files := fun _ => none }

/-- What a stroke that raises the tile by 1 changes. -/
def raise : Change := ⟨⟨0, 0⟩, 1⟩

/-- The command of the stroke. -/
def raisedEdit : RecordedEdit Unit where
  terrainGroup := ()
  kind := .heightmap
  changes := [raise]
  firstRedo := false
  settled := rfl
  distinct := List.nodup_singleton _

/-- The stroke, a page-out, which writes the temporary file, and `undo`. -/
def undoneAfterPageOut : List (Input Unit) :=
  [.event (.applyBrush raise.tile (raise.apply true .heightmap 0)),
    .event (.unloadPage raise.tile false), .applyDeltas false raisedEdit]

/-- The tile is raised when it is paged in again, wherever `generateFilename` leads. -/
theorem not_along_undoneAlike :
    ¬ Along (step 0 true) (UndoneAlike 0 true) flatTile undoneAfterPageOut ∧
      ¬ Along (step 0 false) (UndoneAlike 0 false) flatTile undoneAfterPageOut := by
  have hchange : raise.deltaMap ≠ 0 := fun h => by
    have h0 : (1 : Rat) = 0 := congrFun h 0
    cases h0
  have hlast : ∀ inWorld,
      ¬ Along (step 0 inWorld) (UndoneAlike 0 inWorld) flatTile undoneAfterPageOut := by
    intro inWorld H
    obtain ⟨-, H⟩ := H
    obtain ⟨-, H⟩ := H _ rfl
    obtain ⟨H, -⟩ := H _ rfl
    obtain ⟨-, hzero⟩ := (undoneAlike_iff _).1 H raise (List.mem_singleton.2 rfl) rfl
    exact hchange (hzero (.inr rfl))
  exact ⟨hlast true, hlast false⟩

end PagedGroup

namespace BrushSession

variable {γ : Type} [DecidableEq γ] {s : BrushSession γ}

/-- A stroke that ends leaves its command on the stack as it is taken here. -/
theorem stopStroke_recorded {cmd : Edit γ} (hgroup : s.brush.group.isSome)
    (hcmd : s.currentCommand = some cmd) (hfirst : cmd.firstRedo = true)
    (hdistinct : cmd.Distinct) :
    ∃ e : RecordedEdit γ, s.stopStroke.stack.done = e.toEdit :: s.stack.done := by
  have hnodup : (cmd.finalize s.maps).Distinct := by
    rwa [Edit.Distinct, Edit.finalize, List.map_map]
  rw [stopStroke_of_current hgroup hcmd hfirst]
  exact ⟨{ cmd.finalize s.maps with firstRedo := false, settled := rfl, distinct := hnodup }, rfl⟩

end BrushSession

end NetSiege
