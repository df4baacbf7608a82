import NetSiege.Editor.TerrainPaging

/-!
# The contents of the tiles (`campaignmanager.cpp`, `editableterrainpagedworldsection.cpp`)

A tile is what is in memory of it, or else what a page-in would bring (`content`). Where every tile
in memory that is not modified is as a page-in would bring it (`Fresh`), neither page-ins, nor
page-outs that meet no stale temporary file, nor `save` change the content of a tile; and what was
saved is what a campaign that is opened again has (`content_reopened`).
-/

namespace NetSiege

open Lib

namespace CampaignManager

variable {α : Type} {flat ter : α} {m m' : CampaignManager α} {tile tile' : Tile}

/-- The tile is in memory. -/
def isLoaded (m : CampaignManager α) (tile : Tile) : Bool := (m.terrain tile).isSome

/-- The tile as it is in memory, or else as it would be paged in. -/
def content (flat : α) (m : CampaignManager α) (tile : Tile) : Option α :=
  match m.terrain tile with
  | some ter => some ter
  | none => m.define flat tile

/-- The tiles in memory have slots, and those that are not modified are as they would be paged
in. -/
structure Fresh (flat : α) (m : CampaignManager α) : Prop where
  slot : ∀ {tile ter}, m.terrain tile = some ter → m.isSlotDefined tile
  unmodified : ∀ {tile ter}, m.terrain tile = some ter → ¬ m.isTileModified tile →
    m.define flat tile = some ter

/-- The temporary file of a tile that was paged out before is up to date. -/
def UpToDate (m : CampaignManager α) (tile : Tile) : Prop :=
  m.isTileUnpaged tile → ∀ ter, m.terrain tile = some ter →
    m.files (.tmpTileFilepath tile) = some ter

theorem content_of_loaded (h : m.terrain tile = some ter) : m.content flat tile = some ter := by
  rw [content, h]

theorem content_of_not_loaded (h : m.terrain tile = none) :
    m.content flat tile = m.define flat tile := by
  rw [content, h]

/-- A page-in looks at the slots and at the two files of the tile. -/
theorem define_congr (hslots : m'.isSlotDefined tile = m.isSlotDefined tile)
    (hfile : m'.files (.tileFilepath tile) = m.files (.tileFilepath tile))
    (htmp : m'.files (.tmpTileFilepath tile) = m.files (.tmpTileFilepath tile)) :
    m'.define flat tile = m.define flat tile := by
  rw [define, define, hslots, hfile, htmp]

/-! ## Pages -/

/-- A tile that leaves the memory leaves its content behind. -/
theorem dropPage_kept (h : m.Fresh flat)
    (hdefine : ∀ ter, m.terrain tile = some ter → m.define flat tile = some ter) :
    (m.dropPage tile).Fresh flat ∧
      ∀ tile', (m.dropPage tile).content flat tile' = m.content flat tile' := by
  refine ⟨⟨fun hter => h.slot (EditSession.of_update_none hter),
    fun hter => h.unmodified (EditSession.of_update_none hter)⟩, fun tile' => ?_⟩
  obtain rfl | hne := eq_or_ne tile' tile
  · rw [content_of_not_loaded (m := m.dropPage tile') (Function.update_self ..)]
    cases hter : m.terrain tile' with
    | none => exact (content_of_not_loaded hter).symm
    | some ter => exact (hdefine ter hter).trans (content_of_loaded hter).symm
  · have hsame : (m.dropPage tile).terrain tile' = m.terrain tile' := Function.update_of_ne hne ..
    rw [content, content, hsame]
    rfl

/-- The temporary file of a tile in memory is written. -/
theorem setTileUnpaged_kept (h : m.Fresh flat) (hter : m.terrain tile = some ter)
    (hmodified : m.isTileModified tile) :
    let stored := { m.setTileUnpaged tile with
      files := Function.update m.files (.tmpTileFilepath tile) (some ter) }
    stored.Fresh flat ∧ stored.define flat tile = some ter ∧
      ∀ tile', stored.content flat tile' = m.content flat tile' := by
  intro stored
  have hother : ∀ tile' ≠ tile, stored.define flat tile' = m.define flat tile' := by
    intro tile' hne
    have hfile : TilePath.tileFilepath tile' ≠ .tmpTileFilepath tile := nofun
    have htmp : TilePath.tmpTileFilepath tile' ≠ .tmpTileFilepath tile := by simpa using hne
    exact define_congr rfl (Function.update_of_ne hfile (some ter) m.files)
      (Function.update_of_ne htmp (some ter) m.files)
  refine ⟨⟨h.slot, fun {tile' ter'} hter' hnot => ?_⟩,
    define_of_tmp (h.slot hter) (Function.update_self ..), fun tile' => ?_⟩
  · have hnot' : ¬ m.isTileModified tile' := fun hmodified' =>
      hnot (isTileModified_setTileUnpaged.2 hmodified')
    have hne : tile' ≠ tile := fun heq => hnot' (heq ▸ hmodified)
    exact (hother tile' hne).trans (h.unmodified hter' hnot')
  · have hterrain : stored.terrain = m.terrain := rfl
    obtain rfl | hne := eq_or_ne tile' tile
    · rw [content, content, hterrain, hter]
    · rw [content, content, hterrain, hother tile' hne]

/-- A page-out changes the content of no tile, unless the temporary file it relies on is stale. -/
theorem unloadPage_kept (h : m.Fresh flat) (hdate : m.UpToDate tile) (inProgress : Bool) :
    (m.unloadPage tile inProgress).Fresh flat ∧
      ∀ tile', (m.unloadPage tile inProgress).content flat tile' = m.content flat tile' := by
  have hcases := m.unloadPage_cases tile inProgress
  generalize m.unloadPage tile inProgress = m' at hcases ⊢
  cases hcases with
  | held => exact ⟨h, fun _ => rfl⟩
  | stored hter hmodified =>
    obtain ⟨hfresh, hdefine, hcontent⟩ := setTileUnpaged_kept h hter hmodified
    have hdrop := dropPage_kept hfresh fun ter' (hter' : m.terrain tile = some ter') => by
      cases hter.symm.trans hter'
      exact hdefine
    exact ⟨hdrop.1, fun tile' => (hdrop.2 tile').trans (hcontent tile')⟩
  | dropped hdropped =>
    refine dropPage_kept h fun ter hter => ?_
    by_cases hmodified : m.isTileModified tile
    · exact define_of_tmp (h.slot hter) (hdate (hdropped hter hmodified) ter hter)
    · exact h.unmodified hter hmodified

/-- A page-in changes the content of no tile. -/
theorem loadPage_kept (h : m.Fresh flat) (tile : Tile) :
    (m.loadPage flat tile).Fresh flat ∧
      ∀ tile', (m.loadPage flat tile).content flat tile' = m.content flat tile' := by
  obtain ⟨-, heq⟩ | ⟨hter, heq⟩ := loadPage_cases flat m tile
  · rw [heq]
    exact ⟨h, fun _ => rfl⟩
  · rw [heq]
    refine ⟨⟨fun {tile' ter'} hter' => ?_, fun {tile' ter'} hter' hnot => ?_⟩, fun tile' => ?_⟩
    · obtain ⟨rfl, hdefine⟩ | ⟨_, hter'⟩ := EditSession.update_eq_some.1 hter'
      · exact isSlotDefined_of_define hdefine
      · exact h.slot hter'
    · obtain ⟨rfl, hdefine⟩ | ⟨_, hter'⟩ := EditSession.update_eq_some.1 hter'
      · exact hdefine
      · exact h.unmodified hter' hnot
    · obtain rfl | hne := eq_or_ne tile' tile
      · rw [content_of_not_loaded hter]
        unfold content
        dsimp only
        rw [Function.update_self]
        cases hdefine : m.define flat tile' with
        | some ter => rfl
        | none => exact hdefine
      · unfold content
        dsimp only
        rw [Function.update_of_ne hne]
        rfl

/-- Pages coming and going leave the modified tiles modified. -/
theorem isTileModified_unloadPage (inProgress : Bool) :
    (m.unloadPage tile inProgress).isTileModified tile' ↔ m.isTileModified tile' := by
  have hcases := m.unloadPage_cases tile inProgress
  generalize m.unloadPage tile inProgress = m' at hcases ⊢
  cases hcases with
  | held => rfl
  | stored => exact isTileModified_setTileUnpaged
  | dropped => rfl

theorem isTileModified_loadPage :
    (m.loadPage flat tile).isTileModified tile' ↔ m.isTileModified tile' := by
  obtain ⟨-, heq⟩ | ⟨-, heq⟩ := loadPage_cases flat m tile <;> rw [heq]
  rfl

/-! ## Saving -/

/-- A tile that is neither in memory nor in a temporary file is not saved. -/
theorem foldl_saveTile_none {terrain : Tile → Option α} {files : TilePath → Option α}
    (l : List EditedTile) (h : toSave terrain files tile = none) :
    l.foldl (saveTile terrain) files (.tileFilepath tile) = files (.tileFilepath tile) ∧
      l.foldl (saveTile terrain) files (.tmpTileFilepath tile) =
        files (.tmpTileFilepath tile) := by
  induction l generalizing files with
  | nil => exact ⟨rfl, rfl⟩
  | cons edited l ih =>
    rw [List.foldl_cons]
    obtain rfl | hne := eq_or_ne tile edited.toTile
    · rw [saveTile_none h]
      exact ih h
    · have hsave : toSave terrain (saveTile terrain files edited) tile = none := by
        rwa [toSave, (saveTile_other hne).2]
      exact ⟨(ih hsave).1.trans (saveTile_other hne).1, (ih hsave).2.trans (saveTile_other hne).2⟩

/-- What a page-in would bring after `save`. -/
theorem define_save (h : m.Fresh flat) (tile : Tile) :
    m.save.define flat tile = m.content flat tile := by
  by_cases hmodified : m.isTileModified tile
  · obtain ⟨it, hit, htile⟩ := List.any_eq_true.1 hmodified
    have hedited : ∃ it ∈ m.editedTiles, it.toTile = tile := ⟨it, hit, of_decide_eq_true htile⟩
    cases hter : m.terrain tile with
    | some ter =>
      have hsave : toSave m.terrain m.files tile = some ter := by rw [toSave, hter]
      have hsaved := foldl_saveTile_self hedited hsave
      rw [content_of_loaded hter]
      exact define_of_file (h.slot hter) hsaved.tmp hsaved.file
    | none =>
      rw [content_of_not_loaded hter]
      cases hslot : m.isSlotDefined tile with
      | false =>
        have hslot' : m.save.isSlotDefined tile = false := hslot
        rw [define, define, hslot, hslot']
        rfl
      | true =>
        have hsave : toSave m.terrain m.files tile = m.files (.tmpTileFilepath tile) := by
          rw [toSave, hter]
        cases htmp : m.files (.tmpTileFilepath tile) with
        | some content =>
          have hsaved := foldl_saveTile_self hedited (hsave.trans htmp)
          rw [define_of_tmp hslot htmp]
          exact define_of_file hslot hsaved.tmp hsaved.file
        | none =>
          obtain ⟨hfile, htmp'⟩ := foldl_saveTile_none m.editedTiles (hsave.trans htmp)
          exact define_congr rfl hfile htmp'
  · have hother : ∀ it ∈ m.editedTiles, it.toTile ≠ tile := fun it hit htile =>
      hmodified (List.any_eq_true.2 ⟨it, hit, decide_eq_true htile⟩)
    have hdefine : m.save.define flat tile = m.define flat tile :=
      define_congr rfl (foldl_saveTile_other hother).1 (foldl_saveTile_other hother).2
    rw [hdefine]
    cases hter : m.terrain tile with
    | some ter => exact (h.unmodified hter hmodified).trans (content_of_loaded hter).symm
    | none => exact (content_of_not_loaded hter).symm

theorem save_kept (h : m.Fresh flat) :
    m.save.Fresh flat ∧ ∀ tile, m.save.content flat tile = m.content flat tile := by
  refine ⟨⟨h.slot, fun {tile ter} hter _ => ?_⟩, fun tile => ?_⟩
  · exact (define_save h tile).trans (content_of_loaded hter)
  · cases hter : m.terrain tile with
    | some ter => rw [content_of_loaded hter, content_of_loaded (m := m.save) hter]
    | none => rw [content_of_not_loaded (m := m.save) hter, define_save h tile]

/-- A campaign that is saved and opened again has the same tiles. -/
theorem content_reopened (h : m.Fresh flat) (tile : Tile) :
    content flat { definedTerrainSlots := m.definedTerrainSlots, files := m.save.files } tile =
      m.content flat tile :=
  define_save h tile

/-! ## Edits -/

/-- Tiles in memory were changed, each after it was set modified. -/
structure Rewritten (m m' : CampaignManager α) : Prop where
  files : m'.files = m.files
  slots : ∀ tile, m'.isSlotDefined tile = m.isSlotDefined tile
  loaded : ∀ tile, m'.isLoaded tile = m.isLoaded tile
  modified : ∀ tile, m.isTileModified tile → m'.isTileModified tile
  kept : ∀ tile, ¬ m'.isTileModified tile → m'.terrain tile = m.terrain tile

theorem Rewritten.refl (m : CampaignManager α) : Rewritten m m :=
  ⟨rfl, fun _ => rfl, fun _ => rfl, fun _ h => h, fun _ _ => rfl⟩

theorem Rewritten.trans {m'' : CampaignManager α} (h : Rewritten m m') (h' : Rewritten m' m'') :
    Rewritten m m'' where
  files := h'.files.trans h.files
  slots tile := (h'.slots tile).trans (h.slots tile)
  loaded tile := (h'.loaded tile).trans (h.loaded tile)
  modified tile hmodified := h'.modified tile (h.modified tile hmodified)
  kept tile hnot := (h'.kept tile hnot).trans (h.kept tile fun hmodified =>
    hnot (h'.modified tile hmodified))

theorem rewritten_of_brushed (h : Brushed m tile ter m') : Rewritten m m' where
  files := h.files
  slots := h.slots
  loaded tile' := by
    rw [isLoaded, isLoaded, h.terrain]
    obtain rfl | hne := eq_or_ne tile' tile
    · obtain ⟨old, hold⟩ := h.loaded
      rw [Function.update_self, hold]
      rfl
    · rw [Function.update_of_ne hne]
  modified tile' hmodified := (h.modified tile').2 (.inr hmodified)
  kept tile' hnot := by
    rw [h.terrain]
    exact Function.update_of_ne (fun heq => hnot ((h.modified tile').2 (.inl heq))) ..

/-- Setting tiles modified is all that the function does. -/
theorem foldl_setTileModified (tiles : List Tile) (m : CampaignManager α) :
    (∃ editedTiles, tiles.foldl setTileModified m = { m with editedTiles }) ∧
      ∀ tile, (tiles.foldl setTileModified m).isTileModified tile ↔
        tile ∈ tiles ∨ m.isTileModified tile := by
  induction tiles generalizing m with
  | nil => exact ⟨⟨_, rfl⟩, fun tile => by simp⟩
  | cons first tiles ih =>
    obtain ⟨⟨editedTiles, heq⟩, hmodified⟩ := ih (m.setTileModified first)
    refine ⟨⟨editedTiles, ?_⟩, fun tile => ?_⟩
    · rw [List.foldl_cons, heq]
      unfold setTileModified
      split <;> rfl
    · rw [List.foldl_cons, hmodified, isTileModified_setTileModified, List.mem_cons, or_assoc]
      exact or_left_comm

/-- The tiles in memory are written, after some of them were set modified. -/
theorem rewritten_of_written {tiles : List Tile} {f : Tile → α → α}
    (h : ∀ tile ter, tile ∉ tiles → ¬ m.isTileModified tile → m.terrain tile = some ter →
      f tile ter = ter) :
    Rewritten m { tiles.foldl setTileModified m with
      terrain := fun tile => (m.terrain tile).map (f tile) } := by
  obtain ⟨⟨editedTiles, heq⟩, hmodified⟩ := foldl_setTileModified tiles m
  refine ⟨by rw [heq], fun tile => by rw [heq]; rfl, fun tile => Option.isSome_map, ?_, ?_⟩
  · exact fun tile hmod => (hmodified tile).2 (.inr hmod)
  · intro tile hnot
    have hnot' : ¬ (tile ∈ tiles ∨ m.isTileModified tile) := fun hmod =>
      hnot ((hmodified tile).2 hmod)
    rw [not_or] at hnot'
    dsimp only
    cases hter : m.terrain tile with
    | none => rfl
    | some ter => rw [Option.map_some, h tile ter hnot'.1 hnot'.2 hter]

theorem Rewritten.define (h : Rewritten m m') (tile : Tile) :
    m'.define flat tile = m.define flat tile :=
  define_congr (h.slots tile) (congrFun h.files _) (congrFun h.files _)

theorem Fresh.rewritten (h : m.Fresh flat) (hm : Rewritten m m') : m'.Fresh flat where
  slot {tile ter} hter := by
    have hloaded := hm.loaded tile
    rw [isLoaded, isLoaded, hter] at hloaded
    obtain ⟨ter', hter'⟩ := Option.isSome_iff_exists.1 hloaded.symm
    rw [hm.slots]
    exact h.slot hter'
  unmodified {tile ter} hter hnot := by
    rw [hm.define]
    refine h.unmodified ((hm.kept tile hnot).symm.trans hter) fun hmodified => ?_
    exact hnot (hm.modified tile hmodified)

end CampaignManager

end NetSiege
