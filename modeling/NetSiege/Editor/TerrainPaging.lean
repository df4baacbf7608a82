import Mathlib.Logic.Function.Basic
import NetSiege.Lib.Run

/-!
# Terrain paging (`editableterrainpagedworldsection.cpp`, `campaignmanager.cpp`)

The editor keeps the tiles near the camera in memory. A tile that was edited is written to a
temporary file when it is paged out, and `save` makes the campaign's file from the tile or from that
file. Whether the temporary file is written is decided by a flag that says it was written before, so
an edit made after the tile came back is lost when the tile is paged out again
(`EditSession.edits_kept_iff`).
-/

namespace NetSiege

open Lib

/-- The slot of a tile. -/
structure Tile where
  x : Int
  y : Int
deriving DecidableEq

/-- `CampaignManager::edited_tile_t`. -/
structure EditedTile extends Tile where
  unpaged : Bool

/-- The files of the tiles. -/
inductive TilePath where
  | tileFilepath (tile : Tile)
  | tmpTileFilepath (tile : Tile)
deriving DecidableEq

/-- `CampaignManager`, with the contents of the tiles in memory and of the tiles' files. -/
structure CampaignManager (α : Type) where
  editedTiles : List EditedTile := []
  definedTerrainSlots : List Tile
  terrain : Tile → Option α := fun _ => none
  files : TilePath → Option α

namespace CampaignManager

variable {α : Type} {m : CampaignManager α} {tile tile' : Tile} {content : α}

/-- `CampaignManager::isTileModified`. -/
def isTileModified (m : CampaignManager α) (tile : Tile) : Bool :=
  m.editedTiles.any (·.toTile = tile)

/-- `CampaignManager::isTileUnpaged`. -/
def isTileUnpaged (m : CampaignManager α) (tile : Tile) : Bool :=
  match m.editedTiles.find? (·.toTile = tile) with
  | some it => it.unpaged
  | none => false

/-- `CampaignManager::setTileModified`. -/
def setTileModified (m : CampaignManager α) (tile : Tile) : CampaignManager α :=
  if m.isTileModified tile then m
  else { m with editedTiles := m.editedTiles ++ [{ tile with unpaged := false }] }

/-- `CampaignManager::setTileUnpaged`. -/
def setTileUnpaged (m : CampaignManager α) (tile : Tile) : CampaignManager α :=
  { m with editedTiles := m.editedTiles.map fun it =>
      if it.toTile = tile then { it with unpaged := true } else it }

/-- `CampaignManager::isSlotDefined`. -/
def isSlotDefined (m : CampaignManager α) (tile : Tile) : Bool :=
  m.definedTerrainSlots.contains tile

/-- What a tile is loaded from after `TerrainDefiner::define`; `flat` is the terrain of height 0. -/
def define (flat : α) (m : CampaignManager α) (tile : Tile) : Option α :=
  if m.isSlotDefined tile then
    match m.files (.tmpTileFilepath tile) with
    | some content => some content
    | none =>
      match m.files (.tileFilepath tile) with
      | some content => some content
      | none => some flat
  else none

/-- Page-in: `TerrainDefiner::define`, and the tile is loaded if it is not there. -/
def loadPage (flat : α) (m : CampaignManager α) (tile : Tile) : CampaignManager α :=
  match m.terrain tile with
  | some _ => m
  | none => { m with terrain := Function.update m.terrain tile (m.define flat tile) }

/-- `TerrainPagedWorldSection::unloadPage`. -/
def dropPage (m : CampaignManager α) (tile : Tile) : CampaignManager α :=
  { m with terrain := Function.update m.terrain tile none }

/-- `EditableTerrainPagedWorldSection::unloadPage`. -/
def unloadPage (m : CampaignManager α) (tile : Tile) (derivedDataUpdateInProgress : Bool) :
    CampaignManager α :=
  match m.terrain tile with
  | none => m.dropPage tile
  | some terrain =>
    if m.isTileModified tile && !m.isTileUnpaged tile then
      if derivedDataUpdateInProgress then m
      else
        let m := m.setTileUnpaged tile
        dropPage { m with
          files := Function.update m.files (.tmpTileFilepath tile) (some terrain) } tile
    else m.dropPage tile

/-- One turn of the loop of `CampaignManager::save`. -/
def saveTile (terrain : Tile → Option α) (files : TilePath → Option α) (edited : EditedTile) :
    TilePath → Option α :=
  let filePath := TilePath.tileFilepath edited.toTile
  let tmpFilePath := TilePath.tmpTileFilepath edited.toTile
  match terrain edited.toTile with
  | some ter => Function.update (Function.update files filePath (some ter)) tmpFilePath none
  | none =>
    match files tmpFilePath with
    | some content =>
      Function.update (Function.update files filePath (some content)) tmpFilePath none
    | none => files

/-- `CampaignManager::save`, when all terrain updates are done. -/
def save (m : CampaignManager α) : CampaignManager α :=
  { m with
    editedTiles := []
    files := m.editedTiles.foldl (saveTile m.terrain) m.files }

/-- A brush edits a tile, if it is loaded. -/
def applyBrush (m : CampaignManager α) (tile : Tile) (content : α) : CampaignManager α :=
  match m.terrain tile with
  | none => m
  | some _ =>
    let m := m.setTileModified tile
    { m with terrain := Function.update m.terrain tile (some content) }

/-! ## What the functions do -/

theorem isTileModified_iff : m.isTileModified tile ↔
    ∃ it, m.editedTiles.find? (·.toTile = tile) = some it := by
  rw [isTileModified, ← Option.isSome_iff_exists, List.find?_isSome, List.any_eq_true]

theorem isTileModified_setTileModified :
    (m.setTileModified tile).isTileModified tile' ↔ tile' = tile ∨ m.isTileModified tile' := by
  unfold setTileModified
  split
  · next h =>
    refine ⟨.inr, fun h' => ?_⟩
    rcases h' with rfl | h'
    · exact h
    · exact h'
  · simp only [isTileModified, List.any_append, List.any_cons, List.any_nil, Bool.or_false,
      Bool.or_eq_true, decide_eq_true_eq]
    rw [or_comm, eq_comm]

@[simp] theorem isTileUnpaged_setTileModified :
    (m.setTileModified tile).isTileUnpaged tile' = m.isTileUnpaged tile' := by
  unfold setTileModified
  split
  · rfl
  · simp only [isTileUnpaged, List.find?_append]
    cases h : m.editedTiles.find? (·.toTile = tile') with
    | some it => rfl
    | none =>
      rw [Option.none_or, List.find?_singleton]
      by_cases htile : tile = tile' <;> simp [htile]

theorem find?_setTileUnpaged : (m.setTileUnpaged tile).editedTiles.find? (·.toTile = tile') =
    (m.editedTiles.find? (·.toTile = tile')).map fun it =>
      if it.toTile = tile then { it with unpaged := true } else it := by
  rw [setTileUnpaged, List.find?_map]
  congr
  funext it
  simp only [Function.comp]
  split <;> rfl

@[simp] theorem isTileModified_setTileUnpaged :
    (m.setTileUnpaged tile).isTileModified tile' ↔ m.isTileModified tile' := by
  simp only [isTileModified_iff, find?_setTileUnpaged, Option.map_eq_some_iff]
  exact ⟨fun ⟨_, it, h, _⟩ => ⟨it, h⟩, fun ⟨it, h⟩ => ⟨_, it, h, rfl⟩⟩

theorem isTileUnpaged_setTileUnpaged : (m.setTileUnpaged tile).isTileUnpaged tile' =
    if tile' = tile then m.isTileModified tile' else m.isTileUnpaged tile' := by
  simp only [isTileUnpaged, find?_setTileUnpaged]
  cases h : m.editedTiles.find? (·.toTile = tile') with
  | none =>
    have hnot : m.isTileModified tile' = false := by
      rw [Bool.eq_false_iff, ne_eq, isTileModified_iff, h]
      nofun
    simp [hnot]
  | some it =>
    have hit : it.toTile = tile' := by simpa using List.find?_some h
    have hmodified : m.isTileModified tile' := isTileModified_iff.2 ⟨it, h⟩
    rw [Option.map_some, hit, hmodified]
    by_cases htile : tile' = tile <;> simp [htile]

/-! ## What `save` does to the files -/

section
variable {terrain : Tile → Option α} {files : TilePath → Option α} {edited : EditedTile}

/-- What `save` can write: the tile in memory, or else its temporary file. -/
def toSave (terrain : Tile → Option α) (files : TilePath → Option α) (tile : Tile) : Option α :=
  match terrain tile with
  | some ter => some ter
  | none => files (.tmpTileFilepath tile)

/-- A tile is saved with a content. -/
structure Saved (terrain : Tile → Option α) (tile : Tile) (content : α)
    (files : TilePath → Option α) : Prop where
  file : files (.tileFilepath tile) = some content
  tmp : files (.tmpTileFilepath tile) = none
  memory : ∀ ter, terrain tile = some ter → ter = content

theorem saveTile_none (h : toSave terrain files edited.toTile = none) :
    saveTile terrain files edited = files := by
  unfold toSave at h
  split at h
  · cases h
  · next hter => simp only [saveTile, hter, h]

theorem saveTile_some (h : toSave terrain files edited.toTile = some content) :
    saveTile terrain files edited =
      Function.update (Function.update files (.tileFilepath edited.toTile) (some content))
        (.tmpTileFilepath edited.toTile) none := by
  unfold toSave at h
  split at h
  · next hter =>
    cases h
    simp only [saveTile, hter]
  · next hter => simp only [saveTile, hter, h]

theorem saveTile_other (h : tile ≠ edited.toTile) :
    saveTile terrain files edited (.tileFilepath tile) = files (.tileFilepath tile) ∧
      saveTile terrain files edited (.tmpTileFilepath tile) = files (.tmpTileFilepath tile) := by
  cases hsave : toSave terrain files edited.toTile with
  | none =>
    rw [saveTile_none hsave]
    exact ⟨rfl, rfl⟩
  | some content =>
    rw [saveTile_some hsave]
    simp [h]

theorem saved_saveTile (h : toSave terrain files edited.toTile = some content) :
    Saved terrain edited.toTile content (saveTile terrain files edited) := by
  rw [saveTile_some h]
  refine ⟨by simp, by simp, fun ter hter => ?_⟩
  rw [toSave, hter] at h
  exact Option.some.inj h

/-- A saved tile that is met again stays saved. -/
theorem Saved.saveTile (h : Saved terrain tile content files) (edited : EditedTile) :
    Saved terrain tile content (saveTile terrain files edited) := by
  by_cases htile : tile = edited.toTile
  · subst htile
    cases hter : terrain edited.toTile with
    | some ter =>
      cases h.memory ter hter
      exact saved_saveTile (by rw [toSave, hter])
    | none =>
      rw [saveTile_none (by rw [toSave, hter, h.tmp])]
      exact h
  · exact ⟨(saveTile_other htile).1.trans h.file, (saveTile_other htile).2.trans h.tmp, h.memory⟩

theorem Saved.foldl_saveTile (h : Saved terrain tile content files) (l : List EditedTile) :
    Saved terrain tile content (l.foldl (CampaignManager.saveTile terrain) files) := by
  induction l generalizing files with
  | nil => exact h
  | cons edited l ih => exact ih (h.saveTile edited)

theorem foldl_saveTile_self {l : List EditedTile} (hmem : ∃ it ∈ l, it.toTile = tile)
    (h : toSave terrain files tile = some content) :
    Saved terrain tile content (l.foldl (CampaignManager.saveTile terrain) files) := by
  induction l generalizing files with
  | nil =>
    obtain ⟨_, hit, _⟩ := hmem
    cases hit
  | cons edited l ih =>
    rw [List.foldl_cons]
    by_cases htile : tile = edited.toTile
    · subst htile
      exact (saved_saveTile h).foldl_saveTile l
    · refine ih ?_ ?_
      · obtain ⟨it, hit, hself⟩ := hmem
        rcases List.mem_cons.1 hit with rfl | hit
        · exact absurd hself.symm htile
        · exact ⟨it, hit, hself⟩
      · rw [toSave, (saveTile_other htile).2]
        exact h

theorem foldl_saveTile_other {l : List EditedTile} (hmem : ∀ it ∈ l, it.toTile ≠ tile) :
    l.foldl (CampaignManager.saveTile terrain) files (.tileFilepath tile) =
        files (.tileFilepath tile) ∧
      l.foldl (CampaignManager.saveTile terrain) files (.tmpTileFilepath tile) =
        files (.tmpTileFilepath tile) := by
  induction l generalizing files with
  | nil => exact ⟨rfl, rfl⟩
  | cons edited l ih =>
    rw [List.foldl_cons]
    have hrest : ∀ it ∈ l, it.toTile ≠ tile := fun it hit => hmem it (List.mem_cons_of_mem _ hit)
    have hself : tile ≠ edited.toTile := (hmem edited List.mem_cons_self).symm
    rw [(ih hrest).1, (ih hrest).2]
    exact saveTile_other hself

end

/-! ## The cases of the page operations -/

/-- What the brush does to a tile in memory. -/
structure Brushed (m : CampaignManager α) (tile : Tile) (content : α) (m' : CampaignManager α) :
    Prop where
  loaded : ∃ ter, m.terrain tile = some ter
  terrain : m'.terrain = Function.update m.terrain tile (some content)
  files : m'.files = m.files
  slots : ∀ tile', m'.isSlotDefined tile' = m.isSlotDefined tile'
  modified : ∀ tile', m'.isTileModified tile' ↔ tile' = tile ∨ m.isTileModified tile'
  unpaged : ∀ tile', m'.isTileUnpaged tile' = m.isTileUnpaged tile'

theorem applyBrush_cases (m : CampaignManager α) (tile : Tile) (content : α) :
    m.terrain tile = none ∧ m.applyBrush tile content = m ∨
      Brushed m tile content (m.applyBrush tile content) := by
  unfold applyBrush
  split
  · next hter => exact .inl ⟨hter, rfl⟩
  · next ter hter =>
    have hkept : ∃ editedTiles, m.setTileModified tile = { m with editedTiles } := by
      unfold setTileModified
      split
      · exact ⟨_, rfl⟩
      · exact ⟨_, rfl⟩
    obtain ⟨editedTiles, heq⟩ := hkept
    refine .inr ⟨⟨ter, hter⟩, ?_, ?_, fun tile' => ?_, fun _ => isTileModified_setTileModified,
      fun _ => isTileUnpaged_setTileModified⟩
    · rw [heq]
    · rw [heq]
    · rw [heq]
      rfl

/-- What a page-out does. -/
inductive UnloadCases (m : CampaignManager α) (tile : Tile) : CampaignManager α → Prop
  | held : UnloadCases m tile m
  | stored {ter : α} (hter : m.terrain tile = some ter) (hmodified : m.isTileModified tile) :
      UnloadCases m tile (dropPage { m.setTileUnpaged tile with
        files := Function.update m.files (.tmpTileFilepath tile) (some ter) } tile)
  | dropped (h : ∀ {ter}, m.terrain tile = some ter → m.isTileModified tile →
      m.isTileUnpaged tile) : UnloadCases m tile (m.dropPage tile)

theorem unloadPage_cases (m : CampaignManager α) (tile : Tile) (inProgress : Bool) :
    UnloadCases m tile (m.unloadPage tile inProgress) := by
  unfold unloadPage
  split
  · next hnone => exact .dropped fun hter => nomatch hter.symm.trans hnone
  · next ter hter =>
    split
    · next h =>
      split
      · exact .held
      · exact .stored hter (Bool.and_eq_true_iff.1 h).1
    · next h => exact .dropped fun _ hmodified => by simpa [hmodified] using h

theorem loadPage_cases (flat : α) (m : CampaignManager α) (tile : Tile) :
    (∃ ter, m.terrain tile = some ter) ∧ m.loadPage flat tile = m ∨
      m.terrain tile = none ∧ m.loadPage flat tile =
        { m with terrain := Function.update m.terrain tile (m.define flat tile) } := by
  unfold loadPage
  split
  · next ter hter => exact .inl ⟨⟨ter, hter⟩, rfl⟩
  · next hter => exact .inr ⟨hter, rfl⟩

theorem isTileModified_of_isTileUnpaged (h : m.isTileUnpaged tile) : m.isTileModified tile := by
  unfold isTileUnpaged at h
  split at h
  · next it hit => exact isTileModified_iff.2 ⟨it, hit⟩
  · cases h

theorem isSlotDefined_of_define {flat : α} (h : m.define flat tile = some content) :
    m.isSlotDefined tile := by
  unfold define at h
  split at h
  · assumption
  · cases h

/-- The temporary file comes first. -/
theorem define_of_tmp {flat : α} (hslot : m.isSlotDefined tile)
    (h : m.files (.tmpTileFilepath tile) = some content) : m.define flat tile = some content := by
  simp only [define, hslot, if_true, h]

theorem define_of_file {flat : α} (hslot : m.isSlotDefined tile)
    (htmp : m.files (.tmpTileFilepath tile) = none)
    (h : m.files (.tileFilepath tile) = some content) : m.define flat tile = some content := by
  simp only [define, hslot, if_true, htmp, h]

end CampaignManager

/-! ## Sessions -/

/-- What happens in the editor. The terrain has a derived data update in progress or not. -/
inductive EditorEvent (α : Type) where
  | applyBrush (tile : Tile) (content : α)
  | unloadPage (tile : Tile) (derivedDataUpdateInProgress : Bool)
  | loadPage (tile : Tile)
  | save

/-- A campaign, and the content that the last edit of each tile left. -/
structure EditSession (α : Type) where
  campaign : CampaignManager α
  lastEdit : Tile → Option α := fun _ => none

namespace EditSession

variable {α : Type} {flat : α} {s : EditSession α} {tile : Tile} {content : α}

/-- The session after an event. -/
def next (flat : α) (s : EditSession α) : EditorEvent α → EditSession α
  | .applyBrush tile content =>
    { campaign := s.campaign.applyBrush tile content
      lastEdit := match s.campaign.terrain tile with
        | none => s.lastEdit
        | some _ => Function.update s.lastEdit tile (some content) }
  | .unloadPage tile inProgress =>
    { s with campaign := s.campaign.unloadPage tile inProgress }
  | .loadPage tile => { s with campaign := s.campaign.loadPage flat tile }
  | .save => { s with campaign := s.campaign.save }

/-- The session as a machine; no event ends it. -/
def step (flat : α) (s : EditSession α) (event : EditorEvent α) : Option (EditSession α) :=
  some (s.next flat event)

/-- A tile that is paged in is as its last edit left it, and so is its file when it is saved. -/
def KeepsEdits (flat : α) (s : EditSession α) (event : EditorEvent α) : Prop :=
  let s' := s.next flat event
  match event with
  | .loadPage tile => ∀ content, s'.lastEdit tile = some content →
      s'.campaign.terrain tile = some content
  | .save => ∀ tile content, s'.lastEdit tile = some content →
      s'.campaign.files (.tileFilepath tile) = some content
  | _ => True

/-- No tile is paged out that is flagged as unpaged and differs from its temporary file. -/
def NoneStale (s : EditSession α) : EditorEvent α → Prop
  | .unloadPage tile _ => s.campaign.isTileUnpaged tile →
      ∀ ter, s.campaign.terrain tile = some ter →
        s.campaign.files (.tmpTileFilepath tile) = some ter
  | _ => True

/-- Where the last edits are: in memory; in the temporary file of a modified tile that is paged out;
in the file of a tile that is saved. -/
structure Kept (s : EditSession α) : Prop where
  slot : ∀ {tile ter}, s.campaign.terrain tile = some ter → s.campaign.isSlotDefined tile
  editedSlot : ∀ {tile content}, s.lastEdit tile = some content → s.campaign.isSlotDefined tile
  edited : ∀ {tile}, s.campaign.isTileModified tile → ∃ content, s.lastEdit tile = some content
  memory : ∀ {tile content ter}, s.lastEdit tile = some content →
    s.campaign.terrain tile = some ter → ter = content
  pagedOut : ∀ {tile content}, s.lastEdit tile = some content → s.campaign.isTileModified tile →
    s.campaign.terrain tile = none → s.campaign.files (.tmpTileFilepath tile) = some content
  saved : ∀ {tile content}, s.lastEdit tile = some content → ¬ s.campaign.isTileModified tile →
    s.campaign.files (.tileFilepath tile) = some content ∧
      s.campaign.files (.tmpTileFilepath tile) = none
  unpaged : ∀ {tile}, s.campaign.isTileUnpaged tile →
    ∃ old, s.campaign.files (.tmpTileFilepath tile) = some old

/-- A tile that is paged in comes from where its last edit is. -/
theorem Kept.define (h : s.Kept) (hlast : s.lastEdit tile = some content)
    (hter : s.campaign.terrain tile = none) : s.campaign.define flat tile = some content := by
  by_cases hmodified : s.campaign.isTileModified tile
  · exact CampaignManager.define_of_tmp (h.editedSlot hlast) (h.pagedOut hlast hmodified hter)
  · obtain ⟨hfile, htmp⟩ := h.saved hlast hmodified
    exact CampaignManager.define_of_file (h.editedSlot hlast) htmp hfile

theorem Kept.save_files (h : s.Kept) (hlast : s.lastEdit tile = some content) :
    s.campaign.save.files (.tileFilepath tile) = some content ∧
      s.campaign.save.files (.tmpTileFilepath tile) = none := by
  by_cases hmodified : s.campaign.isTileModified tile
  · have hsave : CampaignManager.toSave s.campaign.terrain s.campaign.files tile =
        some content := by
      unfold CampaignManager.toSave
      split
      · next ter hter => rw [h.memory hlast hter]
      · next hter => exact h.pagedOut hlast hmodified hter
    obtain ⟨it, hit, htile⟩ := List.any_eq_true.1 hmodified
    have hsaved := CampaignManager.foldl_saveTile_self ⟨it, hit, of_decide_eq_true htile⟩ hsave
    exact ⟨hsaved.file, hsaved.tmp⟩
  · have hother : ∀ it ∈ s.campaign.editedTiles, it.toTile ≠ tile := fun it hit htile =>
      hmodified (List.any_eq_true.2 ⟨it, hit, decide_eq_true htile⟩)
    obtain ⟨hfile, htmp⟩ := h.saved hlast hmodified
    exact ⟨(CampaignManager.foldl_saveTile_other hother).1.trans hfile,
      (CampaignManager.foldl_saveTile_other hother).2.trans htmp⟩

theorem Kept.keepsEdits (h : s.Kept) (event : EditorEvent α) : s.KeepsEdits flat event := by
  cases event with
  | applyBrush => trivial
  | unloadPage => trivial
  | loadPage tile =>
    intro content hlast
    simp only [next]
    rcases CampaignManager.loadPage_cases flat s.campaign tile with ⟨⟨ter, hter⟩, heq⟩ | ⟨hter, heq⟩
    · rw [heq, hter, h.memory hlast hter]
    · rw [heq, ← h.define hlast hter]
      exact Function.update_self ..
  | save => exact fun tile content hlast => (h.save_files hlast).1

/-! ## What the events preserve -/

theorem update_eq_some {f : Tile → Option α} {v : Option α} {tile' : Tile} :
    Function.update f tile v tile' = some content ↔
      tile' = tile ∧ v = some content ∨ tile' ≠ tile ∧ f tile' = some content := by
  rw [Function.update_apply]
  split
  · next heq => simp [heq]
  · next hne => simp [hne]

theorem of_update_none {f : Tile → Option α} {tile' : Tile}
    (h : Function.update f tile none tile' = some content) : f tile' = some content := by
  rcases update_eq_some.1 h with ⟨_, h⟩ | ⟨_, h⟩
  · cases h
  · exact h

theorem Kept.applyBrush (h : s.Kept) (tile : Tile) (content : α) :
    (s.next flat (.applyBrush tile content)).Kept := by
  rcases s.campaign.applyBrush_cases tile content with ⟨hter, heq⟩ | hbrushed
  · have hsame : s.next flat (.applyBrush tile content) = s := by
      simp only [next, heq, hter]
    rw [hsame]
    exact h
  · obtain ⟨ter, hter⟩ := hbrushed.loaded
    have hlast : (s.next flat (.applyBrush tile content)).lastEdit =
        Function.update s.lastEdit tile (some content) := by
      simp only [next, hter]
    exact {
      slot := fun {tile' ter'} hter' => by
        rw [next, hbrushed.terrain, update_eq_some] at hter'
        rw [next, hbrushed.slots]
        rcases hter' with ⟨rfl, _⟩ | ⟨_, hter'⟩
        · exact h.slot hter
        · exact h.slot hter'
      editedSlot := fun {tile' content'} hlast' => by
        rw [hlast, update_eq_some] at hlast'
        rw [next, hbrushed.slots]
        rcases hlast' with ⟨rfl, _⟩ | ⟨_, hlast'⟩
        · exact h.slot hter
        · exact h.editedSlot hlast'
      edited := fun {tile'} hmodified => by
        rw [next, hbrushed.modified] at hmodified
        by_cases htile : tile' = tile
        · exact ⟨content, by rw [hlast, htile, Function.update_self]⟩
        · rw [hlast, Function.update_of_ne htile]
          exact h.edited (hmodified.resolve_left htile)
      memory := fun {tile' content' ter'} hlast' hter' => by
        rw [hlast, update_eq_some] at hlast'
        rw [next, hbrushed.terrain, update_eq_some] at hter'
        rcases hlast' with ⟨rfl, hlast'⟩ | ⟨hne, hlast'⟩
        · rcases hter' with ⟨_, hter'⟩ | ⟨hne, _⟩
          · exact Option.some.inj (hter'.symm.trans hlast')
          · exact absurd rfl hne
        · rcases hter' with ⟨heq, _⟩ | ⟨_, hter'⟩
          · exact absurd heq hne
          · exact h.memory hlast' hter'
      pagedOut := fun {tile' content'} hlast' hmodified hnone => by
        rw [next, hbrushed.terrain, Function.update_apply] at hnone
        rw [next, hbrushed.modified] at hmodified
        rw [hlast, update_eq_some] at hlast'
        rw [next, hbrushed.files]
        split at hnone
        · cases hnone
        · next hne =>
          rcases hlast' with ⟨heq, _⟩ | ⟨_, hlast'⟩
          · exact absurd heq hne
          · exact h.pagedOut hlast' (hmodified.resolve_left hne) hnone
      saved := fun {tile' content'} hlast' hmodified => by
        rw [next, hbrushed.modified, not_or] at hmodified
        rw [hlast, update_eq_some] at hlast'
        rw [next, hbrushed.files]
        rcases hlast' with ⟨heq, _⟩ | ⟨_, hlast'⟩
        · exact absurd heq hmodified.1
        · exact h.saved hlast' hmodified.2
      unpaged := fun {tile'} hunpaged => by
        rw [next, hbrushed.unpaged] at hunpaged
        rw [next, hbrushed.files]
        exact h.unpaged hunpaged }

/-- A page-out that writes the temporary file. -/
theorem Kept.stored (h : s.Kept) {ter : α} (hter : s.campaign.terrain tile = some ter)
    (hmodified : s.campaign.isTileModified tile) :
    Kept { s with campaign := CampaignManager.dropPage { s.campaign.setTileUnpaged tile with
      files := Function.update s.campaign.files (.tmpTileFilepath tile) (some ter) } tile } := by
  have htmp : ∀ {tile'}, tile' ≠ tile →
      Function.update s.campaign.files (.tmpTileFilepath tile) (some ter)
        (.tmpTileFilepath tile') = s.campaign.files (.tmpTileFilepath tile') := fun hne =>
    Function.update_of_ne (fun heq => hne (TilePath.tmpTileFilepath.inj heq)) ..
  have hfile : ∀ {tile'}, Function.update s.campaign.files (.tmpTileFilepath tile) (some ter)
      (.tileFilepath tile') = s.campaign.files (.tileFilepath tile') := fun {tile'} => by
    have hne : TilePath.tileFilepath tile' ≠ .tmpTileFilepath tile := nofun
    exact Function.update_of_ne hne ..
  exact {
    slot := fun hter' => h.slot (of_update_none hter')
    editedSlot := h.editedSlot
    edited := fun hmodified => h.edited (CampaignManager.isTileModified_setTileUnpaged.1 hmodified)
    memory := fun hlast hter' => h.memory hlast (of_update_none hter')
    pagedOut := fun {tile' _} hlast hmodified' hnone => by
      by_cases htile : tile' = tile
      · subst htile
        rw [← h.memory hlast hter]
        exact Function.update_self ..
      · have hnone' := (Function.update_of_ne htile ..).symm.trans hnone
        have hmodified' := CampaignManager.isTileModified_setTileUnpaged.1 hmodified'
        exact (htmp htile).trans (h.pagedOut hlast hmodified' hnone')
    saved := fun {tile' _} hlast hnot => by
      have hnot' : ¬ s.campaign.isTileModified tile' := fun hmodified' =>
        hnot (CampaignManager.isTileModified_setTileUnpaged.2 hmodified')
      have htile : tile' ≠ tile := fun heq => hnot' (heq ▸ hmodified)
      obtain ⟨hsaved, hnone⟩ := h.saved hlast hnot'
      exact ⟨hfile.trans hsaved, (htmp htile).trans hnone⟩
    unpaged := fun {tile'} hunpaged => by
      by_cases htile : tile' = tile
      · subst htile
        exact ⟨ter, Function.update_self ..⟩
      · have hunpaged' := CampaignManager.isTileUnpaged_setTileUnpaged.symm.trans hunpaged
        rw [if_neg htile] at hunpaged'
        obtain ⟨old, hold⟩ := h.unpaged hunpaged'
        exact ⟨old, (htmp htile).trans hold⟩ }

/-- A page-out of a tile whose temporary file, if it is modified, is up to date. -/
theorem Kept.dropped (h : s.Kept)
    (hstored : ∀ ter, s.campaign.terrain tile = some ter → s.campaign.isTileModified tile →
      s.campaign.files (.tmpTileFilepath tile) = some ter) :
    Kept { s with campaign := s.campaign.dropPage tile } where
  slot hter' := h.slot (of_update_none hter')
  editedSlot := h.editedSlot
  edited := h.edited
  memory hlast hter' := h.memory hlast (of_update_none hter')
  pagedOut {tile' _} hlast hmodified hnone := by
    by_cases htile : tile' = tile
    · subst htile
      cases hter : s.campaign.terrain tile' with
      | none => exact h.pagedOut hlast hmodified hter
      | some ter =>
        rw [← h.memory hlast hter]
        exact hstored ter hter hmodified
    · exact h.pagedOut hlast hmodified ((Function.update_of_ne htile ..).symm.trans hnone)
  saved := h.saved
  unpaged := h.unpaged

theorem Kept.unloadPage (h : s.Kept) {inProgress : Bool}
    (hstale : s.NoneStale (.unloadPage tile inProgress)) :
    (s.next flat (.unloadPage tile inProgress)).Kept := by
  simp only [next]
  have hcases := s.campaign.unloadPage_cases tile inProgress
  generalize s.campaign.unloadPage tile inProgress = m' at hcases ⊢
  cases hcases with
  | held => exact h
  | stored hter hmodified => exact h.stored hter hmodified
  | dropped hdropped =>
    exact h.dropped fun ter hter hmodified => hstale (hdropped hter hmodified) ter hter

theorem Kept.loadPage (h : s.Kept) (tile : Tile) : (s.next flat (.loadPage tile)).Kept := by
  simp only [next]
  rcases CampaignManager.loadPage_cases flat s.campaign tile with ⟨-, heq⟩ | ⟨hter, heq⟩
  · rw [heq]
    exact h
  · rw [heq]
    exact {
      slot := fun {tile' ter'} hter' => by
        rcases update_eq_some.1 hter' with ⟨rfl, hdefine⟩ | ⟨_, hter'⟩
        · exact CampaignManager.isSlotDefined_of_define hdefine
        · exact h.slot hter'
      editedSlot := h.editedSlot
      edited := h.edited
      memory := fun {tile' content' ter'} hlast hter' => by
        rcases update_eq_some.1 hter' with ⟨rfl, hdefine⟩ | ⟨_, hter'⟩
        · rw [h.define hlast hter] at hdefine
          exact (Option.some.inj hdefine).symm
        · exact h.memory hlast hter'
      pagedOut := fun {tile' content'} hlast hmodified hnone => by
        by_cases htile : tile' = tile
        · subst htile
          exact h.pagedOut hlast hmodified hter
        · exact h.pagedOut hlast hmodified ((Function.update_of_ne htile ..).symm.trans hnone)
      saved := h.saved
      unpaged := h.unpaged }

theorem Kept.save (h : s.Kept) : (s.next flat .save).Kept where
  slot := h.slot
  editedSlot := h.editedSlot
  edited hmodified := nomatch hmodified
  memory := h.memory
  pagedOut _ hmodified := nomatch hmodified
  saved hlast _ := h.save_files hlast
  unpaged hunpaged := nomatch hunpaged

/-- Events that page out no stale tile keep the last edits. -/
theorem Kept.next (h : s.Kept) {event : EditorEvent α} (hstale : s.NoneStale event) :
    (s.next flat event).Kept := by
  cases event with
  | applyBrush tile content => exact h.applyBrush tile content
  | unloadPage tile inProgress => exact h.unloadPage hstale
  | loadPage tile => exact h.loadPage tile
  | save => exact h.save

/-! ## Lost edits -/

/-- A modified tile is paged out, and its temporary file is not as the last edit left it. -/
structure Lost (s : EditSession α) (tile : Tile) : Prop where
  unloaded : s.campaign.terrain tile = none
  modified : s.campaign.isTileModified tile
  slot : s.campaign.isSlotDefined tile
  stale : ∃ content old, s.lastEdit tile = some content ∧
    s.campaign.files (.tmpTileFilepath tile) = some old ∧ old ≠ content

/-- A page-out of a stale tile loses its last edit. -/
theorem lost_of_not_noneStale (flat : α) (h : s.Kept) {event : EditorEvent α}
    (hnot : ¬ s.NoneStale event) :
    ∃ tile, (s.next flat event).Lost tile := by
  cases event with
  | applyBrush => exact absurd trivial hnot
  | loadPage => exact absurd trivial hnot
  | save => exact absurd trivial hnot
  | unloadPage tile inProgress =>
    simp only [NoneStale, Classical.not_imp, not_forall] at hnot
    obtain ⟨hunpaged, ter, hter, hstale⟩ := hnot
    have hmodified := CampaignManager.isTileModified_of_isTileUnpaged hunpaged
    obtain ⟨content, hlast⟩ := h.edited hmodified
    obtain ⟨old, hold⟩ := h.unpaged hunpaged
    have hdrop : s.campaign.unloadPage tile inProgress = s.campaign.dropPage tile := by
      simp only [CampaignManager.unloadPage, hter, hunpaged, Bool.not_true, Bool.and_false,
        Bool.false_eq_true, if_false]
    refine ⟨tile, ?_⟩
    rw [next, hdrop]
    exact {
      unloaded := Function.update_self ..
      modified := hmodified
      slot := h.slot hter
      stale := by
        refine ⟨content, old, hlast, hold, fun heq => hstale ?_⟩
        rw [h.memory hlast hter, ← heq]
        exact hold }

theorem Lost.not_keepsEdits (h : s.Lost tile) : ¬ s.KeepsEdits flat (.loadPage tile) := by
  intro hkeeps
  obtain ⟨content, old, hlast, hold, hne⟩ := h.stale
  have hloaded := hkeeps content hlast
  simp only [next, CampaignManager.loadPage, h.unloaded, Function.update_self,
    CampaignManager.define_of_tmp h.slot hold] at hloaded
  exact hne (Option.some.inj hloaded)

/-- Other tiles than the one that is lost are in memory. -/
theorem Lost.ne_of_loaded (h : s.Lost tile) {tile' : Tile} {ter : α}
    (hter : s.campaign.terrain tile' = some ter) : tile ≠ tile' := by
  intro heq
  rw [← heq, h.unloaded] at hter
  cases hter

theorem Lost.applyBrush (h : s.Lost tile) (tile' : Tile) (content : α) :
    (s.next flat (.applyBrush tile' content)).Lost tile := by
  rcases s.campaign.applyBrush_cases tile' content with ⟨hter, heq⟩ | hbrushed
  · simp only [next, heq, hter]
    exact h
  · obtain ⟨ter, hter⟩ := hbrushed.loaded
    have htile := h.ne_of_loaded hter
    obtain ⟨last, old, hlast, hold, hne⟩ := h.stale
    simp only [next, hter]
    exact {
      unloaded := by
        rw [hbrushed.terrain, Function.update_of_ne htile]
        exact h.unloaded
      modified := (hbrushed.modified tile).2 (.inr h.modified)
      slot := (hbrushed.slots tile).trans h.slot
      stale := by
        refine ⟨last, old, ?_, by rw [hbrushed.files, hold], hne⟩
        exact (Function.update_of_ne htile ..).trans hlast }

theorem Lost.unloadPage (h : s.Lost tile) (tile' : Tile) (inProgress : Bool) :
    (s.next flat (.unloadPage tile' inProgress)).Lost tile := by
  simp only [next]
  have hunloaded : Function.update s.campaign.terrain tile' none tile = none := by
    rw [Function.update_apply, h.unloaded, ite_self]
  have hcases := s.campaign.unloadPage_cases tile' inProgress
  generalize s.campaign.unloadPage tile' inProgress = m' at hcases ⊢
  cases hcases with
  | held => exact h
  | stored hter =>
    obtain ⟨last, old, hlast, hold, hne⟩ := h.stale
    have hpath : TilePath.tmpTileFilepath tile ≠ .tmpTileFilepath tile' := fun heq =>
      h.ne_of_loaded hter (TilePath.tmpTileFilepath.inj heq)
    exact {
      unloaded := hunloaded
      modified := CampaignManager.isTileModified_setTileUnpaged.2 h.modified
      slot := h.slot
      stale := ⟨last, old, hlast, (Function.update_of_ne hpath ..).trans hold, hne⟩ }
  | dropped => exact ⟨hunloaded, h.modified, h.slot, h.stale⟩

theorem Lost.loadPage (h : s.Lost tile) {tile' : Tile} (htile : tile ≠ tile') :
    (s.next flat (.loadPage tile')).Lost tile := by
  simp only [next]
  rcases CampaignManager.loadPage_cases flat s.campaign tile' with ⟨-, heq⟩ | ⟨-, heq⟩
  · rw [heq]
    exact h
  · rw [heq]
    exact ⟨(Function.update_of_ne htile ..).trans h.unloaded, h.modified, h.slot, h.stale⟩

/-- `save` makes the stale temporary file the campaign's. -/
theorem Lost.not_keepsEdits_save (h : s.Lost tile) : ¬ s.KeepsEdits flat .save := by
  intro hkeeps
  obtain ⟨content, old, hlast, hold, hne⟩ := h.stale
  have hsave : CampaignManager.toSave s.campaign.terrain s.campaign.files tile = some old := by
    rw [CampaignManager.toSave, h.unloaded]
    exact hold
  obtain ⟨it, hit, htile⟩ := List.any_eq_true.1 h.modified
  have hsaved := CampaignManager.foldl_saveTile_self ⟨it, hit, of_decide_eq_true htile⟩ hsave
  exact hne (Option.some.inj (hsaved.file.symm.trans (hkeeps tile content hlast)))

/-- A lost edit stays lost, unless a page-in or `save` brings the wrong content to light. -/
theorem Lost.next (h : s.Lost tile) {event : EditorEvent α} (hkeeps : s.KeepsEdits flat event) :
    (s.next flat event).Lost tile := by
  cases event with
  | applyBrush tile' content => exact h.applyBrush tile' content
  | unloadPage tile' inProgress => exact h.unloadPage tile' inProgress
  | loadPage tile' => exact h.loadPage fun heq => h.not_keepsEdits (heq ▸ hkeeps)
  | save => exact absurd hkeeps h.not_keepsEdits_save

/-! ## Runs -/

/-- A campaign is opened. -/
def opened (definedTerrainSlots : List Tile) (files : TilePath → Option α) : EditSession α where
  campaign := { definedTerrainSlots, files }

theorem kept_opened (definedTerrainSlots : List Tile) (files : TilePath → Option α) :
    (opened definedTerrainSlots files).Kept where
  slot := nofun
  editedSlot := nofun
  edited := nofun
  memory := nofun
  pagedOut := nofun
  saved := nofun
  unpaged := nofun

theorem not_along_of_lost {events : List (EditorEvent α)} (h : s.Lost tile) :
    ¬ Along (step flat) (KeepsEdits flat) s (events ++ [.loadPage tile]) := by
  induction events generalizing s with
  | nil => exact fun hkeeps => h.not_keepsEdits hkeeps.1
  | cons event events ih => exact fun hkeeps => ih (h.next hkeeps.1) (hkeeps.2 _ rfl)

/-- If every tile comes back as its last edit left it, no page-out of the run met a stale one. -/
theorem along_noneStale {events : List (EditorEvent α)} (h : s.Kept)
    (hkeeps : ∀ tile, Along (step flat) (KeepsEdits flat) s (events ++ [.loadPage tile])) :
    Along (step flat) NoneStale s events := by
  induction events generalizing s with
  | nil => trivial
  | cons event events ih =>
    have hstale : s.NoneStale event := by
      by_contra hnot
      obtain ⟨tile, hlost⟩ := lost_of_not_noneStale flat h hnot
      exact not_along_of_lost hlost ((hkeeps tile).2 _ rfl)
    refine ⟨hstale, fun s' hs' => ?_⟩
    cases hs'
    exact ih (h.next hstale) fun tile => (hkeeps tile).2 _ rfl

theorem along_noneStale_append {events : List (EditorEvent α)} (tile : Tile)
    (h : Along (step flat) NoneStale s events) :
    Along (step flat) NoneStale s (events ++ [.loadPage tile]) := by
  induction events generalizing s with
  | nil => exact ⟨trivial, fun _ _ => trivial⟩
  | cons event events ih => exact ⟨h.1, fun s' hs' => ih (h.2 s' hs')⟩

/-- **Terrain edits.** In a run, and whichever tile is paged in after it, each page-in and each
`save` brings the tiles as their last edits left them, if and only if no tile is paged out that is
flagged as unpaged and differs from its temporary file. -/
theorem edits_kept_iff (flat : α) (definedTerrainSlots : List Tile) (files : TilePath → Option α)
    (events : List (EditorEvent α)) :
    (∀ tile, Along (step flat) (KeepsEdits flat) (opened definedTerrainSlots files)
      (events ++ [.loadPage tile])) ↔
      Along (step flat) NoneStale (opened definedTerrainSlots files) events := by
  have hopened := kept_opened definedTerrainSlots files
  refine ⟨along_noneStale hopened, fun h tile => ?_⟩
  refine (along_noneStale_append tile h).imp_of_invariant Kept ?_
    (fun s event hkept _ => hkept.keepsEdits event) hopened
  intro s event s' hkept hstale hs'
  cases hs'
  exact hkept.next hstale

/-- A tile is edited, paged out and in, edited again, and paged out and in once more: it is as the
first edit left it. -/
theorem edits_not_kept_twice : ¬ Along (step 0) (KeepsEdits 0) (opened [⟨0, 0⟩] fun _ => none)
    [.loadPage ⟨0, 0⟩, .applyBrush ⟨0, 0⟩ 1, .unloadPage ⟨0, 0⟩ false, .loadPage ⟨0, 0⟩,
      .applyBrush ⟨0, 0⟩ 2, .unloadPage ⟨0, 0⟩ false, .loadPage ⟨0, 0⟩] := by
  intro h
  have hlast := along_iff_forall_split.1 h
    [.loadPage ⟨0, 0⟩, .applyBrush ⟨0, 0⟩ 1, .unloadPage ⟨0, 0⟩ false, .loadPage ⟨0, 0⟩,
      .applyBrush ⟨0, 0⟩ 2, .unloadPage ⟨0, 0⟩ false] (.loadPage ⟨0, 0⟩) [] rfl _ rfl
  exact absurd (hlast 2 rfl) (by decide)

end EditSession

end NetSiege
