import NetSiege.Editor.BrushLocality
import NetSiege.Editor.PageContents
import NetSiege.Editor.PagedEdits

/-!
# The editor with a campaign (`brush.cpp`, `undocommands.cpp`, `campaignmanager.cpp`)

An `Editor` is the brush with its undo stack over the campaign whose tiles are paged in and out and
saved. Its abstract counterpart is the brush over the maps of all tiles, in memory or not: a careful
run of the editor is a run of that brush, on the tiles that were loaded at each call, and what was
saved is what the campaign has when it is opened again (`whole_of_run`). Not careful is to save
during a stroke that has edited something, to undo or redo on a tile that is not loaded, and to page
out a tile over a stale temporary file: each of these can lose edits.
-/

namespace NetSiege

open Lib

/-! ## What a brush call writes -/

namespace BrushSession

variable {G : Scene Unit} {s s' : BrushSession Unit} {i : Input}

/-- The current command has not been pushed yet. -/
def HasNewCommand (s : BrushSession Unit) : Prop :=
  ∀ cmd ∈ s.currentCommand, cmd.firstRedo = true

/-- A call left a new command, or none, and wrote only maps of the tiles this command monitors. -/
structure Wrote (s s' : BrushSession Unit) : Prop where
  newCommand : s'.HasNewCommand
  maps : ∀ id, id.tile ∉ tilesOf s'.currentCommand → s'.maps id = s.maps id

theorem wrote_of_maps (h : s'.HasNewCommand) (hmaps : s'.maps = s.maps) : Wrote s s' :=
  ⟨h, fun _ _ => by rw [hmaps]⟩

theorem Wrote.touch {s'' : BrushSession Unit} (h : Wrote s s') (ht : s'.Touches s'') :
    Wrote s s'' := by
  obtain ⟨cmd, tile, data, brush, hcmd, -, rfl⟩ := ht
  have hnew : cmd.firstRedo = true := h.newCommand cmd hcmd
  have htiles : tilesOf s'.currentCommand = cmd.tiles := by rw [hcmd]; rfl
  have hmonitor : (cmd.monitorTerrain s'.maps tile).firstRedo = true ∧
      tile ∈ (cmd.monitorTerrain s'.maps tile).tiles ∧
      cmd.tiles ⊆ (cmd.monitorTerrain s'.maps tile).tiles := by
    obtain ⟨hmon, heq⟩ | ⟨-, -, heq⟩ := cmd.monitorTerrain_cases s'.maps tile
    · obtain ⟨change, hchange, hid⟩ := Edit.monitors_iff.1 hmon
      rw [heq]
      exact ⟨hnew, Edit.mem_tiles.2 ⟨change, hchange, Edit.mapId_injective hid⟩, fun _ h => h⟩
    · rw [heq]
      refine ⟨hnew, ?_, ?_⟩ <;> simp [Edit.tiles]
  refine ⟨?_, fun id hid => ?_⟩
  · rintro _ ⟨⟩
    exact hmonitor.1
  · have hne : id ≠ cmd.mapId tile := fun heq => by
      have htile : id.tile = tile := congrArg MapId.tile heq
      exact hid (htile ▸ hmonitor.2.1)
    have hold : id.tile ∉ tilesOf s'.currentCommand := fun hmem =>
      hid (hmonitor.2.2 (htiles ▸ hmem))
    exact (Function.update_of_ne hne ..).trans (h.maps id hold)

theorem wrote_update {hit : Option Vector3} {average : Rat} {shift : Tile → Bool}
    (h : s.HasNewCommand) (hupdate : s.update G hit average shift = some s') : Wrote s s' := by
  have hrun : ∀ (f : BrushSession Unit → Tile → Option (BrushSession Unit)),
      (∀ s tile s', f s tile = some s' → s' = s ∨ s.Touches s') →
      ∀ slots, run f s slots = some s' → Wrote s s' := by
    intro f hf slots hrun
    refine run_invariant (Wrote s) ?_ (wrote_of_maps h rfl) hrun
    intro s1 tile s2 hwrote hstep
    obtain rfl | ht := hf s1 tile s2 hstep
    · exact hwrote
    · exact hwrote.touch ht
  unfold update at hupdate
  split at hupdate
  · dsimp only at hupdate
    split at hupdate
    · exact hrun _ (fun _ _ _ => applyHeightBrush_cases fun _ _ => rfl) _ hupdate
    · split at hupdate
      · exact hrun _ (fun _ _ _ => applyLayerBrush_cases fun _ _ => rfl) _ hupdate
      · cases hupdate
        exact wrote_of_maps h rfl
  · cases hupdate
    exact wrote_of_maps h rfl

theorem HasNewCommand.stopStroke (h : s.HasNewCommand) :
    s.stopStroke.HasNewCommand ∧ s.stopStroke.maps = s.maps := by
  cases hgroup : s.brush.group.isSome with
  | false =>
    rw [stopStroke_of_no_group hgroup]
    exact ⟨h, rfl⟩
  | true =>
    cases hcmd : s.currentCommand with
    | none =>
      rw [stopStroke_of_none hcmd]
      exact ⟨h, rfl⟩
    | some cmd =>
      rw [stopStroke_of_current hgroup hcmd (h cmd hcmd)]
      exact ⟨nofun, rfl⟩

theorem wrote_startStroke (h : s.HasNewCommand) (hstart : s.startStroke = some s') :
    Wrote s s' := by
  obtain ⟨-, rfl⟩ | ⟨-, -, rfl | ⟨cmd, -, -, hfirst, rfl⟩⟩ := startStroke_cases hstart
  · exact wrote_of_maps h rfl
  · exact wrote_of_maps h.stopStroke.1 h.stopStroke.2
  · refine wrote_of_maps ?_ h.stopStroke.2
    rintro _ ⟨⟩
    exact hfirst

/-- A call that is neither `undo` nor `redo`. -/
theorem wrote_step (h : s.HasNewCommand) (hundo : i ≠ .undo) (hredo : i ≠ .redo)
    (hstep : s.step G i = some s') : Wrote s s' := by
  cases i with
  | startStroke => exact wrote_startStroke h hstep
  | update hit average shift => exact wrote_update h hstep
  | stopStroke =>
    cases hstep
    exact wrote_of_maps h.stopStroke.1 h.stopStroke.2
  | setMode mode =>
    cases hstep
    obtain ⟨hcmd, -, -, hmaps⟩ := setMode_fields s mode
    refine wrote_of_maps (fun cmd hmem => ?_) (hmaps.trans h.stopStroke.2)
    exact h.stopStroke.1 cmd (hcmd ▸ hmem)
  | setEnabled enabled =>
    cases hstep
    cases enabled with
    | true => exact wrote_of_maps h rfl
    | false =>
      have hstop : HasNewCommand { s with brush := { s.brush with enabled := false } } := h
      exact wrote_of_maps hstop.stopStroke.1 hstop.stopStroke.2
  | setBlendLayer | setStrength | setSize | setHardness =>
    cases hstep
    exact wrote_of_maps h rfl
  | undo => exact absurd rfl hundo
  | redo => exact absurd rfl hredo

end BrushSession

/-! ## Commands on loaded tiles -/

namespace PagedGroup

variable {change : Change} {g : PagedGroup}

/-- On a loaded tile, a change does to the maps what it does to those of a brush session. -/
theorem applyChange_of_loaded (flat : TileContent) (inWorld add : Bool) (kind : MapKind)
    (h : g.campaign.isLoaded change.tile) :
    ∃ g', g.applyChange flat inWorld add kind change = some g' ∧
      g.campaign.Rewritten g'.campaign ∧
      (g'.maps : Maps Unit) = Function.update g.maps ⟨(), change.tile, kind⟩
        (if add then g.maps ⟨(), change.tile, kind⟩ + change.deltaMap
          else g.maps ⟨(), change.tile, kind⟩ - change.deltaMap) := by
  obtain ⟨ter, hter⟩ := Option.isSome_iff_exists.1 h
  obtain ⟨editedTiles, heq⟩ :=
    (CampaignManager.foldl_setTileModified [change.tile] g.campaign).1
  rw [List.foldl_cons, List.foldl_nil] at heq
  obtain ⟨hnone, -⟩ | hbrushed :=
    g.campaign.applyBrush_cases change.tile (change.apply add kind ter)
  · cases hter.symm.trans hnone
  refine ⟨{ g with campaign := g.campaign.applyBrush change.tile (change.apply add kind ter) },
    ?_, CampaignManager.rewritten_of_brushed hbrushed, funext fun i => ?_⟩
  · simp only [applyChange, CampaignManager.applyBrush, heq, hter]
  · have hmap : ∀ kind, (g.maps : Maps Unit) ⟨(), change.tile, kind⟩ = ter kind :=
      fun kind => maps_of_loaded (i := ⟨(), change.tile, kind⟩) hter
    rw [hmap, maps]
    dsimp only
    rw [hbrushed.terrain]
    obtain ⟨_, tile, kind'⟩ := i
    obtain rfl | hne := eq_or_ne tile change.tile
    · rw [Function.update_self]
      dsimp only
      obtain rfl | hkind := eq_or_ne kind' kind
      · rw [Function.update_self, Change.apply, Function.update_self]
      · have hid : (⟨(), change.tile, kind'⟩ : MapId Unit) ≠ ⟨(), change.tile, kind⟩ := by
          simpa using hkind
        rw [Function.update_of_ne hid, Change.apply, Function.update_of_ne hkind]
        exact (hmap kind').symm
    · have hid : (⟨(), tile, kind'⟩ : MapId Unit) ≠ ⟨(), change.tile, kind⟩ := by simp [hne]
      rw [Function.update_of_ne hid, Function.update_of_ne hne]
      rfl

/-- On loaded tiles, a command does to the maps what it does to those of a brush session. -/
theorem applyDeltas_of_loaded (flat : TileContent) (inWorld add : Bool) {e : Edit Unit}
    (h : ∀ tile ∈ e.tiles, g.campaign.isLoaded tile) :
    ∃ g', g.applyDeltas flat inWorld add e = some ((e.applyDeltas add g.maps).1, g') ∧
      g'.maps = (e.applyDeltas add g.maps).2 ∧ g.campaign.Rewritten g'.campaign := by
  have hfold : ∀ changes ⊆ e.changes, ∀ g1 : PagedGroup, g.campaign.Rewritten g1.campaign →
      ∃ g', changes.foldlM (applyChange flat inWorld add e.kind) g1 = some g' ∧
        g'.maps = changes.foldl (fun maps change =>
          let heightmap := maps (e.mapId change.tile)
          Function.update maps (e.mapId change.tile)
            (if add then heightmap + change.deltaMap else heightmap - change.deltaMap)) g1.maps ∧
        g.campaign.Rewritten g'.campaign := by
    intro changes
    induction changes with
    | nil => exact fun _ g1 hg1 => ⟨g1, rfl, rfl, hg1⟩
    | cons change changes ih =>
      intro hsub g1 hg1
      obtain ⟨hmem, hrest⟩ := List.cons_subset.1 hsub
      have hloaded : g1.campaign.isLoaded change.tile := by
        rw [hg1.loaded]
        exact h change.tile (List.mem_map_of_mem hmem)
      obtain ⟨g2, happly, hrewritten, hmaps⟩ :=
        applyChange_of_loaded flat inWorld add e.kind hloaded
      obtain ⟨g', hrun, hmaps', hg'⟩ := ih hrest g2 (hg1.trans hrewritten)
      refine ⟨g', ?_, ?_, hg'⟩
      · rw [List.foldlM_cons, happly]
        exact hrun
      · rw [List.foldl_cons, hmaps', hmaps]
        rfl
  unfold applyDeltas Edit.applyDeltas
  cases hfirst : e.firstRedo with
  | true => exact ⟨g, rfl, rfl, .refl _⟩
  | false =>
    obtain ⟨g', hrun, hmaps, hg'⟩ := hfold e.changes (List.Subset.refl _) g (.refl _)
    refine ⟨g', ?_, hmaps, hg'⟩
    rw [if_neg Bool.false_ne_true, if_neg Bool.false_ne_true, hrun]
    rfl

end PagedGroup

/-! ## The editor -/

/-- The brush, its current command and its undo stack, and the campaign; the brush has the terrain
group of the campaign. -/
structure Editor where
  brush : Brush Unit
  currentCommand : Option (Edit Unit) := none
  stack : UndoStack (Edit Unit) := {}
  group : PagedGroup

namespace Editor

/-- A campaign is opened. -/
def opened (brush : Brush Unit) (definedTerrainSlots : List Tile)
    (files : TilePath → Option TileContent) (generated : Tile → Option TileContent) : Editor where
  brush
  group := { campaign := { definedTerrainSlots, files }, generated }

/-- The session of the brush on the loaded tiles. -/
def session (e : Editor) : BrushSession Unit where
  brush := e.brush
  currentCommand := e.currentCommand
  stack := e.stack
  maps := e.group.maps

/-- The tile is loaded. -/
def isLoaded (e : Editor) (tile : Tile) : Bool := e.group.campaign.isLoaded tile

/-- The group after a brush call that left the session `s`: `monitorTerrain` has set the tiles it
added to the command modified, and the maps of the loaded tiles are those of the session. -/
def written (e : Editor) (s : BrushSession Unit) : PagedGroup :=
  let tiles := (tilesOf s.currentCommand).filter (· ∉ tilesOf e.currentCommand)
  { e.group with campaign := { tiles.foldl CampaignManager.setTileModified e.group.campaign with
      terrain := fun tile => (e.group.campaign.terrain tile).map fun _ kind =>
        s.maps ⟨(), tile, kind⟩ } }

section
variable (G : Scene Unit) (flat : TileContent) (inWorld : Bool)

/-- `QUndoStack::undo`, `none` when the command throws. -/
def undo (e : Editor) : Option Editor :=
  match e.stack.done with
  | [] => some e
  | c :: done => (e.group.applyDeltas flat inWorld false c).map fun (c, group) =>
    { e with stack := ⟨done, c :: e.stack.undone⟩, group }

/-- `QUndoStack::redo`, likewise. -/
def redo (e : Editor) : Option Editor :=
  match e.stack.undone with
  | [] => some e
  | c :: undone => (e.group.applyDeltas flat inWorld true c).map fun (c, group) =>
    { e with stack := ⟨c :: e.stack.done, undone⟩, group }

/-- A call of the brush or of its undo stack, `none` when an assertion fails or `finalize` asks for
a tile that is not loaded. -/
def call (e : Editor) : BrushSession.Input → Option Editor
  | .undo => e.undo flat inWorld
  | .redo => e.redo flat inWorld
  | i =>
    if (e.session.neededTiles i).all e.isLoaded then
      (e.session.step (G.only e.isLoaded) i).map fun s => {
        brush := s.brush
        currentCommand := s.currentCommand
        stack := s.stack
        group := e.written s }
    else none

/-- What happens in the editor. `save` is the saving itself: by its signals `initProgress` and
`doneProgress`, which `main.cpp` connects to the brush, it comes between the calls
`setEnabled(false)`, which ends the stroke, and `setEnabled(true)`. -/
inductive Input where
  | call (i : BrushSession.Input)
  | unloadPage (tile : Tile) (derivedDataUpdateInProgress : Bool)
  | loadPage (tile : Tile)
  | save

/-- The editor after it. -/
def step (e : Editor) : Input → Option Editor
  | .call i => e.call G flat inWorld i
  | .unloadPage tile inProgress =>
    some { e with group.campaign := e.group.campaign.unloadPage tile inProgress }
  | .loadPage tile => some { e with group := e.group.loadPage flat tile }
  | .save => some { e with group.campaign := e.group.campaign.save }

/-- A call finds the tiles it needs, a page-out relies on no stale temporary file, and `save` is not
called in a stroke that has edited a tile. -/
def Careful (e : Editor) : Input → Prop
  | .call i => ∀ tile ∈ e.session.neededTiles i, e.isLoaded tile
  | .unloadPage tile _ => e.group.campaign.UpToDate tile
  | .loadPage _ => True
  | .save => tilesOf e.currentCommand = []

/-- The maps of the tiles as they would be paged in. -/
def pagedMaps (e : Editor) : Maps Unit := fun i =>
  match e.group.campaign.define flat i.tile with
  | some content => content i.kind
  | none => 0

/-- The brush over the maps of all tiles, in memory or not. -/
def whole (e : Editor) : BrushSession Unit := e.session.overlaid e.isLoaded (e.pagedMaps flat)

/-- The call of the brush, and the tiles it found. -/
def brushCall (e : Editor) : Input → List (Scene Unit × BrushSession.Input)
  | .call i => [(G.only e.isLoaded, i)]
  | _ => []

end

variable {G : Scene Unit} {flat : TileContent} {inWorld : Bool} {e e' : Editor}

theorem whole_maps (i : MapId Unit) : (e.whole flat).maps i =
    match e.group.campaign.content flat i.tile with
    | some content => content i.kind
    | none => 0 := by
  unfold whole BrushSession.overlaid overMaps session isLoaded CampaignManager.isLoaded
    CampaignManager.content
  dsimp only
  cases hter : e.group.campaign.terrain i.tile with
  | some ter => exact PagedGroup.maps_of_loaded hter
  | none => rfl

/-- The brush does not see the campaign but for the contents of its tiles. -/
theorem whole_congr (hbrush : e'.brush = e.brush) (hcmd : e'.currentCommand = e.currentCommand)
    (hstack : e'.stack = e.stack) (hcontent : ∀ tile, e'.group.campaign.content flat tile =
      e.group.campaign.content flat tile) : e'.whole flat = e.whole flat := by
  have hmaps : (e'.whole flat).maps = (e.whole flat).maps := by
    funext i
    rw [whole_maps, whole_maps, hcontent]
  obtain ⟨brush, cmd, stack, group⟩ := e
  obtain ⟨brush', cmd', stack', group'⟩ := e'
  cases hbrush
  cases hcmd
  cases hstack
  unfold whole BrushSession.overlaid session at hmaps ⊢
  dsimp only at hmaps
  rw [hmaps]

/-- The campaign is fresh, and the current command is not pushed yet and monitors modified tiles. -/
structure Sound (flat : TileContent) (e : Editor) : Prop where
  fresh : e.group.campaign.Fresh flat
  newCommand : e.session.HasNewCommand
  marked : ∀ tile ∈ tilesOf e.currentCommand, e.group.campaign.isTileModified tile

theorem sound_opened (brush : Brush Unit) (definedTerrainSlots : List Tile)
    (files : TilePath → Option TileContent) (generated : Tile → Option TileContent) :
    (opened brush definedTerrainSlots files generated).Sound flat where
  fresh := ⟨nofun, nofun⟩
  newCommand := nofun
  marked := nofun

/-- After an edit of loaded tiles, the brush over all maps has what the edit left on those. -/
theorem whole_of_rewritten {s : BrushSession Unit} (hbrush : e'.brush = s.brush)
    (hcmd : e'.currentCommand = s.currentCommand) (hstack : e'.stack = s.stack)
    (hmaps : ∀ i, e.isLoaded i.tile → e'.group.maps i = s.maps i)
    (hrewritten : e.group.campaign.Rewritten e'.group.campaign) :
    e'.whole flat = s.overlaid e.isLoaded (e.pagedMaps flat) := by
  have hloaded : e'.isLoaded = e.isLoaded := funext hrewritten.loaded
  have hpaged : e'.pagedMaps flat = e.pagedMaps flat := by
    funext i
    rw [pagedMaps, pagedMaps, hrewritten.define]
  have hover : overMaps e.isLoaded (e.pagedMaps flat) e'.group.maps =
      overMaps e.isLoaded (e.pagedMaps flat) s.maps := by
    funext i
    unfold overMaps
    split
    · next hi => exact hmaps i hi
    · rfl
  unfold whole BrushSession.overlaid session
  dsimp only
  rw [hloaded, hpaged, hover, hbrush, hcmd, hstack]

/-- What a brush call writes. -/
theorem rewritten_written (h : e.Sound flat) {s : BrushSession Unit} (hwrote : e.session.Wrote s) :
    e.group.campaign.Rewritten (e.written s).campaign := by
  refine CampaignManager.rewritten_of_written fun tile ter hnew hnot hter => ?_
  have hmem : tile ∉ tilesOf s.currentCommand := by
    intro hmem
    refine hnew (List.mem_filter.2 ⟨hmem, decide_eq_true fun hold => hnot (h.marked tile hold)⟩)
  funext kind
  rw [hwrote.maps ⟨(), tile, kind⟩ hmem]
  exact PagedGroup.maps_of_loaded (i := ⟨(), tile, kind⟩) hter

theorem maps_written {s : BrushSession Unit} (i : MapId Unit) (h : e.isLoaded i.tile) :
    (e.written s).maps i = s.maps i := by
  obtain ⟨ter, hter⟩ := Option.isSome_iff_exists.1 h
  unfold PagedGroup.maps written
  dsimp only
  rw [hter]
  rfl

/-- The tiles of the command a call leaves are modified. -/
theorem marked_written (h : e.Sound flat) {s : BrushSession Unit} {tile : Tile}
    (hmem : tile ∈ tilesOf s.currentCommand) : (e.written s).campaign.isTileModified tile := by
  have hmodified := (CampaignManager.foldl_setTileModified
    ((tilesOf s.currentCommand).filter (· ∉ tilesOf e.currentCommand)) e.group.campaign).2 tile
  by_cases hold : tile ∈ tilesOf e.currentCommand
  · exact hmodified.2 (.inr (h.marked tile hold))
  · exact hmodified.2 (.inl (List.mem_filter.2 ⟨hmem, decide_eq_true hold⟩))

/-- A call of the brush. -/
theorem Sound.brushCall (h : e.Sound flat) {i : BrushSession.Input} (hundo : i ≠ .undo)
    (hredo : i ≠ .redo) (hneeded : ∀ tile ∈ e.session.neededTiles i, e.isLoaded tile)
    {s : BrushSession Unit} (hstep : e.session.step (G.only e.isLoaded) i = some s)
    (hbrush : e'.brush = s.brush) (hcmd : e'.currentCommand = s.currentCommand)
    (hstack : e'.stack = s.stack) (hgroup : e'.group = e.written s) :
    e'.Sound flat ∧ (e.whole flat).step (G.only e.isLoaded) i = some (e'.whole flat) := by
  have hwrote := BrushSession.wrote_step h.newCommand hundo hredo hstep
  have hrewritten : e.group.campaign.Rewritten e'.group.campaign :=
    hgroup ▸ rewritten_written h hwrote
  refine ⟨⟨h.fresh.rewritten hrewritten, ?_, ?_⟩, ?_⟩
  · intro cmd hmem
    exact hwrote.newCommand cmd (hcmd ▸ hmem)
  · intro tile hmem
    rw [hcmd] at hmem
    rw [hgroup]
    exact marked_written h hmem
  · rw [whole, BrushSession.step_over hneeded, hstep, Option.map_some]
    have hmaps : ∀ i, e.isLoaded i.tile → e'.group.maps i = s.maps i := fun i hi => by
      rw [hgroup]
      exact maps_written i hi
    rw [whole_of_rewritten hbrush hcmd hstack hmaps hrewritten]

/-- A command is run on loaded tiles. -/
theorem Sound.command (h : e.Sound flat) {add : Bool} {c : Edit Unit}
    (hloaded : ∀ tile ∈ c.tiles, e.isLoaded tile) {x : Edit Unit × PagedGroup}
    (hrun : e.group.applyDeltas flat inWorld add c = some x) (stack : UndoStack (Edit Unit)) :
    ({ e with stack, group := x.2 } : Editor).Sound flat ∧
      x.1 = (c.applyDeltas add e.group.maps).1 ∧
      ({ e with stack, group := x.2 } : Editor).whole flat =
        ({ e.session with stack, maps := (c.applyDeltas add e.group.maps).2 } :
          BrushSession Unit).overlaid e.isLoaded (e.pagedMaps flat) := by
  obtain ⟨g', hrun', hmaps, hrewritten⟩ :=
    PagedGroup.applyDeltas_of_loaded flat inWorld add hloaded
  cases hrun.symm.trans hrun'
  refine ⟨⟨h.fresh.rewritten hrewritten, h.newCommand, fun tile hmem => ?_⟩, rfl, ?_⟩
  · exact hrewritten.modified tile (h.marked tile hmem)
  · refine whole_of_rewritten rfl rfl rfl (fun i _ => ?_) hrewritten
    rw [hmaps]

theorem Sound.undo (h : e.Sound flat)
    (hneeded : ∀ tile ∈ e.session.neededTiles .undo, e.isLoaded tile)
    (hundo : e.undo flat inWorld = some e') :
    e'.Sound flat ∧ (e.whole flat).undo = e'.whole flat := by
  rw [whole, BrushSession.undo_over hneeded]
  unfold Editor.undo at hundo
  cases hdone : e.stack.done with
  | nil =>
    rw [hdone] at hundo
    cases hundo
    refine ⟨h, ?_⟩
    have hsession : e.session.undo = e.session := by
      unfold BrushSession.undo UndoStack.undo session
      dsimp only
      rw [hdone]
    rw [hsession, whole]
  | cons c done =>
    rw [hdone] at hundo
    obtain ⟨x, hrun, rfl⟩ := Option.map_eq_some_iff.1 hundo
    have hloaded : ∀ tile ∈ c.tiles, e.isLoaded tile := by
      unfold BrushSession.neededTiles session at hneeded
      dsimp only at hneeded
      rw [hdone] at hneeded
      exact hneeded
    obtain ⟨hsound, hcommand, hwhole⟩ := h.command hloaded hrun ⟨done, x.1 :: e.stack.undone⟩
    refine ⟨hsound, ?_⟩
    rw [hwhole, hcommand]
    unfold BrushSession.undo UndoStack.undo session
    dsimp only
    rw [hdone]
    rfl

theorem Sound.redo (h : e.Sound flat)
    (hneeded : ∀ tile ∈ e.session.neededTiles .redo, e.isLoaded tile)
    (hredo : e.redo flat inWorld = some e') :
    e'.Sound flat ∧ (e.whole flat).redo = e'.whole flat := by
  rw [whole, BrushSession.redo_over hneeded]
  unfold Editor.redo at hredo
  cases hundone : e.stack.undone with
  | nil =>
    rw [hundone] at hredo
    cases hredo
    refine ⟨h, ?_⟩
    have hsession : e.session.redo = e.session := by
      unfold BrushSession.redo UndoStack.redo session
      dsimp only
      rw [hundone]
    rw [hsession, whole]
  | cons c undone =>
    rw [hundone] at hredo
    obtain ⟨x, hrun, rfl⟩ := Option.map_eq_some_iff.1 hredo
    have hloaded : ∀ tile ∈ c.tiles, e.isLoaded tile := by
      unfold BrushSession.neededTiles session at hneeded
      dsimp only at hneeded
      rw [hundone] at hneeded
      exact hneeded
    obtain ⟨hsound, hcommand, hwhole⟩ := h.command hloaded hrun ⟨x.1 :: e.stack.done, undone⟩
    refine ⟨hsound, ?_⟩
    rw [hwhole, hcommand]
    unfold BrushSession.redo UndoStack.redo session
    dsimp only
    rw [hundone]
    rfl

theorem call_eq {i : BrushSession.Input} (hundo : i ≠ .undo) (hredo : i ≠ .redo) :
    e.call G flat inWorld i = if (e.session.neededTiles i).all e.isLoaded then
      (e.session.step (G.only e.isLoaded) i).map fun s =>
        ⟨s.brush, s.currentCommand, s.stack, e.written s⟩
    else none := by
  cases i with
  | undo => exact absurd rfl hundo
  | redo => exact absurd rfl hredo
  | _ => rfl

/-- A call does on the loaded tiles what it does on all tiles. -/
theorem Sound.call (h : e.Sound flat) {i : BrushSession.Input}
    (hneeded : ∀ tile ∈ e.session.neededTiles i, e.isLoaded tile)
    (hcall : e.call G flat inWorld i = some e') :
    e'.Sound flat ∧ (e.whole flat).step (G.only e.isLoaded) i = some (e'.whole flat) := by
  by_cases hundo : i = .undo
  · subst hundo
    obtain ⟨hsound, hwhole⟩ := h.undo hneeded hcall
    exact ⟨hsound, congrArg some hwhole⟩
  by_cases hredo : i = .redo
  · subst hredo
    obtain ⟨hsound, hwhole⟩ := h.redo hneeded hcall
    exact ⟨hsound, congrArg some hwhole⟩
  rw [call_eq hundo hredo, if_pos (List.all_eq_true.2 hneeded)] at hcall
  obtain ⟨s, hstep, rfl⟩ := Option.map_eq_some_iff.1 hcall
  exact h.brushCall hundo hredo hneeded hstep rfl rfl rfl rfl

/-- The pages change, and the contents of the tiles do not. -/
theorem Sound.pages (h : e.Sound flat) {m : CampaignManager TileContent} (hfresh : m.Fresh flat)
    (hcontent : ∀ tile, m.content flat tile = e.group.campaign.content flat tile)
    (hmarked : ∀ tile ∈ tilesOf e.currentCommand, m.isTileModified tile) :
    ({ e with group.campaign := m } : Editor).Sound flat ∧
      ({ e with group.campaign := m } : Editor).whole flat = e.whole flat :=
  ⟨⟨hfresh, h.newCommand, hmarked⟩, whole_congr rfl rfl rfl hcontent⟩

/-- **A step of the editor** is the call of the brush over all tiles, or nothing. -/
theorem Sound.step (h : e.Sound flat) {i : Input} (hcareful : e.Careful i)
    (hstep : e.step G flat inWorld i = some e') :
    e'.Sound flat ∧
      run (fun (s : BrushSession Unit) j => s.step j.1 j.2) (e.whole flat) (e.brushCall G i) =
        some (e'.whole flat) := by
  cases i with
  | call i =>
    obtain ⟨hsound, hwhole⟩ := h.call hcareful hstep
    refine ⟨hsound, ?_⟩
    rw [Editor.brushCall, run_cons, hwhole]
    rfl
  | unloadPage tile inProgress =>
    cases hstep
    obtain ⟨hfresh, hcontent⟩ := CampaignManager.unloadPage_kept h.fresh hcareful inProgress
    obtain ⟨hsound, hwhole⟩ := h.pages hfresh hcontent fun tile' hmem =>
      (CampaignManager.isTileModified_unloadPage inProgress).2 (h.marked tile' hmem)
    exact ⟨hsound, congrArg some hwhole.symm⟩
  | loadPage tile =>
    cases hstep
    obtain ⟨hfresh, hcontent⟩ := CampaignManager.loadPage_kept h.fresh tile
    obtain ⟨hsound, hwhole⟩ := h.pages hfresh hcontent fun tile' hmem =>
      CampaignManager.isTileModified_loadPage.2 (h.marked tile' hmem)
    exact ⟨hsound, congrArg some hwhole.symm⟩
  | save =>
    cases hstep
    obtain ⟨hfresh, hcontent⟩ := CampaignManager.save_kept h.fresh
    obtain ⟨hsound, hwhole⟩ := h.pages hfresh hcontent fun tile hmem => by
      rw [hcareful] at hmem
      cases hmem
    exact ⟨hsound, congrArg some hwhole.symm⟩

/-- **Editing with pages.** A careful run of the editor is a run of the brush over the maps of all
tiles, whichever pages come and go and whenever the campaign is saved: each call does what it does
there to the tiles that were loaded. The campaign that is saved and opened again has the maps that
the run left. -/
theorem whole_of_run {brush : Brush Unit} {definedTerrainSlots : List Tile}
    {files : TilePath → Option TileContent} {generated : Tile → Option TileContent}
    {is : List Input} (hrun : run (step G flat inWorld)
      (opened brush definedTerrainSlots files generated) is = some e)
    (hcareful : Along (step G flat inWorld) Careful
      (opened brush definedTerrainSlots files generated) is) (brush' : Brush Unit) :
    run (fun (s : BrushSession Unit) j => s.step j.1 j.2)
        ((opened brush definedTerrainSlots files generated).whole flat)
        (outputs (step G flat inWorld) (brushCall G)
          (opened brush definedTerrainSlots files generated) is) = some (e.whole flat) ∧
      ((opened brush' e.group.campaign.definedTerrainSlots e.group.campaign.save.files
        e.group.generated).whole flat).maps = (e.whole flat).maps := by
  obtain ⟨hsound, habs⟩ := hcareful.simulates (Sound flat)
    (fun _ _ _ hsound hcareful hstep => hsound.step hcareful hstep)
    (sound_opened brush definedTerrainSlots files generated) hrun
  refine ⟨habs, funext fun i => ?_⟩
  rw [whole_maps, whole_maps]
  have hcontent := CampaignManager.content_reopened hsound.fresh i.tile
  unfold opened
  dsimp only
  rw [hcontent]

/-- A check that a step is careful. -/
def checkCareful (e : Editor) : Input → Bool
  | .call i => (e.session.neededTiles i).all e.isLoaded
  | .unloadPage tile _ => !e.group.campaign.isTileUnpaged tile
  | .loadPage _ => true
  | .save => (tilesOf e.currentCommand).isEmpty

theorem careful_of_check {i : Input} (h : e.checkCareful i = true) : e.Careful i := by
  cases i with
  | call i => exact List.all_eq_true.1 h
  | unloadPage tile inProgress =>
    intro hunpaged
    rw [checkCareful, hunpaged] at h
    cases h
  | loadPage tile => trivial
  | save => exact List.isEmpty_iff.1 h

/-- A campaign of one tile, which a brush will raise. -/
def oneTile : Editor := opened BrushSession.raisingBrush [⟨0, 0⟩] (fun _ => none) fun _ => none

/-- The tile is raised, paged out and saved. -/
def raisedAndSaved : List Input :=
  [.loadPage ⟨0, 0⟩, .call .startStroke,
    .call (.update (some ⟨-1 / 2, 0, 1 / 2⟩) 0 fun _ => false), .call .stopStroke,
    .unloadPage ⟨0, 0⟩ false, .save]

/-- The campaign opened again has the raised height. -/
theorem whole_of_run_raised : ∃ e, run (step BrushSession.oneTile 0 false) oneTile raisedAndSaved =
      some e ∧ (e.whole 0).maps ⟨(), ⟨0, 0⟩, .heightmap⟩ 0 = 1 / 5 ∧
    run (fun (s : BrushSession Unit) j => s.step j.1 j.2) (oneTile.whole 0)
        (outputs (step BrushSession.oneTile 0 false) (brushCall BrushSession.oneTile) oneTile
          raisedAndSaved) = some (e.whole 0) ∧
      ((opened BrushSession.raisingBrush e.group.campaign.definedTerrainSlots
        e.group.campaign.save.files e.group.generated).whole 0).maps = (e.whole 0).maps := by
  have hrun : (run (step BrushSession.oneTile 0 false) oneTile raisedAndSaved).map (fun e =>
      (e.whole 0).maps ⟨(), ⟨0, 0⟩, .heightmap⟩ 0) = some (1 / 5) := by decide +kernel
  obtain ⟨e, he, hheight⟩ := Option.map_eq_some_iff.1 hrun
  have hcareful : Along (step BrushSession.oneTile 0 false) Careful oneTile raisedAndSaved :=
    along_of_check (fun _ _ => careful_of_check) (by decide +kernel)
  exact ⟨e, he, hheight, whole_of_run he hcareful BrushSession.raisingBrush⟩

/-! ## Undoing everything -/

/-- `undo` and `redo` are called between strokes only. -/
def betweenStrokes (e : Editor) : Input → Bool
  | .call .undo | .call .redo => e.currentCommand.isNone
  | _ => true

/-- Nothing is lost between strokes. -/
theorem accounts_step {γ : Type} [DecidableEq γ] {G : Scene γ} {initial : Maps γ}
    {s s' : BrushSession γ} {i : BrushSession.Input}
    (h : BrushSession.Accounts initial { session := s }) (hstep : s.step G i = some s')
    (hbetween : i = .undo ∨ i = .redo → s.currentCommand = none) :
    BrushSession.Accounts initial { session := s' } := by
  have haudit : BrushSession.audit { session := s } i s' = { session := s' } := by
    have hdrift (hnone : s.currentCommand = none) : (fun id => if s.monitors id then
        (0 : Maps γ) id + s.recordedDelta i id else 0) = (0 : Maps γ) := by
      funext id
      rw [BrushSession.monitors, hnone, Option.any_none, if_neg Bool.false_ne_true]
      rfl
    unfold BrushSession.audit
    split
    · rw [hdrift (hbetween (.inl rfl))]
    · rw [hdrift (hbetween (.inr rfl))]
    · split
      · rw [add_zero]
      · rfl
  have haudited := BrushSession.Accounts.auditedStep (G := G) (i := i) h
    (by rw [BrushSession.auditedStep, hstep, Option.map_some])
  rwa [haudit] at haudited

/-- The step is no call but `undo`. -/
def Input.onlyUndo : Input → Bool
  | .call .undo => true
  | .call _ => false
  | _ => true

/-- The step is `undo`. -/
def Input.isUndo : Input → Bool
  | .call .undo => true
  | _ => false

/-- A step of the editor is a call of the brush over all tiles, or leaves all tiles as they are. -/
theorem Sound.step_cases (h : e.Sound flat) {i : Input} (hcareful : e.Careful i)
    (hstep : e.step G flat inWorld i = some e') :
    (∃ j, i = .call j ∧ (e.whole flat).step (G.only e.isLoaded) j = some (e'.whole flat)) ∨
      (∀ j, i ≠ .call j) ∧ e'.whole flat = e.whole flat := by
  have hwhole := (h.step hcareful hstep).2
  cases i with
  | call j =>
    rw [Editor.brushCall, run_cons, Option.bind_eq_some_iff] at hwhole
    obtain ⟨s, hs, heq⟩ := hwhole
    cases heq
    exact .inl ⟨j, rfl, hs⟩
  | unloadPage | loadPage | save => exact .inr ⟨nofun, (Option.some.inj hwhole).symm⟩

theorem betweenStrokes_call {j : BrushSession.Input} (h : e.betweenStrokes (.call j))
    (hj : j = .undo ∨ j = .redo) : (e.whole flat).currentCommand = none := by
  obtain rfl | rfl := hj
  · exact Option.isNone_iff_eq_none.1 h
  · exact Option.isNone_iff_eq_none.1 h

/-- The accounts of the brush over all tiles are kept. -/
theorem Sound.accounts {initial : Maps Unit} (h : e.Sound flat) {i : Input}
    (haccounts : BrushSession.Accounts initial { session := e.whole flat })
    (hcareful : e.Careful i) (hbetween : e.betweenStrokes i)
    (hstep : e.step G flat inWorld i = some e') :
    BrushSession.Accounts initial { session := e'.whole flat } := by
  obtain ⟨j, rfl, hwhole⟩ | ⟨-, hwhole⟩ := h.step_cases hcareful hstep
  · exact accounts_step haccounts hwhole (betweenStrokes_call hbetween)
  · rwa [hwhole]

/-- The stack and the maps after some calls of `undo` among pages and saves. -/
theorem Sound.undos (h : e.Sound flat) {js : List Input}
    (hcareful : Along (Editor.step G flat inWorld) Careful e js)
    (honly : js.all Input.onlyUndo) (hrun : run (Editor.step G flat inWorld) e js = some e') :
    ((e'.whole flat).stack, (e'.whole flat).maps) =
      (UndoStack.undo Edit.undo)^[js.countP Input.isUndo]
        ((e.whole flat).stack, (e.whole flat).maps) := by
  induction js generalizing e with
  | nil =>
    cases hrun
    rfl
  | cons j js ih =>
    obtain ⟨e1, hstep, hrun⟩ := Option.bind_eq_some_iff.1 hrun
    obtain ⟨hsound, hwhole⟩ := h.step hcareful.1 hstep
    rw [List.all_cons, Bool.and_eq_true] at honly
    rw [ih hsound (hcareful.2 e1 hstep) honly.2 hrun]
    cases j with
    | call i =>
      cases i with
      | undo =>
        have hundone : e1.whole flat = (e.whole flat).undo := (Option.some.inj hwhole).symm
        rw [List.countP_cons_of_pos (p := Input.isUndo) rfl, Function.iterate_succ_apply, hundone]
        rfl
      | _ => cases honly.1
    | unloadPage | loadPage | save =>
      have hsame : e1.whole flat = e.whole flat := (Option.some.inj hwhole).symm
      rw [hsame, List.countP_cons_of_neg (p := Input.isUndo) (by simp [Input.isUndo])]

/-- **Undo takes back everything**, with pages coming and going and the campaign being saved in
between: after a careful run with `undo` and `redo` between strokes only, at whose end no stroke is
in progress, a careful run that calls `undo` once for every command on the stack, and nothing else
of the brush, leaves every tile as it was when the campaign was opened. -/
theorem undone_of_run {brush : Brush Unit} {definedTerrainSlots : List Tile}
    {files : TilePath → Option TileContent} {generated : Tile → Option TileContent}
    {is js : List Input} (hrun : run (step G flat inWorld)
      (opened brush definedTerrainSlots files generated) is = some e)
    (hcareful : Along (step G flat inWorld) (fun e i => e.Careful i ∧ e.betweenStrokes i)
      (opened brush definedTerrainSlots files generated) is)
    (hnone : e.currentCommand = none) (hundo : run (step G flat inWorld) e js = some e')
    (hcareful' : Along (step G flat inWorld) Careful e js) (honly : js.all Input.onlyUndo)
    (hcount : js.countP Input.isUndo = e.stack.done.length) :
    (e'.whole flat).maps =
      ((opened brush definedTerrainSlots files generated).whole flat).maps := by
  obtain ⟨hsound, haccounts⟩ := hcareful.invariant
    (fun e => e.Sound flat ∧ BrushSession.Accounts
      ((opened brush definedTerrainSlots files generated).whole flat).maps
      { session := e.whole flat })
    (fun _ _ _ h hi hstep =>
      ⟨(h.1.step hi.1 hstep).1, h.1.accounts h.2 hi.1 hi.2 hstep⟩)
    ⟨sound_opened brush definedTerrainSlots files generated, BrushSession.accounts_start ..⟩ hrun
  have hexact : (e.whole flat).HistoryExact _ := (haccounts.exact_iff hnone).2 rfl
  have hundos := hsound.undos hcareful' honly hundo
  rw [hcount] at hundos
  exact (congrArg Prod.snd hundos).trans (hexact hnone).1

/-- The raised tile is loaded again, and the stroke undone. -/
theorem undone_of_run_raised : ∃ e e',
    run (step BrushSession.oneTile 0 false) oneTile raisedAndSaved = some e ∧
      run (step BrushSession.oneTile 0 false) e [.loadPage ⟨0, 0⟩, .call .undo] = some e' ∧
      (e'.whole 0).maps = (oneTile.whole 0).maps := by
  have hrun : (run (step BrushSession.oneTile 0 false) oneTile raisedAndSaved).map (fun e =>
      (e.currentCommand.isNone, e.stack.done.length,
        (run (step BrushSession.oneTile 0 false) e [.loadPage ⟨0, 0⟩, .call .undo]).isSome,
        checkAlong (step BrushSession.oneTile 0 false) checkCareful e
          [.loadPage ⟨0, 0⟩, .call .undo])) = some (true, 1, true, true) := by decide +kernel
  obtain ⟨e, he, hval⟩ := Option.map_eq_some_iff.1 hrun
  simp only [Prod.mk.injEq] at hval
  obtain ⟨hnone, hcount, hsome, hcheck⟩ := hval
  obtain ⟨e', he'⟩ := Option.isSome_iff_exists.1 hsome
  have hcareful : Along (step BrushSession.oneTile 0 false)
      (fun e i => e.Careful i ∧ e.betweenStrokes i) oneTile raisedAndSaved := by
    refine along_of_check (c := fun e i => e.checkCareful i && e.betweenStrokes i)
      (fun e i h => ?_) (by decide +kernel)
    obtain ⟨hi, hbetween⟩ := Bool.and_eq_true_iff.1 h
    exact ⟨careful_of_check hi, hbetween⟩
  exact ⟨e, e', he, he', undone_of_run he hcareful (Option.isNone_iff_eq_none.1 hnone) he'
    (along_of_check (fun _ _ => careful_of_check) hcheck) rfl hcount.symm⟩

end Editor

end NetSiege
