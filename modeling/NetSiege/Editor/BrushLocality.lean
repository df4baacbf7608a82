import NetSiege.Editor.UndoHistory

/-!
# What a brush call needs of the terrain (`brush.cpp`, `undocommands.cpp`)

A call asks its terrain group for tiles. The brush passes over a tile the group does not have, while
`finalize` and `applyDeltas` need the tiles of their command (`neededTiles`). On the tiles a call
finds it does the same whatever the maps of other tiles are, and it leaves those as they are
(`step_over`).
-/

namespace NetSiege

open Lib

variable {γ : Type} [DecidableEq γ]

/-- The scene, with only some of its tiles. -/
def Scene.only (G : Scene γ) (L : Tile → Bool) : Scene γ :=
  { G with getTerrain := fun group tile => if L tile then G.getTerrain group tile else none }

/-- The maps on some tiles, and others elsewhere. -/
def overMaps (L : Tile → Bool) (base maps : Maps γ) : Maps γ :=
  fun i => if L i.tile then maps i else base i

/-- The tiles a command has changes for. -/
def Edit.tiles (e : Edit γ) : List Tile := e.changes.map (·.tile)

/-- The tiles of a command, if there is one. -/
def tilesOf (cmd : Option (Edit γ)) : List Tile := (cmd.map Edit.tiles).getD []

section
variable {L : Tile → Bool} {base maps : Maps γ} {i : MapId γ} {e : Edit γ} {add : Bool}

omit [DecidableEq γ] in
theorem overMaps_of (h : L i.tile = true) : overMaps L base maps i = maps i := if_pos h

theorem overMaps_update (h : L i.tile = true) (data : Nat → Rat) :
    overMaps L base (Function.update maps i data) =
      Function.update (overMaps L base maps) i data := by
  funext j
  obtain rfl | hne := eq_or_ne j i
  · rw [overMaps_of h, Function.update_self, Function.update_self]
  · rw [Function.update_of_ne hne]
    simp only [overMaps, Function.update_of_ne hne]

namespace Edit

omit [DecidableEq γ] in
theorem mem_tiles {tile : Tile} : tile ∈ e.tiles ↔ ∃ change ∈ e.changes, change.tile = tile :=
  List.mem_map

omit [DecidableEq γ] in
theorem monitorTerrain_overMaps {tile : Tile} (h : L tile = true) :
    e.monitorTerrain (overMaps L base maps) tile = e.monitorTerrain maps tile := by
  rw [monitorTerrain, monitorTerrain, overMaps_of (i := e.mapId tile) h]

omit [DecidableEq γ] in
theorem finalize_overMaps (h : ∀ tile ∈ e.tiles, L tile = true) :
    e.finalize (overMaps L base maps) = e.finalize maps := by
  have hchanges : ∀ change ∈ e.changes,
      overMaps L base maps (e.mapId change.tile) = maps (e.mapId change.tile) :=
    fun change hchange => overMaps_of (h change.tile (List.mem_map_of_mem hchange))
  unfold finalize
  congr 1
  refine List.map_congr_left fun change hchange => ?_
  rw [hchanges change hchange]

omit [DecidableEq γ] in
theorem tiles_finalize : (e.finalize maps).tiles = e.tiles := by
  rw [tiles, finalize, List.map_map]
  rfl

/-- A command adds to the maps of its tiles. -/
theorem applyDeltas_overMaps (h : ∀ tile ∈ e.tiles, L tile = true) :
    e.applyDeltas add (overMaps L base maps) =
      ((e.applyDeltas add maps).1, overMaps L base (e.applyDeltas add maps).2) := by
  unfold applyDeltas
  split
  · rfl
  · have hfold : ∀ changes ⊆ e.changes, ∀ maps : Maps γ,
        changes.foldl (fun maps change =>
          let heightmap := maps (e.mapId change.tile)
          Function.update maps (e.mapId change.tile)
            (if add then heightmap + change.deltaMap else heightmap - change.deltaMap))
          (overMaps L base maps) =
        overMaps L base (changes.foldl (fun maps change =>
          let heightmap := maps (e.mapId change.tile)
          Function.update maps (e.mapId change.tile)
            (if add then heightmap + change.deltaMap else heightmap - change.deltaMap)) maps) := by
      intro changes
      induction changes with
      | nil => exact fun _ _ => rfl
      | cons change changes ih =>
        intro hsub maps
        obtain ⟨hmem, hrest⟩ := List.cons_subset.1 hsub
        have htile : L (e.mapId change.tile).tile = true :=
          h change.tile (List.mem_map_of_mem hmem)
        simp only [List.foldl_cons]
        rw [overMaps_of htile, ← overMaps_update htile]
        exact ih hrest _
    rw [hfold e.changes (List.Subset.refl _)]

end Edit

end

/-! ## The calls -/

namespace BrushSession

variable {G : Scene γ} {L : Tile → Bool} {base : Maps γ} {s s' : BrushSession γ} {tile : Tile}
  {group : γ}

/-- The session on the maps of some tiles, with others elsewhere. -/
def overlaid (L : Tile → Bool) (base : Maps γ) (s : BrushSession γ) : BrushSession γ :=
  { s with maps := overMaps L base s.maps }

/-- The tiles a call needs: those of the command it finalizes, undoes or redoes. -/
def neededTiles (s : BrushSession γ) : Input → List Tile
  | .undo => tilesOf s.stack.done.head?
  | .redo => tilesOf s.stack.undone.head?
  | i => if i.endsStroke s.brush then tilesOf s.currentCommand else []

theorem applyHeightBrush_over (position : Vector3) (average : Rat) (shift : Tile → Bool) :
    applyHeightBrush (G.only L) group position average shift (s.overlaid L base) tile =
      (applyHeightBrush (G.only L) group position average shift s tile).map (overlaid L base) := by
  unfold applyHeightBrush Scene.only
  dsimp only
  cases htile : L tile with
  | false => rfl
  | true =>
    rw [if_pos rfl]
    cases G.getTerrain group tile with
    | none => rfl
    | some ter =>
      have hover : (s.overlaid L base).currentCommand = s.currentCommand := rfl
      rw [hover]
      cases s.currentCommand with
      | none => rfl
      | some cmd =>
        dsimp only
        simp only [apply_ite (Option.map (overlaid L base))]
        refine ite_congr rfl (fun _ => rfl) fun _ => ite_congr rfl (fun _ => rfl) fun _ => ?_
        have hmap : L (⟨group, tile, .heightmap⟩ : MapId γ).tile = true := htile
        dsimp only [overlaid]
        rw [overMaps_of hmap, cmd.monitorTerrain_overMaps htile, ← overMaps_update hmap]
        rfl

theorem applyLayerBrush_over (position : Vector3) (shift : Tile → Bool) :
    applyLayerBrush (G.only L) group position shift (s.overlaid L base) tile =
      (applyLayerBrush (G.only L) group position shift s tile).map (overlaid L base) := by
  unfold applyLayerBrush Scene.only
  dsimp only
  cases htile : L tile with
  | false => rfl
  | true =>
    rw [if_pos rfl]
    cases G.getTerrain group tile with
    | none => rfl
    | some ter =>
      have hover : (s.overlaid L base).currentCommand = s.currentCommand := rfl
      rw [hover]
      cases s.currentCommand with
      | none => rfl
      | some cmd =>
        dsimp only
        cases cmd.kind with
        | heightmap => rfl
        | blendmap layerIndex =>
          have hmap : L (⟨group, tile, .blendmap layerIndex⟩ : MapId γ).tile = true := htile
          dsimp only
          rw [apply_ite (Option.map (overlaid L base))]
          dsimp only [overlaid]
          rw [cmd.monitorTerrain_overMaps htile]
          refine ite_congr rfl (fun _ => rfl) fun _ => ?_
          rw [overMaps_of hmap, ← overMaps_update hmap]
          rfl

theorem update_over (hit : Option Vector3) (average : Rat) (shift : Tile → Bool) :
    (s.overlaid L base).update (G.only L) hit average shift =
      (s.update (G.only L) hit average shift).map (overlaid L base) := by
  have hheight (group : γ) (position : Vector3) (tiles : List Tile) :
      run (applyHeightBrush (G.only L) group position average shift) (s.overlaid L base) tiles =
        (run (applyHeightBrush (G.only L) group position average shift) s tiles).map
          (overlaid L base) :=
    run_map (fun _ _ => applyHeightBrush_over position average shift) s tiles
  have hlayer (group : γ) (position : Vector3) (tiles : List Tile) :
      run (applyLayerBrush (G.only L) group position shift) (s.overlaid L base) tiles =
        (run (applyLayerBrush (G.only L) group position shift) s tiles).map (overlaid L base) :=
    run_map (fun _ _ => applyLayerBrush_over position shift) s tiles
  have hover : (s.overlaid L base).currentCommand = s.currentCommand := rfl
  have hbrush : (s.overlaid L base).brush = s.brush := rfl
  unfold update
  rw [hover, hbrush]
  cases s.currentCommand with
  | none => rfl
  | some cmd =>
    cases s.brush.group with
    | none => rfl
    | some group =>
      cases hit with
      | none => rfl
      | some position =>
        dsimp only
        rw [hheight, hlayer]
        simp only [apply_ite (Option.map (overlaid L base)), Option.map_some]

theorem stopStroke_over (h : s.brush.group.isSome → ∀ tile ∈ tilesOf s.currentCommand, L tile) :
    (s.overlaid L base).stopStroke = s.stopStroke.overlaid L base := by
  cases hgroup : s.brush.group with
  | none =>
    rw [stopStroke_of_no_group (s := s) (by rw [hgroup]; rfl),
      stopStroke_of_no_group (s := s.overlaid L base) (by rw [overlaid, hgroup]; rfl)]
  | some group =>
    cases hcmd : s.currentCommand with
    | none =>
      rw [stopStroke_of_none (s := s) hcmd, stopStroke_of_none (s := s.overlaid L base) hcmd]
    | some cmd =>
      have htiles : ∀ tile ∈ cmd.tiles, L tile := by
        rw [hgroup, hcmd] at h
        exact h rfl
      have hredo : (cmd.finalize s.maps).redo (overMaps L base s.maps) =
          (((cmd.finalize s.maps).redo s.maps).1,
            overMaps L base ((cmd.finalize s.maps).redo s.maps).2) :=
        Edit.applyDeltas_overMaps (by rwa [Edit.tiles_finalize])
      simp only [stopStroke, overlaid, hgroup, hcmd, UndoStack.push, Edit.finalize_overMaps htiles,
        hredo]

theorem startStroke_over
    (h : s.brush.group.isSome ∧ s.brush.enabled → ∀ tile ∈ tilesOf s.currentCommand, L tile) :
    (s.overlaid L base).startStroke = s.startStroke.map (overlaid L base) := by
  have hbrush : (s.overlaid L base).brush = s.brush := rfl
  unfold startStroke
  rw [hbrush]
  cases hgroup : s.brush.group with
  | none => rfl
  | some group =>
    cases henabled : s.brush.enabled with
    | false => rfl
    | true =>
      have hsome : s.brush.group.isSome := by rw [hgroup]; rfl
      have hstop : (s.overlaid L base).stopStroke = s.stopStroke.overlaid L base :=
        stopStroke_over fun _ => h ⟨hsome, henabled⟩
      dsimp only
      rw [Bool.not_true, if_neg Bool.false_ne_true, if_neg Bool.false_ne_true, hstop]
      have hover : (s.stopStroke.overlaid L base).currentCommand =
          s.stopStroke.currentCommand := rfl
      rw [hover]
      cases s.stopStroke.currentCommand with
      | some cmd => rfl
      | none =>
        simp only [apply_ite (Option.map (overlaid L base)), Option.map_some]
        rfl

theorem setMode_over (mode : BrushMode)
    (h : s.brush.group.isSome → ∀ tile ∈ tilesOf s.currentCommand, L tile) :
    (s.overlaid L base).setMode mode = (s.setMode mode).overlaid L base := by
  unfold setMode
  rw [stopStroke_over h]
  dsimp only [overlaid]
  cases s.brush.group with
  | none => rfl
  | some group => rfl

theorem setEnabled_over (enabled : Bool)
    (h : s.brush.group.isSome ∧ enabled = false → ∀ tile ∈ tilesOf s.currentCommand, L tile) :
    (s.overlaid L base).setEnabled enabled = (s.setEnabled enabled).overlaid L base := by
  cases enabled with
  | true => rfl
  | false =>
    exact stopStroke_over (s := { s with brush := { s.brush with enabled := false } })
      fun hsome => h ⟨hsome, rfl⟩

theorem undo_over (h : ∀ tile ∈ tilesOf s.stack.done.head?, L tile) :
    (s.overlaid L base).undo = s.undo.overlaid L base := by
  unfold undo UndoStack.undo
  dsimp only [overlaid]
  cases hdone : s.stack.done with
  | nil => rfl
  | cons cmd done =>
    rw [hdone] at h
    have hundo : cmd.undo (overMaps L base s.maps) =
        ((cmd.undo s.maps).1, overMaps L base (cmd.undo s.maps).2) := Edit.applyDeltas_overMaps h
    simp only [hundo]

theorem redo_over (h : ∀ tile ∈ tilesOf s.stack.undone.head?, L tile) :
    (s.overlaid L base).redo = s.redo.overlaid L base := by
  unfold redo UndoStack.redo
  dsimp only [overlaid]
  cases hundone : s.stack.undone with
  | nil => rfl
  | cons cmd undone =>
    rw [hundone] at h
    have hredo : cmd.redo (overMaps L base s.maps) =
        ((cmd.redo s.maps).1, overMaps L base (cmd.redo s.maps).2) := Edit.applyDeltas_overMaps h
    simp only [hredo]

/-- A call does the same on the tiles it finds, whatever there is elsewhere, if it finds those it
needs. -/
theorem step_over {i : Input} (h : ∀ tile ∈ s.neededTiles i, L tile) :
    (s.overlaid L base).step (G.only L) i = (s.step (G.only L) i).map (overlaid L base) := by
  have hends (hends : i.endsStroke s.brush = true)
      (hneeded : s.neededTiles i = if i.endsStroke s.brush then tilesOf s.currentCommand else []) :
      ∀ tile ∈ tilesOf s.currentCommand, L tile := by
    rwa [hneeded, if_pos hends] at h
  cases i with
  | startStroke =>
    exact startStroke_over fun hstart => hends (by simpa [Input.endsStroke] using hstart) rfl
  | update hit average shift => exact update_over hit average shift
  | stopStroke => exact congrArg some (stopStroke_over fun hsome => hends hsome rfl)
  | setMode mode => exact congrArg some (setMode_over mode fun hsome => hends hsome rfl)
  | setEnabled enabled =>
    refine congrArg some (setEnabled_over enabled fun hoff => hends ?_ rfl)
    simpa [Input.endsStroke] using hoff
  | setBlendLayer | setStrength | setSize | setHardness => rfl
  | undo => exact congrArg some (undo_over h)
  | redo => exact congrArg some (redo_over h)

end BrushSession

end NetSiege
