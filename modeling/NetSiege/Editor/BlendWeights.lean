import NetSiege.Editor.EditorRuns

/-!
# Blend weights (`brush.cpp`, `undocommands.cpp`)

`Brush::applyLayerBrush` cuts every weight it writes to the range from 0 to 1. `applyDeltas` cuts
nothing: it adds what a stroke added, or takes it away. The weights stay in the range all the same,
as long as `undo` and `redo` are called between strokes, since every part of the history was a state
of the maps once (`weights_of_run`).
-/

namespace NetSiege

open Lib

variable {γ : Type} [DecidableEq γ]

/-- The weights of all blend maps are between 0 and 1. -/
def WeightsInRange (maps : Maps γ) : Prop :=
  ∀ (i : MapId γ) layerIndex, i.kind = .blendmap layerIndex → ∀ k, 0 ≤ maps i k ∧ maps i k ≤ 1

omit [DecidableEq γ] in
/-- The loops over a rectangle keep what the loop body gives to every sample. -/
theorem forRect_of_forall {Q : Rat → Prop} {f : Nat → Nat → Rat → Rat} (rect : Rect) (size : Nat)
    (hf : ∀ ix iy v, Q (f ix iy v)) {data : Nat → Rat} (hdata : ∀ k, Q (data k)) :
    ∀ k, Q (forRect rect size f data k) := by
  have hloop {α : Type} (g : (Nat → Rat) → α → Nat → Rat)
      (hg : ∀ data x, (∀ k, Q (data k)) → ∀ k, Q (g data x k)) (xs : List α) (data : Nat → Rat)
      (hdata : ∀ k, Q (data k)) : ∀ k, Q (xs.foldl g data k) := by
    induction xs generalizing data with
    | nil => exact hdata
    | cons x xs ih => exact ih _ (hg data x hdata)
  refine hloop _ (fun data ix hdata => hloop _ (fun data iy hdata k => ?_) _ data hdata) _ data
    hdata
  obtain rfl | hne := eq_or_ne k (iy * size + ix)
  · rw [Function.update_self]
    exact hf ix iy _
  · rw [Function.update_of_ne hne]
    exact hdata k

namespace BrushSession

variable {G : Scene γ} {s s' : BrushSession γ} {group : γ} {tile : Tile} {initial : Maps γ}

/-- Where a brush is applied to a tile, the stack stays as it is and the weights stay in range. -/
def KeepsWeights (s s' : BrushSession γ) : Prop :=
  s'.stack = s.stack ∧ (WeightsInRange s.maps → WeightsInRange s'.maps)

theorem weightsInRange_update {maps : Maps γ} (h : WeightsInRange maps) {i : MapId γ}
    {data : Nat → Rat} (hdata : ∀ layerIndex, i.kind = .blendmap layerIndex →
      ∀ k, 0 ≤ data k ∧ data k ≤ 1) : WeightsInRange (Function.update maps i data) := by
  intro j layerIndex hkind k
  obtain rfl | hne := eq_or_ne j i
  · rw [Function.update_self]
    exact hdata layerIndex hkind k
  · rw [Function.update_of_ne hne]
    exact h j layerIndex hkind k

theorem keepsWeights_applyHeightBrush {position : Vector3} {average : Rat} {shift : Tile → Bool}
    (h : applyHeightBrush G group position average shift s tile = some s') : KeepsWeights s s' := by
  rw [applyHeightBrush] at h
  split at h
  · cases h
    exact ⟨rfl, id⟩
  · split at h
    · split at h
      · cases h
      · dsimp only at h
        split at h
        · cases h
          exact ⟨rfl, id⟩
        · cases h
          refine ⟨rfl, fun hs => weightsInRange_update hs fun _ hkind => ?_⟩
          cases hkind
    · cases h

/-- Every weight the brush writes is cut to the range. -/
theorem keepsWeights_applyLayerBrush {position : Vector3} {shift : Tile → Bool}
    (h : applyLayerBrush G group position shift s tile = some s') : KeepsWeights s s' := by
  rw [applyLayerBrush] at h
  split at h
  · cases h
    exact ⟨rfl, id⟩
  · split at h
    · split at h
      · cases h
      next layerIndex _ =>
      dsimp only at h
      split at h
      · cases h
        exact ⟨rfl, id⟩
      · cases h
        refine ⟨rfl, fun hs => weightsInRange_update hs fun _ _ => ?_⟩
        refine forRect_of_forall (Q := fun v => 0 ≤ v ∧ v ≤ 1) _ _ (fun ix iy v => ?_)
          (hs _ layerIndex rfl)
        grind
    · cases h

theorem keepsWeights_update {hit : Option Vector3} {average : Rat} {shift : Tile → Bool}
    (h : s.update G hit average shift = some s') : KeepsWeights s s' := by
  have hrun (f : BrushSession γ → Tile → Option (BrushSession γ))
      (hf : ∀ s tile s', f s tile = some s' → KeepsWeights s s') (slots : List Tile)
      (hslots : run f s slots = some s') : KeepsWeights s s' := by
    refine run_invariant (KeepsWeights s) (fun s1 tile s2 h1 hstep => ?_) ⟨rfl, id⟩ hslots
    obtain ⟨hstack, hkeeps⟩ := hf s1 tile s2 hstep
    exact ⟨hstack.trans h1.1, hkeeps ∘ h1.2⟩
  unfold BrushSession.update at h
  split at h
  · dsimp only at h
    split at h
    · exact hrun _ (fun _ _ _ => keepsWeights_applyHeightBrush) _ h
    · split at h
      · exact hrun _ (fun _ _ _ => keepsWeights_applyLayerBrush) _ h
      · cases h
        exact ⟨rfl, id⟩
  · cases h
    exact ⟨rfl, id⟩

/-! ## With a history -/

/-- The weights of the maps are in range, and so are those that undo and redo lead to. -/
structure Weighted (initial : Maps γ) (s : BrushSession γ) : Prop where
  accounts : Accounts initial { session := s }
  inRange : WeightsInRange s.maps
  history : s.stack.Within WeightsInRange Edit.effect initial

theorem Accounts.maps_eq (h : Accounts initial { session := s }) (hnone : s.currentCommand = none) :
    s.maps = initial + s.stack.total Edit.effect := by
  funext i
  have hmaps := (h.others i (by rw [monitors, hnone, Option.any_none])).2
  exact (add_zero _).symm.trans hmaps

theorem Weighted.of_stack (h : Weighted initial s) (haccounts : Accounts initial { session := s' })
    (hstack : s'.stack = s.stack) (hmaps : WeightsInRange s'.maps) : Weighted initial s' :=
  ⟨haccounts, hmaps, hstack ▸ h.history⟩

/-- Between strokes the maps are what the stack adds, which a part of its history is. -/
theorem Weighted.of_history (h : Weighted initial s)
    (haccounts : Accounts initial { session := s' })
    (hhistory : s'.stack.history = s.stack.history) (hnone : s'.currentCommand = none) :
    Weighted initial s' := by
  have hwithin : s'.stack.Within WeightsInRange Edit.effect initial := by
    rw [UndoStack.Within, hhistory]
    exact h.history
  refine ⟨haccounts, ?_, hwithin⟩
  rw [haccounts.maps_eq hnone]
  exact hwithin.total

theorem Weighted.stopStroke (h : Weighted initial s)
    (haccounts : Accounts initial { session := s.stopStroke }) :
    Weighted initial s.stopStroke := by
  cases hgroup : s.brush.group.isSome with
  | false => rwa [stopStroke_of_no_group hgroup]
  | true =>
    cases hcmd : s.currentCommand with
    | none => rwa [stopStroke_of_none hcmd]
    | some cmd =>
      have hstop := stopStroke_of_current hgroup hcmd (h.accounts.current cmd hcmd).2.2
      rw [hstop] at haccounts ⊢
      refine ⟨haccounts, h.inRange, h.history.push ?_⟩
      -- what the stack adds to the initial maps is there now
      rw [← haccounts.maps_eq rfl]
      exact h.inRange

/-- What one call does, between strokes if it is `undo` or `redo`. -/
theorem Weighted.step (h : Weighted initial s) {i : Input} (hstep : s.step G i = some s')
    (hbetween : i = .undo ∨ i = .redo → s.currentCommand = none) : Weighted initial s' := by
  have haccounts := Editor.accounts_step h.accounts hstep hbetween
  have hstopped {s1 : BrushSession γ} (h1 : Weighted initial s1) :
      Accounts initial { session := s1.stopStroke } :=
    Editor.accounts_step (G := G) (i := .stopStroke) h1.accounts rfl nofun
  cases i with
  | startStroke =>
    obtain ⟨-, rfl⟩ | ⟨-, -, rfl | ⟨cmd, -, -, -, rfl⟩⟩ := startStroke_cases hstep
    · exact h
    · exact h.stopStroke haccounts
    · have hstop := h.stopStroke (hstopped h)
      exact hstop.of_stack haccounts rfl hstop.inRange
  | update hit average shift =>
    obtain ⟨hstack, hkeeps⟩ := keepsWeights_update hstep
    exact h.of_stack haccounts hstack (hkeeps h.inRange)
  | stopStroke =>
    cases hstep
    exact h.stopStroke haccounts
  | setMode mode =>
    cases hstep
    obtain ⟨-, -, hstack, hmaps⟩ := setMode_fields s mode
    have hstop := h.stopStroke (hstopped h)
    exact hstop.of_stack haccounts hstack (hmaps ▸ hstop.inRange)
  | setEnabled enabled =>
    cases hstep
    have hbrush : Weighted initial { s with brush := { s.brush with enabled } } :=
      h.of_stack (h.accounts.congr_brush rfl rfl rfl rfl) rfl h.inRange
    cases enabled with
    | true => exact hbrush
    | false => exact hbrush.stopStroke haccounts
  | setBlendLayer | setStrength | setSize | setHardness =>
    cases hstep
    exact h.of_stack haccounts rfl h.inRange
  | undo =>
    cases hstep
    exact h.of_history haccounts
      (UndoStack.history_undo (x := (s.stack, s.maps)) Edit.addsEffect h.accounts.settled)
      (hbetween (.inl rfl))
  | redo =>
    cases hstep
    exact h.of_history haccounts
      (UndoStack.history_redo (x := (s.stack, s.maps)) Edit.addsEffect h.accounts.settled)
      (hbetween (.inr rfl))

theorem weighted_start (brush : Brush γ) {maps : Maps γ} (h : WeightsInRange maps) :
    Weighted maps { brush, maps } := by
  refine ⟨accounts_start brush maps, h, fun done hdone => ?_⟩
  cases List.suffix_nil.1 hdone
  rwa [List.map_nil, List.sum_nil, add_zero]

end BrushSession

/-- The weights of the blend maps of a tile are between 0 and 1. -/
def ContentInRange (content : TileContent) : Prop :=
  ∀ layerIndex k, 0 ≤ content (.blendmap layerIndex) k ∧ content (.blendmap layerIndex) k ≤ 1

namespace Editor

variable {G : Scene Unit} {flat : TileContent} {inWorld : Bool} {e : Editor}

theorem weightsInRange_whole_iff : WeightsInRange (e.whole flat).maps ↔
    ∀ tile content, e.group.campaign.content flat tile = some content →
      ContentInRange content := by
  constructor
  · intro h tile content hcontent layerIndex k
    have hmap := h ⟨(), tile, .blendmap layerIndex⟩ layerIndex rfl k
    rw [whole_maps, hcontent] at hmap
    exact hmap
  · intro h i layerIndex hkind k
    rw [whole_maps]
    split
    · next content hcontent =>
      rw [hkind]
      exact h i.tile content hcontent layerIndex k
    · exact ⟨le_rfl, zero_le_one⟩

/-- The tiles of a campaign that was opened are those of its files, and flat ones. -/
theorem contentInRange_opened (brush : Brush Unit) (definedTerrainSlots : List Tile)
    {files : TilePath → Option TileContent} (generated : Tile → Option TileContent)
    (hflat : ContentInRange flat)
    (hfiles : ∀ path content, files path = some content → ContentInRange content) (tile : Tile)
    (content : TileContent)
    (h : (opened brush definedTerrainSlots files generated).group.campaign.content flat tile =
      some content) : ContentInRange content := by
  rw [CampaignManager.content_of_not_loaded rfl, CampaignManager.define] at h
  split at h
  · split at h
    · next hfile =>
      cases h
      exact hfiles _ _ hfile
    · split at h
      · next hfile =>
        cases h
        exact hfiles _ _ hfile
      · cases h
        exact hflat
  · cases h

/-- **Blend weights stay between 0 and 1.** If those of the files a campaign is opened with are, a
careful run with `undo` and `redo` between strokes only leaves every tile with such weights, in
memory or paged out, whatever was painted, undone, redone, paged and saved. -/
theorem weights_of_run {brush : Brush Unit} {definedTerrainSlots : List Tile}
    {files : TilePath → Option TileContent} {generated : Tile → Option TileContent}
    {is : List Input} (hflat : ContentInRange flat)
    (hfiles : ∀ path content, files path = some content → ContentInRange content)
    (hrun : run (step G flat inWorld)
      (opened brush definedTerrainSlots files generated) is = some e)
    (hcareful : Along (step G flat inWorld) (fun e i => e.Careful i ∧ e.betweenStrokes i)
      (opened brush definedTerrainSlots files generated) is) :
    ∀ tile content, e.group.campaign.content flat tile = some content →
      ContentInRange content := by
  have hopened : WeightsInRange
      ((opened brush definedTerrainSlots files generated).whole flat).maps :=
    weightsInRange_whole_iff.2
      (contentInRange_opened brush definedTerrainSlots generated hflat hfiles)
  obtain ⟨-, hweighted⟩ := hcareful.invariant
    (fun e => e.Sound flat ∧ BrushSession.Weighted
      ((opened brush definedTerrainSlots files generated).whole flat).maps (e.whole flat))
    (fun e i e' h hi hstep => by
      refine ⟨(h.1.step hi.1 hstep).1, ?_⟩
      obtain ⟨j, rfl, hwhole⟩ | ⟨-, hwhole⟩ := h.1.step_cases hi.1 hstep
      · exact h.2.step hwhole (betweenStrokes_call hi.2)
      · exact hwhole ▸ h.2)
    ⟨sound_opened brush definedTerrainSlots files generated,
      BrushSession.weighted_start brush hopened⟩ hrun
  exact weightsInRange_whole_iff.1 hweighted.inRange

/-- A brush that paints more than a weight can take. -/
def paintingBrush : Brush Unit where
  mode := .layerPaint
  height := 0
  group := some ()
  settings _ := ⟨200, 5, 0⟩
  blendLayer := 1

/-- A campaign of one tile, which will be painted. -/
def paintedTile : Editor := opened paintingBrush [⟨0, 0⟩] (fun _ => none) fun _ => none

/-- A stroke over the tile; with the shift key it takes weight away. -/
def paint (shift : Bool) : Input := .call (.update (some ⟨-1 / 2, 0, 1 / 2⟩) 0 fun _ => shift)

/-- The tile is painted, which is undone and redone, and paged out. -/
def paintedAndRedone : List Input :=
  [.loadPage ⟨0, 0⟩, .call .startStroke, paint false, .call .stopStroke, .call .undo, .call .redo,
    .unloadPage ⟨0, 0⟩ false]

/-- The weight is 1, and the tile in range. -/
theorem weights_of_run_painted : ∃ e content,
    run (step BrushSession.oneTile 0 false) paintedTile paintedAndRedone = some e ∧
      e.group.campaign.content 0 ⟨0, 0⟩ = some content ∧ content (.blendmap 1) 0 = 1 ∧
      ContentInRange content := by
  have hrun : (run (step BrushSession.oneTile 0 false) paintedTile paintedAndRedone).bind (fun e =>
      (e.group.campaign.content 0 ⟨0, 0⟩).map fun content => content (.blendmap 1) 0) =
        some 1 := by
    decide +kernel
  obtain ⟨e, he, hcontent⟩ := Option.bind_eq_some_iff.1 hrun
  obtain ⟨content, htile, hweight⟩ := Option.map_eq_some_iff.1 hcontent
  have hcareful : Along (step BrushSession.oneTile 0 false)
      (fun e i => e.Careful i ∧ e.betweenStrokes i) paintedTile paintedAndRedone := by
    refine along_of_check (c := fun e i => e.checkCareful i && e.betweenStrokes i)
      (fun e i h => ?_) (by decide +kernel)
    obtain ⟨hi, hbetween⟩ := Bool.and_eq_true_iff.1 h
    exact ⟨careful_of_check hi, hbetween⟩
  have hflat : ContentInRange 0 := fun _ _ => ⟨le_rfl, zero_le_one⟩
  refine ⟨e, content, he, htile, hweight, weights_of_run hflat (fun _ _ h => ?_) he hcareful _ _
    htile⟩
  cases h

-- the first stroke is undone during the second, which has taken its weight away
example : (run (step BrushSession.oneTile 0 false) paintedTile
    [.loadPage ⟨0, 0⟩, .call .startStroke, paint false, .call .stopStroke, .call .startStroke,
      paint true, .call .undo]).bind (fun e =>
    (e.group.campaign.content 0 ⟨0, 0⟩).map fun content => content (.blendmap 1) 0) =
      some (-1) := by
  decide +kernel

end Editor

end NetSiege
