import Mathlib.Algebra.BigOperators.Pi
import Mathlib.Data.Rat.Sqrt
import Mathlib.Tactic.LinearCombination
import NetSiege.Editor.Brush

/-!
# Undo and redo of brush strokes (`brush.cpp`, `undocommands.cpp`)

A command adds the difference between the content at the end of its stroke and the content when the
stroke first touched the map. What `undo` and `redo` did to the map in between is part of that
difference, though it belongs to other commands: `Audited` counts it beside the session, and
`historyExact_iff` says that the history is exact if and only if the counts are zero.
-/

namespace NetSiege

open Lib

variable {γ : Type} [DecidableEq γ]

/-! ## What a command adds -/

/-- The sum of the changes, each on its map. -/
def sumChanges (mapId : Tile → MapId γ) (changes : List Change) : Maps γ :=
  (changes.map fun change => Pi.single (mapId change.tile) change.deltaMap).sum

theorem sumChanges_cons {mapId : Tile → MapId γ} :
    sumChanges mapId (change :: changes) =
      Pi.single (mapId change.tile) change.deltaMap + sumChanges mapId changes := by
  simp [sumChanges]

theorem sumChanges_of_not_mem {mapId : Tile → MapId γ} {changes : List Change} {i : MapId γ}
    (h : ∀ change ∈ changes, mapId change.tile ≠ i) : sumChanges mapId changes i = 0 := by
  induction changes with
  | nil => rfl
  | cons change changes ih =>
    obtain ⟨hne, hrest⟩ := List.forall_mem_cons.1 h
    rw [sumChanges_cons, Pi.add_apply, Pi.single_eq_of_ne hne.symm, ih hrest, zero_add]

/-- Where every tile has one change, the sum on its map is that change. -/
theorem sumChanges_of_mem {mapId : Tile → MapId γ} (hinj : Function.Injective mapId)
    {changes : List Change} (hnodup : (changes.map (·.tile)).Nodup) (h : change ∈ changes) :
    sumChanges mapId changes (mapId change.tile) = change.deltaMap := by
  induction changes with
  | nil => cases h
  | cons first changes ih =>
    obtain ⟨hfirst, hnodup⟩ := List.nodup_cons.1 hnodup
    rw [sumChanges_cons, Pi.add_apply]
    rcases List.mem_cons.1 h with rfl | hmem
    · rw [Pi.single_eq_same, sumChanges_of_not_mem, add_zero]
      intro other hother heq
      exact hfirst (List.mem_map.2 ⟨other, hother, hinj heq⟩)
    · have hne : mapId change.tile ≠ mapId first.tile := by
        intro heq
        exact hfirst (List.mem_map.2 ⟨change, hmem, hinj heq⟩)
      rw [Pi.single_eq_of_ne hne, zero_add, ih hnodup hmem]

theorem update_add_eq (maps : Maps γ) (i : MapId γ) (delta : Nat → Rat) :
    Function.update maps i (maps i + delta) = maps + Pi.single i delta := by
  funext j
  by_cases h : j = i
  · subst h
    rw [Function.update_self, Pi.add_apply, Pi.single_eq_same]
  · rw [Function.update_of_ne h, Pi.add_apply, Pi.single_eq_of_ne h, add_zero]

theorem update_sub_eq (maps : Maps γ) (i : MapId γ) (delta : Nat → Rat) :
    Function.update maps i (maps i - delta) = maps - Pi.single i delta := by
  rw [sub_eq_add_neg, update_add_eq, Pi.single_neg, ← sub_eq_add_neg]

namespace Edit

variable {e : Edit γ} {maps : Maps γ} {tile : Tile} {change : Change} {i : MapId γ}

/-- What the command adds to the maps. -/
def effect (e : Edit γ) : Maps γ := sumChanges e.mapId e.changes

/-- The command monitors the map. -/
def monitors (e : Edit γ) (i : MapId γ) : Bool :=
  e.changes.any fun change => e.mapId change.tile = i

/-- The command has one change for a tile. -/
def Distinct (e : Edit γ) : Prop := (e.changes.map (·.tile)).Nodup

omit [DecidableEq γ] in
theorem mapId_injective : Function.Injective e.mapId := by
  intro tile tile' h
  cases h
  rfl

theorem monitors_iff : e.monitors i = true ↔ ∃ change ∈ e.changes, e.mapId change.tile = i := by
  simp [monitors]

/-- Commands on the stack have had their first `redo`. -/
theorem applyDeltas_eq (add : Bool) (h : e.firstRedo = false) :
    e.applyDeltas add maps = (e, if add then maps + e.effect else maps - e.effect) := by
  have hfold : ∀ (changes : List Change) (maps : Maps γ),
      changes.foldl (fun maps change =>
        let heightmap := maps (e.mapId change.tile)
        Function.update maps (e.mapId change.tile)
          (if add then heightmap + change.deltaMap else heightmap - change.deltaMap)) maps =
        if add then maps + sumChanges e.mapId changes
        else maps - sumChanges e.mapId changes := by
    intro changes
    induction changes with
    | nil => cases add <;> simp [sumChanges]
    | cons change changes ih =>
      intro maps
      rw [List.foldl_cons, ih, sumChanges_cons]
      cases add with
      | true => exact (congrArg (· + _) (update_add_eq maps _ _)).trans (add_assoc _ _ _)
      | false => exact (congrArg (· - _) (update_sub_eq maps _ _)).trans (sub_sub _ _ _)
  rw [applyDeltas, h, if_neg Bool.false_ne_true, hfold, effect]

theorem addsEffect :
    UndoStack.AddsEffect (S := Maps γ) redo undo (fun e => e.firstRedo = false) effect :=
  ⟨fun _ _ h => applyDeltas_eq true h, fun _ _ h => applyDeltas_eq false h⟩

theorem effect_of_not_monitors (h : e.monitors i = false) : e.effect i = 0 := by
  refine sumChanges_of_not_mem fun change hchange heq => ?_
  rw [monitors_iff.2 ⟨change, hchange, heq⟩] at h
  cases h

/-- After `finalize`, the effect on a monitored map is its content less the content it had when it
was first touched. -/
theorem effect_finalize (hdistinct : e.Distinct) (h : change ∈ e.changes) :
    (e.finalize maps).effect (e.mapId change.tile) =
      maps (e.mapId change.tile) - change.deltaMap := by
  have hnodup : ((e.finalize maps).changes.map (·.tile)).Nodup := by
    rwa [finalize, List.map_map]
  exact sumChanges_of_mem (mapId_injective (e := e)) hnodup (List.mem_map_of_mem h)

theorem monitors_finalize : (e.finalize maps).monitors i = e.monitors i := by
  rw [monitors, finalize, List.any_map]
  rfl

/-- A tile is monitored from its first touch on. -/
theorem monitorTerrain_cases (e : Edit γ) (maps : Maps γ) (tile : Tile) :
    e.monitors (e.mapId tile) = true ∧ e.monitorTerrain maps tile = e ∨
      (∀ change ∈ e.changes, change.tile ≠ tile) ∧ e.monitors (e.mapId tile) = false ∧
        e.monitorTerrain maps tile =
          { e with changes := e.changes ++ [⟨tile, maps (e.mapId tile)⟩] } := by
  have hany : (e.changes.any fun change => decide (change.tile = tile)) =
      e.monitors (e.mapId tile) := by
    simp only [monitors, mapId_injective.eq_iff]
  rw [monitorTerrain, hany]
  cases h : e.monitors (e.mapId tile) with
  | true => exact .inl ⟨rfl, if_pos rfl⟩
  | false =>
    refine .inr ⟨fun change hchange heq => ?_, rfl, if_neg Bool.false_ne_true⟩
    rw [monitors_iff.2 ⟨change, hchange, congrArg e.mapId heq⟩] at h
    cases h

end Edit

/-! ## The session with what it has lost -/

/-- A session, the deltas `undo` and `redo` have taken from or added to each map since the current
stroke monitors it, and the sum of these over the strokes that have ended. -/
structure Audited (γ : Type) where
  session : BrushSession γ
  drift : Maps γ := 0
  lost : Maps γ := 0

namespace BrushSession

/-- The current command monitors the map. -/
def monitors (s : BrushSession γ) (i : MapId γ) : Bool := s.currentCommand.any (·.monitors i)

/-- The call ends a stroke that is in progress. -/
def Input.endsStroke (b : Brush γ) : Input → Bool
  | .startStroke => b.group.isSome && b.enabled
  | .stopStroke | .setMode _ => b.group.isSome
  | .setEnabled enabled => b.group.isSome && !enabled
  | _ => false

/-- What `undo` or `redo` changes: the deltas of the command that is undone or redone. -/
def recordedDelta (s : BrushSession γ) : Input → Maps γ
  | .undo => -s.stack.latest Edit.effect
  | .redo => s.stack.next Edit.effect
  | _ => 0

/-- The counts after a call that leads to the session `s`. -/
def audit (a : Audited γ) (i : Input) (s : BrushSession γ) : Audited γ :=
  match i with
  | .undo | .redo => { a with
      session := s
      drift := fun id => if a.session.monitors id then a.drift id + a.session.recordedDelta i id
        else 0 }
  | _ =>
    if i.endsStroke a.session.brush then { session := s, lost := a.lost + a.drift }
    else { a with session := s }

/-- A step of the session with its counts. -/
def auditedStep (G : Scene γ) (a : Audited γ) (i : Input) : Option (Audited γ) :=
  (a.session.step G i).map (audit a i)

/-- While no stroke is in progress, undoing every command on the stack brings back the initial
content, and redoing them brings back the content there was. -/
def HistoryExact (initial : Maps γ) (s : BrushSession γ) : Prop :=
  s.currentCommand = none →
    ((UndoStack.undo Edit.undo)^[s.stack.done.length] (s.stack, s.maps)).2 = initial ∧
    ((UndoStack.redo Edit.redo)^[s.stack.done.length]
      ((UndoStack.undo Edit.undo)^[s.stack.done.length] (s.stack, s.maps))).2 = s.maps

/-- The accounts of a session: apart from what was lost, a map has its initial content with all that
the done commands added, and so had a map the current command monitors when it was first touched,
apart from its drift. -/
structure Accounts (initial : Maps γ) (a : Audited γ) : Prop where
  settled : a.session.stack.All (·.firstRedo = false)
  current : ∀ cmd, a.session.currentCommand = some cmd →
    a.session.brush.group = some cmd.terrainGroup ∧ cmd.Distinct ∧ cmd.firstRedo = true
  monitored : ∀ cmd, a.session.currentCommand = some cmd → ∀ change ∈ cmd.changes,
    change.deltaMap + a.drift (cmd.mapId change.tile) + a.lost (cmd.mapId change.tile) =
      initial (cmd.mapId change.tile) +
        a.session.stack.total Edit.effect (cmd.mapId change.tile)
  others : ∀ i, a.session.monitors i = false → a.drift i = 0 ∧
    a.session.maps i + a.lost i = initial i + a.session.stack.total Edit.effect i

variable {G : Scene γ} {initial : Maps γ} {a : Audited γ} {s s' : BrushSession γ}

/-- The accounts do not look at the brush, but for its group. -/
theorem Accounts.congr_brush (h : Accounts initial a)
    (hcmd : s.currentCommand = a.session.currentCommand)
    (hgroup : s.brush.group = a.session.brush.group) (hstack : s.stack = a.session.stack)
    (hmaps : s.maps = a.session.maps) : Accounts initial { a with session := s } := by
  obtain ⟨brush, cmd, stack, maps⟩ := s
  cases hcmd
  cases hstack
  cases hmaps
  exact ⟨h.settled, fun cmd hcmd => hgroup ▸ h.current cmd hcmd, h.monitored, h.others⟩

theorem monitors_of_current {cmd : Edit γ} (hcmd : s.currentCommand = some cmd) (i : MapId γ) :
    s.monitors i = cmd.monitors i := by
  rw [monitors, hcmd, Option.any_some]

/-- A map is monitored with the content it has before the brush writes it. -/
theorem Accounts.touch (h : Accounts initial a) (ht : a.session.Touches s) :
    Accounts initial { a with session := s } := by
  obtain ⟨cmd, tile, data, brush, hcmd, hbrush, rfl⟩ := ht
  obtain ⟨hgroup, hdistinct, hfirst⟩ := h.current cmd hcmd
  have hbefore := monitors_of_current hcmd
  obtain ⟨hmon, heq⟩ | ⟨hnew, hmon, heq⟩ := cmd.monitorTerrain_cases a.session.maps tile
  · rw [heq]
    refine ⟨h.settled, ?_, ?_, fun i hi => ?_⟩
    · rintro _ ⟨⟩
      exact ⟨hbrush.trans hgroup, hdistinct, hfirst⟩
    · rintro _ ⟨⟩
      exact h.monitored cmd hcmd
    · have hne : i ≠ cmd.mapId tile := by
        rintro rfl
        cases hi.symm.trans hmon
      obtain ⟨hdrift, hmaps⟩ := h.others i ((hbefore i).trans hi)
      exact ⟨hdrift, (congrArg (· + a.lost i) (Function.update_of_ne hne _ _)).trans hmaps⟩
  · obtain ⟨hdrift, hmaps⟩ := h.others _ ((hbefore _).trans hmon)
    rw [heq]
    refine ⟨h.settled, ?_, ?_, fun i hi => ?_⟩
    · rintro _ ⟨⟩
      refine ⟨hbrush.trans hgroup, ?_, hfirst⟩
      rw [Edit.Distinct, List.map_append]
      refine hdistinct.append (List.nodup_singleton _) ?_
      simpa [List.disjoint_singleton] using hnew
    · rintro _ ⟨⟩ change hchange
      obtain hold | hlast := List.mem_append.1 hchange
      · exact h.monitored cmd hcmd change hold
      · cases List.mem_singleton.1 hlast
        change a.session.maps (cmd.mapId tile) + a.drift (cmd.mapId tile) + _ = _
        rw [hdrift, add_zero]
        exact hmaps
    · have hany : (cmd.changes ++ [Change.mk tile (a.session.maps (cmd.mapId tile))]).any
          (fun change => decide (cmd.mapId change.tile = i)) = false := hi
      rw [List.any_append, Bool.or_eq_false_iff] at hany
      have hne : cmd.mapId tile ≠ i := by simpa using hany.2
      obtain ⟨hdrift', hmaps'⟩ := h.others i ((hbefore i).trans hany.1)
      have hkept := Function.update_of_ne hne.symm data a.session.maps
      exact ⟨hdrift', (congrArg (· + a.lost i) hkept).trans hmaps'⟩

/-- `undo` and `redo` move the deltas of a command between the stack and the maps; they are the
drift of the maps the current command monitors. -/
theorem Accounts.history {stack : UndoStack (Edit γ)} {maps delta : Maps γ}
    (h : Accounts initial a) (hall : stack.All (·.firstRedo = false))
    (hdelta : maps = a.session.maps + delta)
    (hsub : maps - stack.total Edit.effect =
      a.session.maps - a.session.stack.total Edit.effect) :
    Accounts initial { a with
      session := { a.session with stack, maps }
      drift := fun id => if a.session.monitors id then a.drift id + delta id else 0 } := by
  have hdelta : ∀ i, maps i = a.session.maps i + delta i := congrFun hdelta
  have hmoved : ∀ i, maps i - stack.total Edit.effect i =
      a.session.maps i - a.session.stack.total Edit.effect i := congrFun hsub
  refine ⟨hall, h.current, fun cmd hcmd change hchange => ?_, fun i hi => ?_⟩
  · have hmon : a.session.monitors (cmd.mapId change.tile) = true := by
      rw [monitors_of_current (s := a.session) hcmd]
      exact Edit.monitors_iff.2 ⟨change, hchange, rfl⟩
    have hbefore := h.monitored cmd hcmd change hchange
    dsimp only
    rw [if_pos hmon]
    linear_combination hbefore + hmoved (cmd.mapId change.tile) - hdelta (cmd.mapId change.tile)
  · obtain ⟨-, hbefore⟩ := h.others i hi
    have hmon : ¬ a.session.monitors i = true := by
      rw [Bool.not_eq_true]
      exact hi
    dsimp only
    rw [if_neg hmon]
    exact ⟨rfl, by linear_combination hbefore + hmoved i⟩

theorem stopStroke_of_current {cmd : Edit γ} (hgroup : s.brush.group.isSome)
    (hcmd : s.currentCommand = some cmd) (hfirst : cmd.firstRedo = true) :
    s.stopStroke = { s with
      stack := ⟨{ cmd.finalize s.maps with firstRedo := false } :: s.stack.done, []⟩
      currentCommand := none } := by
  obtain ⟨group, hgroup⟩ := Option.isSome_iff_exists.1 hgroup
  have hredo : (cmd.finalize s.maps).redo s.maps =
      ({ cmd.finalize s.maps with firstRedo := false }, s.maps) := if_pos hfirst
  simp only [stopStroke, hgroup, hcmd, UndoStack.push, hredo]

theorem stopStroke_of_none (hcmd : s.currentCommand = none) : s.stopStroke = s := by
  unfold stopStroke
  rw [hcmd]
  split
  · next h => cases h
  · rfl

/-- The command of a stroke that ends is pushed with its deltas; its drift is lost. -/
theorem Accounts.stopStroke (h : Accounts initial a) (hgroup : a.session.brush.group.isSome) :
    Accounts initial { session := a.session.stopStroke, lost := a.lost + a.drift } ∧
      a.session.stopStroke.currentCommand = none := by
  cases hcmd : a.session.currentCommand with
  | none =>
    have hmon : ∀ i, a.session.monitors i = false := fun i => by
      rw [monitors, hcmd, Option.any_none]
    have hdrift : a.drift = 0 := funext fun i => (h.others i (hmon i)).1
    rw [stopStroke_of_none hcmd, hdrift, add_zero]
    refine ⟨⟨h.settled, h.current, fun cmd hcmd' => ?_, fun i hi => ⟨rfl, (h.others i hi).2⟩⟩, hcmd⟩
    cases hcmd.symm.trans hcmd'
  | some cmd =>
    obtain ⟨-, hdistinct, hfirst⟩ := h.current cmd hcmd
    rw [stopStroke_of_current hgroup hcmd hfirst]
    refine ⟨⟨⟨List.forall_mem_cons.2 ⟨rfl, h.settled.1⟩, ?_⟩, ?_, ?_, fun i _ => ⟨rfl, ?_⟩⟩, rfl⟩
    · rintro _ ⟨⟩
    · rintro _ ⟨⟩
    · rintro _ ⟨⟩
    · have htotal : (UndoStack.mk ({ cmd.finalize a.session.maps with firstRedo := false } ::
          a.session.stack.done) []).total Edit.effect i =
            (cmd.finalize a.session.maps).effect i + a.session.stack.total Edit.effect i := by
        rw [UndoStack.total, List.map_cons, List.sum_cons]
        rfl
      change a.session.maps i + (a.lost i + a.drift i) = initial i + _
      rw [htotal]
      cases hmon : cmd.monitors i with
      | true =>
        obtain ⟨change, hchange, rfl⟩ := Edit.monitors_iff.1 hmon
        have hbefore := h.monitored cmd hcmd change hchange
        rw [Edit.effect_finalize hdistinct hchange]
        linear_combination hbefore
      | false =>
        obtain ⟨hdrift, hbefore⟩ := h.others i ((monitors_of_current hcmd i).trans hmon)
        rw [Edit.effect_of_not_monitors (Edit.monitors_finalize.trans hmon), hdrift]
        linear_combination hbefore

/-- A new command monitors nothing yet. -/
theorem Accounts.startCommand {cmd : Edit γ} (h : Accounts initial a)
    (hnone : a.session.currentCommand = none)
    (hgroup : a.session.brush.group = some cmd.terrainGroup)
    (hempty : cmd.changes = []) (hfirst : cmd.firstRedo = true) :
    Accounts initial { a with session := { a.session with currentCommand := some cmd } } := by
  have hothers := fun i => h.others i (by rw [monitors, hnone, Option.any_none])
  refine ⟨h.settled, ?_, ?_, fun i _ => hothers i⟩
  · rintro _ ⟨⟩
    exact ⟨hgroup, by simp [Edit.Distinct, hempty], hfirst⟩
  · rintro _ ⟨⟩ change hchange
    rw [hempty] at hchange
    cases hchange

theorem stopStroke_brush (s : BrushSession γ) : s.stopStroke.brush = s.brush := by
  unfold stopStroke
  split <;> rfl

theorem stopStroke_of_no_group (hgroup : s.brush.group.isSome = false) : s.stopStroke = s := by
  unfold stopStroke
  split
  · next h _ =>
    rw [h] at hgroup
    cases hgroup
  · rfl

/-- `stopStroke`, with and without a group. -/
theorem Accounts.endStroke (h : Accounts initial a) (hbrush : s.brush.group = a.session.brush.group)
    (hcmd : s.currentCommand = a.session.stopStroke.currentCommand)
    (hstack : s.stack = a.session.stopStroke.stack) (hmaps : s.maps = a.session.stopStroke.maps) :
    Accounts initial (if a.session.brush.group.isSome then
      { session := s, lost := a.lost + a.drift } else { a with session := s }) := by
  cases hgroup : a.session.brush.group.isSome with
  | true =>
    rw [if_pos rfl]
    rw [← stopStroke_brush a.session] at hbrush
    exact (h.stopStroke hgroup).1.congr_brush hcmd hbrush hstack hmaps
  | false =>
    rw [if_neg Bool.false_ne_true]
    rw [stopStroke_of_no_group hgroup] at hcmd hstack hmaps
    exact h.congr_brush hcmd hbrush hstack hmaps

/-- `setMode` is `stopStroke` for all but the brush. -/
theorem setMode_fields (s : BrushSession γ) (mode : BrushMode) :
    (s.setMode mode).currentCommand = s.stopStroke.currentCommand ∧
      (s.setMode mode).brush.group = s.brush.group ∧ (s.setMode mode).stack = s.stopStroke.stack ∧
      (s.setMode mode).maps = s.stopStroke.maps := by
  unfold setMode
  cases hgroup : s.brush.group with
  | none =>
    rw [stopStroke_of_no_group (by rw [hgroup]; rfl)]
    exact ⟨rfl, hgroup, rfl, rfl⟩
  | some group => exact ⟨rfl, (congrArg Brush.group (stopStroke_brush s)).trans hgroup, rfl, rfl⟩

/-- After `startStroke`, the brush has stopped the stroke before and has a new command or none. -/
theorem startStroke_cases (h : s.startStroke = some s') :
    (s.brush.group.isSome && s.brush.enabled) = false ∧ s' = s ∨
      (s.brush.group.isSome && s.brush.enabled) = true ∧ s.stopStroke.currentCommand = none ∧
        (s' = s.stopStroke ∨ ∃ cmd : Edit γ, s.brush.group = some cmd.terrainGroup ∧
          cmd.changes = [] ∧ cmd.firstRedo = true ∧
          s' = { s.stopStroke with currentCommand := some cmd }) := by
  rw [startStroke] at h
  split at h
  · next hgroup =>
    cases h
    exact .inl ⟨by rw [hgroup]; rfl, rfl⟩
  · next group hgroup =>
    split at h
    · next henabled =>
      cases h
      exact .inl ⟨by simpa [hgroup] using henabled, rfl⟩
    · next henabled =>
      have hends : (s.brush.group.isSome && s.brush.enabled) = true := by
        rw [hgroup]
        simpa using henabled
      dsimp only at h
      split at h
      · cases h
      · next hnone =>
        refine .inr ⟨hends, hnone, ?_⟩
        split at h
        · cases h
          exact .inr ⟨.heightmapEdit group, hgroup, rfl, rfl, rfl⟩
        · split at h
          · cases h
            exact .inr ⟨.blendmapEdit group _, hgroup, rfl, rfl, rfl⟩
          · cases h
            exact .inl rfl

/-- The nine calls of `update` touch maps one after the other. -/
theorem Accounts.update {hit : Option Vector3} {average : Rat} {shift : Tile → Bool}
    (h : Accounts initial a) (hupdate : a.session.update G hit average shift = some s) :
    Accounts initial { a with session := s } := by
  have htouch : ∀ (f : BrushSession γ → Tile → Option (BrushSession γ)) group,
      (∀ s tile s', (∀ cmd, s.currentCommand = some cmd → cmd.terrainGroup = group) →
        f s tile = some s' → s' = s ∨ s.Touches s') →
      a.session.brush.group = some group → ∀ slots, run f a.session slots = some s →
      Accounts initial { a with session := s } := by
    intro f group hf hgroup slots hrun
    refine (run_invariant (fun s => s.brush.group = some group ∧
      Accounts initial { a with session := s }) ?_ ⟨hgroup, h⟩ hrun).2
    rintro s tile s' ⟨hs, hacc⟩ hstep
    have hcmd : ∀ cmd, s.currentCommand = some cmd → cmd.terrainGroup = group := by
      intro cmd hcmd
      exact Option.some.inj ((hacc.current cmd hcmd).1.symm.trans hs)
    obtain rfl | ht := hf s tile s' hcmd hstep
    · exact ⟨hs, hacc⟩
    · refine ⟨?_, hacc.touch ht⟩
      obtain ⟨_, _, _, brush, -, hbrush, rfl⟩ := ht
      exact hbrush.trans hs
  unfold BrushSession.update at hupdate
  split at hupdate
  · next cmd group position hcmd hgroup =>
    dsimp only at hupdate
    split at hupdate
    · exact htouch _ group (fun _ _ _ => applyHeightBrush_cases) hgroup _ hupdate
    · split at hupdate
      · exact htouch _ group (fun _ _ _ => applyLayerBrush_cases) hgroup _ hupdate
      · cases hupdate
        exact h
  · cases hupdate
    exact h

/-- **What one call does**: the accounts are kept. -/
theorem Accounts.auditedStep {a' : Audited γ} {i : Input} (h : Accounts initial a)
    (hstep : auditedStep G a i = some a') : Accounts initial a' := by
  obtain ⟨s, hs, rfl⟩ := Option.map_eq_some_iff.1 hstep
  cases i with
  | startStroke =>
    change Accounts initial (if a.session.brush.group.isSome && a.session.brush.enabled then _
      else _)
    obtain ⟨hends, rfl⟩ | ⟨hends, hnone, hs'⟩ := startStroke_cases hs
    · rw [if_neg (Bool.eq_false_iff.1 hends)]
      exact h
    · have hgroup := (Bool.and_eq_true_iff.1 hends).1
      have hstop := (h.stopStroke hgroup).1
      rw [if_pos hends]
      obtain rfl | ⟨cmd, hcmd, hempty, hfirst, rfl⟩ := hs'
      · exact hstop
      · exact hstop.startCommand hnone
          ((congrArg Brush.group (stopStroke_brush _)).trans hcmd) hempty hfirst
  | update hit average shift => exact h.update hs
  | stopStroke =>
    cases hs
    exact h.endStroke (congrArg Brush.group (stopStroke_brush _)) rfl rfl rfl
  | setMode mode =>
    cases hs
    change Accounts initial (if a.session.brush.group.isSome then _ else _)
    obtain ⟨hcmd, hbrush, hstack, hmaps⟩ := setMode_fields a.session mode
    exact h.endStroke hbrush hcmd hstack hmaps
  | setEnabled enabled =>
    cases hs
    have hbrush : Accounts initial { a with
        session := { a.session with brush := { a.session.brush with enabled } } } :=
      h.congr_brush rfl rfl rfl rfl
    change Accounts initial (if a.session.brush.group.isSome && !enabled then _ else _)
    cases enabled with
    | true =>
      rw [if_neg (by simp)]
      exact hbrush
    | false =>
      have hend := hbrush.endStroke (congrArg Brush.group (stopStroke_brush _)) rfl rfl rfl
      rw [Bool.not_false, Bool.and_true]
      exact hend
  | setBlendLayer layer | setStrength x | setSize x | setHardness x =>
    cases hs
    exact h.congr_brush rfl rfl rfl rfl
  | undo =>
    cases hs
    have hdelta := UndoStack.undo_snd (x := (a.session.stack, a.session.maps)) Edit.addsEffect
      h.settled
    exact h.history (UndoStack.all_undo Edit.addsEffect h.settled)
      (hdelta.trans (sub_eq_add_neg _ _)) (UndoStack.undo_sub_total Edit.addsEffect h.settled)
  | redo =>
    cases hs
    exact h.history (UndoStack.all_redo Edit.addsEffect h.settled)
      (UndoStack.redo_snd Edit.addsEffect h.settled)
      (UndoStack.redo_sub_total Edit.addsEffect h.settled)

/-! ## Runs -/

/-- The session does not see its counts. -/
theorem run_auditedStep (G : Scene γ) (a : Audited γ) (is : List Input) :
    (run (auditedStep G) a is).map (·.session) = run (step G) a.session is := by
  induction is generalizing a with
  | nil => rfl
  | cons i is ih =>
    rw [run_cons, run_cons, auditedStep]
    cases hstep : a.session.step G i with
    | none => rfl
    | some s =>
      have hsession : (audit a i s).session = s := by
        unfold audit
        split
        · rfl
        · rfl
        · split <;> rfl
      exact (ih (audit a i s)).trans (by rw [hsession]; rfl)

/-- While no stroke is in progress, the history is exact if and only if nothing was lost. -/
theorem Accounts.exact_iff (h : Accounts initial a)
    (hnone : a.session.currentCommand = none) :
    HistoryExact initial a.session ↔ a.lost = 0 := by
  have hundo := UndoStack.undo_all_snd (x := (a.session.stack, a.session.maps)) Edit.addsEffect
    h.settled
  have hredo := UndoStack.redo_undo_iterate (x := (a.session.stack, a.session.maps))
    Edit.addsEffect h.settled (Nat.le_refl _)
  have hmaps : a.session.maps + a.lost = initial + a.session.stack.total Edit.effect :=
    funext fun i => (h.others i (by rw [monitors, hnone, Option.any_none])).2
  have hinitial : a.session.maps - a.session.stack.total Edit.effect = initial - a.lost :=
    sub_eq_sub_iff_add_eq_add.2 hmaps
  constructor
  · intro hexact
    have hback := hundo.symm.trans (hexact hnone).1
    rw [hinitial, sub_eq_self] at hback
    exact hback
  · intro hlost _
    refine ⟨hundo.trans ?_, congrArg Prod.snd hredo⟩
    rw [hinitial, hlost, sub_zero]

theorem accounts_start (brush : Brush γ) (maps : Maps γ) :
    Accounts maps { session := { brush, maps } } := by
  refine ⟨⟨?_, ?_⟩, ?_, ?_, fun i _ => ⟨rfl, ?_⟩⟩
  · rintro _ ⟨⟩
  · rintro _ ⟨⟩
  · rintro _ ⟨⟩
  · rintro _ ⟨⟩
  · rfl

/-- **Undo history is exact** in every state a run of calls reaches, from any brush and any content,
if and only if, whenever no stroke is in progress there, the deltas of the commands undone and
redone add up to nothing on every map, counted where a stroke in progress monitored it. -/
theorem historyExact_iff (G : Scene γ) (brush : Brush γ) (maps : Maps γ) (is : List Input) :
    (∀ pre s, pre <+: is → run (step G) { brush, maps } pre = some s → s.HistoryExact maps) ↔
      ∀ pre a, pre <+: is →
        run (auditedStep G) { session := { brush, maps } } pre = some a →
        a.session.currentCommand = none → a.lost = 0 := by
  have haccounts : ∀ pre a, run (auditedStep G) { session := { brush, maps } } pre = some a →
      Accounts maps a := fun pre a hrun =>
    run_invariant (Accounts maps) (fun _ _ _ h => h.auditedStep) (accounts_start brush maps) hrun
  have hproject := fun pre => run_auditedStep G { session := { brush, maps } } pre
  constructor
  · intro H pre a hpre hrun hnone
    have hs := hproject pre
    rw [hrun] at hs
    exact ((haccounts pre a hrun).exact_iff hnone).1 (H pre a.session hpre hs.symm)
  · intro H pre s hpre hrun hnone
    obtain ⟨a, ha, rfl⟩ := Option.map_eq_some_iff.1 ((hproject pre).trans hrun)
    exact ((haccounts pre a ha).exact_iff hnone).2 (H pre a hpre ha hnone) hnone

/-- A terrain of one tile with one sample. -/
def oneTile : Scene Unit where
  getTerrain _ tile := if tile = ⟨0, 0⟩ then some ⟨⟨0, 0, 0⟩, 1, 1, 1⟩ else none
  terrainSlot _ _ := ⟨0, 0⟩
  sqrt := Rat.sqrt

/-- A brush that raises it. -/
def raisingBrush : Brush Unit where
  mode := .heightRaise
  height := 0
  group := some ()
  settings := Brush.defaultSettings
  blendLayer := 0

/-- A stroke, and a second stroke on the same tile during which the first is undone. -/
def undoneStroke : List Input :=
  [.startStroke, .update (some ⟨-1 / 2, 0, 1 / 2⟩) 0 (fun _ => false), .stopStroke, .startStroke,
    .update (some ⟨-1 / 2, 0, 1 / 2⟩) 0 (fun _ => false), .undo, .stopStroke]

/-- The first stroke cannot be undone any more: its height is left. -/
theorem not_historyExact_undone : ¬ ∀ pre s, pre <+: undoneStroke →
    run (step oneTile) { brush := raisingBrush, maps := 0 } pre = some s → s.HistoryExact 0 := by
  intro H
  have hrun : (run (step oneTile) { brush := raisingBrush, maps := 0 } undoneStroke).map (fun s =>
      (s.currentCommand.isNone, ((UndoStack.undo Edit.undo)^[s.stack.done.length]
        (s.stack, s.maps)).2 ⟨(), ⟨0, 0⟩, .heightmap⟩ 0)) = some (true, 1 / 5) := by
    decide +kernel
  obtain ⟨s, hs, hval⟩ := Option.map_eq_some_iff.1 hrun
  obtain ⟨hnone, hleft⟩ := Prod.mk.inj hval
  have hback := (H undoneStroke s (List.prefix_refl _) hs (Option.isNone_iff_eq_none.1 hnone)).1
  rw [hback] at hleft
  revert hleft
  decide +kernel

end BrushSession

end NetSiege
