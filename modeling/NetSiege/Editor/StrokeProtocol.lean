import Mathlib.Data.List.Nodup
import NetSiege.Editor.UndoHistory

/-!
# The protocol of brush strokes (`brush.h`, `brush.cpp`)

The current command of the brush was made for its terrain group and for its mode, since every call
that changes one of them ends the stroke before. `StrokeSession` is the session of the brush with
any number of undo stacks, beside which every call is observed: which command `new` made, and what
came on top of the stack in use. `stroke_protocol` says what every sequence of calls keeps.
-/

namespace NetSiege

open Lib

variable {γ σ : Type} [DecidableEq γ]

/-- A command that came on top of a stack: the stack, the number of the command that was the current
one before, the session before, and the command on the stack. -/
structure PushedEdit (γ σ : Type) where
  undoStack : σ
  id : Option Nat
  before : BrushSession γ
  edit : Edit γ

/-- What is on the stack is the command that was the current one, finalized with the maps as they
were, and run for the first time. -/
def PushedEdit.Finalized (p : PushedEdit γ σ) : Prop :=
  ∃ cmd, p.before.currentCommand = some cmd ∧
    p.edit = { cmd.finalize p.before.maps with firstRedo := false }

/-- The commands that came on top of a stack. -/
def cameOnTop (before after : UndoStack (Edit γ)) : List (Edit γ) :=
  after.done.take (after.done.length - before.done.length)

/-- The session of a brush, the stack it pushes its commands on with the contents of all stacks, and
what was observed: the number of the current command, which is that of the commands created before
it, and what came on top of a stack. -/
structure StrokeSession (γ σ : Type) extends BrushSession γ where
  undoStack : σ
  stackOf : σ → UndoStack (Edit γ)
  currentId : Option Nat := none
  created : Nat := 0
  pushed : List (PushedEdit γ σ) := []

namespace StrokeSession

/-- A call that comes to a `new` if the current command is there after it. -/
def creates (s : StrokeSession γ σ) : BrushSession.Input → Bool
  | .startStroke => s.brush.group.isSome && s.brush.enabled
  | _ => false

/-- A call that moves the commands on the stack. -/
def moves : BrushSession.Input → Bool
  | .undo | .redo => true
  | _ => false

/-- What a call puts on top of the stack. -/
def onTop (s : StrokeSession γ σ) (i : BrushSession.Input) (after : BrushSession γ) :
    List (PushedEdit γ σ) :=
  if moves i then []
  else (cameOnTop s.stack after.stack).map (⟨s.undoStack, s.currentId, s.toBrushSession, ·⟩)

/-- The session after a call of the brush, with what is observed of it. -/
def observe (s : StrokeSession γ σ) (i : BrushSession.Input) (after : BrushSession γ) :
    StrokeSession γ σ :=
  let isNew := s.creates i && after.currentCommand.isSome
  { s with
    toBrushSession := after
    currentId :=
      if isNew then some s.created else if after.currentCommand.isSome then s.currentId else none
    created := if isNew then s.created + 1 else s.created
    pushed := s.pushed ++ s.onTop i after }

/-- `Brush::stopStroke`, observed. -/
def stopStroke (s : StrokeSession γ σ) : StrokeSession γ σ :=
  s.observe .stopStroke s.toBrushSession.stopStroke

/-- `Brush::setTerrainGroup`. -/
def setTerrainGroup (s : StrokeSession γ σ) (group : Option γ) : StrokeSession γ σ :=
  let s := s.stopStroke
  { s with brush := { s.brush with group } }

/-- `Brush::setUndoStack`. -/
def setUndoStack [DecidableEq σ] (s : StrokeSession γ σ) (undoStack : σ) : StrokeSession γ σ :=
  let s := s.stopStroke
  let stackOf := Function.update s.stackOf s.undoStack s.stack
  { s with undoStack, stackOf, stack := stackOf undoStack }

/-- The calls: those of a session with one group and one stack, and those that change these. -/
inductive Input (γ σ : Type) where
  | call (i : BrushSession.Input)
  | setTerrainGroup (group : Option γ)
  | setUndoStack (undoStack : σ)

/-- The session after a call, if no assertion fails. -/
def step [DecidableEq σ] (G : Scene γ) (s : StrokeSession γ σ) :
    Input γ σ → Option (StrokeSession γ σ)
  | .call i => (s.toBrushSession.step G i).map (s.observe i)
  | .setTerrainGroup group => some (s.setTerrainGroup group)
  | .setUndoStack undoStack => some (s.setUndoStack undoStack)

/-- A session in which no command was created. -/
def opened (brush : Brush γ) (maps : Maps γ) (undoStack : σ) (stackOf : σ → UndoStack (Edit γ)) :
    StrokeSession γ σ :=
  { brush, maps, undoStack, stackOf, stack := stackOf undoStack }

end StrokeSession

/-! ## What `update` does to a stroke -/

namespace BrushSession

variable {G : Scene γ} {s s' s'' : BrushSession γ} {group : γ} {kind : MapKind}

/-- The current command is of a kind and for a group. -/
def HasCommand (group : γ) (kind : MapKind) (s : BrushSession γ) : Prop :=
  ∃ cmd, s.currentCommand = some cmd ∧ cmd.terrainGroup = group ∧ cmd.kind = kind

/-- The current command is still there, with the maps it has recorded. -/
def Records (s s' : BrushSession γ) : Prop :=
  ∀ cmd, s.currentCommand = some cmd →
    ∃ cmd', s'.currentCommand = some cmd' ∧ cmd.changes <+: cmd'.changes

/-- The stroke goes on: the brush keeps its group and its mode, no map of another group is written,
and nothing is finalized or pushed. -/
structure GoesOn (group : γ) (s s' : BrushSession γ) : Prop where
  sameGroup : s'.brush.group = s.brush.group
  sameMode : s'.brush.mode = s.brush.mode
  sameStack : s'.stack = s.stack
  otherMaps : ∀ id : MapId γ, id.group ≠ group → s'.maps id = s.maps id
  recorded : s.Records s'

omit [DecidableEq γ] in
theorem GoesOn.refl (group : γ) (s : BrushSession γ) : GoesOn group s s :=
  ⟨rfl, rfl, rfl, fun _ _ => rfl, fun cmd hcmd => ⟨cmd, hcmd, List.prefix_rfl⟩⟩

omit [DecidableEq γ] in
theorem GoesOn.trans (h : GoesOn group s s') (h' : GoesOn group s' s'') : GoesOn group s s'' := by
  refine ⟨h'.sameGroup.trans h.sameGroup, h'.sameMode.trans h.sameMode,
    h'.sameStack.trans h.sameStack,
    fun id hid => (h'.otherMaps id hid).trans (h.otherMaps id hid), fun cmd hcmd => ?_⟩
  obtain ⟨cmd', hcmd', hprefix⟩ := h.recorded cmd hcmd
  obtain ⟨cmd'', hcmd'', hprefix'⟩ := h'.recorded cmd' hcmd'
  exact ⟨cmd'', hcmd'', hprefix.trans hprefix'⟩

theorem records_monitorTerrain {cmd : Edit γ} (hcmd : s.currentCommand = some cmd) {maps : Maps γ}
    {tile : Tile} (hcmd' : s'.currentCommand = some (cmd.monitorTerrain maps tile)) :
    s.Records s' := by
  intro cmd' hsame
  cases hcmd.symm.trans hsame
  refine ⟨_, hcmd', ?_⟩
  obtain ⟨-, heq⟩ | ⟨-, -, heq⟩ := cmd.monitorTerrain_cases maps tile
  · rw [heq]
  · rw [heq]
    exact List.prefix_append ..

theorem HasCommand.monitorTerrain {cmd : Edit γ} {maps : Maps γ} {tile : Tile}
    (hgroup : cmd.terrainGroup = group) (hkind : cmd.kind = kind) {brush : Brush γ}
    {stack : UndoStack (Edit γ)} {maps' : Maps γ} :
    HasCommand group kind ⟨brush, some (cmd.monitorTerrain maps tile), stack, maps'⟩ := by
  refine ⟨_, rfl, ?_⟩
  obtain ⟨-, heq⟩ | ⟨-, -, heq⟩ := cmd.monitorTerrain_cases maps tile
  · rw [heq]
    exact ⟨hgroup, hkind⟩
  · rw [heq]
    exact ⟨hgroup, hkind⟩

theorem goesOn_of_update {brush : Brush γ} {cmd : Edit γ} {tile : Tile} {data : Nat → Rat}
    (hcmd : s.currentCommand = some cmd) (hgroup : brush.group = s.brush.group)
    (hmode : brush.mode = s.brush.mode) :
    GoesOn group s ⟨brush, some (cmd.monitorTerrain s.maps tile), s.stack,
      Function.update s.maps ⟨group, tile, kind⟩ data⟩ := by
  refine ⟨hgroup, hmode, rfl, fun id hid => Function.update_of_ne ?_ _ _,
    records_monitorTerrain hcmd rfl⟩
  intro heq
  exact hid (congrArg MapId.group heq)

/-- The assertion of `applyHeightBrush` holds for a `HeightmapEdit`. -/
theorem applyHeightBrush_goesOn (h : HasCommand group .heightmap s) (position : Vector3)
    (average : Rat) (shift : Tile → Bool) (tile : Tile) :
    ∃ s', applyHeightBrush G group position average shift s tile = some s' ∧
      HasCommand group .heightmap s' ∧ GoesOn group s s' := by
  obtain ⟨cmd, hcmd, hgroup, hkind⟩ := h
  rw [applyHeightBrush]
  split
  · exact ⟨s, rfl, ⟨cmd, hcmd, hgroup, hkind⟩, .refl group s⟩
  · rw [hcmd]
    dsimp only
    rw [if_neg (not_not.2 hkind)]
    split
    · exact ⟨s, rfl, ⟨cmd, hcmd, hgroup, hkind⟩, .refl group s⟩
    · exact ⟨_, rfl, .monitorTerrain hgroup hkind, goesOn_of_update hcmd rfl rfl⟩

/-- The assertion of `applyLayerBrush` holds for a `BlendmapEdit`. -/
theorem applyLayerBrush_goesOn {layer : Int} (h : HasCommand group (.blendmap layer) s)
    (position : Vector3) (shift : Tile → Bool) (tile : Tile) :
    ∃ s', applyLayerBrush G group position shift s tile = some s' ∧
      HasCommand group (.blendmap layer) s' ∧ GoesOn group s s' := by
  obtain ⟨cmd, hcmd, hgroup, hkind⟩ := h
  rw [applyLayerBrush]
  split
  · exact ⟨s, rfl, ⟨cmd, hcmd, hgroup, hkind⟩, .refl group s⟩
  · rw [hcmd]
    dsimp only
    rw [hkind]
    dsimp only
    split
    · exact ⟨_, rfl, .monitorTerrain hgroup hkind,
        ⟨rfl, rfl, rfl, fun _ _ => rfl, records_monitorTerrain hcmd rfl⟩⟩
    · exact ⟨_, rfl, .monitorTerrain hgroup hkind, goesOn_of_update hcmd rfl rfl⟩

omit [DecidableEq γ] in
/-- The calls for the tiles around, one after the other. -/
theorem run_goesOn {f : BrushSession γ → Tile → Option (BrushSession γ)}
    (hf : ∀ s tile, HasCommand group kind s →
      ∃ s', f s tile = some s' ∧ HasCommand group kind s' ∧ GoesOn group s s')
    (h : HasCommand group kind s) (tiles : List Tile) :
    ∃ s', run f s tiles = some s' ∧ HasCommand group kind s' ∧ GoesOn group s s' := by
  induction tiles generalizing s with
  | nil => exact ⟨s, rfl, h, .refl group s⟩
  | cons tile tiles ih =>
    obtain ⟨s₁, h₁, hcmd₁, hon₁⟩ := hf s tile h
    obtain ⟨s₂, h₂, hcmd₂, hon₂⟩ := ih hcmd₁
    exact ⟨s₂, by rw [run_cons, h₁, Option.bind_some, h₂], hcmd₂, hon₁.trans hon₂⟩

/-- A command of the kind that a mode makes. -/
def FitsMode (mode : BrushMode) (kind : MapKind) : Prop :=
  mode.isHeight = true ∧ kind = .heightmap ∨
    mode.isHeight = false ∧ mode = .layerPaint ∧ ∃ layer, kind = .blendmap layer

/-- The current command is for the group of the brush and of the kind its mode makes. -/
def CommandFits (s : BrushSession γ) : Prop :=
  ∀ cmd, s.currentCommand = some cmd →
    s.brush.group = some cmd.terrainGroup ∧ FitsMode s.brush.mode cmd.kind

/-- What `update` does to a stroke: the command stays, nothing is pushed, and only maps of the group
it was made for are written. -/
structure Updates (s s' : BrushSession γ) : Prop where
  fits : s'.CommandFits
  sameCommand : s'.currentCommand.isSome = s.currentCommand.isSome
  sameStack : s'.stack = s.stack
  recorded : s.Records s'
  written : ∀ id, s'.maps id ≠ s.maps id →
    ∃ cmd, s.currentCommand = some cmd ∧ id.group = cmd.terrainGroup

theorem GoesOn.updates {cmd : Edit γ} (h : s.CommandFits) (hcmd : s.currentCommand = some cmd)
    (hcmd' : HasCommand cmd.terrainGroup cmd.kind s') (hon : GoesOn cmd.terrainGroup s s') :
    s.Updates s' := by
  obtain ⟨cmd', hcmd', hgroup', hkind'⟩ := hcmd'
  refine ⟨fun cmd'' hcmd'' => ?_, by rw [hcmd, hcmd']; rfl, hon.sameStack, hon.recorded,
    fun id hid => ⟨cmd, hcmd, ?_⟩⟩
  · cases hcmd'.symm.trans hcmd''
    rw [hon.sameGroup, hon.sameMode, hgroup', hkind']
    exact h cmd hcmd
  · by_contra hne
    exact hid (hon.otherMaps id hne)

/-- No assertion fails in `update`. -/
theorem update_of_commandFits (G : Scene γ) (h : s.CommandFits) (hit : Option Vector3)
    (average : Rat) (shift : Tile → Bool) :
    ∃ s', s.update G hit average shift = some s' ∧ s.Updates s' := by
  unfold update
  split
  · next cmd group position hcmd hgroup =>
    obtain ⟨hgroup', hfits⟩ := h cmd hcmd
    cases hgroup.symm.trans hgroup'
    dsimp only
    obtain ⟨hmode, hkind⟩ | ⟨hmode, hpaint, layer, hkind⟩ := hfits
    · rw [if_pos hmode]
      obtain ⟨s', hs', hcmd', hon⟩ := run_goesOn
        (fun s tile hs => applyHeightBrush_goesOn (G := G) hs position average shift tile)
        ⟨cmd, hcmd, rfl, hkind⟩ _
      exact ⟨s', hs', hon.updates h hcmd (hkind ▸ hcmd')⟩
    · rw [if_neg (Bool.not_eq_true _ ▸ hmode), if_pos hpaint]
      obtain ⟨s', hs', hcmd', hon⟩ := run_goesOn
        (fun s tile hs => applyLayerBrush_goesOn (G := G) hs position shift tile)
        ⟨cmd, hcmd, rfl, hkind⟩ _
      exact ⟨s', hs', hon.updates h hcmd (hkind ▸ hcmd')⟩
  · exact ⟨s, rfl, h, rfl, rfl, fun cmd hcmd => ⟨cmd, hcmd, List.prefix_rfl⟩,
      fun id hid => absurd rfl hid⟩

/-- A command that fits is finalized and pushed, and is not the current one any more. -/
theorem stopStroke_of_commandFits (h : s.CommandFits) : s.stopStroke.currentCommand = none ∧
    (s.currentCommand = none ∧ s.stopStroke.stack = s.stack ∨
      ∃ cmd, s.currentCommand = some cmd ∧ s.stopStroke.stack =
        ⟨{ cmd.finalize s.maps with firstRedo := false } :: s.stack.done, []⟩) := by
  cases hcmd : s.currentCommand with
  | none =>
    have hstop : s.stopStroke = s := by
      rw [stopStroke, hcmd]
      cases s.brush.group with
      | none => rfl
      | some group => rfl
    rw [hstop]
    exact ⟨hcmd, .inl ⟨rfl, rfl⟩⟩
  | some cmd =>
    have hgroup := (h cmd hcmd).1
    have hredo : ((cmd.finalize s.maps).redo s.maps).1 =
        { cmd.finalize s.maps with firstRedo := false } := by
      rw [Edit.redo, Edit.applyDeltas]
      split
      · rfl
      · next hfirst =>
        have hfalse : (cmd.finalize s.maps).firstRedo = false := Bool.eq_false_iff.2 hfirst
        rw [← hfalse]
    simp only [stopStroke, hgroup, hcmd, UndoStack.push, hredo, true_and]
    exact .inr ⟨cmd, rfl, rfl⟩

theorem stopStroke_setEnabled (s : BrushSession γ) (enabled : Bool) :
    ({ s with brush := { s.brush with enabled } } : BrushSession γ).stopStroke =
      { s.stopStroke with brush := { s.stopStroke.brush with enabled } } := by
  rcases s with ⟨brush, currentCommand, stack, maps⟩
  unfold stopStroke
  cases brush.group with
  | none => rfl
  | some group =>
    cases currentCommand with
    | none => rfl
    | some cmd => rfl

omit [DecidableEq γ] in
theorem commandFits_of_none (h : s.currentCommand = none) : s.CommandFits := by
  intro cmd hcmd
  rw [h] at hcmd
  cases hcmd

/-- The assertion of `startStroke` holds, and a new command is one for the group and the mode. -/
theorem startStroke_of_commandFits (h : s.CommandFits) : ∃ s', s.startStroke = some s' ∧
    ((s.brush.group.isSome && s.brush.enabled) = false ∧ s' = s ∨
      (s.brush.group.isSome && s.brush.enabled) = true ∧ s'.stack = s.stopStroke.stack ∧
        s'.CommandFits) := by
  obtain ⟨hnone, -⟩ := stopStroke_of_commandFits h
  have hbrush := stopStroke_brush s
  rw [startStroke]
  cases hgroup : s.brush.group with
  | none => exact ⟨s, rfl, .inl ⟨rfl, rfl⟩⟩
  | some group =>
    cases s.brush.enabled with
    | false => exact ⟨s, rfl, .inl ⟨rfl, rfl⟩⟩
    | true =>
      rw [← hbrush] at hgroup
      simp only [Bool.not_true, Bool.false_eq_true, if_false, hnone]
      split
      · next hmode =>
        refine ⟨_, rfl, .inr ⟨rfl, rfl, fun cmd hcmd => ?_⟩⟩
        cases hcmd
        exact ⟨hgroup, .inl ⟨hmode, rfl⟩⟩
      · next hmode =>
        split
        · next hpaint =>
          refine ⟨_, rfl, .inr ⟨rfl, rfl, fun cmd hcmd => ?_⟩⟩
          cases hcmd
          exact ⟨hgroup, .inr ⟨Bool.eq_false_iff.2 hmode, hpaint.1, _, rfl⟩⟩
        · exact ⟨_, rfl, .inr ⟨rfl, rfl, commandFits_of_none hnone⟩⟩

end BrushSession

/-! ## Every sequence of calls -/

namespace StrokeSession

variable {G : Scene γ} {s s' : StrokeSession γ σ} {after : BrushSession γ}

/-- Every command created was finalized and pushed once, in this order, but for the current one. -/
structure Ledger (s : StrokeSession γ σ) : Prop where
  finalized : ∀ p ∈ s.pushed, p.Finalized
  inOrder : s.currentCommand = none ∧ s.currentId = none ∧
      s.pushed.map (·.id) = (List.range s.created).map some ∨
    ∃ n, s.currentCommand.isSome ∧ s.currentId = some n ∧ s.created = n + 1 ∧
      s.pushed.map (·.id) = (List.range n).map some

/-- What every call keeps. -/
structure Sound (s : StrokeSession γ σ) : Prop where
  fits : s.toBrushSession.CommandFits
  ledger : s.Ledger

omit [DecidableEq γ] in
/-- The ledger does not look at the rest of the session. -/
theorem Ledger.congr (h : s.Ledger)
    (hcmd : s'.currentCommand.isSome = s.currentCommand.isSome) (hid : s'.currentId = s.currentId)
    (hcreated : s'.created = s.created) (hpushed : s'.pushed = s.pushed) : s'.Ledger := by
  refine ⟨hpushed ▸ h.finalized, ?_⟩
  rw [hid, hcreated, hpushed, ← Option.isNone_iff_eq_none, ← Option.not_isSome, hcmd,
    Option.not_isSome, Option.isNone_iff_eq_none]
  exact h.inOrder

omit [DecidableEq γ] in
theorem cameOnTop_self (stack : UndoStack (Edit γ)) : cameOnTop stack stack = [] := by
  rw [cameOnTop, Nat.sub_self, List.take_zero]

omit [DecidableEq γ] in
theorem cameOnTop_push (stack : UndoStack (Edit γ)) (cmd : Edit γ) :
    cameOnTop stack ⟨cmd :: stack.done, []⟩ = [cmd] := by
  rw [cameOnTop, List.length_cons, Nat.add_sub_cancel_left]
  rfl

/-- A stroke that is stopped: every command that was created was pushed by then. -/
theorem Sound.pushed_stopStroke (h : s.Sound) {i : BrushSession.Input} (hmoves : moves i = false)
    (hstack : after.stack = s.toBrushSession.stopStroke.stack) :
    (∀ p ∈ s.pushed ++ s.onTop i after, p.Finalized) ∧
      (s.pushed ++ s.onTop i after).map (·.id) = (List.range s.created).map some := by
  have honTop : s.onTop i after = (cameOnTop s.stack after.stack).map
      (⟨s.undoStack, s.currentId, s.toBrushSession, ·⟩) := by
    rw [onTop, hmoves, if_neg Bool.false_ne_true]
  rw [honTop, hstack]
  obtain ⟨-, ⟨hcmd, hstop⟩ | ⟨cmd, hcmd, hstop⟩⟩ :=
    BrushSession.stopStroke_of_commandFits h.fits
  · rw [hstop, cameOnTop_self, List.map_nil, List.append_nil]
    obtain ⟨-, -, hpushed⟩ | ⟨n, hsome, -, -, -⟩ := h.ledger.inOrder
    · exact ⟨h.ledger.finalized, hpushed⟩
    · rw [hcmd] at hsome
      cases hsome
  · rw [hstop, cameOnTop_push, List.map_singleton]
    obtain ⟨hnone, -, -⟩ | ⟨n, -, hid, hcreated, hpushed⟩ := h.ledger.inOrder
    · cases hcmd.symm.trans hnone
    refine ⟨fun p hp => ?_, ?_⟩
    · rcases List.mem_append.1 hp with hp | hp
      · exact h.ledger.finalized p hp
      · cases List.mem_singleton.1 hp
        exact ⟨cmd, hcmd, rfl⟩
    · rw [List.map_append, hpushed, hid, hcreated, List.range_succ, List.map_append]
      rfl

/-- A call that stops the stroke and makes no new command. -/
theorem Sound.observe_stopped (h : s.Sound) {i : BrushSession.Input} (hmoves : moves i = false)
    (hstack : after.stack = s.toBrushSession.stopStroke.stack)
    (hnone : after.currentCommand = none) :
    (s.observe i after).Sound ∧ (s.observe i after).currentCommand = none := by
  obtain ⟨hfinalized, hpushed⟩ := h.pushed_stopStroke hmoves hstack
  refine ⟨⟨BrushSession.commandFits_of_none hnone, hfinalized, .inl ⟨hnone, ?_, ?_⟩⟩, hnone⟩
  · simp only [observe, hnone, Option.isSome_none, Bool.and_false, Bool.false_eq_true, if_false]
  · simp only [observe, hnone, Option.isSome_none, Bool.and_false, Bool.false_eq_true, if_false]
    exact hpushed

/-- A call that stops the stroke and makes a new command. -/
theorem Sound.observe_created (h : s.Sound) {i : BrushSession.Input} (hcreates : s.creates i = true)
    (hstack : after.stack = s.toBrushSession.stopStroke.stack)
    (hsome : after.currentCommand.isSome) (hfits : after.CommandFits) :
    (s.observe i after).Sound := by
  have hmoves : moves i = false := by
    cases i with
    | startStroke => rfl
    | _ => cases hcreates
  obtain ⟨hfinalized, hpushed⟩ := h.pushed_stopStroke hmoves hstack
  refine ⟨hfits, hfinalized, .inr ⟨s.created, hsome, ?_, ?_, hpushed⟩⟩
  · simp only [observe, hcreates, hsome, Bool.and_self, if_true]
  · simp only [observe, hcreates, hsome, Bool.and_self, if_true]

omit [DecidableEq γ] in
/-- A call in which the stroke, if there is one, goes on. -/
theorem Sound.observe_goesOn (h : s.Sound) {i : BrushSession.Input}
    (hcreates : s.creates i = false) (honTop : s.onTop i after = [])
    (hcmd : after.currentCommand.isSome = s.currentCommand.isSome) (hfits : after.CommandFits) :
    (s.observe i after).Sound := by
  refine ⟨hfits, h.ledger.congr hcmd ?_ ?_ ?_⟩
  · simp only [observe, hcreates, Bool.false_and, Bool.false_eq_true, if_false, hcmd]
    obtain ⟨hnone, hid, -⟩ | ⟨n, hsome, -⟩ := h.ledger.inOrder
    · rw [hid, ite_self]
    · rw [if_pos hsome]
  · simp only [observe, hcreates, Bool.false_and, Bool.false_eq_true, if_false]
  · simp only [observe, honTop, List.append_nil]

theorem Sound.stopStroke (h : s.Sound) :
    s.stopStroke.Sound ∧ s.stopStroke.currentCommand = none :=
  h.observe_stopped rfl rfl (BrushSession.stopStroke_of_commandFits h.fits).1

/-- `startStroke` observed: it stops the stroke before, and may have made a command. -/
theorem Sound.startStroke (h : s.Sound) :
    ∃ after, s.toBrushSession.startStroke = some after ∧ (s.observe .startStroke after).Sound := by
  obtain ⟨after, hstart, ⟨hcreates, rfl⟩ | ⟨hcreates, hstack, hfits⟩⟩ :=
    BrushSession.startStroke_of_commandFits h.fits
  · refine ⟨_, hstart, h.observe_goesOn hcreates ?_ rfl h.fits⟩
    rw [onTop, cameOnTop_self, List.map_nil, ite_self]
  · refine ⟨after, hstart, ?_⟩
    cases hcmd : after.currentCommand with
    | none => exact (h.observe_stopped (i := .startStroke) rfl hstack hcmd).1
    | some cmd => exact h.observe_created hcreates hstack (by rw [hcmd]; rfl) hfits

/-- A call of the brush leads on, and keeps the session sound. -/
theorem Sound.call (G : Scene γ) (h : s.Sound) (i : BrushSession.Input) :
    ∃ after, s.toBrushSession.step G i = some after ∧ (s.observe i after).Sound := by
  have hsameStack {i : BrushSession.Input} {after : BrushSession γ}
      (hstack : after.stack = s.stack) : s.onTop i after = [] := by
    rw [onTop, hstack, cameOnTop_self, List.map_nil, ite_self]
  obtain ⟨hnone, -⟩ := BrushSession.stopStroke_of_commandFits h.fits
  cases i with
  | startStroke => exact h.startStroke
  | update hit average shift =>
    obtain ⟨after, hupdate, hupdates⟩ :=
      BrushSession.update_of_commandFits G h.fits hit average shift
    exact ⟨after, hupdate, h.observe_goesOn rfl (hsameStack hupdates.sameStack)
      hupdates.sameCommand hupdates.fits⟩
  | stopStroke => exact ⟨_, rfl, h.stopStroke.1⟩
  | setMode mode =>
    obtain ⟨hcmd, -, hstack, -⟩ := BrushSession.setMode_fields s.toBrushSession mode
    exact ⟨_, rfl, (h.observe_stopped (i := .setMode mode) rfl hstack (hcmd.trans hnone)).1⟩
  | setEnabled enabled =>
    refine ⟨_, rfl, ?_⟩
    cases enabled with
    | true => exact h.observe_goesOn rfl (hsameStack rfl) rfl h.fits
    | false =>
      have hstop := BrushSession.stopStroke_setEnabled s.toBrushSession false
      exact (h.observe_stopped (i := .setEnabled false) rfl (congrArg (·.stack) hstop)
        ((congrArg (·.currentCommand) hstop).trans hnone)).1
  | setBlendLayer | setStrength | setSize | setHardness =>
    exact ⟨_, rfl, h.observe_goesOn rfl (hsameStack rfl) rfl h.fits⟩
  | undo => exact ⟨_, rfl, h.observe_goesOn rfl rfl rfl h.fits⟩
  | redo => exact ⟨_, rfl, h.observe_goesOn rfl rfl rfl h.fits⟩

section
variable [DecidableEq σ]

theorem Sound.step (G : Scene γ) (h : s.Sound) (i : Input γ σ) :
    ∃ s', s.step G i = some s' ∧ s'.Sound := by
  obtain ⟨hstop, hnone⟩ := h.stopStroke
  cases i with
  | call i =>
    obtain ⟨after, hcall, hsound⟩ := h.call G i
    exact ⟨_, by rw [StrokeSession.step, hcall, Option.map_some], hsound⟩
  | setTerrainGroup group =>
    exact ⟨_, rfl, BrushSession.commandFits_of_none hnone, hstop.ledger.congr rfl rfl rfl rfl⟩
  | setUndoStack undoStack =>
    exact ⟨_, rfl, BrushSession.commandFits_of_none hnone, hstop.ledger.congr rfl rfl rfl rfl⟩

theorem Sound.run (G : Scene γ) (h : s.Sound) (inputs : List (Input γ σ)) :
    ∃ s', Lib.run (StrokeSession.step G) s inputs = some s' ∧ s'.Sound := by
  induction inputs generalizing s with
  | nil => exact ⟨s, rfl, h⟩
  | cons i inputs ih =>
    obtain ⟨s₁, h₁, hsound₁⟩ := h.step G i
    obtain ⟨s₂, h₂, hsound₂⟩ := ih hsound₁
    exact ⟨s₂, by rw [run_cons, h₁, Option.bind_some, h₂], hsound₂⟩

end

omit [DecidableEq γ] in
theorem sound_opened (brush : Brush γ) (maps : Maps γ) (undoStack : σ)
    (stackOf : σ → UndoStack (Edit γ)) : (opened brush maps undoStack stackOf).Sound :=
  ⟨BrushSession.commandFits_of_none rfl, List.forall_mem_nil _, .inl ⟨rfl, rfl, rfl⟩⟩

/-- A command is the current one and did not come on top of a stack, or it did once, finalized. -/
def EndedOnce (s : StrokeSession γ σ) (id : Nat) : Prop :=
  if s.currentId = some id then
    s.currentCommand.isSome ∧ ∀ p ∈ s.pushed, p.id ≠ some id
  else ∃ p ∈ s.pushed, p.id = some id ∧ p.Finalized ∧ (s.pushed.map (·.id)).count (some id) = 1

omit [DecidableEq γ] in
theorem Ledger.endedOnce (h : s.Ledger) {id : Nat} (hid : id < s.created) : s.EndedOnce id := by
  have honce {n : Nat} (hlt : id < n) (hpushed : s.pushed.map (·.id) = (List.range n).map some) :
      ∃ p ∈ s.pushed, p.id = some id ∧ p.Finalized ∧
        (s.pushed.map (·.id)).count (some id) = 1 := by
    have hmem : some id ∈ s.pushed.map (·.id) := by
      rw [hpushed]
      exact List.mem_map_of_mem (List.mem_range.2 hlt)
    obtain ⟨p, hp, hpid⟩ := List.mem_map.1 hmem
    refine ⟨p, hp, hpid, h.finalized p hp, List.count_eq_one_of_mem ?_ hmem⟩
    rw [hpushed]
    exact List.nodup_range.map (Option.some_injective _)
  rw [EndedOnce]
  obtain ⟨-, hcurrent, hpushed⟩ | ⟨n, hsome, hcurrent, hcreated, hpushed⟩ := h.inOrder
  · rw [hcurrent, if_neg nofun]
    exact honce hid hpushed
  · rw [hcurrent]
    split
    · next heq =>
      cases heq
      refine ⟨hsome, fun p hp hpid => ?_⟩
      have hmem : some id ∈ s.pushed.map (·.id) := List.mem_map.2 ⟨p, hp, hpid⟩
      rw [hpushed] at hmem
      obtain ⟨id', hid', heq⟩ := List.mem_map.1 hmem
      cases heq
      exact List.not_mem_range_self hid'
    · next hne =>
      refine honce ?_ hpushed
      have hne' : n ≠ id := fun heq => hne (congrArg some heq)
      omega

/-- **Brush strokes.** In every sequence of calls no assertion fails; every command that was created
came on top of an undo stack once, with the deltas of its stroke, or is the current one; and a
further `update` writes only maps of the group the current command was created for, and neither
finalizes it nor pushes it. -/
theorem stroke_protocol [DecidableEq σ] (G : Scene γ) (brush : Brush γ) (maps : Maps γ)
    (undoStack : σ) (stackOf : σ → UndoStack (Edit γ)) (inputs : List (Input γ σ)) :
    ∃ s, Lib.run (step G) (opened brush maps undoStack stackOf) inputs = some s ∧
      (∀ id < s.created, s.EndedOnce id) ∧
      ∀ hit average shift, ∃ s', s.step G (.call (.update hit average shift)) = some s' ∧
        (∀ id, s'.maps id ≠ s.maps id →
          ∃ cmd, s.currentCommand = some cmd ∧ id.group = cmd.terrainGroup) ∧
        s.toBrushSession.Records s'.toBrushSession ∧ s'.stack = s.stack := by
  obtain ⟨s, hrun, hsound⟩ := (sound_opened brush maps undoStack stackOf).run G inputs
  refine ⟨s, hrun, fun id => hsound.ledger.endedOnce, fun hit average shift => ?_⟩
  obtain ⟨after, hupdate, hupdates⟩ :=
    BrushSession.update_of_commandFits G hsound.fits hit average shift
  refine ⟨s.observe (.update hit average shift) after, ?_, hupdates.written, hupdates.recorded,
    hupdates.sameStack⟩
  change Option.map _ (s.toBrushSession.update G hit average shift) = _
  rw [hupdate, Option.map_some]

end StrokeSession

end NetSiege
