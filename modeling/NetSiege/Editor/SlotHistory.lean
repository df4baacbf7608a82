import Mathlib.Data.List.Infix
import NetSiege.Editor.SlotEditor
import NetSiege.Lib.UndoStack

/-!
# The history of the slots (`sloteditor.cpp`, `undocommands.cpp`)

Every click on a button of the slot editor pushes a command. A command that finds its slot as it
would leave it does nothing, but is undone like any other; and the loop of `remove` passes over the
slot behind the one it erases. `along_exact_iff` says which runs of clicks, undos and redos are
exact nevertheless.
-/

namespace NetSiege

open Lib

variable {G : TerrainGroup} {idx idx' : UInt32} {slots slots' : List UInt32}

/-! ## What the loop of `remove` leaves -/

/-- The slot stands twice in a row. -/
def Repeats (idx : UInt32) (slots : List UInt32) : Prop := [idx, idx] <:+: slots

theorem not_repeats_nil : ¬ Repeats idx [] := by simp [Repeats]

theorem repeats_cons_of_ne {a : UInt32} (h : a ≠ idx) :
    Repeats idx (a :: slots) ↔ Repeats idx slots := by
  rw [Repeats, List.infix_cons_iff, List.cons_prefix_cons]
  exact or_iff_right fun h' => h h'.1.symm

theorem repeats_cons_cons {a : UInt32} :
    Repeats idx (idx :: a :: slots) ↔ a = idx ∨ Repeats idx (a :: slots) := by
  rw [Repeats, List.infix_cons_iff, List.cons_prefix_cons, List.cons_prefix_cons, eq_comm (a := a)]
  simp [Repeats]

theorem not_repeats_singleton {a : UInt32} : ¬ Repeats idx [a] := by
  intro h
  have hlen := List.IsInfix.length_le h
  simp at hlen

/-- The loop of `remove`, on the elements it has not met. -/
def eraseSkipping (idx : UInt32) : List UInt32 → List UInt32
  | [] => []
  | [a] => if idx = a then [] else [a]
  | a :: b :: slots =>
    if idx = a then b :: eraseSkipping idx slots else a :: eraseSkipping idx (b :: slots)

theorem eraseSlots_end (idx : UInt32) (slots : List UInt32) {i : Nat} (hi : slots.length ≤ i) :
    eraseSlots idx slots i = slots := by rw [eraseSlots, dif_neg (not_lt.2 hi)]

/-- The element behind an erased one is passed over. -/
theorem eraseSlots_hit (idx : UInt32) (met slots : List UInt32) :
    eraseSlots idx (met ++ idx :: slots) met.length =
      eraseSlots idx (met ++ slots) (met.length + 1) := by
  have hlt : met.length < (met ++ idx :: slots).length := by simp
  rw [eraseSlots, dif_pos hlt, if_pos (by simp), List.eraseIdx_append_of_length_le le_rfl,
    Nat.sub_self, List.eraseIdx_cons_zero]

theorem eraseSlots_miss {a : UInt32} (ha : idx ≠ a) (met slots : List UInt32) :
    eraseSlots idx (met ++ a :: slots) met.length =
      eraseSlots idx (met ++ [a] ++ slots) (met ++ [a]).length := by
  have hlt : met.length < (met ++ a :: slots).length := by simp
  rw [eraseSlots, dif_pos hlt, if_neg (by simpa using ha), List.append_assoc, List.length_append]
  rfl

theorem eraseSlots_append (idx : UInt32) (met slots : List UInt32) :
    eraseSlots idx (met ++ slots) met.length = met ++ eraseSkipping idx slots := by
  induction slots using eraseSkipping.induct idx generalizing met with
  | case1 => rw [eraseSkipping, eraseSlots_end _ _ (by simp)]
  | case2 => rw [eraseSlots_hit, eraseSlots_end _ _ (by simp), eraseSkipping, if_pos rfl]
  | case3 a ha =>
    rw [eraseSlots_miss ha, eraseSlots_end _ _ (by simp), eraseSkipping, if_neg ha,
      List.append_nil]
  | case4 b slots ih =>
    have hmet : met ++ b :: slots = met ++ [b] ++ slots := by simp
    have hlen : met.length + 1 = (met ++ [b]).length := by simp
    rw [eraseSlots_hit, hmet, hlen, ih, eraseSkipping, if_pos rfl, List.append_assoc]
    rfl
  | case5 a b slots ha ih =>
    rw [eraseSlots_miss ha, ih, eraseSkipping, if_neg ha, List.append_assoc]
    rfl

theorem mem_eraseSkipping : idx' ∈ eraseSkipping idx slots ↔
    idx' ≠ idx ∧ idx' ∈ slots ∨ idx' = idx ∧ Repeats idx slots := by
  induction slots using eraseSkipping.induct idx with
  | case1 => simp [eraseSkipping, not_repeats_nil]
  | case2 => simp [eraseSkipping, not_repeats_singleton]
  | case3 a ha =>
    simp only [eraseSkipping, ha, if_false, List.mem_singleton, not_repeats_singleton, and_false,
      or_false]
    grind
  | case4 b slots ih =>
    rw [eraseSkipping, if_pos rfl, List.mem_cons, ih, repeats_cons_cons]
    by_cases hb : b = idx
    · grind
    · rw [repeats_cons_of_ne hb]
      grind
  | case5 a b slots ha ih =>
    rw [eraseSkipping, if_neg ha, List.mem_cons, ih, repeats_cons_of_ne (Ne.symm ha)]
    grind

/-- The loop of `remove` erases the slot unless it stands twice in a row, and no other slot. -/
theorem mem_eraseSlots : idx' ∈ eraseSlots idx slots 0 ↔
    idx' ≠ idx ∧ idx' ∈ slots ∨ idx' = idx ∧ Repeats idx slots := by
  rw [← mem_eraseSkipping, ← List.nil_append (eraseSkipping idx slots),
    ← eraseSlots_append idx [] slots]
  rfl

/-! ## The commands -/

theorem CampaignSlots.isSlotDefined_iff {m : CampaignSlots} {x y : Int} :
    m.isSlotDefined G x y = true ↔ G.packIndex x y ∈ m.definedTerrainSlots := by
  simp [isSlotDefined]

namespace ModifyTerrainSlot

variable {c : ModifyTerrainSlot} {m : CampaignSlots}

theorem mem_add : idx ∈ (c.add G m).definedTerrainSlots ↔
    idx = c.packed G ∨ idx ∈ m.definedTerrainSlots := by
  rw [add, CampaignSlots.updateSlotBoundary_slots]
  cases hslot : m.isSlotDefined G c.x c.y with
  | true =>
    rw [CampaignSlots.isSlotDefined_iff] at hslot
    refine ⟨.inr, fun h => h.elim (fun heq => ?_) id⟩
    rw [heq]
    exact hslot
  | false =>
    simp only [Bool.not_false, if_true, List.mem_append, List.mem_singleton]
    exact or_comm

theorem mem_remove : idx ∈ (c.remove G m).definedTerrainSlots ↔
    idx ≠ c.packed G ∧ idx ∈ m.definedTerrainSlots ∨
      idx = c.packed G ∧ Repeats (c.packed G) m.definedTerrainSlots := by
  rw [remove, CampaignSlots.updateSlotBoundary_slots]
  exact mem_eraseSlots

theorem mem_redo : idx ∈ (c.redo G m).definedTerrainSlots ↔
    if c.directionAdd then idx = c.packed G ∨ idx ∈ m.definedTerrainSlots
    else idx ≠ c.packed G ∧ idx ∈ m.definedTerrainSlots ∨
      idx = c.packed G ∧ Repeats (c.packed G) m.definedTerrainSlots := by
  rw [redo]
  split
  · exact mem_add
  · exact mem_remove

theorem mem_undo : idx ∈ (c.undo G m).definedTerrainSlots ↔
    if c.directionAdd then idx ≠ c.packed G ∧ idx ∈ m.definedTerrainSlots ∨
      idx = c.packed G ∧ Repeats (c.packed G) m.definedTerrainSlots
    else idx = c.packed G ∨ idx ∈ m.definedTerrainSlots := by
  rw [undo]
  split
  · exact mem_remove
  · exact mem_add

/-- After `redo` the slot is as the command leaves it, but for one that is removed and stood twice
in a row. -/
theorem isSlotDefined_redo : (c.redo G m).isSlotDefined G c.x c.y = c.directionAdd ↔
    (c.directionAdd = false → ¬ Repeats (c.packed G) m.definedTerrainSlots) := by
  rw [Bool.eq_iff_iff, CampaignSlots.isSlotDefined_iff, mem_redo]
  cases c.directionAdd with
  | true => simp [packed]
  | false => simp [packed]

end ModifyTerrainSlot

/-! ## The session -/

/-- A command on the stack, with the slots that were defined before its latest `redo`; no function
reads them. -/
structure SlotCommand extends ModifyTerrainSlot where
  before : List UInt32 := []

/-- The editor of slots: the campaign, the buttons and the undo stack. -/
structure SlotSession where
  campaign : CampaignSlots
  widgets : List SlotWidget
  stack : UndoStack SlotCommand := {}

/-- The buttons of a table. -/
def SlotTable.widgets (t : SlotTable) : List SlotWidget :=
  (List.range t.rowCount).flatMap fun r => (List.range t.columnCount).filterMap (t.cellWidget r)

namespace SlotSession

variable (G : TerrainGroup)

/-- `ModifyTerrainSlot::redo`. -/
def redoCommand (r : SlotCommand) (m : CampaignSlots) : SlotCommand × CampaignSlots :=
  ({ r with before := m.definedTerrainSlots }, r.redo G m)

/-- `ModifyTerrainSlot::undo`. -/
def undoCommand (r : SlotCommand) (m : CampaignSlots) : SlotCommand × CampaignSlots :=
  (r, r.undo G m)

/-- `SlotWidget::myClicked`. -/
def click (s : SlotSession) (i : Nat) : SlotSession :=
  match s.widgets[i]? with
  | none => s
  | some widget =>
    let widget := { widget with defined := !widget.defined }
    let (stack, campaign) := UndoStack.push (redoCommand G) (s.stack, s.campaign)
      { directionAdd := widget.defined, x := widget.x, y := widget.y }
    { campaign, widgets := s.widgets.set i widget, stack }

/-- `QUndoStack::undo`. -/
def undo (s : SlotSession) : SlotSession :=
  let (stack, campaign) := UndoStack.undo (undoCommand G) (s.stack, s.campaign)
  { s with stack, campaign }

/-- `QUndoStack::redo`. -/
def redo (s : SlotSession) : SlotSession :=
  let (stack, campaign) := UndoStack.redo (redoCommand G) (s.stack, s.campaign)
  { s with stack, campaign }

/-- What the user may do. -/
inductive Input where
  | click (i : Nat)
  | undo
  | redo

/-- The session after an input. -/
def step (s : SlotSession) : Input → Option SlotSession
  | .click i => some (s.click G i)
  | .undo => some (s.undo G)
  | .redo => some (s.redo G)

/-- An input does what its command says: a slot that is added is defined, one that is removed is
not, and a command undone leaves the slots that were defined before its latest `redo`. -/
def Exact (s : SlotSession) : Input → Prop
  | .click i => ∀ w, s.widgets[i]? = some w →
    (s.click G i).campaign.isSlotDefined G w.x w.y = !w.defined
  | .redo => ∀ r rest, s.stack.undone = r :: rest →
    (s.redo G).campaign.isSlotDefined G r.x r.y = r.directionAdd
  | .undo => ∀ r rest, s.stack.done = r :: rest →
    ∀ idx, idx ∈ (s.undo G).campaign.definedTerrainSlots ↔ idx ∈ r.before

/-- A slot that is removed does not stand twice in a row. A command that is undone had changed
whether its slot was defined, and an added slot that is removed again does not stand twice in a row;
or else both hold of it. -/
def Steady (s : SlotSession) : Input → Prop
  | .click i => ∀ w, s.widgets[i]? = some w → w.defined = true →
    ¬ Repeats (G.packIndex w.x w.y) s.campaign.definedTerrainSlots
  | .redo => ∀ r rest, s.stack.undone = r :: rest → r.directionAdd = false →
    ¬ Repeats (r.packed G) s.campaign.definedTerrainSlots
  | .undo => ∀ r rest, s.stack.done = r :: rest →
    if r.directionAdd then
      Repeats (r.packed G) s.campaign.definedTerrainSlots ↔ r.packed G ∈ r.before
    else r.packed G ∈ r.before

/-- The slots are those the latest command left, and so on down the stack. -/
def Follows : List SlotCommand → List UInt32 → Prop
  | [], _ => True
  | r :: done, slots =>
    (∀ idx, idx ∈ slots ↔ if r.directionAdd then idx = r.packed G ∨ idx ∈ r.before
      else idx ≠ r.packed G ∧ idx ∈ r.before) ∧ Follows done r.before

variable {G} {s s' : SlotSession}

theorem Follows.congr {done : List SlotCommand} (h : Follows G done slots)
    (heq : ∀ idx, idx ∈ slots' ↔ idx ∈ slots) : Follows G done slots' := by
  cases done with
  | nil => trivial
  | cons r done => exact ⟨fun idx => (heq idx).trans (h.1 idx), h.2⟩

/-- A command that is redone and does what it says. -/
theorem Follows.redo {r : SlotCommand} {done : List SlotCommand} {m : CampaignSlots}
    (h : Follows G done m.definedTerrainSlots)
    (hexact : (r.redo G m).isSlotDefined G r.x r.y = r.directionAdd) :
    Follows G ((redoCommand G r m).1 :: done) (redoCommand G r m).2.definedTerrainSlots := by
  refine ⟨fun idx => ?_, h⟩
  have hsteady := ModifyTerrainSlot.isSlotDefined_redo.1 hexact
  change idx ∈ (r.redo G m).definedTerrainSlots ↔ if r.directionAdd then
    idx = r.packed G ∨ idx ∈ m.definedTerrainSlots
    else idx ≠ r.packed G ∧ idx ∈ m.definedTerrainSlots
  rw [ModifyTerrainSlot.mem_redo]
  split
  · rfl
  · next hadd => simp [hsteady (Bool.eq_false_iff.2 hadd)]

/-- What an undo has to meet. -/
theorem Follows.undo_iff {r : SlotCommand} {done : List SlotCommand} {m : CampaignSlots}
    (h : Follows G (r :: done) m.definedTerrainSlots) :
    (∀ idx, idx ∈ (r.undo G m).definedTerrainSlots ↔ idx ∈ r.before) ↔
      if r.directionAdd then Repeats (r.packed G) m.definedTerrainSlots ↔ r.packed G ∈ r.before
      else r.packed G ∈ r.before := by
  have hslots := h.1
  split
  · next hadd =>
    simp only [ModifyTerrainSlot.mem_undo, hadd, if_true, hslots]
    refine ⟨fun hall => by simpa using hall (r.packed G), fun hiff idx => ?_⟩
    by_cases hidx : idx = r.packed G
    · simpa [hidx] using hiff
    · simp [hidx]
  · next hadd =>
    simp only [ModifyTerrainSlot.mem_undo, hadd, hslots]
    refine ⟨fun hall => by simpa using hall (r.packed G), fun hmem idx => ?_⟩
    by_cases hidx : idx = r.packed G
    · simpa [hidx] using hmem
    · simp [hidx]

/-- While all inputs are exact, the slots are those the stack tells. -/
theorem follows_step {i : Input} (h : Follows G s.stack.done s.campaign.definedTerrainSlots)
    (hexact : s.Exact G i) (hstep : s.step G i = some s') :
    Follows G s'.stack.done s'.campaign.definedTerrainSlots := by
  cases i with
  | click i =>
    cases hstep
    cases hw : s.widgets[i]? with
    | none => simpa only [click, hw] using h
    | some w =>
      have hdefined := hexact w hw
      simp only [click, hw] at hdefined ⊢
      exact h.redo hdefined
  | undo =>
    cases hstep
    cases hdone : s.stack.done with
    | nil => simpa only [undo, UndoStack.undo, hdone] using h
    | cons r done =>
      have hback := hexact r done hdone
      rw [hdone] at h
      simp only [undo, UndoStack.undo, hdone] at hback ⊢
      exact h.2.congr hback
  | redo =>
    cases hstep
    cases hundone : s.stack.undone with
    | nil => simpa only [redo, UndoStack.redo, hundone] using h
    | cons r undone =>
      have hdefined := hexact r undone hundone
      simp only [redo, UndoStack.redo, hundone] at hdefined ⊢
      exact h.redo hdefined

/-- Whether an input is exact is seen before. -/
theorem exact_iff_steady (h : Follows G s.stack.done s.campaign.definedTerrainSlots) (i : Input) :
    s.Exact G i ↔ s.Steady G i := by
  cases i with
  | click i =>
    simp only [Exact, Steady]
    refine forall₂_congr fun w hw => ?_
    simp only [click, hw]
    refine ModifyTerrainSlot.isSlotDefined_redo.trans ?_
    simp [ModifyTerrainSlot.packed]
  | undo =>
    simp only [Exact, Steady]
    refine forall₃_congr fun r done hdone => ?_
    simp only [undo, UndoStack.undo, hdone]
    rw [hdone] at h
    exact h.undo_iff
  | redo =>
    simp only [Exact, Steady]
    refine forall₃_congr fun r undone hundone => ?_
    simp only [redo, UndoStack.redo, hundone]
    exact ModifyTerrainSlot.isSlotDefined_redo

/-- **Slot commands.** Every input of a run is exact, if and only if every input of the run meets a
steady session. -/
theorem along_exact_iff (G : TerrainGroup) (m : CampaignSlots) (widgets : List SlotWidget)
    (inputs : List Input) :
    Along (step G) (Exact G) { campaign := m, widgets } inputs ↔
      Along (step G) (Steady G) { campaign := m, widgets } inputs :=
  Along.iff_of_invariant (fun s => Follows G s.stack.done s.campaign.definedTerrainSlots)
    (fun _ _ _ h hexact hstep => follows_step h hexact hstep) (fun _ i h => exact_iff_steady h i)
    trivial

/-- The session when a campaign is opened. -/
def opened (G : TerrainGroup) (m : CampaignSlots) : SlotSession where
  campaign := m
  widgets := (SlotTable.populate G m).widgets

/-- The only slot is removed by its button and comes back by an undo; the button, which says it is
not there, adds it once more; and the undo of that removes it. -/
theorem not_along_exact_drift : ¬ ∀ inputs, Along (step .halves) (Exact .halves)
    (opened .halves (CampaignSlots.initializeSlots .halves ⟨[], ⟨0, 0, 0, 0⟩, 0, 0⟩ 513 200))
    inputs := by
  intro hall
  have hrun := along_iff_forall_split.1 (hall [.click 0, .undo, .click 0, .undo])
    [.click 0, .undo, .click 0] .undo [] rfl _ rfl
  have hwidgets : (SlotTable.populate .halves (CampaignSlots.initializeSlots .halves
      ⟨[], ⟨0, 0, 0, 0⟩, 0, 0⟩ 513 200)).widgets = [⟨0, 0, true⟩] := by decide
  have herase : ∀ idx, eraseSlots idx [idx] 0 = [] := fun idx => by
    have h := eraseSlots_append idx [] [idx]
    simpa [eraseSkipping] using h
  rw [opened, hwidgets] at hrun
  have hundo := hrun _ _ rfl (TerrainGroup.halves.packIndex 0 0)
  simp [CampaignSlots.initializeSlots, CampaignSlots.updateSlotBoundary_slots, herase, undo, click,
    UndoStack.undo, UndoStack.push, redoCommand, undoCommand, ModifyTerrainSlot.undo,
    ModifyTerrainSlot.redo, ModifyTerrainSlot.add, ModifyTerrainSlot.remove,
    CampaignSlots.isSlotDefined, ModifyTerrainSlot.packed] at hundo

end SlotSession

end NetSiege
