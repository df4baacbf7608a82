import Mathlib.Algebra.BigOperators.Group.List.Basic
import Mathlib.Algebra.Group.Basic
import Mathlib.Logic.Function.Iterate

/-!
# Undo stacks

An `UndoStack` holds the commands that are done and those that are undone; a command may change
itself when it is run. Where a command adds its effect to the state and takes it away again
(`AddsEffect`), undoing everything subtracts the sum of the effects (`undo_all_snd`), what was
undone can be done again (`redo_undo_iterate`), and a property of the states between the commands
is kept (`Within`).
-/

namespace Lib

variable {C S : Type _}

/-- The commands done, the latest first, and those undone, the next one to redo first. -/
structure UndoStack (C : Type _) where
  done : List C := []
  undone : List C := []

namespace UndoStack

/-- Push a command: what was undone is dropped, and the command is run. -/
def push (redo : C → S → C × S) (x : UndoStack C × S) (c : C) : UndoStack C × S :=
  let (c, s) := redo c x.2
  (⟨c :: x.1.done, []⟩, s)

/-- Undo the latest command, if there is one. -/
def undo (undo : C → S → C × S) (x : UndoStack C × S) : UndoStack C × S :=
  match x.1.done with
  | [] => x
  | c :: done =>
    let (c, s) := undo c x.2
    (⟨done, c :: x.1.undone⟩, s)

/-- Redo the command undone last, if there is one. -/
def redo (redo : C → S → C × S) (x : UndoStack C × S) : UndoStack C × S :=
  match x.1.undone with
  | [] => x
  | c :: undone =>
    let (c, s) := redo c x.2
    (⟨c :: x.1.done, undone⟩, s)

/-- Every command on the stack satisfies `P`. -/
def All (P : C → Prop) (st : UndoStack C) : Prop := (∀ c ∈ st.done, P c) ∧ ∀ c ∈ st.undone, P c

/-- A command with the property `P` adds its effect when it is redone, takes it away when it is
undone, and stays as it is. -/
structure AddsEffect [AddGroup S] (redo undo : C → S → C × S) (P : C → Prop) (effect : C → S) :
    Prop where
  redo_eq : ∀ c s, P c → redo c s = (c, s + effect c)
  undo_eq : ∀ c s, P c → undo c s = (c, s - effect c)

/-- The sum of what the done commands added. -/
def total [AddMonoid S] (effect : C → S) (st : UndoStack C) : S := (st.done.map effect).sum

/-- What the command added that `undo` would take away. -/
def latest [Zero S] (effect : C → S) (st : UndoStack C) : S := (st.done.head?.map effect).getD 0

/-- What the command adds that `redo` would do. -/
def next [Zero S] (effect : C → S) (st : UndoStack C) : S := (st.undone.head?.map effect).getD 0

section
variable [AddCommGroup S] {r u : C → S → C × S} {P : C → Prop} {effect : C → S}
  {x : UndoStack C × S}

theorem undo_of_cons (H : AddsEffect r u P effect) {c : C} {done : List C}
    (hdone : x.1.done = c :: done) (hc : P c) :
    undo u x = (⟨done, c :: x.1.undone⟩, x.2 - effect c) := by
  simp only [undo, hdone, H.undo_eq c x.2 hc]

theorem redo_of_cons (H : AddsEffect r u P effect) {c : C} {undone : List C}
    (hundone : x.1.undone = c :: undone) (hc : P c) :
    redo r x = (⟨c :: x.1.done, undone⟩, x.2 + effect c) := by
  simp only [redo, hundone, H.redo_eq c x.2 hc]

theorem all_undo (H : AddsEffect r u P effect) (h : x.1.All P) : (undo u x).1.All P := by
  cases hdone : x.1.done with
  | nil => rwa [undo, hdone]
  | cons c done =>
    obtain ⟨hc, hrest⟩ := List.forall_mem_cons.1 (hdone ▸ h.1)
    rw [undo_of_cons H hdone hc]
    exact ⟨hrest, List.forall_mem_cons.2 ⟨hc, h.2⟩⟩

theorem all_redo (H : AddsEffect r u P effect) (h : x.1.All P) : (redo r x).1.All P := by
  cases hundone : x.1.undone with
  | nil => rwa [redo, hundone]
  | cons c undone =>
    obtain ⟨hc, hrest⟩ := List.forall_mem_cons.1 (hundone ▸ h.2)
    rw [redo_of_cons H hundone hc]
    exact ⟨List.forall_mem_cons.2 ⟨hc, h.1⟩, hrest⟩

theorem undo_snd (H : AddsEffect r u P effect) (h : x.1.All P) :
    (undo u x).2 = x.2 - x.1.latest effect := by
  cases hdone : x.1.done with
  | nil =>
    rw [undo, latest, hdone]
    exact (sub_zero _).symm
  | cons c done =>
    rw [undo_of_cons H hdone (h.1 c (hdone ▸ List.mem_cons_self)), latest, hdone]
    rfl

theorem redo_snd (H : AddsEffect r u P effect) (h : x.1.All P) :
    (redo r x).2 = x.2 + x.1.next effect := by
  cases hundone : x.1.undone with
  | nil =>
    rw [redo, next, hundone]
    exact (add_zero _).symm
  | cons c undone =>
    rw [redo_of_cons H hundone (h.2 c (hundone ▸ List.mem_cons_self)), next, hundone]
    rfl

/-- The state without what the done commands added is not changed by `undo`. -/
theorem undo_sub_total (H : AddsEffect r u P effect) (h : x.1.All P) :
    (undo u x).2 - (undo u x).1.total effect = x.2 - x.1.total effect := by
  cases hdone : x.1.done with
  | nil => rw [undo, hdone]
  | cons c done =>
    rw [undo_of_cons H hdone (h.1 c (hdone ▸ List.mem_cons_self)), total, total, hdone,
      List.map_cons, List.sum_cons]
    exact sub_sub _ _ _

theorem redo_sub_total (H : AddsEffect r u P effect) (h : x.1.All P) :
    (redo r x).2 - (redo r x).1.total effect = x.2 - x.1.total effect := by
  cases hundone : x.1.undone with
  | nil => rw [redo, hundone]
  | cons c undone =>
    rw [redo_of_cons H hundone (h.2 c (hundone ▸ List.mem_cons_self)), total, total,
      List.map_cons, List.sum_cons, add_comm x.2]
    exact add_sub_add_left_eq_sub _ _ _

theorem redo_undo (H : AddsEffect r u P effect) (h : x.1.All P) (hne : x.1.done ≠ []) :
    redo r (undo u x) = x := by
  obtain ⟨c, done, hdone⟩ := List.exists_cons_of_ne_nil hne
  have hc := h.1 c (hdone ▸ List.mem_cons_self)
  rw [undo_of_cons H hdone hc, redo_of_cons H rfl hc, sub_add_cancel, ← hdone]

theorem iterate_undo (H : AddsEffect r u P effect) (h : x.1.All P) (n : Nat) :
    ((undo u)^[n] x).1.All P ∧ ((undo u)^[n] x).1.done.length = x.1.done.length - n ∧
      ((undo u)^[n] x).2 - ((undo u)^[n] x).1.total effect = x.2 - x.1.total effect := by
  induction n with
  | zero => exact ⟨h, rfl, rfl⟩
  | succ n ih =>
    obtain ⟨hall, hlen, hsub⟩ := ih
    rw [Function.iterate_succ_apply']
    refine ⟨all_undo H hall, ?_, (undo_sub_total H hall).trans hsub⟩
    cases hdone : ((undo u)^[n] x).1.done with
    | nil =>
      rw [hdone, List.length_nil] at hlen
      rw [undo, hdone, hdone, List.length_nil]
      omega
    | cons c done =>
      rw [undo_of_cons H hdone (hall.1 c (hdone ▸ List.mem_cons_self))]
      rw [hdone, List.length_cons] at hlen
      dsimp only
      omega

/-- Undoing every command takes away all that was added. -/
theorem undo_all_snd (H : AddsEffect r u P effect) (h : x.1.All P) :
    ((undo u)^[x.1.done.length] x).2 = x.2 - x.1.total effect := by
  obtain ⟨-, hlen, hsub⟩ := iterate_undo H h x.1.done.length
  have hnil : ((undo u)^[x.1.done.length] x).1.done = [] :=
    List.eq_nil_of_length_eq_zero (by rw [hlen, Nat.sub_self])
  have hzero : ((undo u)^[x.1.done.length] x).1.total effect = 0 := by
    rw [total, hnil, List.map_nil, List.sum_nil]
  rwa [hzero, sub_zero] at hsub

/-- What was undone can be redone. -/
theorem redo_undo_iterate (H : AddsEffect r u P effect) (h : x.1.All P) {n : Nat}
    (hn : n ≤ x.1.done.length) : (redo r)^[n] ((undo u)^[n] x) = x := by
  induction n with
  | zero => rfl
  | succ n ih =>
    obtain ⟨hall, hlen, -⟩ := iterate_undo H h n
    have hne : ((undo u)^[n] x).1.done ≠ [] := by
      intro hnil
      rw [hnil, List.length_nil] at hlen
      omega
    rw [Function.iterate_succ_apply' (undo u), Function.iterate_succ_apply, redo_undo H hall hne]
    exact ih (Nat.le_of_succ_le hn)

/-! ## Where undo and redo lead -/

/-- All commands of the stack, the last one to redo first. -/
def history (st : UndoStack C) : List C := st.undone.reverse ++ st.done

/-- From `initial`, every part of the history leads to a state with the property. -/
def Within (Q : S → Prop) (effect : C → S) (initial : S) (st : UndoStack C) : Prop :=
  ∀ done, done <:+ st.history → Q (initial + (done.map effect).sum)

theorem history_undo (H : AddsEffect r u P effect) (h : x.1.All P) :
    (undo u x).1.history = x.1.history := by
  cases hdone : x.1.done with
  | nil => rw [undo, hdone]
  | cons c done =>
    rw [undo_of_cons H hdone (h.1 c (hdone ▸ List.mem_cons_self)), history, history, hdone,
      List.reverse_cons, List.append_assoc, List.singleton_append]

theorem history_redo (H : AddsEffect r u P effect) (h : x.1.All P) :
    (redo r x).1.history = x.1.history := by
  cases hundone : x.1.undone with
  | nil => rw [redo, hundone]
  | cons c undone =>
    rw [redo_of_cons H hundone (h.2 c (hundone ▸ List.mem_cons_self)), history, history, hundone,
      List.reverse_cons, List.append_assoc, List.singleton_append]

theorem Within.total {Q : S → Prop} {initial : S} {st : UndoStack C}
    (h : st.Within Q effect initial) : Q (initial + st.total effect) :=
  h st.done (List.suffix_append _ _)

/-- A command is pushed that leads to a state with the property. -/
theorem Within.push {Q : S → Prop} {initial : S} {st : UndoStack C}
    (h : st.Within Q effect initial) {c : C}
    (hc : Q (initial + (UndoStack.mk (c :: st.done) []).total effect)) :
    (UndoStack.mk (c :: st.done) []).Within Q effect initial := by
  intro done hsuffix
  obtain rfl | hrest := List.suffix_cons_iff.1 hsuffix
  · exact hc
  · exact h done (hrest.trans (List.suffix_append _ _))

end

end UndoStack

end Lib
