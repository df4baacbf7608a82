import Mathlib.Data.List.Induction
import Mathlib.Order.Basic

/-!
# Runs of a partial state machine

A machine is a function `step : S → I → Option S`: an input (an event, together with every choice
the environment makes in it) either leads to a next state or ends the run. `run` folds a list of
inputs. `Along step P s is` says that the step predicate `P` holds at every step the run from `s`
on `is` takes, and `Along.invariant`, `Along.imp_of_invariant` and `Along.iff_of_invariant` are the
induction rules: what one step preserves under a side condition, a run all of whose steps meet the
condition preserves. `Along.simulates` is the rule for two levels: where each step of a machine is a
run of another one on what the step puts out, a run is a run on what its steps put out.
`Along.unwind` is the rule for what a part of the inputs cannot influence.
-/

namespace Lib

variable {S I : Type _} {step : S → I → Option S}

/-- The state after the inputs, if no step of them ends the run. -/
def run (step : S → I → Option S) : S → List I → Option S
  | s, [] => some s
  | s, i :: is => (step s i).bind (run step · is)

/-- `P` holds of the state before and the input of every step of the run. -/
def Along (step : S → I → Option S) (P : S → I → Prop) : S → List I → Prop
  | _, [] => True
  | s, i :: is => P s i ∧ ∀ s', step s i = some s' → Along step P s' is

@[simp] theorem run_nil : run step s [] = some s := rfl

@[simp] theorem run_cons : run step s (i :: is) = (step s i).bind (run step · is) := rfl

@[simp] theorem along_nil : Along step P s [] := trivial

theorem along_cons :
    Along step P s (i :: is) ↔ P s i ∧ ∀ s', step s i = some s' → Along step P s' is := .rfl

theorem run_append : run step s (is ++ js) = (run step s is).bind (run step · js) := by
  induction is generalizing s with
  | nil => rfl
  | cons i is ih =>
    cases h : step s i with
    | none => simp [h]
    | some s' => simp [h, ih]

/-- The step predicate read off the prefixes of the input list. -/
theorem along_iff_forall_split : Along step P s is ↔
    ∀ pre i post, is = pre ++ i :: post → ∀ s', run step s pre = some s' → P s' i := by
  induction is generalizing s with
  | nil => simp
  | cons i is ih =>
    rw [along_cons]
    constructor
    · rintro ⟨h0, H⟩ pre j post hsplit s' hs'
      cases pre with
      | nil =>
        cases hsplit
        cases hs'
        exact h0
      | cons k pre =>
        cases hsplit
        cases h1 : step s i with
        | none => simp [h1] at hs'
        | some s1 => exact ih.1 (H s1 h1) pre j post rfl s' (by simpa [h1] using hs')
    · intro H
      refine ⟨H [] i is rfl s rfl, fun s1 h1 => ih.2 fun pre j post hsplit s' hs' => ?_⟩
      exact H (i :: pre) j post (by rw [hsplit]; rfl) s' (by simpa [h1] using hs')

/-- A predicate holds in every state of the run, if it holds in the first and after every step. -/
theorem forall_prefix_iff_along {Q : S → Prop} (h : Q s) :
    (∀ pre s', pre <+: is → run step s pre = some s' → Q s') ↔
      Along step (fun s i => ∀ s', step s i = some s' → Q s') s is := by
  rw [along_iff_forall_split]
  constructor
  · intro H pre i post hsplit s1 h1 s2 h2
    refine H (pre ++ [i]) s2 ⟨post, by rw [hsplit, List.append_assoc]; rfl⟩ ?_
    rw [run_append, h1]
    simp [h2]
  · intro H pre s2 hpre hr
    obtain ⟨post, rfl⟩ := hpre
    cases pre using List.reverseRecOn with
    | nil =>
      cases hr
      exact h
    | append_singleton pre i =>
      rw [run_append, Option.bind_eq_some_iff] at hr
      obtain ⟨s1, h1, h2⟩ := hr
      refine H pre i post (List.append_assoc _ _ _) s1 h1 s2 ?_
      simpa using h2

/-- The invariant rule: a run whose steps meet the condition `C` preserves what single steps
under `C` preserve. -/
theorem Along.invariant {C : S → I → Prop} (Inv : S → Prop)
    (hstep : ∀ s i s', Inv s → C s i → step s i = some s' → Inv s')
    (H : Along step C s is) (h : Inv s) (hr : run step s is = some s') : Inv s' := by
  induction is generalizing s with
  | nil => cases hr; exact h
  | cons i is ih =>
    cases h1 : step s i with
    | none => simp [h1] at hr
    | some s1 => exact ih (H.2 s1 h1) (hstep s i s1 h H.1 h1) (by simpa [h1] using hr)

/-- The invariant rule for what every step preserves. -/
theorem run_invariant (Inv : S → Prop) (hstep : ∀ s i s', Inv s → step s i = some s' → Inv s')
    (h : Inv s) (hr : run step s is = some s') : Inv s' := by
  have H : Along step (fun _ _ => True) s is := along_iff_forall_split.2 (by simp)
  exact H.invariant Inv (fun s i s' hi _ => hstep s i s' hi) h hr

/-- Under an invariant, a condition met at every step gives a property of every step. -/
theorem Along.imp_of_invariant {C P : S → I → Prop} (Inv : S → Prop)
    (hstep : ∀ s i s', Inv s → C s i → step s i = some s' → Inv s')
    (himp : ∀ s i, Inv s → C s i → P s i)
    (H : Along step C s is) (h : Inv s) : Along step P s is := by
  induction is generalizing s with
  | nil => trivial
  | cons i is ih =>
    exact ⟨himp s i h H.1, fun s1 h1 => ih (H.2 s1 h1) (hstep s i s1 h H.1 h1)⟩

/-- Under an invariant that steps with the property preserve, a property and a condition that
agree on single steps agree on runs. -/
theorem Along.iff_of_invariant {C P : S → I → Prop} (Inv : S → Prop)
    (hstep : ∀ s i s', Inv s → P s i → step s i = some s' → Inv s')
    (hiff : ∀ s i, Inv s → (P s i ↔ C s i)) (h : Inv s) :
    Along step P s is ↔ Along step C s is := by
  constructor
  · exact fun H => H.imp_of_invariant Inv hstep (fun s i hi => (hiff s i hi).1) h
  · refine fun H =>
      H.imp_of_invariant Inv (fun s i s' hi hc => ?_) (fun s i hi => (hiff s i hi).2) h
    exact hstep s i s' hi ((hiff s i hi).2 hc)

/-- The check comes out true at every step of the run. -/
def checkAlong (step : S → I → Option S) (c : S → I → Bool) : S → List I → Bool
  | _, [] => true
  | s, i :: is => c s i && (step s i).all (checkAlong step c · is)

theorem along_of_check {c : S → I → Bool} {P : S → I → Prop}
    (hcheck : ∀ s i, c s i = true → P s i) (h : checkAlong step c s is = true) :
    Along step P s is := by
  induction is generalizing s with
  | nil => trivial
  | cons i is ih =>
    obtain ⟨hi, hrest⟩ := Bool.and_eq_true_iff.1 h
    refine ⟨hcheck s i hi, fun s' hs' => ih ?_⟩
    rwa [hs'] at hrest

/-! ## Two machines -/

section
variable {T J : Type _} {abs : T → J → Option T} {f : S → T} {out : S → I → List J}

/-- What the steps of a run put out. -/
def outputs (step : S → I → Option S) (out : S → I → List J) : S → List I → List J
  | _, [] => []
  | s, i :: is => out s i ++ ((step s i).map (outputs step out · is)).getD []

/-- A machine that takes every step of another one takes its runs. -/
theorem run_map {step' : T → I → Option T} (h : ∀ s i, step' (f s) i = (step s i).map f)
    (s : S) (is : List I) : run step' (f s) is = (run step s is).map f := by
  induction is generalizing s with
  | nil => rfl
  | cons i is ih =>
    rw [run_cons, run_cons, h]
    cases step s i with
    | none => rfl
    | some s' => exact ih s'

/-- The simulation rule: if the steps that meet the condition `C` are runs of the other machine on
what they put out, so is a run whose steps meet it. -/
theorem Along.simulates {C : S → I → Prop} (Inv : S → Prop)
    (hstep : ∀ s i s', Inv s → C s i → step s i = some s' →
      Inv s' ∧ run abs (f s) (out s i) = some (f s'))
    (H : Along step C s is) (h : Inv s) (hr : run step s is = some s') :
    Inv s' ∧ run abs (f s) (outputs step out s is) = some (f s') := by
  induction is generalizing s with
  | nil =>
    cases hr
    exact ⟨h, rfl⟩
  | cons i is ih =>
    obtain ⟨s1, h1, hr⟩ := Option.bind_eq_some_iff.1 hr
    obtain ⟨hinv, habs⟩ := hstep s i s1 h H.1 h1
    obtain ⟨hinv', habs'⟩ := ih (H.2 s1 h1) hinv hr
    refine ⟨hinv', ?_⟩
    rw [outputs, h1, Option.map_some, Option.getD_some, run_append, habs, Option.bind_some, habs']

/-- The unwinding rule: of two states that look alike, steps on the inputs that are kept go on to
states that look alike and put out the same, and a step on another input goes on to one that looks
as before and puts out nothing. Then the run on the inputs that are kept goes on to a state that
looks like that of the whole run, and puts out the same. -/
theorem Along.unwind {C : S → I → Prop} (Alike : S → S → Prop) (keep : I → Bool)
    (hkeep : ∀ s t i s', Alike s t → C s i → keep i = true → step s i = some s' →
      ∃ t', step t i = some t' ∧ Alike s' t' ∧ out t i = out s i)
    (hskip : ∀ s t i s', Alike s t → C s i → keep i = false → step s i = some s' →
      Alike s' t ∧ out s i = [])
    {t : S} (H : Along step C s is) (h : Alike s t) (hr : run step s is = some s') :
    ∃ t', run step t (is.filter keep) = some t' ∧ Alike s' t' ∧
      outputs step out t (is.filter keep) = outputs step out s is := by
  induction is generalizing s t with
  | nil =>
    cases hr
    exact ⟨t, rfl, h, rfl⟩
  | cons i is ih =>
    obtain ⟨s1, h1, hr⟩ := Option.bind_eq_some_iff.1 hr
    cases hkept : keep i with
    | true =>
      obtain ⟨t1, ht1, halike, hout⟩ := hkeep s t i s1 h H.1 hkept h1
      obtain ⟨t', ht', halike', hout'⟩ := ih (H.2 s1 h1) halike hr
      refine ⟨t', ?_, halike', ?_⟩
      · rw [List.filter_cons_of_pos hkept, run_cons, ht1, Option.bind_some, ht']
      · rw [List.filter_cons_of_pos hkept, outputs, outputs, ht1, h1, Option.map_some,
          Option.map_some, Option.getD_some, Option.getD_some, hout, hout']
    | false =>
      obtain ⟨halike, hout⟩ := hskip s t i s1 h H.1 hkept h1
      obtain ⟨t', ht', halike', hout'⟩ := ih (H.2 s1 h1) halike hr
      refine ⟨t', ?_, halike', ?_⟩
      · rw [List.filter_cons_of_neg (by simp [hkept]), ht']
      · rw [List.filter_cons_of_neg (by simp [hkept]), hout', outputs, h1, hout,
          Option.map_some, Option.getD_some, List.nil_append]

end

end Lib
