/-!
# While loops with a decreasing measure

`body s` is one turn of a loop, `none` when its condition fails. `loop body μ s` takes turns while
`body` allows it, with `μ s` turns of fuel. `loop_invariant` is the rule for invariants; when every
turn from a state with the invariant decreases `μ`, the fuel never runs out (`loop_exit`).
-/

namespace Lib

variable {σ : Type _} {body : σ → Option σ} {μ : σ → Nat}

/-- At most `n` turns of the loop. -/
def turns (body : σ → Option σ) : Nat → σ → σ
  | 0, s => s
  | n + 1, s =>
    match body s with
    | none => s
    | some s' => turns body n s'

/-- The loop, with the measure of the entry state as its fuel. -/
def loop (body : σ → Option σ) (μ : σ → Nat) (s : σ) : σ := turns body (μ s) s

theorem turns_invariant {Inv : σ → Prop} (hbody : ∀ s s', Inv s → body s = some s' → Inv s')
    (n : Nat) (h : Inv s) : Inv (turns body n s) := by
  induction n generalizing s with
  | zero => exact h
  | succ n ih =>
    rw [turns]
    split
    · exact h
    · next s' hs' => exact ih (hbody s s' h hs')

/-- What every turn preserves holds when the loop is left. -/
theorem loop_invariant {Inv : σ → Prop} (hbody : ∀ s s', Inv s → body s = some s' → Inv s')
    (h : Inv s) : Inv (loop body μ s) := turns_invariant hbody _ h

/-- A loop that keeps more state than another, and takes the same turns, computes the other. -/
theorem map_loop {τ : Type _} {body' : τ → Option τ} {μ' : τ → Nat} (f : τ → σ)
    (hbody : ∀ t, (body' t).map f = body (f t)) (hμ : ∀ t, μ' t = μ (f t)) (t : τ) :
    f (loop body' μ' t) = loop body μ (f t) := by
  have hturns : ∀ n t, f (turns body' n t) = turns body n (f t) := by
    intro n
    induction n with
    | zero => exact fun _ => rfl
    | succ n ih =>
      intro t
      rw [turns, turns, ← hbody]
      cases body' t with
      | none => rfl
      | some t' => exact ih t'
  rw [loop, loop, hμ, hturns]

section
variable {Inv : σ → Prop} (hbody : ∀ s s', Inv s → body s = some s' → Inv s' ∧ μ s' < μ s)
include hbody

theorem turns_exit (h : Inv s) (hn : μ s ≤ n) : body (turns body n s) = none := by
  induction n generalizing s with
  | zero =>
    cases hs : body s with
    | none => exact hs
    | some s' =>
      have := (hbody s s' h hs).2
      omega
  | succ n ih =>
    rw [turns]
    split
    · assumption
    · next s' hs' =>
      obtain ⟨h', hlt⟩ := hbody s s' h hs'
      exact ih h' (by omega)

/-- The loop is left only where its condition fails. -/
theorem loop_exit (h : Inv s) : body (loop body μ s) = none :=
  turns_exit hbody h (Nat.le_refl _)

end

end Lib
