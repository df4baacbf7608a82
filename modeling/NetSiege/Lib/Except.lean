import Mathlib.Data.List.Forall2

/-!
# Computations that may fail

Inversion of a `do` block in `Except`, and of `mapM` and `foldlM` over a list. A list and its image
under `mapM` are related entry by entry (`List.Forall₂`).
-/

namespace Lib

variable {ε α β : Type _}

theorem bind_eq_ok {x : Except ε α} {f : α → Except ε β} {b : β} :
    x >>= f = .ok b ↔ ∃ a, x = .ok a ∧ f a = .ok b := by
  cases x with
  | error e => simp [bind, Except.bind]
  | ok a => simp [bind, Except.bind]

/-- What only post-processes a result fails as the computation itself does. -/
theorem bind_ok_ne_error_iff {x : Except ε α} {f : α → β} {e : ε} :
    (x >>= fun a => .ok (f a)) ≠ .error e ↔ x ≠ .error e := by
  cases x with
  | error e' => simp [bind, Except.bind]
  | ok a => simp [bind, Except.bind]

theorem toOption_map_eq_some {x : Except ε α} {f : α → β} {b : β} :
    x.toOption.map f = some b ↔ ∃ a, x = .ok a ∧ f a = b := by
  cases x with
  | error e => simp [Except.toOption]
  | ok a => simp [Except.toOption]

/-- `mapM` succeeds when it does on every entry. -/
theorem mapM_eq_ok {f : α → Except ε β} {l : List α} {bs : List β} :
    l.mapM f = .ok bs ↔ List.Forall₂ (fun a b => f a = .ok b) l bs := by
  induction l generalizing bs with
  | nil => simp [pure, Except.pure, eq_comm]
  | cons a l ih =>
    rw [List.mapM_cons, bind_eq_ok]
    constructor
    · rintro ⟨b, hb, h⟩
      obtain ⟨bs', hbs, heq⟩ := bind_eq_ok.1 h
      cases heq
      exact .cons hb (ih.1 hbs)
    · intro h
      cases h with
      | cons hb hbs => exact ⟨_, hb, bind_eq_ok.2 ⟨_, ih.2 hbs, rfl⟩⟩

theorem map_eq_map_of_forall₂ {γ : Type _} {R : α → β → Prop} {f : α → γ} {g : β → γ} {l : List α}
    {bs : List β} (h : List.Forall₂ R l bs) (hR : ∀ a ∈ l, ∀ b, R a b → f a = g b) :
    l.map f = bs.map g := by
  induction h with
  | nil => rfl
  | cons hab _ ih =>
    rw [List.map_cons, List.map_cons, hR _ List.mem_cons_self _ hab,
      ih fun a ha => hR a (List.mem_cons_of_mem _ ha)]

theorem exists_left_of_forall₂ {R : α → β → Prop} {l : List α} {bs : List β}
    (h : List.Forall₂ R l bs) {b : β} (hb : b ∈ bs) : ∃ a ∈ l, R a b := by
  induction h with
  | nil => cases hb
  | cons hab _ ih =>
    rcases List.mem_cons.1 hb with rfl | hb
    · exact ⟨_, List.mem_cons_self, hab⟩
    · obtain ⟨a, ha, hR⟩ := ih hb
      exact ⟨a, List.mem_cons_of_mem _ ha, hR⟩

theorem foldlM_cons_eq_ok {f : β → α → Except ε β} {a : α} {l : List α} {b b' : β} :
    (a :: l).foldlM f b = .ok b' ↔ ∃ b1, f b a = .ok b1 ∧ l.foldlM f b1 = .ok b' := by
  rw [List.foldlM_cons, bind_eq_ok]

theorem foldlM_append_eq_ok {f : β → α → Except ε β} {l l' : List α} {b b' : β} :
    (l ++ l').foldlM f b = .ok b' ↔ ∃ b1, l.foldlM f b = .ok b1 ∧ l'.foldlM f b1 = .ok b' := by
  rw [List.foldlM_append, bind_eq_ok]

/-- A fold whose turns all succeed and keep an invariant succeeds and keeps it. -/
theorem exists_foldlM_eq_ok {f : β → α → Except ε β} {Inv : β → Prop} {l : List α} {b : β}
    (hf : ∀ a ∈ l, ∀ b, Inv b → ∃ b', f b a = .ok b' ∧ Inv b') (h : Inv b) :
    ∃ b', l.foldlM f b = .ok b' ∧ Inv b' := by
  induction l generalizing b with
  | nil => exact ⟨b, rfl, h⟩
  | cons a l ih =>
    obtain ⟨hfirst, hrest⟩ := List.forall_mem_cons.1 hf
    obtain ⟨b1, hb1, h1⟩ := hfirst b h
    obtain ⟨b', hb', h'⟩ := ih hrest h1
    exact ⟨b', foldlM_cons_eq_ok.2 ⟨b1, hb1, hb'⟩, h'⟩

end Lib
