import Mathlib.Data.List.Basic

/-!
# `Lib.Run` — labelled runs of a step relation

A run lists the labels of the steps it takes, oldest first. Safety of a system is stated over its runs:
an invariant that holds at the start and survives each step holds at the end of every run
(`Run.invariant`), and a law about the history is proved by induction on the last step.

- `Run.simulate`: a run of one system is a run of another that its steps can be followed in.
- `Under`: the steps that meet a condition. `Run.iff_under` turns a law that each step keeps exactly if it
  meets a condition into a law about whole runs: it holds at the end exactly if every step met it.
- `Each`: a law about each label of a history, given the labels before it.
-/

namespace LabelledRun

variable {σ ℓ : Type} {step : σ → ℓ → σ → Prop}

/-- `Run step s t s'`: from `s` the steps labelled `t` lead to `s'`. -/
inductive Run (step : σ → ℓ → σ → Prop) : σ → List ℓ → σ → Prop
  | refl {s} : Run step s [] s
  | tail {s t s' l s''} : Run step s t s' → step s' l s'' → Run step s (t ++ [l]) s''

theorem Run.single {s s' : σ} {l : ℓ} (h : step s l s') : Run step s [l] s' := .tail .refl h

theorem Run.trans {s s' s'' : σ} {t t' : List ℓ} (h : Run step s t s') (h' : Run step s' t' s'') :
    Run step s (t ++ t') s'' := by
  induction h' with
  | refl => rwa [List.append_nil]
  | tail _ hs ih => rw [← List.append_assoc]; exact .tail ih hs

/-- A run is a run of any relation that allows its steps, under other labels. -/
theorem Run.relabel {ℓ' : Type} {step' : σ → ℓ' → σ → Prop} (f : ℓ → ℓ') {s s' : σ} {t : List ℓ}
    (h : Run step s t s') (hf : ∀ s l s', step s l s' → step' s (f l) s') :
    Run step' s (t.map f) s' := by
  induction h with
  | refl => exact .refl
  | tail _ hs ih => rw [List.map_append]; exact .tail ih (hf _ _ _ hs)

/-- An invariant of the step is an invariant of the run. -/
theorem Run.invariant {I : σ → Prop} (hI : ∀ s l s', I s → step s l s' → I s') {s s' : σ}
    {t : List ℓ} (h : Run step s t s') (hs : I s) : I s' := by
  induction h with
  | refl => exact hs
  | tail _ hstep ih => exact hI _ _ _ ih hstep

/-- A system whose steps can be followed in another, by some number of steps each. -/
theorem Run.simulate {σ' ℓ' : Type} {step' : σ' → ℓ' → σ' → Prop} (g : σ → σ') (f : ℓ → List ℓ')
    (hf : ∀ s l s', step s l s' → Run step' (g s) (f l) (g s')) {s s' : σ} {t : List ℓ}
    (h : Run step s t s') : Run step' (g s) (t.flatMap f) (g s') := by
  induction h with
  | refl => exact .refl
  | tail _ hs ih =>
      rw [List.flatMap_append, List.flatMap_singleton]
      exact ih.trans (hf _ _ _ hs)

/-! ## Steps that meet a condition -/

/-- The steps that meet a condition on their label and on the state they start from. -/
def Under (step : σ → ℓ → σ → Prop) (Q : σ → ℓ → Prop) (s : σ) (l : ℓ) (s' : σ) : Prop :=
  step s l s' ∧ Q s l

variable {Q Q' : σ → ℓ → Prop} {s₀ : σ}

theorem Run.of_under {s s' : σ} {t : List ℓ} (h : Run (Under step Q) s t s') : Run step s t s' := by
  induction h with
  | refl => exact .refl
  | tail _ hs ih => exact .tail ih hs.1

/-- A run whose steps all meet a condition. -/
theorem Run.under_of_mem {s s' : σ} {t : List ℓ} (h : Run step s t s')
    (hQ : ∀ s l s', l ∈ t → step s l s' → Q s l) : Run (Under step Q) s t s' := by
  induction h with
  | refl => exact .refl
  | tail _ hs ih =>
      apply Run.tail (ih _) ⟨hs, hQ _ _ _ (List.mem_append_right _ (List.mem_singleton.mpr rfl)) hs⟩
      intro s l s' hl
      exact hQ s l s' (List.mem_append_left _ hl)

/-- What one condition implies of a step in a run that meets it. -/
theorem Run.under_mono (hQ : ∀ t s l s', Run step s₀ t s → step s l s' → Q s l → Q' s l) {s : σ}
    {t : List ℓ} (h : Run (Under step Q) s₀ t s) : Run (Under step Q') s₀ t s := by
  induction h with
  | refl => exact .refl
  | tail hrun hs ih => exact .tail ih ⟨hs.1, hQ _ _ _ _ hrun.of_under hs.1 hs.2⟩

/-- Conditions that agree on every step of every run have the same runs. -/
theorem Run.under_congr (hQ : ∀ t s l s', Run step s₀ t s → step s l s' → (Q s l ↔ Q' s l)) {s : σ}
    {t : List ℓ} : Run (Under step Q) s₀ t s ↔ Run (Under step Q') s₀ t s := by
  constructor
  · apply Run.under_mono
    intro t s l s' hrun hs
    exact (hQ t s l s' hrun hs).mp
  · apply Run.under_mono
    intro t s l s' hrun hs
    exact (hQ t s l s' hrun hs).mpr

/-- **A law about the history that a step keeps exactly if it meets a condition** holds at the end of a
    run exactly if every step of the run met it. -/
theorem Run.iff_under {P : List ℓ → σ → Prop} (h₀ : P [] s₀)
    (hstep : ∀ t s l s', Run step s₀ t s → step s l s' → (P (t ++ [l]) s' ↔ P t s ∧ Q s l)) {s : σ}
    {t : List ℓ} (h : Run step s₀ t s) : P t s ↔ Run (Under step Q) s₀ t s := by
  constructor
  · intro hP
    induction h with
    | refl => exact .refl
    | tail hrun hs ih =>
        obtain ⟨hP', hQ⟩ := (hstep _ _ _ _ hrun hs).mp hP
        exact .tail (ih hP') ⟨hs, hQ⟩
  · intro hunder
    clear h
    induction hunder with
    | refl => exact h₀
    | tail hrun hs ih => exact (hstep _ _ _ _ hrun.of_under hs.1).mpr ⟨ih, hs.2⟩

/-! ## Laws about each step of a history -/

/-- A law about each label of a history and the labels before it. -/
def Each (P : List ℓ → ℓ → Prop) (t : List ℓ) : Prop :=
  ∀ t₁ l t₂, t = t₁ ++ l :: t₂ → P t₁ l

variable {P : List ℓ → ℓ → Prop}

theorem each_nil : Each P [] := by
  intro t₁ l t₂ h
  exact absurd h.symm (List.append_ne_nil_of_right_ne_nil _ (List.cons_ne_nil _ _))

theorem each_concat {t : List ℓ} {l : ℓ} : Each P (t ++ [l]) ↔ Each P t ∧ P t l := by
  constructor
  · intro h
    constructor
    · intro t₁ x t₂ ht
      exact h t₁ x (t₂ ++ [l]) (by rw [ht, List.append_assoc, List.cons_append])
    · exact h t l [] rfl
  · rintro ⟨ht, hl⟩ t₁ x t₂ h
    -- the label is the last one or an earlier one
    rcases List.eq_nil_or_concat' t₂ with rfl | ⟨t₂, y, rfl⟩
    · obtain ⟨rfl, hx⟩ := List.append_inj' h rfl
      cases hx
      exact hl
    · rw [← List.cons_append, ← List.append_assoc] at h
      obtain ⟨rfl, -⟩ := List.append_inj' h rfl
      exact ht t₁ x t₂ rfl

/-- **A law about each step**, if a step keeps it exactly when it meets a condition. -/
theorem Run.each_iff_under
    (hstep : ∀ t s l s', Run step s₀ t s → step s l s' → (P t l ↔ Q s l)) {s : σ} {t : List ℓ}
    (h : Run step s₀ t s) : Each P t ↔ Run (Under step Q) s₀ t s := by
  apply Run.iff_under (P := fun t _ => Each P t) each_nil _ h
  intro t s l s' hrun hs
  rw [each_concat, hstep t s l s' hrun hs]

end LabelledRun
