import Quizzbot.Lib.Run

/-!
# `Lib.Process` — a component with its history

In a system of several components each takes its steps at its own pace, and the laws of one component are
about the runs of that component. A `Process` is a state together with the run that led to it, so what is
known of all runs of a component is known of the component wherever it is put.
-/

namespace LabelledRun

variable {σ ℓ : Type}

variable {step : σ → ℓ → σ → Prop} {s s' : σ}

theorem Run.eq_of_nil (h : Run step s [] s') : s' = s := by
  generalize ht : ([] : List ℓ) = t at h
  cases h with
  | refl => rfl
  | tail _ _ => exact absurd ht.symm (List.append_ne_nil_of_right_ne_nil _ (List.cons_ne_nil _ _))

/-- A run of one step is that step. -/
theorem Run.step_of_single {l : ℓ} (h : Run step s [l] s') : step s l s' := by
  generalize ht : [l] = t at h
  cases h with
  | refl => cases ht
  | @tail t s₁ l' _ hrun hs =>
      obtain ⟨rfl, hl⟩ := List.append_inj' (show [] ++ [l] = t ++ [l'] from ht) rfl
      cases hl
      rw [hrun.eq_of_nil] at hs
      exact hs

/-- A state of a component, reached from `init` by the steps in `trace`. -/
structure Process (step : σ → ℓ → σ → Prop) (init : σ) where
  state : σ
  trace : List ℓ
  run   : Run step init trace state

namespace Process

variable {init : σ}

/-- No step was taken. -/
def new : Process step init := ⟨init, [], .refl⟩

/-- One more step. -/
def extend (p : Process step init) {l : ℓ} {s' : σ} (h : step p.state l s') : Process step init :=
  ⟨s', p.trace ++ [l], .tail p.run h⟩

@[simp] theorem new_state : (new : Process step init).state = init := rfl
@[simp] theorem new_trace : (new : Process step init).trace = [] := rfl

@[simp] theorem extend_state (p : Process step init) {l : ℓ} {s' : σ} (h : step p.state l s') :
    (p.extend h).state = s' := rfl

@[simp] theorem extend_trace (p : Process step init) {l : ℓ} {s' : σ} (h : step p.state l s') :
    (p.extend h).trace = p.trace ++ [l] := rfl

/-- `Extends p t p'`: the history of `p'` is that of `p` and then `t`. -/
def Extends (p : Process step init) (t : List ℓ) (p' : Process step init) : Prop :=
  p'.trace = p.trace ++ t ∧ Run step p.state t p'.state

theorem extends_refl (p : Process step init) : p.Extends [] p :=
  ⟨(List.append_nil _).symm, .refl⟩

theorem extends_extend (p : Process step init) {l : ℓ} {s' : σ} (h : step p.state l s') :
    p.Extends [l] (p.extend h) :=
  ⟨rfl, .single h⟩

theorem Extends.trans {p p' p'' : Process step init} {t t' : List ℓ} (h : p.Extends t p')
    (h' : p'.Extends t' p'') : p.Extends (t ++ t') p'' :=
  ⟨by rw [h'.1, h.1, List.append_assoc], h.2.trans h'.2⟩

end Process

end LabelledRun
