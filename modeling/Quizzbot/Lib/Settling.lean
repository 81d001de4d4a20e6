import Quizzbot.Lib.Run
import Mathlib.Algebra.Order.BigOperators.Group.Finset
import Mathlib.Data.DFinsupp.WellFounded

/-!
# `Lib.Settling` — work that comes to an end in whatever order it is done

Liveness without a scheduler: a system *settles* if it can go on wherever it has not come to rest, and cannot go on
for ever (`Settles`). The second part needs a measure, which for work that passes from stage to stage is the
work in each stage, the first stage first: a step may add as much as it likes to the later stages if it takes
from an earlier one (`Forward`).
-/

namespace LabelledRun

variable {σ ℓ : Type} {step : σ → ℓ → σ → Prop} {P : σ → Prop}

/-- From `s` the system comes to a state with `P` whatever steps it takes, and is never stuck before. -/
inductive Settles (step : σ → ℓ → σ → Prop) (P : σ → Prop) : σ → Prop
  | done {s} (h : P s) : Settles step P s
  | later {s} (hgoes : ∃ l s', step s l s') (h : ∀ l s', step s l s' → Settles step P s') : Settles step P s

/-- A system that settles can be brought to rest. -/
theorem Settles.exists_run {s : σ} (h : Settles step P s) : ∃ t s', Run step s t s' ∧ P s' := by
  induction h with
  | done h => exact ⟨[], _, .refl, h⟩
  | later hgoes _ ih =>
      obtain ⟨l, s', hs⟩ := hgoes
      obtain ⟨t, s'', hrun, hP⟩ := ih l s' hs
      exact ⟨[l] ++ t, s'', (Run.single hs).trans hrun, hP⟩

/-- **A system settles** if it goes on until `P` holds and each step goes down in a well-founded relation, as
    long as an invariant holds. -/
theorem settles_of_measure {β : Type} {r : β → β → Prop} (hr : WellFounded r) (m : σ → β) {I : σ → Prop}
    (hI : ∀ s l s', I s → step s l s' → I s') (hgoes : ∀ s, I s → P s ∨ ∃ l s', step s l s')
    (hdown : ∀ s l s', I s → step s l s' → r (m s') (m s)) {s : σ} (hs : I s) : Settles step P s := by
  generalize hb : m s = b
  induction b using hr.induction generalizing s with
  | h b ih =>
      rcases hgoes s hs with hP | hgo
      · exact .done hP
      · refine .later hgo ?_
        intro l s' hstep
        exact ih (m s') (hb ▸ hdown s l s' hs hstep) (hI s l s' hs hstep) rfl

/-! ## Stages -/

variable {ι κ : Type} [LinearOrder ι]

/-- Some stage has less of the work of the parties `cs`, and those in front of it have what they had. -/
def Forward (cs : Finset κ) (work work' : κ → ι → Nat) : Prop :=
  ∃ i, (∀ c ∈ cs, ∀ j < i, work' c j = work c j) ∧ (∀ c ∈ cs, work' c i ≤ work c i) ∧
    ∃ c ∈ cs, work' c i < work c i

/-- Work goes forward if one party's does in some stage, and that of the others is there and before as it was. -/
theorem forward_of_one {cs : Finset κ} {work work' : κ → ι → Nat} {c : κ} (hc : c ∈ cs) {i : ι}
    (hothers : ∀ c', c' ≠ c → ∀ j ≤ i, work' c' j = work c' j) (hbefore : ∀ j < i, work' c j = work c j)
    (hless : work' c i < work c i) : Forward cs work work' := by
  refine ⟨i, ?_, ?_, c, hc, hless⟩
  · intro c' _ j hj
    by_cases hcc : c' = c
    · rw [hcc]
      exact hbefore j hj
    · exact hothers c' hcc j (le_of_lt hj)
  · intro c' _
    by_cases hcc : c' = c
    · rw [hcc]
      exact le_of_lt hless
    · exact le_of_eq (hothers c' hcc i le_rfl)

/-- Where no work is left, none goes forward. -/
theorem not_forward {cs : Finset κ} {work work' : κ → ι → Nat} (h : ∀ c ∈ cs, ∀ i, work c i = 0) :
    ¬ Forward cs work work' := by
  rintro ⟨i, -, -, c, hc, hless⟩
  rw [h c hc i] at hless
  exact absurd hless (Nat.not_lt_zero _)

/-- The work of the parties together, stage by stage. -/
def total (cs : Finset κ) (work : κ → ι → Nat) : Lex (ι → Nat) := toLex fun i => ∑ c ∈ cs, work c i

/-- **Work cannot go forward for ever**: the totals go down in the lexicographic order. -/
theorem forward_wellFounded [Finite ι] (cs : Finset κ) :
    WellFounded fun work' work : κ → ι → Nat => Forward cs work work' := by
  have hwf : WellFounded (InvImage (· < ·) (@total ι κ cs)) := InvImage.wf _ wellFounded_lt
  refine Subrelation.wf ?_ hwf
  rintro work' work ⟨i, hbefore, hle, hless⟩
  refine ⟨i, ?_, Finset.sum_lt_sum hle hless⟩
  intro j hj
  exact Finset.sum_congr rfl fun c hc => hbefore c hc j hj

end LabelledRun
