import Vpoline.Lib.Inevitable

/-!
# Outcomes Within a Bounded Number of Steps

`Inevitably` says that every path out of a state meets a predicate, and says
nothing about how long that takes. `Within step P n` adds the number: every
path meets `P` after at most `n` steps, and none gets stuck before.

The rule is the one for loops with a variant. Each state has a budget, a step
is possible as long as `P` has not been met, and every step that does not meet
`P` arrives with a smaller budget.

## Main definitions

* `Within`: Every path out of a state meets a predicate in time.

## Theorems

* `Within.mono`: More time is enough as well.
* `Within.inevitably`: What is met in time is met.
* `Within.of_budget`: The rule.
-/

namespace Vpoline

variable {σ : Type*} {step : σ → σ → Prop} {P : σ → Prop}

/-- Every path out of a state meets `P` within `n` steps, and none gets stuck
    before. -/
inductive Within (step : σ → σ → Prop) (P : σ → Prop) : Nat → σ → Prop
  | now (n : Nat) (s : σ) : P s → Within step P n s
  | next (n : Nat) (s : σ) : (∃ t, step s t) → (∀ t, step s t → Within step P n t) →
      Within step P (n + 1) s

namespace Within

theorem mono {n k : Nat} {s : σ} (h : Within step P n s) (hk : n ≤ k) : Within step P k s := by
  induction h generalizing k with
  | now n s hs => exact .now k s hs
  | next n s hex _ ih =>
      rcases Nat.exists_eq_add_of_lt hk with ⟨d, rfl⟩
      exact .next (n + d) s hex (fun t ht => ih t ht (Nat.le_add_right n d))

theorem inevitably {n : Nat} {s : σ} (h : Within step P n s) : Inevitably step P s := by
  induction h with
  | now n s hs => exact .now s hs
  | next n s hex _ ih => exact .next s hex ih

/-- A budget that every step in front of `P` uses up. -/
theorem of_budget {I : σ → Nat → Prop} (hprogress : ∀ s n, I s n → ¬ P s → ∃ t, step s t)
    (hstep : ∀ s n t, I s n → ¬ P s → step s t → ∃ k, k < n ∧ (P t ∨ I t k)) :
    ∀ (n : Nat) (s : σ), I s n → Within step P n s := by
  intro n
  induction n using Nat.strongRecOn with
  | ind n ih =>
      intro s hs
      by_cases hP : P s
      · exact .now n s hP
      -- A step is possible, so the budget is not empty.
      rcases hprogress s n hs hP with ⟨u, hu⟩
      rcases hstep s n u hs hP hu with ⟨k, hk, _⟩
      rcases Nat.exists_eq_add_of_lt hk with ⟨d, rfl⟩
      refine .next (k + d) s ⟨u, hu⟩ (fun t ht => ?_)
      rcases hstep s _ t hs hP ht with ⟨j, hj, hPt | hIt⟩
      · exact .now _ t hPt
      · exact (ih j hj t hIt).mono (by omega)

end Within

end Vpoline
