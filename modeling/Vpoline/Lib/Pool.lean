import Mathlib.Logic.Function.Basic
import Mathlib.Logic.Relation

/-!
# Pools of Threads

Threads that take turns on a shared state, and the rule by which a property
of single threads becomes one of the whole pool.

A thread is described by its local state. A step of the pool is a step of one
thread, which may leave another one behind that has just been born, or the end
of a thread. The other threads do not move, but the shared state changes under
their feet. So a property of a thread has to survive what the others do to the
shared state. `PoolStep.invariant` asks for a relation that bounds this: every
thread guarantees it, and every thread may rely on it.

## Main definitions

* `Pool`: A shared state, and the threads there are.
* `PoolStep`: One step of a pool.

## Theorems

* `PoolStep.invariant`: The rule, for one step.
* `pool_invariant`: The rule, for a run.
* `pool_run`: The run of a single thread.
-/

namespace Vpoline

variable {σ τ : Type*}

/-- Threads with local state `τ` over a shared state `σ`. -/
structure Pool (σ τ : Type*) where
  shared : σ
  threads : Nat → Option τ

/-- One step of a pool. `born l l' c` says that a thread that goes from `l` to
    `l'` can leave `c` behind. -/
inductive PoolStep (step : τ → σ → τ → σ → Prop) (born : τ → τ → τ → Prop) :
    Pool σ τ → Pool σ τ → Prop
  | run (p : Pool σ τ) (i : Nat) (l l' : τ) (s' : σ) :
      p.threads i = some l → step l p.shared l' s' →
      PoolStep step born p ⟨s', Function.update p.threads i (some l')⟩
  | spawn (p : Pool σ τ) (i j : Nat) (l l' c : τ) (s' : σ) :
      p.threads i = some l → p.threads j = none → step l p.shared l' s' → born l l' c →
      PoolStep step born p
        ⟨s', Function.update (Function.update p.threads i (some l')) j (some c)⟩
  | exit (p : Pool σ τ) (i : Nat) :
      PoolStep step born p ⟨p.shared, Function.update p.threads i none⟩

section Invariant

variable {step : τ → σ → τ → σ → Prop} {born : τ → τ → τ → Prop} {R : σ → σ → Prop}
  {I : τ → σ → Prop}

/-- If every thread keeps its own invariant and guarantees `R`, what is born
    has the invariant, and the invariant survives `R`, then all threads of the
    pool have it. -/
theorem PoolStep.invariant (hstep : ∀ l s l' s', I l s → step l s l' s' → I l' s' ∧ R s s')
    (hborn : ∀ l s l' s' c, I l s → step l s l' s' → born l l' c → I c s')
    (hstable : ∀ l s s', I l s → R s s' → I l s') {p p' : Pool σ τ}
    (h : ∀ i l, p.threads i = some l → I l p.shared) (hp : PoolStep step born p p') :
    ∀ i l, p'.threads i = some l → I l p'.shared := by
  -- A step of thread `i`, seen by whichever thread is asked about.
  have hmove : ∀ (i : Nat) (l l' : τ) (s' : σ), p.threads i = some l →
      step l p.shared l' s' → ∀ k x, Function.update p.threads i (some l') k = some x → I x s' := by
    intro i l l' s' hi hl k x hx
    rcases hstep l p.shared l' s' (h i l hi) hl with ⟨hI, hR⟩
    by_cases hki : k = i
    · rw [hki, Function.update_self, Option.some.injEq] at hx
      rw [← hx]
      exact hI
    · rw [Function.update_of_ne hki] at hx
      exact hstable x p.shared s' (h k x hx) hR
  cases hp with
  | run i l l' s' hi hl => exact hmove i l l' s' hi hl
  | spawn i j l l' c s' hi _ hl hb =>
      intro k x hx
      have hx' : Function.update (Function.update p.threads i (some l')) j (some c) k
        = some x := hx
      by_cases hkj : k = j
      · rw [hkj, Function.update_self, Option.some.injEq] at hx'
        rw [← hx']
        exact hborn l p.shared l' s' c (h i l hi) hl hb
      · rw [Function.update_of_ne hkj] at hx'
        exact hmove i l l' s' hi hl k x hx'
  | exit i =>
      intro k x hx
      have hx' : Function.update p.threads i none k = some x := hx
      by_cases hki : k = i
      · rw [hki, Function.update_self] at hx'
        exact absurd hx' (by simp only [reduceCtorEq, not_false_eq_true])
      · rw [Function.update_of_ne hki] at hx'
        exact h k x hx'

theorem pool_invariant (hstep : ∀ l s l' s', I l s → step l s l' s' → I l' s' ∧ R s s')
    (hborn : ∀ l s l' s' c, I l s → step l s l' s' → born l l' c → I c s')
    (hstable : ∀ l s s', I l s → R s s' → I l s') {p p' : Pool σ τ}
    (h : ∀ i l, p.threads i = some l → I l p.shared)
    (hrun : Relation.ReflTransGen (PoolStep step born) p p') :
    ∀ i l, p'.threads i = some l → I l p'.shared := by
  induction hrun with
  | refl => exact h
  | tail _ hlast ih => exact PoolStep.invariant hstep hborn hstable ih hlast

end Invariant

/-- A run of one thread is a run of the pool in which the others do not move. -/
theorem pool_run {step : τ → σ → τ → σ → Prop} {born : τ → τ → τ → Prop} {p : Pool σ τ} {i : Nat}
    {l : τ} {u : τ × σ} (hi : p.threads i = some l)
    (hrun : Relation.ReflTransGen (fun a b => step a.1 a.2 b.1 b.2) (l, p.shared) u) :
    Relation.ReflTransGen (PoolStep step born) p
      ⟨u.2, Function.update p.threads i (some u.1)⟩ := by
  induction hrun with
  | refl =>
      have hsame : Function.update p.threads i (some l) = p.threads := by
        rw [← hi]
        exact Function.update_eq_self i p.threads
      rw [hsame]
  | @tail a b _ hlast ih =>
      have hstep : PoolStep step born ⟨a.2, Function.update p.threads i (some a.1)⟩
          ⟨b.2, Function.update (Function.update p.threads i (some a.1)) i (some b.1)⟩ :=
        PoolStep.run _ i a.1 b.1 b.2 (Function.update_self ..) hlast
      rw [Function.update_idem] at hstep
      exact ih.tail hstep

end Vpoline
