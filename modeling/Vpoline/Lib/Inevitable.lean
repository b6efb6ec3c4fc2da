import Mathlib.Logic.Relation

/-!
# Inevitable Outcomes of a Nondeterministic System

Total correctness for a step relation with many successors. A run of such a
system may be perturbed at every step, so exhibiting one path to a good state
says nothing about the others. `Inevitably step P s` says that every path out
of `s` meets `P`: no path gets stuck before it does, and none goes on forever
without doing so.

The predicate is inductive, so a derivation is a well-founded tree with one
branch for each successor. That is what makes it a termination statement, and
what `Inevitably.trans` inducts on to chain one stretch of a run to the next.

`Surely can step P s` says a little more. The system may have steps that are
possible but not of its own making, such as an interruption, and `can` are those
that are. Then `P` is inevitable, and the system gets there by itself.

## Main definitions

* `Inevitably`: Every path out of a state meets a predicate.
* `Surely`: The same, and a path of selected steps does.

## Theorems

* `Inevitably.mono`: A weaker predicate is met as well.
* `Inevitably.trans`: Chaining two stretches of a run.
* `Inevitably.single`: One step whose successors all satisfy the predicate.
* `Inevitably.reaches`: Some path does arrive.
* `Inevitably.along`: What is met has been reached.
* `Inevitably.meet`: Two predicates that exclude each other later on.
* `Surely.trans`, `Surely.mono`, `Surely.single`: The same rules for `Surely`.
* `Surely.inevitably`, `Surely.reaches`: Its two halves.
* `invariant_run`: What every step preserves, every run preserves.
-/

namespace Vpoline

variable {σ : Type*} {step : σ → σ → Prop} {P Q : σ → Prop}

/-- Every path out of a state meets `P`, and none gets stuck before. -/
inductive Inevitably (step : σ → σ → Prop) (P : σ → Prop) : σ → Prop
  | now (s : σ) : P s → Inevitably step P s
  | next (s : σ) : (∃ t, step s t) → (∀ t, step s t → Inevitably step P t) →
      Inevitably step P s

namespace Inevitably

theorem trans {s : σ} (h : Inevitably step P s)
    (hnext : ∀ t, P t → Inevitably step Q t) : Inevitably step Q s := by
  induction h with
  | now s hs => exact hnext s hs
  | next s hex _ ih => exact Inevitably.next s hex ih

theorem mono {s : σ} (h : Inevitably step P s) (hPQ : ∀ t, P t → Q t) :
    Inevitably step Q s :=
  h.trans (fun t ht => Inevitably.now t (hPQ t ht))

theorem single {s : σ} (hex : ∃ t, step s t) (hall : ∀ t, step s t → P t) :
    Inevitably step P s :=
  Inevitably.next s hex (fun t ht => Inevitably.now t (hall t ht))

/-- A tree with no stuck leaf has a branch that ends in `P`. -/
theorem reaches {s : σ} (h : Inevitably step P s) :
    ∃ t, Relation.ReflTransGen step s t ∧ P t := by
  induction h with
  | now s hs => exact ⟨s, Relation.ReflTransGen.refl, hs⟩
  | next s hex _ ih =>
      rcases hex with ⟨t, ht⟩
      rcases ih t ht with ⟨u, hu, hPu⟩
      exact ⟨u, Relation.ReflTransGen.head ht hu, hPu⟩

/-- What every path meets, it meets in a state that it has reached. -/
theorem along {s : σ} (h : Inevitably step P s) :
    Inevitably step (fun t => P t ∧ Relation.ReflTransGen step s t) s := by
  induction h with
  | now s hs => exact Inevitably.now s ⟨hs, Relation.ReflTransGen.refl⟩
  | next s hex _ ih =>
      refine Inevitably.next s hex (fun t ht => (ih t ht).mono ?_)
      rintro u ⟨hPu, hu⟩
      exact ⟨hPu, Relation.ReflTransGen.head ht hu⟩

/-- Two inevitable predicates that exclude each other later on hold at once:
    on every path, neither can come strictly before the other. -/
theorem meet {s : σ} (hP : ∀ s t u, P s → step s t → Relation.ReflTransGen step t u → ¬ Q u)
    (hQ : ∀ s t u, Q s → step s t → Relation.ReflTransGen step t u → ¬ P u)
    (h : Inevitably step P s) (h' : Inevitably step Q s) :
    ∃ t, Relation.ReflTransGen step s t ∧ P t ∧ Q t := by
  induction h with
  | now s hs =>
      cases h' with
      | now _ hs' => exact ⟨s, Relation.ReflTransGen.refl, hs, hs'⟩
      | next _ hex hall =>
          rcases hex with ⟨t, ht⟩
          -- `P` holds and `Q` is still to come, which `P` excludes.
          rcases (hall t ht).reaches with ⟨u, hu, hQu⟩
          exact absurd hQu (hP s t u hs ht hu)
  | next s hex hall ih =>
      rcases hex with ⟨t, ht⟩
      cases h' with
      | now _ hs' =>
          -- And the other way round.
          rcases (hall t ht).reaches with ⟨u, hu, hPu⟩
          exact absurd hPu (hQ s t u hs' ht hu)
      | next _ _ hall' =>
          rcases ih t ht (hall' t ht) with ⟨u, hu, hboth⟩
          exact ⟨u, Relation.ReflTransGen.head ht hu, hboth⟩

end Inevitably

/-- Every path out of a state meets `P`, none gets stuck before, and there is
    always a step of `can` to go on with. -/
inductive Surely (can step : σ → σ → Prop) (P : σ → Prop) : σ → Prop
  | now (s : σ) : P s → Surely can step P s
  | next (s : σ) : (∃ t, step s t ∧ can s t) → (∀ t, step s t → Surely can step P t) →
      Surely can step P s

namespace Surely

variable {can : σ → σ → Prop}

theorem trans {s : σ} (h : Surely can step P s)
    (hnext : ∀ t, P t → Surely can step Q t) : Surely can step Q s := by
  induction h with
  | now s hs => exact hnext s hs
  | next s hex _ ih => exact Surely.next s hex ih

theorem mono {s : σ} (h : Surely can step P s) (hPQ : ∀ t, P t → Q t) : Surely can step Q s :=
  h.trans (fun t ht => Surely.now t (hPQ t ht))

theorem single {s : σ} (hex : ∃ t, step s t ∧ can s t) (hall : ∀ t, step s t → P t) :
    Surely can step P s :=
  Surely.next s hex (fun t ht => Surely.now t (hall t ht))

theorem inevitably {s : σ} (h : Surely can step P s) : Inevitably step P s := by
  induction h with
  | now s hs => exact Inevitably.now s hs
  | next s hex _ ih =>
      rcases hex with ⟨t, ht, _⟩
      exact Inevitably.next s ⟨t, ht⟩ ih

theorem reaches {s : σ} (h : Surely can step P s) :
    ∃ t, Relation.ReflTransGen can s t ∧ P t := by
  induction h with
  | now s hs => exact ⟨s, Relation.ReflTransGen.refl, hs⟩
  | next s hex _ ih =>
      rcases hex with ⟨t, ht, hcan⟩
      rcases ih t ht with ⟨u, hu, hPu⟩
      exact ⟨u, Relation.ReflTransGen.head hcan hu, hPu⟩

end Surely

/-- What every step preserves, every run preserves. -/
theorem invariant_run {I : σ → Prop} (hstep : ∀ s t, I s → step s t → I t) {s t : σ}
    (hs : I s) (hrun : Relation.ReflTransGen step s t) : I t := by
  induction hrun with
  | refl => exact hs
  | tail _ hlast ih => exact hstep _ _ ih hlast

end Vpoline
