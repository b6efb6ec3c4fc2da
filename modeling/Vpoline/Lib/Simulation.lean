import Vpoline.Lib.Inevitable

/-!
# Simulation by Inevitable Stretches

A concrete system in which one step of an abstract system takes many steps,
none of which can be told in advance. `Simulates spec impl R` says that from
related states the concrete system goes on whenever the abstract one can, and
that every way on arrives at a state related to some abstract successor.

Two things follow. What is inevitable for the abstract system is inevitable for
the concrete one, so termination and total correctness carry over. And no run of
the concrete system leaves the abstract one behind: each of its states is on the
way to a state that is related to a reachable one. An abstract state without
successors promises nothing, so a run that passes one is let go.

The concrete system always moves before it arrives. Without that a state could
be related to an endless chain of abstract states and stand still.

## Main definitions

* `Simulates`: Every step of one system is a stretch of another.
* `Tracks`: Where a concrete state stands with respect to an abstract one.

## Theorems

* `Simulates.inevitably`: Inevitable outcomes carry over.
* `Simulates.tracks_step`: A concrete step stays on the track.
* `Simulates.run`: So does a concrete run.
-/

namespace Vpoline

variable {σ τ : Type*} {spec : σ → σ → Prop} {impl : τ → τ → Prop} {R : σ → τ → Prop}

/-- From related states, if `spec` can go on then `impl` can, and each way on
    arrives at a state related to a successor. -/
structure Simulates (spec : σ → σ → Prop) (impl : τ → τ → Prop) (R : σ → τ → Prop) : Prop where
  progress : ∀ a b, R a b → (∃ a', spec a a') → ∃ b', impl b b'
  arrives : ∀ a b, R a b → (∃ a', spec a a') → ∀ b', impl b b' →
    Inevitably impl (fun c => ∃ a', spec a a' ∧ R a' c) b'

/-- The concrete state `b` is related to `a`, or on the way to a successor of
    `a`, or `a` has none. -/
def Tracks (spec : σ → σ → Prop) (impl : τ → τ → Prop) (R : σ → τ → Prop) (a : σ) (b : τ) :
    Prop :=
  R a b ∨ Inevitably impl (fun c => ∃ a', spec a a' ∧ R a' c) b ∨ ∀ a', ¬ spec a a'

namespace Simulates

variable {a : σ} {b b' : τ}

/-- What is inevitable for the abstract system is inevitable for the concrete
    one. The induction is on the abstract derivation. -/
theorem inevitably (h : Simulates spec impl R) {P : σ → Prop} (hP : Inevitably spec P a)
    (hR : R a b) : Inevitably impl (fun c => ∃ a', P a' ∧ R a' c) b := by
  induction hP generalizing b with
  | now a ha => exact Inevitably.now b ⟨a, ha, hR⟩
  | next a hex _ ih =>
      refine Inevitably.next b (h.progress a b hR hex) (fun b' hb' => ?_)
      refine (h.arrives a b hR hex b' hb').trans ?_
      rintro c ⟨a', hstep, hR'⟩
      exact ih a' hstep hR'

theorem tracks_of_related (h : Simulates spec impl R) (hR : R a b) (hb : impl b b') :
    Tracks spec impl R a b' := by
  by_cases hex : ∃ a', spec a a'
  · exact Or.inr (Or.inl (h.arrives a b hR hex b' hb))
  · exact Or.inr (Or.inr (fun a' ha' => hex ⟨a', ha'⟩))

/-- A concrete step stays on the track, and moves the abstract state on if the
    stretch it was in is over. -/
theorem tracks_step (h : Simulates spec impl R) (ht : Tracks spec impl R a b) (hb : impl b b') :
    ∃ a', Relation.ReflTransGen spec a a' ∧ Tracks spec impl R a' b' := by
  rcases ht with hR | hway | hstuck
  · exact ⟨a, Relation.ReflTransGen.refl, h.tracks_of_related hR hb⟩
  · cases hway with
    | now _ hnow =>
        rcases hnow with ⟨a', hstep, hR'⟩
        exact ⟨a', Relation.ReflTransGen.single hstep, h.tracks_of_related hR' hb⟩
    | next _ _ hall =>
        exact ⟨a, Relation.ReflTransGen.refl, Or.inr (Or.inl (hall b' hb))⟩
  · exact ⟨a, Relation.ReflTransGen.refl, Or.inr (Or.inr hstuck)⟩

theorem tracks_run (h : Simulates spec impl R) (hR : R a b)
    (hrun : Relation.ReflTransGen impl b b') :
    ∃ a', Relation.ReflTransGen spec a a' ∧ Tracks spec impl R a' b' := by
  induction hrun with
  | refl => exact ⟨a, Relation.ReflTransGen.refl, Or.inl hR⟩
  | tail _ hlast ih =>
      rcases ih with ⟨a₁, hrun₁, ht₁⟩
      rcases h.tracks_step ht₁ hlast with ⟨a₂, hrun₂, ht₂⟩
      exact ⟨a₂, hrun₁.trans hrun₂, ht₂⟩

/-- Every state that the concrete system reaches goes on to a state related to
    an abstract state that is reached too, unless the abstract system has come
    to an end. -/
theorem run (h : Simulates spec impl R) (hR : R a b) (hrun : Relation.ReflTransGen impl b b') :
    ∃ a', Relation.ReflTransGen spec a a' ∧
      ((∃ c, Relation.ReflTransGen impl b' c ∧ R a' c) ∨ ∀ a'', ¬ spec a' a'') := by
  rcases h.tracks_run hR hrun with ⟨a', hrun', hR' | hway | hstuck⟩
  · exact ⟨a', hrun', Or.inl ⟨b', Relation.ReflTransGen.refl, hR'⟩⟩
  · rcases hway.reaches with ⟨c, hc, a'', hstep, hR''⟩
    exact ⟨a'', hrun'.tail hstep, Or.inl ⟨c, hc, hR''⟩⟩
  · exact ⟨a', hrun', Or.inr hstuck⟩

end Simulates

end Vpoline
