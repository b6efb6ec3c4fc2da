/-!
# How a Fallible Computation Ends

A computation in `Except` returns a result or stops with an error. `EndsIn`
has a postcondition for each. Both are about the same run, so what is known of
the errors is kept when computations follow one another.

## Main definitions

* `EndsIn`: A postcondition for results and errors.

## Theorems

* `EndsIn.bind`: Two computations, one after the other.
* `EndsIn.mono`: Weaker postconditions.
-/

namespace Vpoline

variable {ε α β : Type} {P P' : α → Prop} {Q Q' : ε → Prop} {R : β → Prop} {r : Except ε α}

/-- A computation ends with a result in `P` or with an error in `Q`. -/
def EndsIn (P : α → Prop) (Q : ε → Prop) : Except ε α → Prop
  | .ok a => P a
  | .error e => Q e

theorem EndsIn.bind {f : α → Except ε β} (h : EndsIn P Q r) (hf : ∀ a, P a → EndsIn R Q (f a)) :
    EndsIn R Q (r >>= f) := by
  cases r with
  | error e => exact h
  | ok a => exact hf a h

theorem EndsIn.mono (h : EndsIn P Q r) (hP : ∀ a, P a → P' a) (hQ : ∀ e, Q e → Q' e) :
    EndsIn P' Q' r := by
  cases r with
  | error e => exact hQ e h
  | ok a => exact hP a h

end Vpoline
