import Mathlib.Algebra.Order.Floor.Semiring
import Mathlib.Algebra.Order.Field.Basic

/-!
# Rate lines

The arithmetic of a truncated linear schedule: at rate `r` units per
tick the `n`-th unit falls due after `⌊n / r⌋` ticks. Everything a
pacing loop needs about the truncation is that it loses less than one
tick (`lt_of_due_le`) and that the line is monotone.
-/

namespace RateLine

variable {K : Type*} [Field K] [LinearOrder K] [IsStrictOrderedRing K] [FloorSemiring K]

/-- Ticks after which unit `n` is due at `r` units per tick, truncated. -/
def due (r : K) (n : ℕ) : ℕ := ⌊(n : K) / r⌋₊

@[simp] theorem due_zero (r : K) : due r 0 = 0 := by
  simp [due]

/-- A unit already due at tick `k` lies strictly below the line one tick
later: truncation gains less than one tick. -/
theorem lt_of_due_le {r : K} (hr : 0 < r) {n k : ℕ} (h : due r n ≤ k) :
    (n : K) < r * (k + 1) := by
  have hdiv : (n : K) / r < (k : K) + 1 := by
    have := Nat.lt_of_floor_lt (Nat.lt_succ_of_le h)
    simpa using this
  rwa [div_lt_iff₀ hr, mul_comm] at hdiv

end RateLine
