import Mathlib.Data.Finset.Max
import WrkQuic.HdrQueries
import WrkQuic.Lib.PercentileLadder

/-!
# The percentile distribution

`hdr_percentile_iter` and the table that `hdr_percentiles_print` writes,
which `print_hdr_latency` ends with. The iterator walks the slots and a
ladder of percentiles at once: a slot is reported for every percentile of
the ladder that its cumulative count reaches, and the last slot once more,
for 100%.

Floating-point numbers are exact.
-/

namespace WrkQuic

open HdrHistogram PercentileLadder

/-! ## The iterator -/

/-- `struct hdr_percentile_iter`; the histogram is passed separately. -/
structure HdrPercentileIter where
  iter : HdrIter
  seenLastValue : Bool
  ticksPerHalfDistance : ℕ
  percentileToIterateTo : ℚ
  percentile : ℚ

def hdrPercentileIterInit (ticksPerHalfDistance : ℕ) : HdrPercentileIter where
  iter := hdrIterInit
  seenLastValue := false
  ticksPerHalfDistance := ticksPerHalfDistance
  percentileToIterateTo := 0
  percentile := 0

/-- The next `percentile_to_iterate_to`. The quotient of logarithms is
rounded down exactly; `none` is a number of ticks beyond `int64_t`. -/
def percentileAfter (ticks : ℕ) (p : ℚ) : Option ℚ :=
  let halfDistance : ℕ := 2 ^ (Nat.log 2 ⌊100 / (100 - p)⌋₊ + 1)
  let percentileReportingTicks := ticks * halfDistance
  if percentileReportingTicks < 2 ^ 63 then
    let step : ℚ := 100 / percentileReportingTicks
    some (p + if 1 < step then 1 else step)
  else none

/-- The `do … while` loop of `hdr_percentile_iter_next`. -/
def percentileScan (h : HdrHistogram) :
    ℕ → HdrPercentileIter → Option (Bool × HdrPercentileIter)
  | 0, _ => none
  | fuel + 1, percentiles => do
      let currentPercentile : ℚ := 100 * percentiles.iter.countToIndex / h.totalCount
      if percentiles.iter.countAtIndex ≠ 0 ∧
          percentiles.percentileToIterateTo ≤ currentPercentile then
        let next ← percentileAfter percentiles.ticksPerHalfDistance
          percentiles.percentileToIterateTo
        some (true, { percentiles with
          percentile := percentiles.percentileToIterateTo
          percentileToIterateTo := next })
      else
        let (more, iter) ← hdrIterNext h percentiles.iter
        if more then percentileScan h fuel { percentiles with iter := iter }
        else some (true, { percentiles with iter := iter })

def hdrPercentileIterNext (h : HdrHistogram) (fuel : ℕ) (percentiles : HdrPercentileIter) :
    Option (Bool × HdrPercentileIter) :=
  if hasNext h percentiles.iter then
    if percentiles.iter.subBucketIndex = -1 then do
      let (more, iter) ← hdrIterNext h percentiles.iter
      if more then percentileScan h fuel { percentiles with iter := iter }
      else some (false, { percentiles with iter := iter })
    else percentileScan h fuel percentiles
  else if percentiles.seenLastValue then some (false, percentiles)
  else some (true, { percentiles with seenLastValue := true, percentile := 100 })

/-! ## Printing -/

/-- A line of the table; `1 / (1 - percentile)` is infinite on the last. -/
structure PercentileRow where
  value : ℚ
  percentile : ℚ
  totalCount : ℕ
  invertedPercentile : Option ℚ

def percentileRow (valueScale : ℚ) (percentiles : HdrPercentileIter) : PercentileRow :=
  let percentile := percentiles.percentile / 100
  { value := percentiles.iter.highestEquivalentValue / valueScale
    percentile := percentile
    totalCount := percentiles.iter.countToIndex
    invertedPercentile := divide 1 (1 - percentile) }

/-- The `while` loop of `hdr_percentiles_print`. -/
def percentileRows (h : HdrHistogram) (scan : ℕ) (valueScale : ℚ) :
    ℕ → HdrPercentileIter → Option (List PercentileRow)
  | 0, _ => none
  | fuel + 1, percentiles => do
      let (more, percentiles) ← hdrPercentileIterNext h scan percentiles
      if more then
        let rows ← percentileRows h scan valueScale fuel percentiles
        some (percentileRow valueScale percentiles :: rows)
      else some []

inductive FormatType where
  | csv
  | classic

/-- `CLASSIC_FOOTER`, with the standard deviation before the square root. -/
structure PercentilesFooter where
  mean : Option ℚ
  stddevSquared : Option ℚ
  max : ℚ
  totalCount : ℕ
  bucketCount : ℕ
  subBucketCount : ℕ

/-- The lines between the head and the footer, and the footer. -/
def hdrPercentilesPrint (fuel : ℕ) (h : HdrHistogram) (ticksPerHalfDistance : ℕ)
    (valueScale : ℚ) (format : FormatType) :
    Option (List PercentileRow × Option PercentilesFooter) := do
  let rows ← percentileRows h fuel valueScale fuel (hdrPercentileIterInit ticksPerHalfDistance)
  match format with
  | .csv => some (rows, none)
  | .classic =>
      let mean ← hdrMean fuel h
      let stddevSquared ← hdrStddevSquared fuel h
      let max ← hdrMax fuel h
      some (rows, some {
        mean := mean.map (· / valueScale)
        stddevSquared := stddevSquared.map (· / valueScale ^ 2)
        max := max / valueScale
        totalCount := h.totalCount
        bucketCount := h.bucketCount
        subBucketCount := h.subBucketCount })

/-! ## The walk -/

section

variable {g : HdrHistogram} {S : Multiset ℕ} {scale p p' : ℚ} {ticks k : ℕ}

/-- The cumulative count of slot `k` reaches the percentile `p`. -/
def Reaches (S : Multiset ℕ) (p : ℚ) (k : ℕ) : Prop :=
  p ≤ 100 * (S.countP (· < k + 1) : ℕ) / S.card

/-- `q` is the first occupied slot that reaches `p`. -/
structure FirstReaching (S : Multiset ℕ) (p : ℚ) (q : ℕ) : Prop where
  mem : q ∈ S
  reaches : Reaches S p q
  first : ∀ s ∈ S, s < q → ¬Reaches S p s

theorem FirstReaching.mono (h : FirstReaching S p' k) (hle : p ≤ p') : Reaches S p k :=
  hle.trans h.reaches

theorem Reaches.le_of_not_last {q s : ℕ} (hs : s ∈ S) (hlt : q < s) (h : Reaches S p q) :
    p ≤ 100 * (1 - 1 / S.card) := by
  have hpos : 0 < S.card := Multiset.card_pos_iff_exists_mem.mpr ⟨s, hs⟩
  have hposq : (0 : ℚ) < S.card := by exact_mod_cast hpos
  have hcount : S.countP (· < q + 1) + 1 ≤ S.card := by
    have hsplit := Multiset.card_eq_countP_add_countP (· < q + 1) S
    have hrest : 0 < S.countP (fun t => ¬t < q + 1) :=
      Multiset.countP_pos.mpr ⟨s, hs, Nat.not_lt.mpr hlt⟩
    omega
  have hcountq : (S.countP (· < q + 1) : ℚ) ≤ S.card - 1 := by
    have : ((S.countP (· < q + 1) + 1 : ℕ) : ℚ) ≤ S.card := by exact_mod_cast hcount
    push_cast at this
    linarith
  refine h.trans ?_
  rw [div_le_iff₀ hposq]
  have hmul : 100 * (1 - 1 / (S.card : ℚ)) * S.card = 100 * (S.card - 1) := by
    rw [mul_assoc, sub_mul, one_mul, div_mul_cancel₀ _ hposq.ne']
  rw [hmul]
  linarith

theorem FirstReaching.last {q : ℕ} (hq : q ∈ S) (hlast : ∀ s ∈ S, s ≤ q) :
    FirstReaching S 100 q where
  mem := hq
  reaches := by
    have hpos : (0 : ℚ) < S.card := by
      exact_mod_cast Multiset.card_pos_iff_exists_mem.mpr ⟨q, hq⟩
    have hall : S.countP (· < q + 1) = S.card :=
      Multiset.countP_eq_card.mpr fun s hs => Nat.lt_succ_of_le (hlast s hs)
    rw [Reaches, hall, mul_div_assoc, div_self hpos.ne', mul_one]
  first s hs hlt hr := by
    have hle := hr.le_of_not_last hq hlt
    have hpos : (0 : ℚ) < 1 / S.card :=
      div_pos one_pos (by exact_mod_cast Multiset.card_pos_iff_exists_mem.mpr ⟨q, hq⟩)
    linarith

end

end WrkQuic
