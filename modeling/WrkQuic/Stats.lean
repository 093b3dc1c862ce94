import WrkQuic.Connection
import WrkQuic.HdrQueries

/-!
# stats.c

A `stats` object keeps its samples in an array or in a histogram. `main`
makes two over a histogram: of the request rates, recorded one by one, and of
the latencies, over the merged histogram. `script.c` hands them to `done`.

Floating-point numbers are exact.
-/

namespace WrkQuic

/-- `stats`. `data` has `samples` cells. -/
structure Stats where
  samples : ℕ
  index : ℕ
  limit : ℕ
  min : ℕ
  max : ℕ
  histogram : Option HdrHistogram
  data : ℕ → ℕ

def statsAlloc (samples : ℕ) : Stats where
  samples := samples
  index := 0
  limit := 0
  min := 2 ^ 64 - 1
  max := 0
  histogram := none
  data _ := 0

/-- `none` is the abort of `hdr_record_value`. -/
def statsRecord (s : Stats) (x : ℕ) : Option Stats :=
  let s := { s with
    min := if x < s.min then x else s.min
    max := if s.max < x then x else s.max }
  match s.histogram with
  | some h => (hdrRecordValue h (toInt64 x)).map fun r => { s with histogram := some r.2 }
  | none =>
      let data := Function.update s.data s.index x
      let index := s.index + 1
      some { s with
        data := data
        limit := if s.limit < s.samples then s.limit + 1 else s.limit
        index := if index = s.samples then 0 else index }

/-- `statistics.requests`, as `main` sets it up. -/
def statisticsRequests : Option Stats :=
  (hdrInit 1 maxLatency 3).map fun h => { statsAlloc 10 with histogram := some h }

/-- The results of the outer `Option` are those of `hdr_mean`. -/
def statsMean (fuel : ℕ) (s : Stats) : Option (Option ℚ) :=
  match s.histogram with
  | some h => hdrMean fuel h
  | none =>
      if s.limit = 0 then some (some 0)
      else some (divide (((List.range s.limit).map s.data).sum % 2 ^ 64 : ℕ) s.limit)

/-- The conversion to `int64_t`, for which C defines no result out of
range. -/
def truncateInt64 (x : ℚ) : Option ℤ :=
  if -2 ^ 63 ≤ truncate x ∧ truncate x < 2 ^ 63 then some (truncate x) else none

/-- The loop carries `lower_count`, `upper_count` and `found_upper`. -/
def statsWithinStdev (fuel : ℕ) (s : Stats) (mean stdev : ℚ) (n : ℕ) : Option ℚ :=
  let upper := mean + stdev * n
  let lower := mean - stdev * n
  match s.histogram with
  | some h =>
      if h.totalCount = 0 then some 0
      else do
        let upperValue ← truncateInt64 upper
        let lowerValue ← truncateInt64 lower
        let (lowerCount, upperCount, foundUpper) ←
          whileNext h (fun iter (lowerCount, upperCount, _) =>
            let lowerCount : ℕ :=
              if iter.valueFromIndex < lowerValue then iter.countToIndex else lowerCount
            if upperValue < iter.highestEquivalentValue then
              (true, lowerCount, iter.countToIndex, true)
            else (false, lowerCount, upperCount, false)) fuel hdrIterInit (0, 0, false)
        let upperCount : ℕ := if foundUpper then upperCount else h.totalCount
        divide (100 * ((upperCount : ℚ) - lowerCount)) h.totalCount
  | none =>
      let sum := (List.range s.limit).countP fun i =>
        decide (lower ≤ s.data i ∧ (s.data i : ℚ) ≤ upper)
      (divide sum s.limit).map (· * 100)

/-- `round` takes halves away from 0. -/
def statsPercentile (fuel : ℕ) (s : Stats) (p : ℚ) : Option ℕ :=
  match s.histogram with
  | some h => (hdrValueAtPercentile fuel h p).map fun value =>
      if value < 0 then 0 else value.toNat
  | none =>
      let rank := truncate (p / 100 * s.limit + 1 / 2 + 1 / 2)
      some (s.data (rank.toNat - 1))

/-- `latency_stats` of `main`. -/
def latencyStats (fuel : ℕ) (h : HdrHistogram) : Option Stats := do
  let min ← hdrMin fuel h
  let max ← hdrMax fuel h
  some { statsAlloc 10 with
    min := (min % 2 ^ 64).toNat
    max := (max % 2 ^ 64).toNat
    histogram := some h }

/-! ## script.c -/

/-- `stats[i]`, with the conversion of `luaL_checkint`. -/
def scriptStatsGet (fuel : ℕ) (s : Stats) (i : ℤ) : Option ℤ :=
  let index := i.bmod (2 ^ 32)
  match s.histogram with
  | some h => do
      let percentile ← divide (100 * index) h.totalCount
      hdrValueAtPercentile fuel h percentile
  | none => some (s.data (index - 1).toNat)

/-- `#stats`. -/
def scriptStatsLen (s : Stats) : ℕ :=
  match s.histogram with
  | some h => h.totalCount
  | none => s.limit

end WrkQuic
