import WrkQuic.Reported

/-!
# Values within n standard deviations

`stats_within_stdev` counts the samples between `mean - stdev * n` and
`mean + stdev * n`. Over an array it compares each of them with the bounds.
Over a histogram it truncates the bounds to integers and subtracts two
cumulative counts, the later of which includes the first slot above the upper
bound.
-/

namespace WrkQuic

open LogBuckets HdrHistogram OrderStatistics

/-! ## Recording a list -/

/-- `stats_record`, value by value. -/
def statsRecordAll (s : Stats) (xs : List ℕ) : Option Stats := xs.foldlM statsRecord s

theorem statsRecordAll_snoc {s s' : Stats} {xs : List ℕ} {x : ℕ}
    (h : statsRecordAll s xs = some s') :
    statsRecordAll s (xs ++ [x]) = statsRecord s' x := by
  rw [statsRecordAll] at h ⊢
  rw [List.foldlM_append, h]
  simp

/-- The array, which has `capacity` cells, holds `xs`. -/
structure Stats.ArrayHolds (s : Stats) (capacity : ℕ) (xs : List ℕ) : Prop where
  histogram : s.histogram = none
  samples : s.samples = capacity
  limit : s.limit = xs.length
  index : xs.length < capacity → s.index = xs.length
  data : (List.range xs.length).map s.data = xs

theorem statsRecordAll_array {samples : ℕ} (xs : List ℕ) (hcap : xs.length ≤ samples) :
    ∃ s, statsRecordAll (statsAlloc samples) xs = some s ∧ s.ArrayHolds samples xs := by
  induction xs using List.reverseRecOn with
  | nil => exact ⟨_, rfl, rfl, rfl, rfl, fun _ => rfl, rfl⟩
  | append_singleton xs x ih =>
      rw [List.length_append, List.length_singleton] at hcap
      obtain ⟨s, hs, hnone, hsamples, hlimit, hindex, hdata⟩ := ih (by omega)
      have hindex := hindex (by omega)
      rw [statsRecordAll_snoc hs, statsRecord]
      simp only [hnone]
      refine ⟨_, rfl, ?_⟩
      have hlast : (List.range xs.length).map (Function.update s.data xs.length x) = xs := by
        rw [← hdata, List.length_map, List.length_range]
        refine List.map_congr_left fun i hi => ?_
        exact Function.update_of_ne (List.mem_range.mp hi).ne _ _
      refine ⟨rfl, hsamples, ?_, ?_, ?_⟩
      · simp only [hlimit, hsamples, List.length_append, List.length_singleton]
        exact if_pos (by omega)
      · intro hlt
        rw [List.length_append, List.length_singleton] at hlt
        simp only [hindex, hsamples, List.length_append, List.length_singleton]
        exact if_neg (by omega)
      · simp only [hindex]
        rw [List.length_append, List.length_singleton, List.range_succ, List.map_append, hlast,
          List.map_singleton, Function.update_self]

theorem statsRecordAll_histogram {s : Stats} (hs : s.histogram = some latencyHistogram)
    (xs : List ℕ) (hxs : ∀ x ∈ xs, x < 2 ^ 37) : ∃ s', statsRecordAll s xs = some s' ∧
      s'.histogram = some (latencyHistogram.holding xs) := by
  induction xs using List.reverseRecOn with
  | nil => exact ⟨s, rfl, hs.trans (congrArg some latencyHistogram_holding.symm)⟩
  | append_singleton xs x ih =>
      obtain ⟨s', hs', hholding⟩ := ih fun y hy => hxs y (List.mem_append_left _ hy)
      have hx : x < 2 ^ 37 := hxs x (List.mem_append_right _ (List.mem_singleton_self x))
      have hrecord := hdrRecordValue_holding latencyHistogram_shaped xs (latencyHistogram_tracks hx)
      have hadd : ((xs ++ [x] : List ℕ) : Multiset ℕ) = (xs : Multiset ℕ) + {x} :=
        (Multiset.coe_add xs [x]).symm
      rw [statsRecordAll_snoc hs', statsRecord]
      simp only [hholding, toInt64_of_lt (show x < 2 ^ 63 by omega), hrecord, Option.map_some]
      exact ⟨_, rfl, congrArg (some ∘ latencyHistogram.holding) hadd.symm⟩

/-! ## The two counts -/

/-- What the array counts. -/
def Within (lower upper : ℚ) (x : ℕ) : Prop := lower ≤ x ∧ (x : ℚ) ≤ upper

instance (lower upper : ℚ) : DecidablePred (Within lower upper) :=
  fun x => inferInstanceAs (Decidable (lower ≤ x ∧ (x : ℚ) ≤ upper))

/-- What the histogram counts, of truncated bounds: up to the first integer
above the upper one. -/
def Counted (lower upper : ℤ) (x : ℕ) : Prop := lower ≤ x ∧ (x : ℤ) ≤ max (upper + 1) 0

instance (lower upper : ℤ) : DecidablePred (Counted lower upper) :=
  fun x => inferInstanceAs (Decidable (lower ≤ x ∧ (x : ℤ) ≤ max (upper + 1) 0))

section

variable {s : Stats} {mean stdev : ℚ} {n : ℕ}

theorem statsWithinStdev_array {capacity : ℕ} {xs : List ℕ} (h : s.ArrayHolds capacity xs)
    (hne : xs ≠ []) (fuel : ℕ) : statsWithinStdev fuel s mean stdev n =
      some (100 * ((xs.countP (Within (mean - stdev * n) (mean + stdev * n)) : ℕ) : ℚ) /
        (xs.length : ℕ)) := by
  have hlength : (xs.length : ℚ) ≠ 0 :=
    Nat.cast_ne_zero.mpr (List.length_eq_zero_iff.not.mpr hne)
  have hcount : (List.range xs.length).countP (fun i =>
      decide (mean - stdev * n ≤ s.data i ∧ (s.data i : ℚ) ≤ mean + stdev * n)) =
        xs.countP (Within (mean - stdev * n) (mean + stdev * n)) := by
    conv_rhs => rw [← h.data, List.countP_map]
    rfl
  simp only [statsWithinStdev, h.histogram, h.limit, hcount, divide, if_neg hlength,
    Option.map_some]
  rw [div_mul_eq_mul_div, mul_comm]

variable {vs : Multiset ℕ} {fuel : ℕ} {lower upper : ℤ}

theorem statsWithinStdev_holding (hvs : ∀ v ∈ vs, v < 2048) (hne : vs ≠ 0)
    (hfuel : latencyHistogram.countsLen < fuel)
    (hs : s.histogram = some (latencyHistogram.holding vs))
    (hlower : truncateInt64 (mean - stdev * n) = some lower)
    (hupper : truncateInt64 (mean + stdev * n) = some upper) :
    statsWithinStdev fuel s mean stdev n =
      some (100 * ((vs.countP (Counted lower upper) : ℕ) : ℚ) / (vs.card : ℕ)) := by
  have htracks : ∀ v ∈ vs, latencyHistogram.Tracks v := by
    intro v hv
    have := hvs v hv
    exact latencyHistogram_tracks (by omega)
  have hslots : vs.map latencyHistogram.slot = vs :=
    Multiset.map_congr rfl (fun v hv => slot_of_lt (hvs v hv)) |>.trans (Multiset.map_id' vs)
  have hS := slots_lt htracks
  rw [hslots] at hS
  have hholding : latencyHistogram.holding vs = latencyHistogram.ofSlots vs := by
    rw [holding, hslots]
  have hcard : (vs.card : ℚ) ≠ 0 := Nat.cast_ne_zero.mpr (Multiset.card_eq_zero.not.mpr hne)
  obtain ⟨⟨lowerCount, upperCount, foundUpper⟩, hwalk, hcount⟩ :
      ∃ a : ℕ × ℕ × Bool, whileNext (latencyHistogram.ofSlots vs)
        (fun iter a =>
          let lowerCount : ℕ := if iter.valueFromIndex < lower then iter.countToIndex else a.1
          if upper < iter.highestEquivalentValue then
            (true, lowerCount, iter.countToIndex, true)
          else (false, lowerCount, a.2.1, false)) fuel hdrIterInit (0, 0, false) = some a ∧
        a.1 + vs.countP (Counted lower upper) = if a.2.2 then a.2.1 else vs.card := by
    refine whileNext_init latencyHistogram_shaped hS hfuel
      (fun k a => a.1 = vs.countP (fun x => x < k ∧ (x : ℤ) < lower) ∧
        (k : ℤ) ≤ max (upper + 1) 0 ∧ a.2.2 = false) _ ⟨by simp, le_max_right _ _, rfl⟩ ?_ ?_
    · rintro k ⟨lowerCount, upperCount, foundUpper⟩ ⟨v, hv, hkv⟩ ⟨hlowerCount, hk, -⟩
      have hsmall : k < 2048 := Nat.lt_of_le_of_lt hkv (hvs v hv)
      have hvalue : (iterAt latencyHistogram vs (k + 1)).valueFromIndex = (k : ℕ) :=
        congrArg Nat.cast (representative_of_lt hsmall)
      have hnext : (if (k : ℤ) < lower then vs.countP (· < k + 1) else lowerCount) =
          vs.countP fun x => x < k + 1 ∧ (x : ℤ) < lower := by
        split
        · exact countP_congr_iff fun x _ => by omega
        · rw [show lowerCount = _ from hlowerCount]
          exact countP_congr_iff fun x _ => by omega
      simp only [iterAt_highest latencyHistogram_narrow (Nat.lt_of_le_of_lt hkv (hS v hv)),
        highestOf_of_lt hsmall, hvalue, iterAt_countToIndex, hnext]
      by_cases hleave : upper < k
      · rw [if_pos hleave]
        refine Or.inl ⟨rfl, ?_⟩
        have hsplit := vs.countP_eq_countP_filter_add (· < k + 1) fun x : ℕ => (x : ℤ) < lower
        rw [Multiset.countP_filter, Multiset.countP_filter] at hsplit
        simp only [if_true]
        rw [hsplit]
        refine congrArg₂ (· + ·) rfl (countP_congr_iff fun x _ => ?_)
        rw [Counted]
        omega
      · rw [if_neg hleave]
        exact Or.inr ⟨rfl, rfl, by omega, rfl⟩
    · rintro k ⟨lowerCount, upperCount, foundUpper⟩ hend ⟨hlowerCount, hk, hfound⟩
      have hsplit := vs.card_eq_countP_add_countP fun x : ℕ => (x : ℤ) < lower
      rw [show lowerCount = _ from hlowerCount, show foundUpper = false from hfound, hsplit]
      refine congrArg₂ (· + ·) (countP_congr_iff fun x hx => ?_)
        (countP_congr_iff fun x hx => ?_)
      · have := hend x hx
        omega
      · have := hend x hx
        rw [Counted]
        omega
  have htotal : (latencyHistogram.ofSlots vs).totalCount = vs.card := rfl
  have hupperCount : ((if foundUpper then upperCount else vs.card : ℕ) : ℚ) - lowerCount =
      (vs.countP (Counted lower upper) : ℕ) := by
    rw [← hcount]
    push_cast
    ring
  simp only [statsWithinStdev, hs, hholding, htotal, if_neg (Multiset.card_eq_zero.not.mpr hne),
    hlower, hupper, Option.bind_eq_bind, Option.bind_some]
  refine (congrArg (Option.bind · _) hwalk).trans ?_
  simp only [Option.bind_some, hupperCount, divide, if_neg hcard]

end

/-! ## Where they agree -/

theorem truncateInt64_eq_some {x : ℚ} {t : ℤ} (h : truncateInt64 x = some t) : t = truncate x := by
  rw [truncateInt64] at h
  split at h
  · exact (Option.some.inj h).symm
  · cases h

/-- The histogram leaves no sample out. -/
theorem Within.counted {lower upper : ℚ} {x : ℕ} (h : Within lower upper x) :
    Counted (truncate lower) (truncate upper) x := by
  have hx : truncate (x : ℚ) = x := by
    rw [truncate_of_nonneg (Nat.cast_nonneg x), Int.floor_natCast]
  have hlower := truncate_mono h.1
  have hupper := truncate_mono h.2
  rw [hx] at hlower hupper
  rw [Counted]
  omega

theorem countP_eq_iff {P Q : ℕ → Prop} [DecidablePred P] [DecidablePred Q] {vs : Multiset ℕ}
    (h : ∀ v ∈ vs, Q v → P v) : vs.countP P = vs.countP Q ↔ ∀ v ∈ vs, P v → Q v := by
  have hsplit := vs.countP_eq_countP_filter_add P Q
  rw [Multiset.countP_filter, Multiset.countP_filter,
    countP_congr_iff (P := fun v => P v ∧ Q v) (Q := Q)
      fun v hv => ⟨And.right, fun hq => ⟨h v hv hq, hq⟩⟩] at hsplit
  rw [hsplit, Nat.add_eq_left, Multiset.countP_eq_zero]
  exact forall₂_congr fun v _ => by tauto

/-- Both bounds fit `int64_t`, and what the histogram counts of `vs` is within
them. -/
def BoundsExact (lower upper : ℚ) (vs : Multiset ℕ) : Prop :=
  ∃ l u, truncateInt64 lower = some l ∧ truncateInt64 upper = some u ∧
    ∀ v ∈ vs, Counted l u v → Within lower upper v

section

variable {s : Stats} {mean stdev : ℚ} {n fuel : ℕ} {vs : Multiset ℕ}

/-- A bound that does not fit `int64_t`. -/
theorem statsWithinStdev_none (hne : vs ≠ 0)
    (hs : s.histogram = some (latencyHistogram.holding vs))
    (h : truncateInt64 (mean - stdev * n) = none ∨ truncateInt64 (mean + stdev * n) = none) :
    statsWithinStdev fuel s mean stdev n = none := by
  have htotal : (latencyHistogram.holding vs).totalCount ≠ 0 := by
    rw [holding, HdrHistogram.ofSlots, Multiset.card_map]
    exact Multiset.card_eq_zero.not.mpr hne
  simp only [statsWithinStdev, hs, if_neg htotal]
  rcases h with h | h
  · rw [h]
    cases truncateInt64 (mean + stdev * n) <;> rfl
  · rw [h]
    rfl

theorem statsWithinStdev_exact_iff (hvs : ∀ v ∈ vs, v < 2048) (hne : vs ≠ 0)
    (hfuel : latencyHistogram.countsLen < fuel)
    (hs : s.histogram = some (latencyHistogram.holding vs)) :
    statsWithinStdev fuel s mean stdev n =
        some (100 * ((vs.countP (Within (mean - stdev * n) (mean + stdev * n)) : ℕ) : ℚ) /
          (vs.card : ℕ)) ↔
      BoundsExact (mean - stdev * n) (mean + stdev * n) vs := by
  have hcard : (vs.card : ℚ) ≠ 0 := Nat.cast_ne_zero.mpr (Multiset.card_eq_zero.not.mpr hne)
  cases hlower : truncateInt64 (mean - stdev * n) with
  | none =>
      rw [statsWithinStdev_none hne hs (Or.inl hlower)]
      constructor
      · intro h
        cases h
      · rintro ⟨l, u, hl, -⟩
        cases hlower.symm.trans hl
  | some l =>
    cases hupper : truncateInt64 (mean + stdev * n) with
    | none =>
        rw [statsWithinStdev_none hne hs (Or.inr hupper)]
        constructor
        · intro h
          cases h
        · rintro ⟨l, u, -, hu, -⟩
          cases hupper.symm.trans hu
    | some u =>
        have hl := truncateInt64_eq_some hlower
        have hu := truncateInt64_eq_some hupper
        have hiff := countP_eq_iff (P := Counted l u)
          (Q := Within (mean - stdev * n) (mean + stdev * n))
          fun v (_ : v ∈ vs) hv => hl ▸ hu ▸ hv.counted
        rw [statsWithinStdev_holding hvs hne hfuel hs hlower hupper,
          Option.some_inj, div_left_inj' hcard, mul_right_inj' (by norm_num), Nat.cast_inj, hiff,
          BoundsExact]
        simp only [hlower, hupper, Option.some.injEq, exists_and_left, exists_eq_left']

end

/-- Of samples below 2048, a histogram gives the percentage that an array
gives exactly when its truncated bounds let no further sample in. -/
theorem within_stdev_same_iff (xs : List ℕ) (hxs : ∀ x ∈ xs, x < 2048) (hne : xs ≠ [])
    (capacity : ℕ) (hcap : xs.length ≤ capacity) (mean stdev : ℚ) (n : ℕ) (fuel : ℕ)
    (hfuel : latencyHistogram.countsLen < fuel) :
    ∃ array requests hist, statsRecordAll (statsAlloc capacity) xs = some array ∧
      statisticsRequests = some requests ∧ statsRecordAll requests xs = some hist ∧
      (∀ runs : List (List HistOp),
        (∀ ops ∈ runs, ∀ v, HistOp.record v ∈ ops → 0 ≤ v ∧ v < 2 ^ 37) →
        latencies (runs.flatMap sinceReset) = xs → mainHistogram fuel runs = hist.histogram) ∧
      statsWithinStdev fuel array mean stdev n =
        some (100 * ((xs.countP (Within (mean - stdev * n) (mean + stdev * n)) : ℕ) : ℚ) /
          (xs.length : ℕ)) ∧
      ∀ s : Stats, s.histogram = hist.histogram →
        (statsWithinStdev fuel s mean stdev n = statsWithinStdev fuel array mean stdev n ↔
          BoundsExact (mean - stdev * n) (mean + stdev * n) xs) := by
  obtain ⟨array, harray, hholds⟩ := statsRecordAll_array xs hcap
  obtain ⟨hist, hhist, hholding⟩ := statsRecordAll_histogram
    (s := { statsAlloc 10 with histogram := some latencyHistogram }) rfl xs
    fun x hx => (hxs x hx).trans (by decide)
  have hcount : statsWithinStdev fuel array mean stdev n = _ :=
    statsWithinStdev_array hholds hne fuel
  refine ⟨array, _, hist, harray, by rw [statisticsRequests, hdrInit_latency]; rfl, hhist, ?_,
    hcount, ?_⟩
  · intro runs hrange hruns
    rw [(mainHistogram_holding runs hrange hfuel).1, hruns, hholding]
  · intro s hs
    rw [hcount]
    have hvs : ∀ v ∈ (xs : Multiset ℕ), v < 2048 := hxs
    exact statsWithinStdev_exact_iff hvs (fun h => hne ((Multiset.coe_eq_zero xs).mp h)) hfuel
      (hs.trans hholding)

theorem within_stdev_same_iff_three : ∃ array requests hist,
    statsRecordAll (statsAlloc 3) [9, 10, 13] = some array ∧
    statisticsRequests = some requests ∧ statsRecordAll requests [9, 10, 13] = some hist ∧
    statsWithinStdev 28673 hist 10 (3 / 2) 1 = statsWithinStdev 28673 array 10 (3 / 2) 1 := by
  obtain ⟨array, requests, hist, harray, hrequests, hhist, -, -, hiff⟩ := within_stdev_same_iff
    [9, 10, 13] (by decide) (by decide) 3 (by decide) 10 (3 / 2) 1 28673 (by decide)
  refine ⟨array, requests, hist, harray, hrequests, hhist, (hiff hist rfl).mpr ?_⟩
  exact ⟨8, 11, by decide +kernel, by decide +kernel, by decide +kernel⟩

/-- Of the samples 10, 10, 10 and 11, three are within 1/2 of 41/4; the
histogram counts the fourth too. -/
theorem stdev_counts_above : ∃ array requests hist,
    statsRecordAll (statsAlloc 4) [10, 10, 10, 11] = some array ∧
    statisticsRequests = some requests ∧
    statsRecordAll requests [10, 10, 10, 11] = some hist ∧
    statsWithinStdev 28673 array (41 / 4) (1 / 2) 1 = some 75 ∧
    statsWithinStdev 28673 hist (41 / 4) (1 / 2) 1 = some 100 := by
  obtain ⟨array, harray, hholds⟩ := statsRecordAll_array [10, 10, 10, 11] (Nat.le_refl 4)
  obtain ⟨hist, hhist, hholding⟩ := statsRecordAll_histogram
    (s := { statsAlloc 10 with histogram := some latencyHistogram }) rfl [10, 10, 10, 11]
    (by decide)
  refine ⟨array, _, hist, harray, by rw [statisticsRequests, hdrInit_latency]; rfl, hhist, ?_, ?_⟩
  · rw [statsWithinStdev_array hholds (by decide)]
    decide +kernel
  · have hlower : truncateInt64 (41 / 4 - 1 / 2 * (1 : ℕ)) = some 9 := by decide +kernel
    have hupper : truncateInt64 (41 / 4 + 1 / 2 * (1 : ℕ)) = some 10 := by decide +kernel
    rw [statsWithinStdev_holding (by decide) (by decide) (by decide) hholding hlower hupper]
    decide +kernel

end WrkQuic
