import Mathlib.Algebra.Order.BigOperators.Group.Multiset
import Mathlib.Data.Nat.Cast.Order.Field
import WrkQuic.Stats

/-!
# Reported latencies

What `main`, `print_hdr_latency` and the scripts report of the merged latency
histogram. `hdr_value_at_percentile` returns the largest value of a slot, which
is at most a 1024th above the recorded one, and `stats[i]` enumerates these
values in order. `hdr_max` returns the smallest value of the last slot, so that
only where every slot holds one value the reported maximum is not exceeded.
-/

namespace WrkQuic

open LogBuckets HdrHistogram OrderStatistics

/-! ## The slots of a latency histogram -/

section Slots

variable {x i : ℕ}

theorem representative_of_lt (hi : i < 2048) : latencyHistogram.representative i = i := by
  have hslot : slotOf latencyHistogram.mantissa i = (0, i) := slotOf_of_lt mantissa_pos hi
  rw [representative, valueOf, hslot]
  rfl

theorem width_of_lt (hi : i < 2048) :
    width latencyHistogram.mantissa latencyHistogram.unitMagnitude i = 1 := by
  have hslot : slotOf latencyHistogram.mantissa i = (0, i) := slotOf_of_lt mantissa_pos hi
  rw [width, hslot]
  rfl

theorem highestOf_of_lt (hi : i < 2048) : latencyHistogram.highestOf i = i := by
  rw [highestOf, representative_succ, representative_of_lt hi, width_of_lt hi, Nat.add_sub_cancel]

theorem medianOf_of_lt (hi : i < 2048) : latencyHistogram.medianOf i = i := by
  rw [medianOf, representative_of_lt hi, width_of_lt hi]
  rfl

/-- Below 2048 a slot holds one value. -/
theorem slot_of_lt (hx : x < 2048) : latencyHistogram.slot x = x :=
  slot_eq_iff.mpr ⟨(representative_of_lt hx).le, (highestOf_of_lt hx).ge⟩

/-- A slot of one value. -/
theorem lt_of_highestOf_le
    (h : latencyHistogram.highestOf i ≤ latencyHistogram.representative i) : i < 2048 := by
  by_contra hge
  have hmono : latencyHistogram.representative 2048 ≤ latencyHistogram.representative i :=
    representative_strictMono.monotone (Nat.not_lt.mp hge)
  have hlast : latencyHistogram.representative 2048 = 2048 := by
    rw [representative_succ, representative_of_lt (by decide), width_of_lt (by decide)]
  have hbucket : (slotOf latencyHistogram.mantissa i).1 ≠ 0 := by
    intro hzero
    obtain ⟨hlt, -⟩ := slotOf_isSlot (m := latencyHistogram.mantissa) mantissa_pos i
    have hvalue : latencyHistogram.representative i = (slotOf latencyHistogram.mantissa i).2 := by
      rw [representative, valueOf, hzero]
      rfl
    have hlt : (slotOf latencyHistogram.mantissa i).2 < 2048 := hlt
    omega
  have hwidth : 2 ≤ width latencyHistogram.mantissa latencyHistogram.unitMagnitude i := by
    have hpow : 2 ^ 1 ≤ 2 ^ ((slotOf latencyHistogram.mantissa i).1 + 0) :=
      Nat.pow_le_pow_right Nat.two_pos (by omega)
    exact hpow
  rw [highestOf, representative_succ] at h
  omega

/-- The largest value of a slot is at most a 1024th above any other. -/
theorem highestOf_slot_le (x : ℕ) :
    latencyHistogram.highestOf (latencyHistogram.slot x) ≤ x + x / 1024 := by
  have hle := latencyHistogram.representative_slot_le x
  rw [highestOf, representative_succ]
  by_cases hbucket : (slotOf latencyHistogram.mantissa (latencyHistogram.slot x)).1 = 0
  · have hwidth : width latencyHistogram.mantissa latencyHistogram.unitMagnitude
        (latencyHistogram.slot x) = 1 := by
      rw [width, hbucket]
      rfl
    rw [hwidth]
    omega
  · have hwidth : width latencyHistogram.mantissa latencyHistogram.unitMagnitude
        (latencyHistogram.slot x) * 1024 ≤
          latencyHistogram.representative (latencyHistogram.slot x) :=
      width_le mantissa_pos hbucket
    omega

end Slots

/-! ## Ranks -/

/-- The percentile of a rank. -/
theorem rankAt_index {i n : ℕ} (hi : 0 < i) (hn : 0 < n) : rankAt (100 * i / n) n = i := by
  have hn' : (n : ℚ) ≠ 0 := Nat.cast_ne_zero.mpr (Nat.pos_iff_ne_zero.mp hn)
  have heq : (100 * i / n : ℚ) * n / 100 + 1 / 2 = i + 1 / 2 := by
    field_simp
  have hfloor : ⌊(i + 1 / 2 : ℚ)⌋₊ = i := by
    rw [Nat.floor_eq_iff (by positivity)]
    exact ⟨by linarith, by linarith⟩
  rw [rankAt, heq, hfloor]
  exact max_eq_right hi

theorem rankAt_hundred {n : ℕ} (hn : 0 < n) : rankAt 100 n = n := by
  have hn' : (n : ℚ) ≠ 0 := Nat.cast_ne_zero.mpr (Nat.pos_iff_ne_zero.mp hn)
  have hindex := rankAt_index hn hn
  rwa [mul_div_assoc, div_self hn', mul_one] at hindex

section Holding

variable {vs : Multiset ℕ} {fuel : ℕ}

/-- The value at a percentile. -/
theorem percentile_holding (hvs : ∀ v ∈ vs, latencyHistogram.Tracks v) (hne : vs ≠ 0)
    (hfuel : latencyHistogram.countsLen < fuel) {p : ℚ} (hp : 0 < p) (hp' : p ≤ 100) :
    ∃ x ∈ vs, smallest vs (rankAt p vs.card) = some x ∧
      hdrValueAtPercentile fuel (latencyHistogram.holding vs) p =
        some ((latencyHistogram.highestOf (latencyHistogram.slot x) : ℕ) : ℤ) := by
  obtain ⟨x, hmem, hx⟩ := exists_smallest (rankAt_pos p vs.card)
    (rankAt_le hp' (Multiset.card_pos.mpr hne))
  exact ⟨x, hmem, hx, hdrValueAtPercentile_holding latencyHistogram_narrow hvs hfuel hp hp' hx⟩

/-- The value at percentile 100 is in the last slot. -/
theorem slot_le_of_last {x : ℕ} (hx : smallest vs vs.card = some x) (hne : vs ≠ 0) :
    ∀ v ∈ vs, latencyHistogram.slot v ≤ latencyHistogram.slot x := by
  have hall : vs.card ≤ vs.countP fun v => latencyHistogram.slot v ≤ latencyHistogram.slot x :=
    (le_countP_iff hx (Multiset.card_pos.mpr hne) fun a b hab hb => (slot_mono hab).trans hb).mpr
      (Nat.le_refl _)
  exact Multiset.countP_eq_card.mp (Nat.le_antisymm (Multiset.countP_le_card ..) hall)

/-- What is reported of a histogram is ordered: the percentiles lie between
`hdr_min` and `hdr_max` and grow with the percentage, and so does the mean lie
between them; and `latency:percentile(p)` is at most `latency.max`. -/
structure StatsInOrder (fuel : ℕ) (h : HdrHistogram) : Prop where
  percentile : ∀ p : ℚ, 0 < p → p ≤ 100 → ∃ min v max, hdrMin fuel h = some min ∧
    hdrValueAtPercentile fuel h p = some v ∧ hdrMax fuel h = some max ∧ min ≤ v ∧ v ≤ max
  monotone : ∀ p q : ℚ, 0 < p → p ≤ q → q ≤ 100 → ∃ v w,
    hdrValueAtPercentile fuel h p = some v ∧ hdrValueAtPercentile fuel h q = some w ∧ v ≤ w
  mean : ∃ min mean max, hdrMin fuel h = some min ∧ hdrMean fuel h = some (some mean) ∧
    hdrMax fuel h = some max ∧ (min : ℚ) ≤ mean ∧ mean ≤ (max : ℚ)
  reported : ∃ s, latencyStats fuel h = some s ∧ ∀ p : ℚ, 0 < p → p ≤ 100 →
    ∃ v, statsPercentile fuel s p = some v ∧ v ≤ s.max

/-- The occupied slots are tracked. -/
theorem slots_lt (hvs : ∀ v ∈ vs, latencyHistogram.Tracks v) :
    ∀ s ∈ vs.map latencyHistogram.slot, s < latencyHistogram.countsLen := by
  intro s hs
  obtain ⟨v, hv, rfl⟩ := Multiset.mem_map.mp hs
  exact slot_lt latencyHistogram_shaped (hvs v hv)

/-- Of values below 2048 the histogram reports the values themselves. -/
theorem statsInOrder_of_lt (hvs : ∀ v ∈ vs, v < 2048) (hsum : vs.sum < 2 ^ 63) (hne : vs ≠ 0)
    (hfuel : latencyHistogram.countsLen < fuel) :
    StatsInOrder fuel (latencyHistogram.holding vs) := by
  have htracks : ∀ v ∈ vs, latencyHistogram.Tracks v := by
    intro v hv
    have := hvs v hv
    exact latencyHistogram_tracks (by omega)
  have hslots : vs.map latencyHistogram.slot = vs :=
    Multiset.map_congr rfl (fun v hv => slot_of_lt (hvs v hv)) |>.trans (Multiset.map_id' vs)
  have hmedians : vs.map latencyHistogram.medianOf = vs :=
    Multiset.map_congr rfl (fun v hv => medianOf_of_lt (hvs v hv)) |>.trans (Multiset.map_id' vs)
  have hS := slots_lt htracks
  rw [hslots] at hS
  have hholding : latencyHistogram.holding vs = latencyHistogram.ofSlots vs := by
    rw [holding, hslots]
  obtain ⟨lo, hlo, hfirst, hmin⟩ := hdrMin_ofSlots latencyHistogram_shaped hS hfuel hne
  obtain ⟨hi, hhi, hlast, hmax⟩ := hdrMax_ofSlots latencyHistogram_narrow hS hfuel hne
  rw [representative_of_lt (hvs lo hlo), ← hholding] at hmin
  rw [representative_of_lt (hvs hi hhi), ← hholding] at hmax
  have hvalue {p : ℚ} (hp : 0 < p) (hp' : p ≤ 100) : ∃ x ∈ vs,
      smallest vs (rankAt p vs.card) = some x ∧
        hdrValueAtPercentile fuel (latencyHistogram.holding vs) p = some (x : ℤ) := by
    obtain ⟨x, hmem, hx, hvalue⟩ := percentile_holding htracks hne hfuel hp hp'
    rw [slot_of_lt (hvs x hmem), highestOf_of_lt (hvs x hmem)] at hvalue
    exact ⟨x, hmem, hx, hvalue⟩
  have hcard : (0 : ℚ) < vs.card := Nat.cast_pos.mpr (Multiset.card_pos.mpr hne)
  have hmean : hdrMean fuel (latencyHistogram.holding vs) =
      some (some ((vs.sum : ℚ) / vs.card)) := by
    rw [hholding, hdrMean_ofSlots latencyHistogram_narrow hS hfuel, hmedians, if_pos hsum, divide,
      if_neg hcard.ne']
  have hbelow : vs.card * lo ≤ vs.sum := by
    have := Multiset.card_nsmul_le_sum hfirst
    rwa [smul_eq_mul] at this
  have habove : vs.sum ≤ vs.card * hi := by
    have := Multiset.sum_le_card_nsmul vs hi hlast
    rwa [smul_eq_mul] at this
  refine ⟨?_, ?_, ?_, ?_⟩
  · intro p hp hp'
    obtain ⟨x, hmem, -, hx⟩ := hvalue hp hp'
    exact ⟨_, _, _, hmin, hx, hmax, by exact_mod_cast hfirst x hmem, by exact_mod_cast hlast x hmem⟩
  · intro p q hp hpq hq
    obtain ⟨x, -, hx, hpx⟩ := hvalue hp (hpq.trans hq)
    obtain ⟨y, -, hy, hqy⟩ := hvalue (hp.trans_le hpq) hq
    exact ⟨_, _, hpx, hqy, by exact_mod_cast smallest_mono hx hy (rankAt_mono hpq)⟩
  · refine ⟨_, _, _, hmin, hmean, hmax, ?_, ?_⟩
    · rw [le_div_iff₀ hcard, mul_comm, Int.cast_natCast, ← Nat.cast_mul]
      exact Nat.cast_le.mpr hbelow
    · rw [div_le_iff₀ hcard, mul_comm, Int.cast_natCast, ← Nat.cast_mul]
      exact Nat.cast_le.mpr habove
  · have hstats : latencyStats fuel (latencyHistogram.holding vs) = some { statsAlloc 10 with
        min := ((lo : ℤ) % 2 ^ 64).toNat
        max := ((hi : ℤ) % 2 ^ 64).toNat
        histogram := some (latencyHistogram.holding vs) } := by
      rw [latencyStats, hmin, hmax]
      rfl
    refine ⟨_, hstats, ?_⟩
    intro p hp hp'
    obtain ⟨x, hmem, -, hx⟩ := hvalue hp hp'
    have hlast := hlast x hmem
    have hhi := hvs hi hhi
    refine ⟨x, ?_, ?_⟩
    · simp only [statsPercentile, hx, Option.map_some]
      rfl
    · show x ≤ ((hi : ℤ) % 2 ^ 64).toNat
      omega

theorem lt_of_statsInOrder (hvs : ∀ v ∈ vs, latencyHistogram.Tracks v) (hne : vs ≠ 0)
    (hfuel : latencyHistogram.countsLen < fuel)
    (h : StatsInOrder fuel (latencyHistogram.holding vs)) :
    (∀ v ∈ vs, v < 2048) ∧ vs.sum < 2 ^ 63 := by
  have hS := slots_lt hvs
  have hmap : vs.map latencyHistogram.slot ≠ 0 := fun h => hne (Multiset.map_eq_zero.mp h)
  obtain ⟨k, hk, -, hmax⟩ := hdrMax_ofSlots latencyHistogram_narrow hS hfuel hmap
  obtain ⟨x, -, hx, hvalue⟩ := percentile_holding hvs hne hfuel (by norm_num) (le_refl (100 : ℚ))
  rw [rankAt_hundred (Multiset.card_pos.mpr hne)] at hx
  have hlast := slot_le_of_last hx hne
  obtain ⟨y, hy, rfl⟩ := Multiset.mem_map.mp hk
  obtain ⟨_, v, max, -, hv, hmax', -, hle⟩ := h.percentile 100 (by norm_num) (le_refl _)
  obtain rfl := Option.some.inj (hv.symm.trans hvalue)
  obtain rfl := Option.some.inj (hmax'.symm.trans hmax)
  -- percentile 100 is the largest value of its slot, and `hdr_max` the smallest one of a slot
  have hle : latencyHistogram.highestOf (latencyHistogram.slot x) ≤
      latencyHistogram.representative (latencyHistogram.slot y) := by exact_mod_cast hle
  have hone := lt_of_highestOf_le (hle.trans
    (representative_strictMono.monotone (hlast y hy)))
  have hsmall : ∀ v ∈ vs, v < 2048 := by
    intro v hv
    have hhigh := (latencyHistogram.le_highestOf_slot v).trans (highestOf_mono (hlast v hv))
    rw [highestOf_of_lt hone] at hhigh
    exact Nat.lt_of_le_of_lt hhigh hone
  refine ⟨hsmall, ?_⟩
  obtain ⟨_, mean, _, -, hmean, -⟩ := h.mean
  have hmedians : (vs.map latencyHistogram.slot).map latencyHistogram.medianOf = vs := by
    rw [Multiset.map_map]
    refine (Multiset.map_congr rfl fun v hv => ?_).trans (Multiset.map_id' vs)
    rw [Function.comp_apply, slot_of_lt (hsmall v hv), medianOf_of_lt (hsmall v hv)]
  rw [holding, hdrMean_ofSlots latencyHistogram_narrow hS hfuel, hmedians] at hmean
  by_contra hover
  rw [if_neg hover] at hmean
  cases hmean

end Holding

/-! ## Reports -/

theorem latencies_ne_zero {vs : List ℤ} (h : vs ≠ []) : latencies vs ≠ 0 := by
  intro hzero
  exact h (List.map_eq_nil_iff.mp (Multiset.coe_eq_zero _ |>.mp hzero))

/-- Whatever the threads recorded, the reported statistics are ordered exactly
when every latency is below 2048 and their sum fits an `int64_t`. -/
theorem reported_in_order_iff (runs : List (List HistOp))
    (hrange : ∀ ops ∈ runs, ∀ v, HistOp.record v ∈ ops → 0 ≤ v ∧ v < 2 ^ 37)
    (hne : runs.flatMap sinceReset ≠ []) (fuel : ℕ) (hfuel : latencyHistogram.countsLen < fuel) :
    ∃ h, mainHistogram fuel runs = some h ∧ (StatsInOrder fuel h ↔
      (∀ v ∈ latencies (runs.flatMap sinceReset), v < 2048) ∧
        (latencies (runs.flatMap sinceReset)).sum < 2 ^ 63) := by
  obtain ⟨hmain, htracks⟩ := mainHistogram_holding runs hrange hfuel
  have hne := latencies_ne_zero hne
  exact ⟨_, hmain, lt_of_statsInOrder htracks hne hfuel,
    fun ⟨hsmall, hsum⟩ => statsInOrder_of_lt hsmall hsum hne hfuel⟩

theorem reported_in_order_iff_two_threads :
    ∃ h, mainHistogram 28673 [[.record 7, .record 2047], [.record 5]] = some h ∧
      StatsInOrder 28673 h := by
  obtain ⟨h, hmain, hiff⟩ := reported_in_order_iff
    [[.record 7, .record 2047], [.record 5]] (by simp) (by decide) 28673 (by decide)
  exact ⟨h, hmain, hiff.mpr ⟨by decide, by decide⟩⟩

/-- Of the one latency 2049, percentile 100 and the mean are above the
maximum. -/
theorem percentile_above_max : ∃ h max v, mainHistogram 28673 [[.record 2049]] = some h ∧
    hdrMax 28673 h = some max ∧ hdrValueAtPercentile 28673 h 100 = some v ∧
    hdrMean 28673 h = some (some 2049) ∧ max = 2048 ∧ v = 2049 ∧ ¬ StatsInOrder 28673 h := by
  obtain ⟨hmain, htracks⟩ := mainHistogram_holding [[.record 2049]] (by simp)
    (show latencyHistogram.countsLen < 28673 by decide)
  change mainHistogram _ _ = some (latencyHistogram.holding {2049}) at hmain
  change ∀ v ∈ ({2049} : Multiset ℕ), _ at htracks
  have hbucket : slotOf latencyHistogram.mantissa 2048 = (1, 1024) := by
    rw [slotOf, slotOf_of_lt mantissa_pos (show 2047 < 2048 by decide)]
    rfl
  have hlow : latencyHistogram.representative 2048 = 2048 := by
    rw [representative, valueOf, hbucket]
    rfl
  have hwidth : width latencyHistogram.mantissa latencyHistogram.unitMagnitude 2048 = 2 := by
    rw [width, hbucket]
    rfl
  have hhigh : latencyHistogram.highestOf 2048 = 2049 := by
    rw [highestOf, representative_succ, hlow, hwidth]
  have hslot : latencyHistogram.slot 2049 = 2048 :=
    slot_eq_iff.mpr ⟨hlow.trans_le (by decide), hhigh.ge⟩
  have hS := slots_lt htracks
  obtain ⟨k, hk, -, hmax⟩ := hdrMax_ofSlots latencyHistogram_narrow hS
    (show latencyHistogram.countsLen < 28673 by decide) (by simp)
  rw [Multiset.map_singleton, Multiset.mem_singleton, hslot] at hk
  rw [hk, hlow] at hmax
  obtain ⟨x, hx, -, hvalue⟩ := percentile_holding htracks (by simp)
    (show latencyHistogram.countsLen < 28673 by decide) (by norm_num) (le_refl (100 : ℚ))
  rw [Multiset.mem_singleton.mp hx, hslot, hhigh] at hvalue
  have hmean := hdrMean_ofSlots latencyHistogram_narrow hS
    (show latencyHistogram.countsLen < 28673 by decide)
  rw [Multiset.map_singleton, hslot, Multiset.map_singleton, Multiset.sum_singleton,
    Multiset.card_singleton, medianOf, hlow, hwidth, if_pos (by decide), divide,
    if_neg (by decide), Nat.cast_one, div_one] at hmean
  refine ⟨_, _, _, hmain, hmax, hvalue, ?_, rfl, rfl, ?_⟩
  · rw [holding, Multiset.map_singleton, hslot]
    exact hmean
  · intro hordered
    have := (lt_of_statsInOrder htracks (by simp) (by decide) hordered).1 2049 (by simp)
    omega

/-- The value at a percentile is the recorded latency of its rank, less than a
1024th above it, and that latency itself below 2048. -/
theorem percentile_accurate (runs : List (List HistOp))
    (hrange : ∀ ops ∈ runs, ∀ v, HistOp.record v ∈ ops → 0 ≤ v ∧ v < 2 ^ 37)
    (hne : runs.flatMap sinceReset ≠ []) (fuel : ℕ) (hfuel : latencyHistogram.countsLen < fuel)
    (p : ℚ) (hp : 0 < p) (hp' : p ≤ 100) :
    ∃ h, ∃ x v : ℕ, mainHistogram fuel runs = some h ∧
      smallest (latencies (runs.flatMap sinceReset))
        (max 1 ⌊p * (runs.flatMap sinceReset).length / 100 + 1 / 2⌋₊) = some x ∧
      hdrValueAtPercentile fuel h p = some (v : ℤ) ∧
      (∀ s : Stats, s.histogram = some h → statsPercentile fuel s p = some v) ∧
      x ≤ v ∧ (v : ℚ) ≤ x + x / 1024 ∧ (x < 2048 → v = x) := by
  obtain ⟨hmain, htracks⟩ := mainHistogram_holding runs hrange hfuel
  obtain ⟨x, -, hx, hvalue⟩ :=
    percentile_holding htracks (latencies_ne_zero hne) hfuel hp hp'
  have hcard : (latencies (runs.flatMap sinceReset)).card =
      (runs.flatMap sinceReset).length := by
    rw [latencies, Multiset.coe_card, List.length_map]
  rw [rankAt, hcard] at hx
  refine ⟨_, x, _, hmain, hx, hvalue, ?_, latencyHistogram.le_highestOf_slot x, ?_, ?_⟩
  · intro s hs
    simp only [statsPercentile, hs, hvalue, Option.map_some]
    rfl
  · have hle : ((latencyHistogram.highestOf (latencyHistogram.slot x) : ℕ) : ℚ) ≤
        (x + x / 1024 : ℕ) := Nat.cast_le.mpr (highestOf_slot_le x)
    have hdiv : ((x / 1024 : ℕ) : ℚ) ≤ x / 1024 := Nat.cast_div_le
    push_cast at hle
    linarith
  · intro hlt
    rw [slot_of_lt hlt, highestOf_of_lt hlt]

theorem percentile_accurate_median : ∃ h, ∃ x v : ℕ,
    mainHistogram 28673 [[.record 5000, .record 7], [.record 6]] = some h ∧
    smallest (latencies [5000, 7, 6]) 2 = some x ∧
    hdrValueAtPercentile 28673 h 50 = some (v : ℤ) ∧ x ≤ v ∧ (v : ℚ) ≤ x + x / 1024 ∧
    (x < 2048 → v = x) := by
  obtain ⟨h, x, v, hmain, hx, hv, -, hbounds⟩ := percentile_accurate
    [[.record 5000, .record 7], [.record 6]] (by simp) (by decide) 28673 (by decide) 50
    (by norm_num) (by norm_num)
  have hrank : max 1 ⌊(50 : ℚ) * ([[.record 5000, .record 7], [.record 6]].flatMap
      sinceReset).length / 100 + 1 / 2⌋₊ = 2 := by
    have hlength : ([[.record 5000, .record 7], [.record 6]].flatMap sinceReset).length = 3 := rfl
    have htwo : (50 : ℚ) * (3 : ℕ) / 100 + 1 / 2 = 2 := by norm_num
    rw [hlength, htwo, Nat.floor_ofNat]
    rfl
  rw [hrank] at hx
  exact ⟨h, x, v, hmain, hx, hv, hbounds⟩

/-! ## stats[i] -/

section Indexing

variable {vs : Multiset ℕ} {fuel : ℕ} {s : Stats}

theorem scriptStatsGet_holding (hvs : ∀ v ∈ vs, latencyHistogram.Tracks v)
    (hfuel : latencyHistogram.countsLen < fuel)
    (hs : s.histogram = some (latencyHistogram.holding vs)) {i : ℕ} (hi : 0 < i)
    (hcard : i ≤ vs.card) (hint : vs.card < 2 ^ 31) :
    ∃ x, smallest vs i = some x ∧ scriptStatsGet fuel s i =
      some ((latencyHistogram.highestOf (latencyHistogram.slot x) : ℕ) : ℤ) := by
  have hpos : 0 < vs.card := Nat.lt_of_lt_of_le hi hcard
  have hn : (0 : ℚ) < vs.card := Nat.cast_pos.mpr hpos
  have hindex : (i : ℤ).bmod (2 ^ 32) = i := Int.bmod_eq_of_le (by omega) (by omega)
  have htotal : (latencyHistogram.holding vs).totalCount = vs.card := by
    rw [holding, HdrHistogram.ofSlots, Multiset.card_map]
  have hpercent : (100 * i / vs.card : ℚ) ≤ 100 := by
    rw [div_le_iff₀ hn]
    exact mul_le_mul_of_nonneg_left (Nat.cast_le.mpr hcard) (by norm_num)
  have hpositive : (0 : ℚ) < 100 * i / vs.card := by
    have : (0 : ℚ) < i := Nat.cast_pos.mpr hi
    positivity
  obtain ⟨x, -, hx, hvalue⟩ := percentile_holding hvs (Multiset.card_pos.mp hpos) hfuel hpositive
    hpercent
  rw [rankAt_index hi hpos] at hx
  refine ⟨x, hx, ?_⟩
  simp only [scriptStatsGet, hs, hindex, htotal, divide, if_neg hn.ne', Int.cast_natCast]
  exact hvalue

end Indexing

/-- `stats[1]` to `stats[n]` are the recorded latencies in order, each as the
largest value of its slot: the sequence grows, and the value of a slot occurs
in it as often as the slot counts. -/
theorem stats_enumerate (runs : List (List HistOp))
    (hrange : ∀ ops ∈ runs, ∀ v, HistOp.record v ∈ ops → 0 ≤ v ∧ v < 2 ^ 37)
    (hn : (runs.flatMap sinceReset).length < 2 ^ 31) (fuel : ℕ)
    (hfuel : latencyHistogram.countsLen < fuel) :
    ∃ h, mainHistogram fuel runs = some h ∧ ∀ s : Stats, s.histogram = some h →
      scriptStatsLen s = (runs.flatMap sinceReset).length ∧
      ∃ values : List ℤ, values.length = (runs.flatMap sinceReset).length ∧
        (∀ i, 0 < i → i ≤ values.length → ∃ x : ℕ,
          smallest (latencies (runs.flatMap sinceReset)) i = some x ∧
          values[i - 1]? = some (highestEquivalentValue h x) ∧
          scriptStatsGet fuel s i = some (highestEquivalentValue h x)) ∧
        values.Pairwise (· ≤ ·) ∧
        ∀ v : ℕ, values.count (highestEquivalentValue h v) =
          h.counts (latencyHistogram.slot v) := by
  obtain ⟨hmain, htracks⟩ := mainHistogram_holding runs hrange hfuel
  generalize hvs : latencies (runs.flatMap sinceReset) = vs at hmain htracks ⊢
  have hcard : vs.card = (runs.flatMap sinceReset).length := by
    rw [← hvs, latencies, Multiset.coe_card, List.length_map]
  have hshaped : (latencyHistogram.holding vs).Shaped := latencyHistogram_shaped.ofSlots _
  have hhighest {v : ℕ} (hv : latencyHistogram.Tracks v) :
      highestEquivalentValue (latencyHistogram.holding vs) v =
        ((latencyHistogram.highestOf (latencyHistogram.slot v) : ℕ) : ℤ) :=
    highestEquivalentValue_natCast hshaped
      (latencyHistogram_narrow.width_lt (slot_lt latencyHistogram_shaped hv))
  have hsorted : (vs.sort.map fun v =>
      ((latencyHistogram.highestOf (latencyHistogram.slot v) : ℕ) : ℤ) : Multiset ℤ) =
        (vs.map latencyHistogram.slot).map fun k => ((latencyHistogram.highestOf k : ℕ) : ℤ) := by
    rw [← Multiset.map_coe, Multiset.sort_eq, Multiset.map_map]
    rfl
  refine ⟨_, hmain, ?_⟩
  intro s hs
  have hlength : (vs.sort.map fun v =>
      ((latencyHistogram.highestOf (latencyHistogram.slot v) : ℕ) : ℤ)).length =
        (runs.flatMap sinceReset).length := by
    rw [List.length_map, Multiset.length_sort, hcard]
  refine ⟨?_, _, hlength, ?_, ?_, ?_⟩
  · rw [scriptStatsLen, hs]
    simp only [holding, HdrHistogram.ofSlots, Multiset.card_map, hcard]
  · intro i hi hle
    rw [hlength, ← hcard] at hle
    obtain ⟨x, hx, hget⟩ := scriptStatsGet_holding htracks hfuel hs hi hle (hcard ▸ hn)
    have htracked := htracks x (mem_of_smallest hx)
    refine ⟨x, hx, ?_, ?_⟩
    · rw [smallest] at hx
      rw [hhighest htracked, List.getElem?_map, hx]
      rfl
    · rw [hhighest htracked, hget]
  · refine List.pairwise_map.mpr ((Multiset.pairwise_sort vs (· ≤ ·)).imp ?_)
    intro v w hvw
    exact_mod_cast highestOf_mono (slot_mono hvw)
  · intro v
    rw [← Multiset.coe_count, hsorted]
    by_cases hv : latencyHistogram.Tracks v
    · rw [hhighest hv]
      refine Multiset.count_map_eq_count' _ _ ?_ _
      intro k l hkl
      have hkl : latencyHistogram.highestOf k = latencyHistogram.highestOf l :=
        Int.natCast_inj.mp hkl
      rw [← slot_highestOf (h := latencyHistogram) k, hkl, slot_highestOf]
    · -- beyond the range there is nothing to count
      have hbeyond : 2 ^ 37 ≤ v := Nat.not_lt.mp hv
      have hS := slots_lt htracks
      rw [Multiset.count_eq_zero_of_notMem, eq_comm]
      · exact Multiset.count_eq_zero_of_notMem fun hmem =>
          Nat.not_lt.mpr (le_slot_latency hbeyond) (hS _ hmem)
      · intro hmem
        obtain ⟨k, hk, heq⟩ := Multiset.mem_map.mp hmem
        have hfar := highestEquivalentValue_beyond (vs.map latencyHistogram.slot) hbeyond
        rw [show latencyHistogram.ofSlots (vs.map latencyHistogram.slot) =
          latencyHistogram.holding vs from rfl, ← heq] at hfar
        have hlen := le_slot_latency (v := latencyHistogram.highestOf k) (by exact_mod_cast hfar)
        rw [slot_highestOf] at hlen
        exact Nat.not_lt.mpr hlen (hS k hk)

theorem stats_enumerate_three : ∃ h, mainHistogram 28673 [[.record 5000, .record 7], [.record 6]] =
    some h ∧ ∀ s : Stats, s.histogram = some h → scriptStatsLen s = 3 ∧
      ∃ x : ℕ, smallest (latencies [5000, 7, 6]) 2 = some x ∧
        scriptStatsGet 28673 s 2 = some (highestEquivalentValue h x) := by
  obtain ⟨h, hmain, hstats⟩ := stats_enumerate [[.record 5000, .record 7], [.record 6]] (by simp)
    (by decide) 28673 (by decide)
  refine ⟨h, hmain, ?_⟩
  intro s hs
  obtain ⟨hlen, values, hlength, hvalues, -⟩ := hstats s hs
  obtain ⟨x, hx, -, hget⟩ := hvalues 2 (by decide) (by rw [hlength]; decide)
  exact ⟨hlen, x, hx, hget⟩

end WrkQuic
