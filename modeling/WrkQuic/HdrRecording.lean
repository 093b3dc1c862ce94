import WrkQuic.HdrQueries

/-!
# Range, accuracy and correction

What `hdr_alloc` promises of a histogram for every highest value and every
number of significant figures, and `hdr_record_corrected_value`, which adds
the values that a caller blocked for longer than its interval has missed.
-/

namespace WrkQuic

open LogBuckets HdrHistogram

/-! ## `hdr_alloc` -/

def hdrAlloc (highest significantFigures : ℕ) : Option HdrHistogram :=
  hdrInit 1 highest significantFigures

section

variable {h g : HdrHistogram} {highest figures fuel trackable buckets n : ℕ}

/-- The loop of `hdr_init` stops at a bucket count whose end is beyond the
highest value. -/
theorem bucketsNeeded_spec : ∀ {fuel trackable buckets : ℕ},
    bucketsNeeded highest fuel trackable buckets = some n →
      buckets ≤ n ∧ highest ≤ trackable * 2 ^ (n - buckets)
  | 0, _, _, h => by cases h
  | fuel + 1, trackable, buckets, h => by
      unfold bucketsNeeded at h
      split at h
      · simp only [Option.bind_eq_bind, Option.bind_eq_some_iff] at h
        obtain ⟨doubled, hdoubled, h⟩ := h
        obtain ⟨-, rfl⟩ := fits_eq_some.mp hdoubled
        obtain ⟨hle, hhighest⟩ := bucketsNeeded_spec h
        refine ⟨Nat.le_of_succ_le hle, hhighest.trans_eq ?_⟩
        rw [Nat.shiftLeft_eq, pow_one, Nat.mul_assoc, ← Nat.pow_succ',
          show (n - (buckets + 1)).succ = n - buckets by omega]
      · rename_i hge
        obtain rfl := Option.some.inj h
        rw [Nat.sub_self, pow_zero, Nat.mul_one]
        exact ⟨Nat.le_refl _, Nat.not_lt.mp hge⟩

/-- It stops before the fuel runs out, and before `trackable_value`
overflows. -/
theorem exists_bucketsNeeded (hhighest : highest < 2 ^ 62) : ∀ (fuel : ℕ) {trackable buckets : ℕ},
    highest < trackable * 2 ^ fuel →
      ∃ n, bucketsNeeded highest (fuel + 1) trackable buckets = some n
  | 0, trackable, buckets, h => by
      unfold bucketsNeeded
      rw [if_neg (by omega)]
      exact ⟨_, rfl⟩
  | fuel + 1, trackable, buckets, h => by
      unfold bucketsNeeded
      split
      · rename_i hless
        have hfits : fits 63 (trackable <<< 1) = some (trackable <<< 1) :=
          fits_eq_some.mpr ⟨by rw [Nat.shiftLeft_eq]; omega, rfl⟩
        rw [hfits]
        refine exists_bucketsNeeded hhighest fuel ?_
        rw [Nat.shiftLeft_eq, pow_one, Nat.mul_assoc, ← Nat.pow_succ']
        exact h
      · exact ⟨_, rfl⟩

/-- The geometry that `hdr_alloc` computes. -/
theorem exists_hdrAlloc (hfigures : 1 ≤ figures ∧ figures ≤ 5) (hhighest : highest < 2 ^ 62) :
    ∃ h, hdrAlloc highest figures = some h ∧ h.unitMagnitude = 0 ∧
      10 ^ figures ≤ 2 ^ (h.mantissa - 1) ∧
      highest < 2 ^ (h.subBucketHalfCountMagnitude + h.unitMagnitude + h.bucketCount) := by
  have hlarge : 2 * 10 ^ figures ≤ 2 ^ Nat.clog 2 (2 * 10 ^ figures) :=
    Nat.le_pow_clog Nat.one_lt_two _
  have hclog : 1 < Nat.clog 2 (2 * 10 ^ figures) := by
    by_contra hle
    have hpow : 2 ^ Nat.clog 2 (2 * 10 ^ figures) ≤ 2 ^ 1 :=
      Nat.pow_le_pow_right Nat.two_pos (Nat.not_lt.mp hle)
    have hten : 10 ^ 1 ≤ 10 ^ figures := Nat.pow_le_pow_right (by decide) hfigures.1
    omega
  have hmagnitude : Nat.clog 2 (2 * 10 ^ figures) - 1 + 1 = Nat.clog 2 (2 * 10 ^ figures) := by
    omega
  have hmask : 1 ≤ 2 ^ Nat.clog 2 (2 * 10 ^ figures) - 1 := by
    have := Nat.pow_le_pow_right Nat.two_pos hclog.le
    omega
  have hroom : highest < (2 ^ Nat.clog 2 (2 * 10 ^ figures) - 1) * 2 ^ 63 := by
    calc
      highest < 1 * 2 ^ 63 := hhighest.trans (by decide)
      _ ≤ _ := Nat.mul_le_mul_right _ hmask
  obtain ⟨n, hn⟩ : ∃ n, bucketsNeeded highest 64
      (2 ^ Nat.clog 2 (2 * 10 ^ figures) - 1) 1 = some n :=
    exists_bucketsNeeded hhighest 63 hroom
  obtain ⟨hpos, hcover⟩ := bucketsNeeded_spec hn
  have hunit : floorLog2 1 = some 0 := congrArg some (Nat.log_one_right 2)
  have hfits : fits 31 (2 ^ Nat.clog 2 (2 * 10 ^ figures) - 1) =
      some (2 ^ Nat.clog 2 (2 * 10 ^ figures) - 1) := by
    refine fits_eq_some.mpr ⟨?_, rfl⟩
    have hten : 2 * 10 ^ figures ≤ 2 ^ 18 := by
      have := Nat.pow_le_pow_right (n := 10) (by decide) hfigures.2
      omega
    calc
      _ < 2 ^ Nat.clog 2 (2 * 10 ^ figures) := Nat.sub_lt (Nat.two_pow_pos _) Nat.one_pos
      _ ≤ 2 ^ 18 :=
        Nat.pow_le_pow_right Nat.two_pos ((Nat.clog_le_iff_le_pow Nat.one_lt_two).mpr hten)
      _ < 2 ^ 31 := by decide
  unfold hdrAlloc hdrInit
  rw [if_neg (by omega)]
  simp only [if_pos hclog, hmagnitude, hunit, Nat.shiftLeft_zero, hfits, hn, Option.bind_eq_bind,
    Option.bind_some]
  refine ⟨_, rfl, rfl, ?_, ?_⟩
  · show 10 ^ figures ≤ 2 ^ (Nat.clog 2 (2 * 10 ^ figures) - 1 + 1 - 1)
    have hsplit : 2 ^ Nat.clog 2 (2 * 10 ^ figures) =
        2 * 2 ^ (Nat.clog 2 (2 * 10 ^ figures) - 1) := by
      rw [← Nat.pow_succ', Nat.succ_eq_add_one, hmagnitude]
    rw [Nat.add_sub_cancel]
    omega
  · show highest < 2 ^ (Nat.clog 2 (2 * 10 ^ figures) - 1 + 0 + n)
    calc
      highest ≤ (2 ^ Nat.clog 2 (2 * 10 ^ figures) - 1) * 2 ^ (n - 1) := hcover
      _ < 2 ^ Nat.clog 2 (2 * 10 ^ figures) * 2 ^ (n - 1) :=
        Nat.mul_lt_mul_of_pos_right (Nat.sub_lt (Nat.two_pow_pos _) Nat.one_pos)
          (Nat.two_pow_pos _)
      _ = _ := by
        rw [← Nat.pow_add]
        congr 1
        omega

/-- A slot is as wide as the significant figures of its values allow. -/
theorem width_mul_le (hunit : h.unitMagnitude = 0) (hfigures : 10 ^ figures ≤ 2 ^ (h.mantissa - 1))
    (v : ℕ) : 10 ^ figures * (h.highestOf (h.slot v) - h.representative (h.slot v)) ≤ v := by
  have hsucc := representative_succ (h := h) (h.slot v)
  have hpos := width_pos (m := h.mantissa) (u := h.unitMagnitude) (h.slot v)
  have hgap : h.highestOf (h.slot v) - h.representative (h.slot v) =
      width h.mantissa h.unitMagnitude (h.slot v) - 1 := by
    rw [highestOf, hsucc]
    omega
  rw [hgap]
  by_cases hfirst : (slotOf h.mantissa (h.slot v)).1 = 0
  · have hone : width h.mantissa h.unitMagnitude (h.slot v) = 1 := by
      rw [width, hfirst, hunit]
      rfl
    rw [hone, Nat.sub_self, Nat.mul_zero]
    exact Nat.zero_le v
  · have hwidth := width_le (u := h.unitMagnitude) (mantissa_pos (h := h)) hfirst
    calc
      10 ^ figures * (width h.mantissa h.unitMagnitude (h.slot v) - 1)
        ≤ 2 ^ (h.mantissa - 1) * width h.mantissa h.unitMagnitude (h.slot v) :=
          Nat.mul_le_mul hfigures (Nat.sub_le ..)
      _ ≤ h.representative (h.slot v) := by
          rw [Nat.mul_comm]
          exact hwidth
      _ ≤ v := representative_slot_le v

/-- Below 31 bits more than the significant figures need, the width of a
slot fits in an `int`. -/
theorem width_lt_of_lt (hunit : h.unitMagnitude = 0)
    (hfigures : 10 ^ figures ≤ 2 ^ (h.mantissa - 1)) {v : ℕ} (hv : v < 10 ^ figures * 2 ^ 31) :
    width h.mantissa h.unitMagnitude (h.slot v) < 2 ^ 31 := by
  have hlt : v < 2 ^ (h.mantissa + h.unitMagnitude + 30) := by
    have hpos := mantissa_pos (h := h)
    calc
      v < 10 ^ figures * 2 ^ 31 := hv
      _ ≤ 2 ^ (h.mantissa - 1) * 2 ^ 31 := Nat.mul_le_mul_right _ hfigures
      _ = 2 ^ (h.mantissa + h.unitMagnitude + 30) := by
        rw [← Nat.pow_add, hunit, Nat.add_zero, show h.mantissa - 1 + 31 = h.mantissa + 30 by omega]
  have hslot : (slotOf h.mantissa (h.slot v)).1 = bucket h.mantissa h.unitMagnitude v :=
    congrArg Prod.fst (slotOf_slotIndex mantissa_pos (isSlot_of_value mantissa_pos v))
  have hbucket := bucket_le mantissa_pos hlt
  rw [hunit] at hbucket
  rw [width, hslot, hunit]
  exact Nat.pow_lt_pow_right Nat.one_lt_two (by omega)

/-- `hdr_alloc` succeeds for one to five significant figures. Its histogram
records every value up to the highest one, whatever it already holds, and
the values it takes for equal to a value differ from it by less than the
significant figures, as long as the width of its slot is an `int`. -/
theorem hdrAlloc_accurate (hfigures : 1 ≤ figures ∧ figures ≤ 5) (hhighest : highest < 2 ^ 62) :
    ∃ h, hdrAlloc highest figures = some h ∧ ∀ (vs : Multiset ℕ) (v : ℕ), v ≤ highest →
      hdrRecordValue (h.holding vs) v = some (true, h.holding (vs + {v})) ∧
      (v < 10 ^ figures * 2 ^ 31 →
        lowestEquivalentValue h v ≤ v ∧ v ≤ highestEquivalentValue h v ∧
        10 ^ figures * (highestEquivalentValue h v - lowestEquivalentValue h v) ≤ v) := by
  obtain ⟨h, hinit, hunit, hten, hcover⟩ := exists_hdrAlloc hfigures hhighest
  have hshaped : h.Shaped := (hdrInit_shaped hinit).1
  refine ⟨h, hinit, fun vs v hv => ⟨?_, fun hsmall => ?_⟩⟩
  · exact hdrRecordValue_holding hshaped vs (lt_of_le_of_lt hv hcover)
  have hwidth := width_lt_of_lt hunit hten hsmall
  refine ⟨?_, ?_, ?_⟩
  · rw [lowestEquivalentValue_natCast hshaped]
    exact_mod_cast representative_slot_le v
  · rw [highestEquivalentValue_natCast hshaped hwidth]
    exact_mod_cast le_highestOf_slot v
  · rw [highestEquivalentValue_natCast hshaped hwidth, lowestEquivalentValue_natCast hshaped]
    have hmul := width_mul_le hunit hten v
    have hle := representative_le_highestOf (h := h) (h.slot v)
    rw [← Nat.cast_sub hle]
    exact_mod_cast hmul

theorem hdrAlloc_accurate_latency : ∃ h, hdrAlloc maxLatency 3 = some h ∧
    hdrRecordValue (h.holding 0) 42 = some (true, h.holding (0 + {42})) := by
  obtain ⟨h, halloc, haccurate⟩ := hdrAlloc_accurate (by decide : 1 ≤ 3 ∧ 3 ≤ 5)
    (by decide : maxLatency < 2 ^ 62)
  exact ⟨h, halloc, (haccurate 0 42 (by decide)).1⟩

end

/-! ## `hdr_record_corrected_value` -/

/-- The `for` loop over `missing_value`. -/
def recordMissing (expectedInterval : ℤ) :
    ℕ → HdrHistogram → ℤ → Option (Bool × HdrHistogram)
  | 0, _, _ => none
  | fuel + 1, h, missingValue =>
      if expectedInterval ≤ missingValue then do
        let (recorded, h) ← hdrRecordValue h missingValue
        if recorded then recordMissing expectedInterval fuel h (missingValue - expectedInterval)
        else some (false, h)
      else some (true, h)

def hdrRecordCorrectedValue (fuel : ℕ) (h : HdrHistogram) (value expectedInterval : ℤ) :
    Option (Bool × HdrHistogram) := do
  let (recorded, h) ← hdrRecordValue h value
  if !recorded then some (false, h)
  else if expectedInterval ≤ 0 ∨ value ≤ expectedInterval then some (true, h)
  else recordMissing expectedInterval fuel h (value - expectedInterval)

section

variable {g : HdrHistogram} {v e fuel : ℕ}

/-- The values of a caller that was blocked for `v` and would have measured
once in every interval of `e`. -/
def corrected (v e : ℕ) : Multiset ℕ := (Multiset.range (v / e)).map fun i => v - i * e

theorem corrected_of_lt (h : v < e) : corrected v e = 0 := by
  rw [corrected, Nat.div_eq_of_lt h]
  rfl

/-- The longest wait, and what was missed during the rest of it. -/
theorem corrected_of_le (he : 0 < e) (h : e ≤ v) :
    corrected v e = {v} + corrected (v - e) e := by
  have hdiv : v / e = (v - e) / e + 1 := by
    rw [← Nat.add_div_right _ he, Nat.sub_add_cancel h]
  have hrange (n : ℕ) : Multiset.range (n + 1) = 0 ::ₘ (Multiset.range n).map Nat.succ := by
    rw [← Multiset.coe_range, ← Multiset.coe_range, List.range_succ_eq_map]
    rfl
  rw [corrected, hdiv, hrange, Multiset.map_cons, Multiset.map_map, corrected,
    Nat.zero_mul, Nat.sub_zero, Multiset.singleton_add]
  congr 1
  refine Multiset.map_congr rfl fun i _ => ?_
  show v - (i + 1) * e = v - e - i * e
  rw [Nat.add_mul, Nat.one_mul, Nat.sub_sub, Nat.add_comm]

theorem tracks_of_le {w : ℕ} (hw : g.Tracks w) (h : v ≤ w) : g.Tracks v := lt_of_le_of_lt h hw

theorem recordMissing_holding (hg : g.Shaped) (he : 0 < e) :
    ∀ (fuel v : ℕ) (vs : Multiset ℕ), g.Tracks v → v / e < fuel →
      recordMissing e fuel (g.holding vs) v = some (true, g.holding (vs + corrected v e))
  | 0, v, _, _, hfuel => absurd hfuel (Nat.not_lt_zero _)
  | fuel + 1, v, vs, hv, hfuel => by
      unfold recordMissing
      by_cases hle : e ≤ v
      · have hdiv : v / e = (v - e) / e + 1 := by
          rw [← Nat.add_div_right _ he, Nat.sub_add_cancel hle]
        have hcast : (v : ℤ) - e = ((v - e : ℕ) : ℤ) := (Nat.cast_sub hle).symm
        rw [if_pos (by exact_mod_cast hle), hdrRecordValue_holding hg vs hv, hcast]
        simp only [Option.bind_eq_bind, Option.bind_some, if_true]
        rw [recordMissing_holding hg he fuel (v - e) _ (tracks_of_le hv (Nat.sub_le v e))
          (by omega), corrected_of_le he hle, add_assoc]
      · rw [if_neg (by exact_mod_cast hle), corrected_of_lt (Nat.not_le.mp hle), add_zero]

/-- With an expected interval, `hdr_record_corrected_value` records what a
caller that is never blocked would have recorded: the value, and the value
less every multiple of the interval, down to the interval. -/
theorem hdrRecordCorrectedValue_holding {lowest highest figures : ℕ}
    (hinit : hdrInit lowest highest figures = some g) (vs : Multiset ℕ) (hv : g.Tracks v)
    (hfuel : v / e < fuel) :
    hdrRecordCorrectedValue fuel (g.holding vs) v e =
      some (true, g.holding (vs + if e = 0 ∨ v < e then {v} else corrected v e)) := by
  have hg := (hdrInit_shaped hinit).1
  unfold hdrRecordCorrectedValue
  rw [hdrRecordValue_holding hg vs hv]
  simp only [Option.bind_eq_bind, Option.bind_some, Bool.not_true]
  rw [if_neg Bool.false_ne_true]
  by_cases he : e = 0
  · rw [if_pos (.inl (by exact_mod_cast he.le)), if_pos (.inl he)]
  · have hepos : 0 < e := Nat.pos_of_ne_zero he
    by_cases hlt : v < e
    · rw [if_pos (.inr (by exact_mod_cast hlt.le)), if_pos (.inr hlt)]
    · rw [if_neg (c := e = 0 ∨ v < e) (by omega), corrected_of_le hepos (Nat.not_lt.mp hlt)]
      by_cases heq : v = e
      · rw [if_pos (.inr (by exact_mod_cast heq.le)), heq, Nat.sub_self,
          corrected_of_lt hepos, add_zero]
      · have hcast : (v : ℤ) - e = ((v - e : ℕ) : ℤ) :=
          (Nat.cast_sub (Nat.not_lt.mp hlt)).symm
        have hdiv : (v - e) / e ≤ v / e := Nat.div_le_div_right (Nat.sub_le v e)
        rw [if_neg (by omega), hcast, recordMissing_holding hg hepos fuel (v - e) _
          (tracks_of_le hv (Nat.sub_le v e)) (by omega), add_assoc]

/-- A wait of 35 with an interval of 10. -/
theorem hdrRecordCorrectedValue_holding_latency :
    hdrRecordCorrectedValue 4 (latencyHistogram.holding 0) 35 10 =
      some (true, latencyHistogram.holding (0 + {35, 25, 15})) :=
  hdrRecordCorrectedValue_holding (v := 35) (e := 10) hdrInit_latency 0
    (latencyHistogram_tracks (by decide)) (by decide)

end

end WrkQuic
