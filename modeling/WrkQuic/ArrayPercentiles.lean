import Mathlib.Data.Nat.ModEq
import WrkQuic.Lib.Comparators
import WrkQuic.Stats

/-!
# Percentiles of an array

A `stats` without a histogram keeps the last values in a ring.
`stats_summarize` sorts them with a comparator that narrows the difference of
two values to an `int`, and `stats_percentile` reads the value behind the
whole part of `p` percent of them, which is the nearest rank unless `p`
percent are a whole number.
-/

namespace WrkQuic

open Comparators OrderStatistics

/-! ## stats.c -/

/-- `stats_compare`, whose difference becomes an `int`. -/
def statsCompare (x y : ℕ) : ℤ := (u64Sub x y : ℤ).bmod (2 ^ 32)

/-- Values less than 2^31 apart. -/
theorem statsCompare_of_close {x y : ℕ} (h : x < y + 2 ^ 31) (h' : y < x + 2 ^ 31) :
    statsCompare x y = (x : ℤ) - y := by
  have hsmall : ((x : ℤ) - y).bmod (2 ^ 32) = x - y := Int.bmod_eq_of_le (by omega) (by omega)
  unfold statsCompare u64Sub
  split
  · rename_i hle
    rw [Nat.cast_sub hle, hsmall]
  · have hwrap : ((2 ^ 64 - (y - x) : ℕ) : ℤ) = (x : ℤ) - y + (2 ^ 32 : ℕ) * 2 ^ 32 := by omega
    rw [hwrap, Int.add_mul_bmod_self_left, hsmall]

theorem statsCompare_self (x : ℕ) : statsCompare x x = 0 :=
  (statsCompare_of_close (by omega) (by omega)).trans (sub_self _)

/-- The comparator, the number of elements and the array. -/
abbrev QSort := (ℕ → ℕ → ℤ) → ℕ → (ℕ → ℕ) → ℕ → ℕ

/-- The first `n` values of an array. -/
def firstValues (n : ℕ) (data : ℕ → ℕ) : List ℕ := (List.range n).map data

/-- `qsort` sorts with every comparator that is an order of the array. -/
def QSort.Correct (qsort : QSort) : Prop :=
  ∀ compare n data, ConsistentOn compare (firstValues n data) →
    Sorts compare (firstValues n data) (firstValues n (qsort compare n data))

/-- The result is that of `stats_mean`. -/
def statsSummarize (qsort : QSort) (fuel : ℕ) (s : Stats) : Stats × Option (Option ℚ) :=
  let s := { s with data := qsort statsCompare s.limit s.data }
  (s, statsMean fuel s)

/-- The `rank` of `stats_percentile`. -/
def percentileRank (s : Stats) (p : ℚ) : ℕ :=
  (truncate (p / 100 * s.limit + 1 / 2 + 1 / 2)).toNat

theorem statsPercentile_array {s : Stats} (hs : s.histogram = none) (fuel : ℕ) (p : ℚ) :
    statsPercentile fuel s p = some (s.data (percentileRank s p - 1)) := by
  unfold statsPercentile
  rw [hs]
  rfl

/-! ## The ring -/

/-- The stats after `values`, of which it keeps the last ones. -/
structure Ring (n : ℕ) (values : List ℕ) (s : Stats) : Prop where
  samples : s.samples = n
  histogram : s.histogram = none
  index : s.index = values.length % n
  limit : s.limit = min values.length n
  data : ∀ t, values.length - s.limit ≤ t → (ht : t < values.length) → s.data (t % n) = values[t]

theorem Ring.record {n : ℕ} (hn : 0 < n) {values : List ℕ} {s : Stats} (h : Ring n values s)
    (x : ℕ) : ∃ s', statsRecord s x = some s' ∧ Ring n (values ++ [x]) s' := by
  have hindex := Nat.mod_lt values.length hn
  unfold statsRecord
  rw [h.histogram]
  refine ⟨_, rfl, ?_⟩
  have hlength : (values ++ [x]).length = values.length + 1 := by simp
  have hlimit : (if s.limit < s.samples then s.limit + 1 else s.limit) =
      min (values.length + 1) n := by
    rw [h.samples, h.limit]
    split <;> omega
  refine ⟨h.samples, rfl, ?_, ?_, ?_⟩
  · show (if s.index + 1 = s.samples then 0 else s.index + 1) = _
    rw [h.samples, h.index, hlength, ← Nat.mod_add_mod]
    split
    · rename_i hend
      rw [hend, Nat.mod_self]
    · exact (Nat.mod_eq_of_lt (by omega)).symm
  · rw [hlength]
    exact hlimit
  · intro t hfrom ht
    simp only [hlength, hlimit] at hfrom ht
    show Function.update s.data s.index x (t % n) = _
    rw [h.index]
    rcases Nat.lt_or_ge t values.length with hold | hnew
    · have hne : t % n ≠ values.length % n := by
        intro hsame
        have hdvd := (Nat.modEq_iff_dvd' hold.le).mp hsame
        have := Nat.le_of_dvd (by omega) hdvd
        omega
      have hdata := h.data t (by rw [h.limit]; omega) hold
      rw [Function.update_of_ne hne, hdata, List.getElem_append_left hold]
    · obtain rfl : t = values.length := by omega
      rw [Function.update_self, List.getElem_concat_length]
      rfl

theorem exists_ring {n : ℕ} (hn : 0 < n) (values : List ℕ) :
    ∃ s, values.foldlM statsRecord (statsAlloc n) = some s ∧ Ring n values s := by
  induction values using List.reverseRecOn with
  | nil =>
      refine ⟨_, rfl, ⟨rfl, rfl, ?_, ?_, ?_⟩⟩
      · exact (Nat.zero_mod n).symm
      · exact (Nat.zero_min n).symm
      · exact fun t _ ht => absurd ht (Nat.not_lt_zero t)
  | append_singleton values x ih =>
      obtain ⟨s, hs, hring⟩ := ih
      obtain ⟨s', hs', hring'⟩ := hring.record hn x
      refine ⟨s', ?_, hring'⟩
      rw [List.foldlM_append, hs]
      simpa using hs'

/-- The last values, as many as the ring has cells. -/
def lastValues (n : ℕ) (values : List ℕ) : List ℕ := values.drop (values.length - n)

theorem Ring.perm {n : ℕ} (hn : 0 < n) {values : List ℕ} {s : Stats} (h : Ring n values s) :
    (firstValues s.limit s.data).Perm (lastValues n values) := by
  let start := values.length - s.limit
  let cells := (List.range s.limit).map fun i => (start + i) % n
  have hlimit := h.limit
  have hlast : lastValues n values = cells.map s.data := by
    refine List.ext_getElem ?_ fun i hi hi' => ?_
    · simp only [lastValues, cells, List.length_drop, List.length_map, List.length_range]
      omega
    · simp only [lastValues, cells, List.length_drop, List.length_map, List.length_range] at hi hi'
      have hdata := h.data (start + i) (Nat.le_add_right _ _) (by omega)
      simp only [lastValues, cells, List.getElem_drop, List.getElem_map, List.getElem_range, hdata]
      congr 1
      omega
  have hnodup : cells.Nodup := by
    refine List.Nodup.map_on (fun i hi j hj hsame => ?_) List.nodup_range
    rw [List.mem_range] at hi hj
    have hmod : i ≡ j [MOD n] := Nat.ModEq.add_left_cancel' start hsame
    exact hmod.eq_of_lt_of_lt (by omega) (by omega)
  have hcells : cells ⊆ List.range s.limit := by
    intro cell hcell
    obtain ⟨i, hi, rfl⟩ := List.mem_map.mp hcell
    rw [List.mem_range] at hi ⊢
    rcases Nat.lt_or_ge values.length n with hpart | hfull
    · have hstart : start = 0 := by omega
      rw [hstart, Nat.zero_add, Nat.mod_eq_of_lt (by omega)]
      exact hi
    · exact lt_of_lt_of_eq (Nat.mod_lt _ hn) (by omega)
  have hperm : cells.Perm (List.range s.limit) :=
    (List.subperm_of_subset hnodup hcells).perm_of_length_le (by simp [cells])
  rw [hlast]
  exact (hperm.map s.data).symm

/-! ## Ranks -/

/-- How many of `m` values are `p` percent, rounded down. -/
def rankBelow (p : ℚ) (m : ℕ) : ℕ := ⌊p * m / 100⌋₊

/-- The nearest rank of `p` percent of `m` values. -/
def nearestRank (p : ℚ) (m : ℕ) : ℕ := ⌈p * m / 100⌉₊

theorem percentileRank_eq {s : Stats} {p : ℚ} (hp : 0 < p) :
    percentileRank s p = rankBelow p s.limit + 1 := by
  have hpos : 0 ≤ p * s.limit / 100 := by positivity
  have heq : p / 100 * (s.limit : ℚ) + 1 / 2 + 1 / 2 = p * s.limit / 100 + 1 := by ring
  rw [percentileRank, heq, truncate_of_nonneg (by linarith), rankBelow,
    ← Int.natCast_floor_eq_floor (by linarith), Int.toNat_natCast]
  exact Nat.floor_add_one hpos

theorem nearestRank_pos {p : ℚ} (hp : 0 < p) {m : ℕ} (hm : 0 < m) : 0 < nearestRank p m := by
  have hm' : (0 : ℚ) < m := Nat.cast_pos.mpr hm
  exact Nat.ceil_pos.mpr (by positivity)

theorem nearestRank_le {p : ℚ} (hp : p ≤ 100) (m : ℕ) : nearestRank p m ≤ m := by
  refine Nat.ceil_le.mpr ?_
  have hmul : p * m ≤ 100 * m := mul_le_mul_of_nonneg_right hp (Nat.cast_nonneg m)
  linarith

theorem nearestRank_le_succ (p : ℚ) (m : ℕ) : nearestRank p m ≤ rankBelow p m + 1 :=
  Nat.ceil_le_floor_add_one _

/-! ## Percentiles -/

/-- In the order of the comparator, which is one, `v` and no other value
stands at place `r`. -/
structure KeepsPlace (l : List ℕ) (v r : ℕ) : Prop where
  consistent : ConsistentOn statsCompare l
  before : l.countP (statsCompare · v < 0) ≤ r
  within : r < l.countP (statsCompare · v ≤ 0)
  alone : ∀ u ∈ l, statsCompare u v = 0 → u = v

/-- After `stats_summarize` the percentile is read below `limit`, and it is `v`. -/
def ReadsPercentile (qsort : QSort) (s : Stats) (p : ℚ) (v : ℕ) : Prop :=
  ∀ fuel, let summarized := (statsSummarize qsort fuel s).1
    percentileRank summarized p - 1 < summarized.limit ∧
      statsPercentile fuel summarized p = some v

theorem readsPercentile_iff {qsort : QSort} {s : Stats} (hs : s.histogram = none) {p : ℚ}
    (hp : 0 < p) {v : ℕ} : ReadsPercentile qsort s p v ↔
      rankBelow p s.limit < s.limit ∧
        qsort statsCompare s.limit s.data (rankBelow p s.limit) = v := by
  have hstep (fuel : ℕ) : (percentileRank (statsSummarize qsort fuel s).1 p - 1 <
        (statsSummarize qsort fuel s).1.limit ∧
      statsPercentile fuel (statsSummarize qsort fuel s).1 p = some v) ↔
      rankBelow p s.limit < s.limit ∧
        qsort statsCompare s.limit s.data (rankBelow p s.limit) = v := by
    have hnone : (statsSummarize qsort fuel s).1.histogram = none := hs
    rw [statsPercentile_array hnone, percentileRank_eq hp, Nat.add_sub_cancel, Option.some_inj]
    rfl
  exact ⟨fun h => (hstep 0).mp (h 0), fun h fuel => (hstep fuel).mpr h⟩

theorem firstValues_getElem? (n : ℕ) (data : ℕ → ℕ) {r : ℕ} (hr : r < n) :
    (firstValues n data)[r]? = some (data r) := by
  rw [firstValues, List.getElem?_map, List.getElem?_range hr]
  rfl

/-- An array with these values. -/
theorem firstValues_getD (l : List ℕ) : firstValues l.length (l.getD · 0) = l := by
  refine List.ext_getElem (by simp [firstValues]) fun i hi hi' => ?_
  simp [firstValues, List.getD_eq_getElem?_getD, hi']

open Classical in
/-- A `qsort` that leaves an array alone when the comparator is no order of it,
but for one array, of which it makes `out`. -/
noncomputable def qsortTo (n : ℕ) (data out : ℕ → ℕ) : QSort := fun compare n' data' =>
  if compare = statsCompare ∧ n' = n ∧ data' = data then out
  else if h : ConsistentOn compare (firstValues n' data') then (h.exists_sorts.choose.getD · 0)
  else data'

theorem qsortTo_self (n : ℕ) (data out : ℕ → ℕ) : qsortTo n data out statsCompare n data = out :=
  if_pos ⟨rfl, rfl, rfl⟩

theorem qsortTo_correct {n : ℕ} {data : ℕ → ℕ} (out : ℕ → ℕ)
    (h : ConsistentOn statsCompare (firstValues n data) →
      Sorts statsCompare (firstValues n data) (firstValues n out)) :
    (qsortTo n data out).Correct := by
  intro compare n' data' hconsistent
  unfold qsortTo
  split
  · rename_i hsame
    obtain ⟨rfl, rfl, rfl⟩ := hsame
    exact h hconsistent
  · have hsorts := hconsistent.exists_sorts.choose_spec
    have hlength : hconsistent.exists_sorts.choose.length = n' := by
      rw [hsorts.1.length_eq, firstValues, List.length_map, List.length_range]
    have hvalues := firstValues_getD hconsistent.exists_sorts.choose
    rw [hlength] at hvalues
    rwa [hvalues]

theorem KeepsPlace.of_perm {l l' : List ℕ} {v r : ℕ} (h : KeepsPlace l v r) (hl : l'.Perm l) :
    KeepsPlace l' v r where
  consistent := h.consistent.of_perm hl
  before := hl.countP_eq _ ▸ h.before
  within := hl.countP_eq _ ▸ h.within
  alone u hu := h.alone u (hl.mem_iff.mp hu)

/-- A comparator that is no order has two values that differ. -/
theorem exists_ne_of_not_consistent {l : List ℕ} (h : ¬ ConsistentOn statsCompare l) (v : ℕ) :
    ∃ u ∈ l, u ≠ v := by
  by_contra hall
  push Not at hall
  have hself := statsCompare_self v
  refine h ⟨fun u hu w hw => ?_, fun u hu w hw x hx _ _ => ?_⟩
  · rw [hall u hu, hall w hw, hself]
    rfl
  · rw [hall u hu, hall x hx, hself]

theorem readsPercentile_iff_keepsPlace {n : ℕ} (hn : 0 < n) {values : List ℕ} {s : Stats}
    (hs : Ring n values s) {p : ℚ} (hp : 0 < p) {v : ℕ} (hv : v ∈ lastValues n values) :
    (∀ qsort : QSort, qsort.Correct → ReadsPercentile qsort s p v) ↔
      KeepsPlace (lastValues n values) v (rankBelow p s.limit) := by
  have hperm := hs.perm hn
  have hv' := hperm.mem_iff.mpr hv
  constructor
  · intro hall
    refine KeepsPlace.of_perm ?_ hperm.symm
    have hread (out : ℕ → ℕ) (hout : ConsistentOn statsCompare (firstValues s.limit s.data) →
        Sorts statsCompare (firstValues s.limit s.data) (firstValues s.limit out)) :
        rankBelow p s.limit < s.limit ∧ out (rankBelow p s.limit) = v := by
      have := (readsPercentile_iff hs.histogram hp).mp (hall _ (qsortTo_correct _ hout))
      rwa [qsortTo_self] at this
    by_cases hconsistent : ConsistentOn statsCompare (firstValues s.limit s.data)
    · obtain ⟨hbefore, hwithin, halone⟩ := (getElem?_sorts_iff (r := rankBelow p s.limit)
        hconsistent hv').mp fun t ht => by
          have hlength : t.length = s.limit := by
            rw [ht.1.length_eq, firstValues, List.length_map, List.length_range]
          have hvalues := firstValues_getD t
          rw [hlength] at hvalues
          obtain ⟨hlt, hget⟩ := hread (t.getD · 0) fun _ => by rwa [hvalues]
          rw [← hvalues, firstValues_getElem? _ _ hlt, hget]
      exact ⟨hconsistent, hbefore, hwithin, halone⟩
    · -- a `qsort` may then bring any value to the place
      obtain ⟨u, hu, hne⟩ := exists_ne_of_not_consistent hconsistent v
      obtain ⟨i, -, rfl⟩ := List.mem_map.mp hu
      obtain ⟨-, hget⟩ := hread (s.data ∘ Equiv.swap (rankBelow p s.limit) i)
        fun h => absurd h hconsistent
      rw [Function.comp_apply, Equiv.swap_apply_left] at hget
      exact absurd hget hne
  · intro h qsort hqsort
    have h' := h.of_perm hperm
    refine (readsPercentile_iff hs.histogram hp).mpr ?_
    have hlt : rankBelow p s.limit < s.limit := by
      have := h'.within.trans_le List.countP_le_length
      rwa [firstValues, List.length_map, List.length_range] at this
    have hget := (getElem?_sorts_iff h'.consistent hv').mpr
      ⟨h'.before, h'.within, h'.alone⟩ _ (hqsort _ _ _ h'.consistent)
    rw [firstValues_getElem? _ _ hlt] at hget
    exact ⟨hlt, Option.some.inj hget⟩

theorem keepsPlace_iff_of_close {l : List ℕ} (hclose : ∀ x ∈ l, ∀ y ∈ l, x < y + 2 ^ 31)
    {p : ℚ} (hp : 0 < p) {v : ℕ}
    (hv : smallest (l : Multiset ℕ) (nearestRank p l.length) = some v) :
    KeepsPlace l v (rankBelow p l.length) ↔
      smallest (l : Multiset ℕ) (rankBelow p l.length + 1) = some v := by
  have hmem : v ∈ l := mem_of_smallest hv
  have hcompare {x y : ℕ} (hx : x ∈ l) (hy : y ∈ l) : statsCompare x y = (x : ℤ) - y :=
    statsCompare_of_close (hclose x hx y hy) (hclose y hy x hx)
  have hpos : 0 < nearestRank p l.length := nearestRank_pos hp (List.length_pos_of_mem hmem)
  have hconsistent : ConsistentOn statsCompare l := by
    refine ⟨fun x hx y hy => ?_, fun x hx y hy z hz hxy hyz => ?_⟩
    · rw [hcompare hx hy, hcompare hy hx, ← Int.sign_neg, neg_sub]
    · rw [hcompare hx hy] at hxy
      rw [hcompare hy hz] at hyz
      rw [hcompare hx hz]
      omega
  have hbelow : l.countP (statsCompare · v < 0) ≤ rankBelow p l.length := by
    have hcount : l.countP (statsCompare · v < 0) = (l : Multiset ℕ).countP (· < v) := by
      rw [Multiset.coe_countP]
      refine List.countP_congr fun x hx => ?_
      rw [hcompare hx hmem]
      simp
    have hlt : ¬ nearestRank p l.length ≤ (l : Multiset ℕ).countP (· < v) := by
      rw [le_countP_iff hv hpos fun a b hab hb => lt_of_le_of_lt hab hb]
      exact lt_irrefl v
    have := nearestRank_le_succ p l.length
    omega
  have hwithin : l.countP (statsCompare · v ≤ 0) = (l : Multiset ℕ).countP (· ≤ v) := by
    rw [Multiset.coe_countP]
    refine List.countP_congr fun x hx => ?_
    rw [hcompare hx hmem]
    simp
  have halone : ∀ u ∈ l, statsCompare u v = 0 → u = v := by
    intro u hu hzero
    rw [hcompare hu hmem] at hzero
    omega
  have hkeeps : KeepsPlace l v (rankBelow p l.length) ↔
      rankBelow p l.length + 1 ≤ (l : Multiset ℕ).countP (· ≤ v) :=
    ⟨fun h => hwithin ▸ h.within, fun h => ⟨hconsistent, hbelow, hwithin ▸ h, halone⟩⟩
  rw [hkeeps]
  constructor
  · intro hle
    have hcard : rankBelow p l.length + 1 ≤ (l : Multiset ℕ).card :=
      hle.trans (Multiset.countP_le_card _ _)
    obtain ⟨w, -, hw⟩ := exists_smallest (Nat.succ_pos _) hcard
    have hwv : w ≤ v :=
      (le_countP_iff hw (Nat.succ_pos _) fun a b hab hb => le_trans hab hb).mp hle
    rw [hw, le_antisymm hwv (smallest_mono hv hw (nearestRank_le_succ p l.length))]
  · intro hsame
    exact (le_countP_iff hsame (Nat.succ_pos _) fun a b hab hb => le_trans hab hb).mpr le_rfl

/-- A percentile of the last values is the nearest rank, whatever `qsort` does
with ties and with comparators that are no order, exactly when that value
stands behind the whole part of `p` percent in the order of the comparator. For
values less than 2^31 apart it does when `p` percent are no whole number, or
when the next value is the same. -/
theorem percentile_nearest_rank_iff {n : ℕ} (hn : 0 < n) {values : List ℕ} (hne : values ≠ [])
    {p : ℚ} (hp : 0 < p) (hp' : p ≤ 100) :
    ∃ s v, values.foldlM statsRecord (statsAlloc n) = some s ∧
      s.limit = min values.length n ∧
      smallest (lastValues n values : Multiset ℕ) (nearestRank p (min values.length n)) = some v ∧
      ((∀ qsort : QSort, qsort.Correct → ReadsPercentile qsort s p v) ↔
        KeepsPlace (lastValues n values) v (rankBelow p (min values.length n))) ∧
      ((∀ x ∈ lastValues n values, ∀ y ∈ lastValues n values, x < y + 2 ^ 31) →
        (KeepsPlace (lastValues n values) v (rankBelow p (min values.length n)) ↔
          smallest (lastValues n values : Multiset ℕ) (rankBelow p (min values.length n) + 1) =
            some v)) := by
  obtain ⟨s, hs, hring⟩ := exists_ring hn values
  have hlength : (lastValues n values).length = min values.length n := by
    rw [lastValues, List.length_drop]
    omega
  have hpos : 0 < (lastValues n values).length := by
    have := List.length_pos_iff.mpr hne
    omega
  obtain ⟨v, hv, hrank⟩ := exists_smallest (S := (lastValues n values : Multiset ℕ))
    (nearestRank_pos hp hpos) (nearestRank_le hp' _)
  have hiff := readsPercentile_iff_keepsPlace hn hring hp hv
  have hclose := fun h => keepsPlace_iff_of_close (l := lastValues n values) h hp hrank
  rw [hring.limit] at hiff
  rw [hlength] at hrank hclose
  exact ⟨s, v, hs, hring.limit, hrank, hiff, hclose⟩

/-- 30 percent of the last two of three values. -/
theorem percentile_nearest_rank_iff_two :
    ∃ s v, [5, 3, 1].foldlM statsRecord (statsAlloc 2) = some s ∧
      smallest ([3, 1] : Multiset ℕ) 1 = some v ∧
      ∀ qsort : QSort, qsort.Correct → ReadsPercentile qsort s 30 v := by
  have hcount : min [5, 3, 1].length 2 = 2 := rfl
  have hnearest : nearestRank 30 2 = 1 := by norm_num [nearestRank, Nat.ceil_eq_iff]
  have hbelow : rankBelow 30 2 = 0 := by norm_num [rankBelow, Nat.floor_eq_zero]
  obtain ⟨s, v, hs, -, hv, hiff, hclose⟩ := @percentile_nearest_rank_iff 2 (by decide) [5, 3, 1]
    (by decide) 30 (by norm_num) (by norm_num)
  rw [hcount, hnearest] at hv
  rw [hcount, hbelow] at hiff hclose
  exact ⟨s, v, hs, hv, hiff.mpr ((hclose (by decide)).mpr hv)⟩

/-- A half of two values is the second, all of them are read behind the last,
and a value 3 · 2^30 greater is taken for the smaller. -/
theorem percentile_wrong :
    (∃ qsort : QSort, qsort.Correct) ∧
      ∃ s s', [1, 2].foldlM statsRecord (statsAlloc 2) = some s ∧
        [0, 3221225472].foldlM statsRecord (statsAlloc 2) = some s' ∧
        smallest ([1, 2] : Multiset ℕ) (nearestRank 50 2) = some 1 ∧
        smallest ([0, 3221225472] : Multiset ℕ) (nearestRank 30 2) = some 0 ∧
        ∀ qsort : QSort, qsort.Correct → ReadsPercentile qsort s 50 2 ∧
          (∀ v, ¬ ReadsPercentile qsort s 100 v) ∧ ReadsPercentile qsort s' 30 3221225472 := by
  obtain ⟨s, hs, hring⟩ := exists_ring (n := 2) (by decide) [1, 2]
  obtain ⟨s', hs', hring'⟩ := exists_ring (n := 2) (by decide) [0, 3221225472]
  have hhalf : nearestRank 50 2 = 1 ∧ rankBelow 50 2 = 1 := by
    norm_num [nearestRank, rankBelow]
  have hall : rankBelow 100 2 = 2 := by norm_num [rankBelow]
  have hfirst : nearestRank 30 2 = 1 ∧ rankBelow 30 2 = 0 := by
    norm_num [nearestRank, rankBelow, Nat.ceil_eq_iff, Nat.floor_eq_zero]
  have hkeeps : KeepsPlace (lastValues 2 [1, 2]) 2 1 :=
    ⟨⟨by decide, by decide⟩, by decide, by decide, by decide⟩
  have hkeeps' : KeepsPlace (lastValues 2 [0, 3221225472]) 3221225472 0 :=
    ⟨⟨by decide, by decide⟩, by decide, by decide, by decide⟩
  have hlimit : s.limit = 2 := hring.limit
  have hlimit' : s'.limit = 2 := hring'.limit
  refine ⟨⟨_, qsortTo_correct (n := 0) id fun _ => ⟨.rfl, .nil⟩⟩, s, s', hs, hs', ?_, ?_,
    fun qsort hqsort => ⟨?_, fun v h => ?_, ?_⟩⟩
  · rw [hhalf.1, smallest, Multiset.coe_sort, List.mergeSort_of_pairwise (by decide)]
    rfl
  · rw [hfirst.1, smallest, Multiset.coe_sort, List.mergeSort_of_pairwise (by decide)]
    rfl
  · refine (readsPercentile_iff_keepsPlace (by decide) hring (by norm_num) (by decide)).mpr ?_
      qsort hqsort
    rwa [hlimit, hhalf.2]
  · have hlt := ((readsPercentile_iff hring.histogram (by norm_num)).mp h).1
    rw [hlimit, hall] at hlt
    exact absurd hlt (lt_irrefl 2)
  · refine (readsPercentile_iff_keepsPlace (by decide) hring' (by norm_num) (by decide)).mpr ?_
      qsort hqsort
    rwa [hlimit', hfirst.2]

end WrkQuic
