import Mathlib.Algebra.BigOperators.Group.Multiset.Defs
import Mathlib.Algebra.Group.Action.Defs
import Mathlib.Data.Rat.Floor
import WrkQuic.HdrMerge
import WrkQuic.Lib.OrderStatistics

/-!
# Queries

`hdr_max`, `hdr_min`, `hdr_value_at_percentile` and `hdr_mean` walk a
histogram from its first slot on, until the iterator has passed the last
recorded value or the loop is left. On a histogram that holds `vs` each of
them returns what it is called for, with a value of the slot in place of the
recorded one: the smallest (`hdr_min`, and `hdr_max` too), the largest
(`hdr_value_at_percentile`) or the middle one (`hdr_mean`).

Floating-point numbers are exact.
-/

namespace WrkQuic

open LogBuckets HdrHistogram OrderStatistics

/-! ## The functions -/

/-- `while (hdr_iter_next(&iter))`. The body says whether it leaves the
loop. -/
def whileNext {α : Type} (h : HdrHistogram) (body : HdrIter → α → Bool × α) :
    ℕ → HdrIter → α → Option α
  | 0, _, _ => none
  | fuel + 1, iter, a => do
      let (more, iter) ← hdrIterNext h iter
      if more then
        let (leave, a) := body iter a
        if leave then some a else whileNext h body fuel iter a
      else some a

def hdrMax (fuel : ℕ) (h : HdrHistogram) : Option ℤ := do
  let max ← whileNext h (fun iter max =>
    (false, if iter.countAtIndex ≠ 0 then iter.highestEquivalentValue else max))
    fuel hdrIterInit 0
  some (lowestEquivalentValue h max)

def hdrMin (fuel : ℕ) (h : HdrHistogram) : Option ℤ :=
  whileNext h (fun iter min =>
    if iter.countToIndex ≠ 0 ∧ min = 0 then (true, iter.valueFromIndex) else (false, min))
    fuel hdrIterInit 0

/-- The conversion of a floating-point number to an integer: towards 0. -/
def truncate (x : ℚ) : ℤ := x.num.tdiv x.den

/-- The loop carries `total` and the result, which is 0 at its end. -/
def hdrValueAtPercentile (fuel : ℕ) (h : HdrHistogram) (percentile : ℚ) : Option ℤ := do
  let requestedPercentile := if percentile < 100 then percentile else 100
  let countAtPercentile := truncate (requestedPercentile / 100 * h.totalCount + 1 / 2)
  let countAtPercentile := if 1 < countAtPercentile then countAtPercentile else 1
  let (_, value) ← whileNext h (fun iter (total, value) =>
    let total : ℕ := total + iter.countAtIndex
    if countAtPercentile ≤ total then
      (true, total, highestEquivalentValue h iter.valueFromIndex)
    else (false, total, value)) fuel hdrIterInit (0, 0)
  some value

def medianEquivalentValue (h : HdrHistogram) (value : ℤ) : ℤ :=
  lowestEquivalentValue h value + sizeOfEquivalentValueRange h value >>> (1 : ℕ)

/-- A floating-point quotient; `none` is a denominator of zero, which gives
no number. -/
def divide (x y : ℚ) : Option ℚ := if y = 0 then none else some (x / y)

/-- The outer `none` is an abort, or a sum beyond `int64_t`, for which C
defines no result; what is added is never negative. -/
def hdrMean (fuel : ℕ) (h : HdrHistogram) : Option (Option ℚ) := do
  let total : ℤ ← whileNext h (fun iter total =>
    (false, if iter.countAtIndex ≠ 0 then
      total + iter.countAtIndex * medianEquivalentValue h iter.valueFromIndex else total))
    fuel hdrIterInit 0
  if total < 2 ^ 63 then some (divide total h.totalCount) else none

/-- `hdr_stddev` before the square root. -/
def hdrStddevSquared (fuel : ℕ) (h : HdrHistogram) : Option (Option ℚ) := do
  match ← hdrMean fuel h with
  | none => some none
  | some mean =>
      let total : ℚ ← whileNext h (fun iter total =>
        let dev : ℚ := medianEquivalentValue h iter.valueFromIndex - mean
        (false, if iter.countAtIndex ≠ 0 then total + dev * dev * iter.countAtIndex else total))
        fuel hdrIterInit 0
      some (divide total h.totalCount)

/-! ## Slots -/

namespace HdrHistogram

variable {h g : HdrHistogram}

/-- The largest value of slot `i`. -/
def highestOf (h : HdrHistogram) (i : ℕ) : ℕ := h.representative (i + 1) - 1

/-- The value in the middle of slot `i`. -/
def medianOf (h : HdrHistogram) (i : ℕ) : ℕ :=
  h.representative i + width h.mantissa h.unitMagnitude i / 2

theorem representative_succ (i : ℕ) :
    h.representative (i + 1) = h.representative i + width h.mantissa h.unitMagnitude i :=
  valueOf_succ mantissa_pos i

theorem representative_strictMono : StrictMono h.representative :=
  valueOf_strictMono mantissa_pos

theorem slot_mono {v w : ℕ} (hle : v ≤ w) : h.slot v ≤ h.slot w := index_mono mantissa_pos hle

theorem slot_eq_iff {v i : ℕ} :
    h.slot v = i ↔ h.representative i ≤ v ∧ v ≤ h.highestOf i := by
  have hpos : 0 < h.representative (i + 1) := by
    rw [representative_succ]
    exact Nat.add_pos_right _ (width_pos i)
  rw [slot, index_eq_iff mantissa_pos, highestOf]
  exact and_congr_right fun _ => (Nat.le_sub_one_iff_lt hpos).symm

theorem representative_slot_le (v : ℕ) : h.representative (h.slot v) ≤ v :=
  (slot_eq_iff.mp rfl).1

theorem le_highestOf_slot (v : ℕ) : v ≤ h.highestOf (h.slot v) := (slot_eq_iff.mp rfl).2

theorem representative_le_highestOf (i : ℕ) : h.representative i ≤ h.highestOf i := by
  rw [highestOf, representative_succ]
  have := width_pos (m := h.mantissa) (u := h.unitMagnitude) i
  omega

theorem slot_highestOf (i : ℕ) : h.slot (h.highestOf i) = i :=
  slot_eq_iff.mpr ⟨representative_le_highestOf i, Nat.le_refl _⟩

theorem highestOf_mono {i j : ℕ} (hle : i ≤ j) : h.highestOf i ≤ h.highestOf j :=
  Nat.sub_le_sub_right (representative_strictMono.monotone (Nat.succ_le_succ hle)) 1

/-- The widths of the slots, which `size_of_equivalent_value_range` shifts
an `int` for, fit in one. -/
structure Narrow (h : HdrHistogram) : Prop extends h.Shaped where
  narrow : h.unitMagnitude + h.bucketCount ≤ 31

theorem Narrow.ofSlots (hg : g.Narrow) (S : Multiset ℕ) : (g.ofSlots S).Narrow :=
  ⟨hg.toShaped.ofSlots S, hg.narrow⟩

theorem Narrow.width_lt (hg : g.Narrow) {i : ℕ} (hi : i < g.countsLen) :
    width g.mantissa g.unitMagnitude i < 2 ^ 31 := by
  have hbucket : (slotOf g.mantissa i).1 < g.bucketCount := bucketOf_lt hg.toShaped hi
  have hnarrow := hg.narrow
  exact Nat.pow_lt_pow_right Nat.one_lt_two (by omega)

variable (hh : h.Shaped)

include hh

theorem lowestEquivalentValue_natCast (v : ℕ) :
    lowestEquivalentValue h v = (h.representative (h.slot v) : ℕ) := by
  simp only [lowestEquivalentValue, getBucketIndex_natCast hh]
  exact congrArg Nat.cast (valueOf_index mantissa_pos v).symm

theorem sizeOfEquivalentValueRange_natCast {v : ℕ}
    (hv : width h.mantissa h.unitMagnitude (h.slot v) < 2 ^ 31) :
    sizeOfEquivalentValueRange h v = (width h.mantissa h.unitMagnitude (h.slot v) : ℕ) := by
  obtain ⟨hlt, -⟩ := isSlot_of_value (u := h.unitMagnitude) (mantissa_pos (h := h)) v
  have hsub : getSubBucketIndex v (getBucketIndex h v) h.unitMagnitude =
      (subBucket h.mantissa h.unitMagnitude v : ℕ) := by
    rw [getBucketIndex_natCast hh]
    rfl
  have hslot : (slotOf h.mantissa (h.slot v)).1 = bucket h.mantissa h.unitMagnitude v :=
    congrArg Prod.fst (slotOf_slotIndex mantissa_pos (isSlot_of_value mantissa_pos v))
  simp only [sizeOfEquivalentValueRange, hsub]
  rw [if_neg (by rw [hh.count]; exact_mod_cast Nat.not_le.mpr hlt), getBucketIndex_natCast hh,
    Nat.add_comm]
  have hshift : (1 : ℤ) <<< (bucket h.mantissa h.unitMagnitude v + h.unitMagnitude) =
      (width h.mantissa h.unitMagnitude (h.slot v) : ℕ) := by
    rw [width, hslot, Int.shiftLeft_eq, one_mul]
    rfl
  rw [hshift]
  exact Int.bmod_eq_of_le (by omega) (by omega)

theorem highestEquivalentValue_natCast {v : ℕ}
    (hv : width h.mantissa h.unitMagnitude (h.slot v) < 2 ^ 31) :
    highestEquivalentValue h v = (h.highestOf (h.slot v) : ℕ) := by
  have hpos := width_pos (m := h.mantissa) (u := h.unitMagnitude) (h.slot v)
  rw [highestEquivalentValue, nextNonEquivalentValue, lowestEquivalentValue_natCast hh,
    sizeOfEquivalentValueRange_natCast hh hv, highestOf, representative_succ]
  omega

theorem medianEquivalentValue_natCast {v : ℕ}
    (hv : width h.mantissa h.unitMagnitude (h.slot v) < 2 ^ 31) :
    medianEquivalentValue h v = (h.medianOf (h.slot v) : ℕ) := by
  rw [medianEquivalentValue, lowestEquivalentValue_natCast hh,
    sizeOfEquivalentValueRange_natCast hh hv, medianOf, Int.shiftRight_eq_div_pow]
  push_cast
  rfl

end HdrHistogram

theorem latencyHistogram_narrow : latencyHistogram.Narrow :=
  ⟨latencyHistogram_shaped, by decide⟩

theorem le_slot_latency {v : ℕ} (hv : 2 ^ 37 ≤ v) :
    latencyHistogram.countsLen ≤ latencyHistogram.slot v :=
  calc
    latencyHistogram.countsLen = latencyHistogram.slot (2 ^ 37) := by decide +kernel
    _ ≤ latencyHistogram.slot v := slot_mono hv

/-- Half of a value is below its slot. -/
theorem le_two_mul_representative (h : HdrHistogram) (hunit : h.unitMagnitude = 0) (v : ℕ) :
    v ≤ 2 * h.representative (h.slot v) := by
  have hlt : v < h.representative (h.slot v) + width h.mantissa h.unitMagnitude (h.slot v) := by
    rw [← representative_succ]
    exact lt_valueOf_index_succ mantissa_pos v
  by_cases hfirst : (slotOf h.mantissa (h.slot v)).1 = 0
  · have hone : width h.mantissa h.unitMagnitude (h.slot v) = 1 := by
      rw [width, hfirst, hunit]
      rfl
    omega
  · have hwidth := width_le (u := h.unitMagnitude) (mantissa_pos (h := h)) hfirst
    have hself := Nat.le_mul_of_pos_right (width h.mantissa h.unitMagnitude (h.slot v))
      (Nat.two_pow_pos (h.mantissa - 1))
    have hrep : width h.mantissa h.unitMagnitude (h.slot v) ≤ h.representative (h.slot v) :=
      hself.trans hwidth
    omega

/-- A value beyond the range is not taken for one of the range, also where
the width of its slot overflows. -/
theorem highestEquivalentValue_beyond (S : Multiset ℕ) {v : ℕ} (hv : 2 ^ 37 ≤ v) :
    2 ^ 37 ≤ highestEquivalentValue (latencyHistogram.ofSlots S) v := by
  have hshaped := latencyHistogram_shaped.ofSlots S
  by_cases hwidth : width (latencyHistogram.ofSlots S).mantissa
      (latencyHistogram.ofSlots S).unitMagnitude ((latencyHistogram.ofSlots S).slot v) < 2 ^ 31
  · rw [highestEquivalentValue_natCast hshaped hwidth]
    exact_mod_cast hv.trans (le_highestOf_slot v)
  · have hfar : 2 ^ 41 ≤ v := by
      by_contra hnear
      refine hwidth ?_
      have hbucket : bucket 11 0 v ≤ 30 := bucket_le (by decide) (Nat.not_le.mp hnear)
      have hslot : (slotOf 11 (slotIndex 11 (bucket 11 0 v) (subBucket 11 0 v))).1 =
          bucket 11 0 v :=
        congrArg Prod.fst (slotOf_slotIndex (by decide) (isSlot_of_value (by decide) v))
      show 2 ^ ((slotOf 11 (slotIndex 11 (bucket 11 0 v) (subBucket 11 0 v))).1 + 0) < 2 ^ 31
      rw [hslot]
      exact Nat.pow_lt_pow_right Nat.one_lt_two (by omega)
    have hhalf := le_two_mul_representative (latencyHistogram.ofSlots S) rfl v
    have hsize : -(2 ^ 31 : ℤ) ≤
        sizeOfEquivalentValueRange (latencyHistogram.ofSlots S) v := by
      unfold sizeOfEquivalentValueRange
      refine le_trans ?_ (Int.le_bmod (by decide))
      norm_num
    rw [highestEquivalentValue, nextNonEquivalentValue, lowestEquivalentValue_natCast hshaped]
    omega

/-! ## The walk -/

section

variable {g : HdrHistogram} {S vs : Multiset ℕ} {fuel : ℕ}

/-- The rule of the loop: `I k` holds before slot `k` is looked at. -/
theorem whileNext_rule (hg : g.Shaped) (hS : ∀ s ∈ S, s < g.countsLen) {α : Type}
    {body : HdrIter → α → Bool × α} (I : ℕ → α → Prop) (Q : α → Prop)
    (hstep : ∀ k a, (∃ s ∈ S, k ≤ s) → I k a →
      (body (iterAt g S (k + 1)) a).1 = true ∧ Q (body (iterAt g S (k + 1)) a).2 ∨
        (body (iterAt g S (k + 1)) a).1 = false ∧ I (k + 1) (body (iterAt g S (k + 1)) a).2)
    (hend : ∀ k a, (∀ s ∈ S, s < k) → I k a → Q a) :
    ∀ fuel k a, g.countsLen < fuel + k → k ≤ g.countsLen → I k a →
      ∃ a', whileNext (g.ofSlots S) body fuel (iterAt g S k) a = some a' ∧ Q a'
  | 0, k, a, hfuel, hk, _ => absurd hfuel (by omega)
  | fuel + 1, k, a, hfuel, hk, hI => by
      unfold whileNext
      by_cases hmore : ∃ s ∈ S, k ≤ s
      · obtain ⟨s, hs, hks⟩ := id hmore
        have hlt := hS s hs
        simp only [hdrIterNext_more hg hS hmore, Option.bind_eq_bind, Option.bind_some, if_true]
        rcases hstep k a hmore hI with ⟨hleave, hQ⟩ | ⟨hstay, hI⟩
        · rw [hleave]
          exact ⟨_, rfl, hQ⟩
        · rw [hstay]
          exact whileNext_rule hg hS I Q hstep hend fuel (k + 1) _ (by omega) (by omega) hI
      · have hend' : ∀ s ∈ S, s < k := fun s hs => Nat.not_le.mp fun hks => hmore ⟨s, hs, hks⟩
        simp only [hdrIterNext_end hend', Option.bind_eq_bind, Option.bind_some]
        exact ⟨a, rfl, hend k a hend' hI⟩

/-- The loop as the queries start it. -/
theorem whileNext_init (hg : g.Shaped) (hS : ∀ s ∈ S, s < g.countsLen)
    (hfuel : g.countsLen < fuel) {α : Type} {body : HdrIter → α → Bool × α} {a : α}
    (I : ℕ → α → Prop) (Q : α → Prop) (hinit : I 0 a)
    (hstep : ∀ k a, (∃ s ∈ S, k ≤ s) → I k a →
      (body (iterAt g S (k + 1)) a).1 = true ∧ Q (body (iterAt g S (k + 1)) a).2 ∨
        (body (iterAt g S (k + 1)) a).1 = false ∧ I (k + 1) (body (iterAt g S (k + 1)) a).2)
    (hend : ∀ k a, (∀ s ∈ S, s < k) → I k a → Q a) :
    ∃ a', whileNext (g.ofSlots S) body fuel hdrIterInit a = some a' ∧ Q a' :=
  whileNext_rule hg hS I Q hstep hend fuel 0 a hfuel (Nat.zero_le _) hinit

theorem iterAt_countAtIndex (k : ℕ) : (iterAt g S (k + 1)).countAtIndex ≠ 0 ↔ k ∈ S :=
  Multiset.count_ne_zero

theorem iterAt_highest (hg : g.Narrow) {k : ℕ} (hk : k < g.countsLen) :
    (iterAt g S (k + 1)).highestEquivalentValue = (g.highestOf k : ℕ) := by
  have hslot : (g.ofSlots S).slot (g.representative k) = k := slot_representative k
  have hhighest := highestEquivalentValue_natCast (v := g.representative k)
    (hg.ofSlots S).toShaped (hslot.symm ▸ hg.width_lt hk)
  rwa [hslot] at hhighest

/-! ## Each query -/

/-- `hdr_max` returns the smallest value of the last occupied slot. -/
theorem hdrMax_ofSlots (hg : g.Narrow) (hS : ∀ s ∈ S, s < g.countsLen)
    (hfuel : g.countsLen < fuel) (hne : S ≠ 0) : ∃ k ∈ S, (∀ s ∈ S, s ≤ k) ∧
      hdrMax fuel (g.ofSlots S) = some ((g.representative k : ℕ) : ℤ) := by
  obtain ⟨max, hmax, k, hk, hlast, rfl⟩ : ∃ max : ℤ, whileNext (g.ofSlots S) (fun iter max =>
      (false, if iter.countAtIndex ≠ 0 then iter.highestEquivalentValue else max))
      fuel hdrIterInit 0 = some max ∧
        ∃ j ∈ S, (∀ s ∈ S, s ≤ j) ∧ max = (g.highestOf j : ℕ) := by
    refine whileNext_init hg.toShaped hS hfuel (fun k (max : ℤ) => (∀ s ∈ S, k ≤ s) ∨
      ∃ j ∈ S, (∀ s ∈ S, s < k → s ≤ j) ∧ max = (g.highestOf j : ℕ)) _
      (Or.inl fun s _ => Nat.zero_le s) ?_ ?_
    · rintro k max ⟨s, hs, hks⟩ hI
      refine Or.inr ⟨rfl, ?_⟩
      simp only [iterAt_countAtIndex, iterAt_highest hg (Nat.lt_of_le_of_lt hks (hS s hs))]
      by_cases hk : k ∈ S
      · rw [if_pos hk]
        exact Or.inr ⟨k, hk, fun s _ hs => Nat.le_of_lt_succ hs, rfl⟩
      · rw [if_neg hk]
        have hskip {s : ℕ} (hs : s ∈ S) : s ≠ k := fun h => hk (h ▸ hs)
        rcases hI with hnone | ⟨j, hj, hlast, hmax⟩
        · exact Or.inl fun s hs => Nat.lt_of_le_of_ne (hnone s hs) (hskip hs).symm
        · refine Or.inr ⟨j, hj, fun s hs hlt => hlast s hs ?_, hmax⟩
          exact Nat.lt_of_le_of_ne (Nat.le_of_lt_succ hlt) (hskip hs)
    · rintro k max hend (hnone | ⟨j, hj, hlast, hmax⟩)
      · obtain ⟨s, hs⟩ := Multiset.exists_mem_of_ne_zero hne
        exact absurd (hend s hs) (Nat.not_lt.mpr (hnone s hs))
      · exact ⟨j, hj, fun s hs => hlast s hs (hend s hs), hmax⟩
  refine ⟨k, hk, hlast, ?_⟩
  rw [hdrMax, hmax, Option.bind_eq_bind, Option.bind_some,
    lowestEquivalentValue_natCast (hg.ofSlots S).toShaped]
  exact congrArg (fun i : ℕ => some (g.representative i : ℤ)) (slot_highestOf (h := g) k)

/-- `hdr_min` returns the smallest value of the first occupied slot. -/
theorem hdrMin_ofSlots (hg : g.Shaped) (hS : ∀ s ∈ S, s < g.countsLen)
    (hfuel : g.countsLen < fuel) (hne : S ≠ 0) : ∃ k ∈ S, (∀ s ∈ S, k ≤ s) ∧
      hdrMin fuel (g.ofSlots S) = some ((g.representative k : ℕ) : ℤ) := by
  obtain ⟨min, hmin, k, hk, hfirst, rfl⟩ : ∃ min, hdrMin fuel (g.ofSlots S) = some min ∧
      ∃ k ∈ S, (∀ s ∈ S, k ≤ s) ∧ min = (g.representative k : ℕ) := by
    refine whileNext_init hg hS hfuel (fun k (min : ℤ) => min = 0 ∧ ∀ s ∈ S, k ≤ s) _
      ⟨rfl, fun s _ => Nat.zero_le s⟩ ?_ ?_
    · rintro k min - ⟨rfl, hfirst⟩
      have hcount : (iterAt g S (k + 1)).countToIndex ≠ 0 ↔ k ∈ S := by
        rw [iterAt_countToIndex, ← Nat.pos_iff_ne_zero, Multiset.countP_pos]
        refine ⟨?_, fun hk => ⟨k, hk, Nat.lt_succ_self k⟩⟩
        rintro ⟨s, hs, hlt⟩
        exact Nat.le_antisymm (hfirst s hs) (Nat.le_of_lt_succ hlt) ▸ hs
      by_cases hk : k ∈ S
      · rw [if_pos ⟨hcount.mpr hk, rfl⟩]
        exact Or.inl ⟨rfl, k, hk, hfirst, rfl⟩
      · rw [if_neg fun h => hk (hcount.mp h.1)]
        refine Or.inr ⟨rfl, rfl, fun s hs => Nat.lt_of_le_of_ne (hfirst s hs) ?_⟩
        exact fun h => hk (h ▸ hs)
    · rintro k min hend ⟨rfl, hfirst⟩
      obtain ⟨s, hs⟩ := Multiset.exists_mem_of_ne_zero hne
      exact absurd (hend s hs) (Nat.not_lt.mpr (hfirst s hs))
  exact ⟨k, hk, hfirst, hmin⟩

theorem truncate_of_nonneg {x : ℚ} (hx : 0 ≤ x) : truncate x = ⌊x⌋ := by
  rw [truncate, Rat.floor_def', Int.tdiv_eq_ediv_of_nonneg (Rat.num_nonneg.mpr hx)]

theorem truncate_of_nonpos {x : ℚ} (hx : x ≤ 0) : truncate x = ⌈x⌉ := by
  have hneg : truncate (-x) = -truncate x := by
    rw [truncate, truncate, Rat.num_neg_eq_neg_num, Rat.neg_den, Int.neg_tdiv]
  rw [truncate_of_nonneg (neg_nonneg.mpr hx), Int.floor_neg] at hneg
  omega

theorem truncate_mono {x y : ℚ} (h : x ≤ y) : truncate x ≤ truncate y := by
  rcases le_total 0 x with hx | hx
  · rw [truncate_of_nonneg hx, truncate_of_nonneg (hx.trans h)]
    exact Int.floor_mono h
  rw [truncate_of_nonpos hx]
  rcases le_total 0 y with hy | hy
  · rw [truncate_of_nonneg hy]
    exact (Int.ceil_le.mpr (by exact_mod_cast hx)).trans (Int.floor_nonneg.mpr hy)
  · rw [truncate_of_nonpos hy]
    exact Int.ceil_mono h

/-- The rank that `hdr_value_at_percentile` looks for among `n` values. -/
def rankAt (percentile : ℚ) (n : ℕ) : ℕ := max 1 ⌊percentile * n / 100 + 1 / 2⌋₊

theorem rankAt_pos (p : ℚ) (n : ℕ) : 0 < rankAt p n :=
  Nat.lt_of_lt_of_le one_pos (le_max_left _ _)

theorem rankAt_le {p : ℚ} {n : ℕ} (hp : p ≤ 100) (hn : 0 < n) : rankAt p n ≤ n := by
  have hle : p * n / 100 + 1 / 2 < (n + 1 : ℕ) := by
    have hmul : p * n ≤ 100 * n := mul_le_mul_of_nonneg_right hp (Nat.cast_nonneg n)
    push_cast
    linarith
  exact max_le hn (Nat.le_of_lt_succ ((Nat.floor_lt' (Nat.succ_ne_zero n)).mpr hle))

theorem rankAt_mono {p q : ℚ} {n : ℕ} (hle : p ≤ q) : rankAt p n ≤ rankAt q n := by
  refine max_le_max (Nat.le_refl 1) (Nat.floor_mono ?_)
  have hmul : p * n ≤ q * n := mul_le_mul_of_nonneg_right hle (Nat.cast_nonneg n)
  linarith

/-- What the loop compares its count with. -/
theorem rankAt_eq {p : ℚ} (hp : 0 < p) (hp' : p ≤ 100) (n : ℕ) :
    (if 1 < truncate ((if p < 100 then p else 100) / 100 * n + 1 / 2) then
      truncate ((if p < 100 then p else 100) / 100 * n + 1 / 2) else 1) = (rankAt p n : ℤ) := by
  have hrequested : (if p < 100 then p else 100) = p := by
    split
    · rfl
    · rename_i h
      exact le_antisymm (not_lt.mp h) hp'
  have heq : p / 100 * (n : ℚ) + 1 / 2 = p * n / 100 + 1 / 2 := by ring
  have hnonneg : 0 ≤ p * (n : ℚ) / 100 + 1 / 2 := by positivity
  rw [hrequested, heq, truncate_of_nonneg hnonneg, rankAt, ← Int.natCast_floor_eq_floor hnonneg]
  split
  · rename_i h
    rw [max_eq_right (by omega)]
  · rename_i h
    rw [max_eq_left (by omega)]
    rfl

/-- `hdr_value_at_percentile` returns the largest value of the slot of the
value that has the rank. -/
theorem hdrValueAtPercentile_holding (hg : g.Narrow) (hvs : ∀ v ∈ vs, g.Tracks v)
    (hfuel : g.countsLen < fuel) {p : ℚ} (hp : 0 < p) (hp' : p ≤ 100) {x : ℕ}
    (hx : smallest vs (rankAt p vs.card) = some x) :
    hdrValueAtPercentile fuel (g.holding vs) p = some ((g.highestOf (g.slot x) : ℕ) : ℤ) := by
  have hS : ∀ s ∈ vs.map g.slot, s < g.countsLen := by
    intro s hs
    obtain ⟨v, hv, rfl⟩ := Multiset.mem_map.mp hs
    exact slot_lt hg.toShaped (hvs v hv)
  -- the count before a slot reaches the rank when the slot is beyond that of `x`
  have hrank (k : ℕ) : rankAt p vs.card ≤ (vs.map g.slot).countP (· < k) ↔ g.slot x < k := by
    rw [Multiset.countP_map, ← Multiset.countP_eq_card_filter]
    exact le_countP_iff hx (rankAt_pos p vs.card) fun a b hab hb =>
      Nat.lt_of_le_of_lt (slot_mono hab) hb
  have htotal : ((g.holding vs).totalCount : ℚ) = vs.card := by
    rw [holding, HdrHistogram.ofSlots, Multiset.card_map]
  obtain ⟨⟨total, value⟩, hwalk, hvalue⟩ : ∃ a : ℕ × ℤ, whileNext (g.ofSlots (vs.map g.slot))
      (fun iter (total, value) =>
        let total : ℕ := total + iter.countAtIndex
        if (rankAt p vs.card : ℤ) ≤ total then
          (true, total, highestEquivalentValue (g.holding vs) iter.valueFromIndex)
        else (false, total, value)) fuel hdrIterInit (0, 0) = some a ∧
      a.2 = (g.highestOf (g.slot x) : ℕ) := by
    refine whileNext_init hg.toShaped hS hfuel
      (fun k a => a.1 = (vs.map g.slot).countP (· < k) ∧ ¬ g.slot x < k) _
      ⟨by simp, Nat.not_lt_zero _⟩ ?_ ?_
    · rintro k ⟨total, value⟩ ⟨s, hs, hks⟩ ⟨htotal, hnot⟩
      have hnext : total + (iterAt g (vs.map g.slot) (k + 1)).countAtIndex =
          (vs.map g.slot).countP (· < k + 1) := by
        rw [countP_lt_succ]
        exact congrArg (· + _) htotal
      simp only [hnext, Nat.cast_le, hrank]
      by_cases hk : g.slot x < k + 1
      · rw [if_pos hk]
        have hslot : g.slot x = k := by omega
        rw [hslot]
        exact Or.inl ⟨rfl, iterAt_highest (S := vs.map g.slot) hg
          (Nat.lt_of_le_of_lt hks (hS s hs))⟩
      · rw [if_neg hk]
        exact Or.inr ⟨rfl, rfl, hk⟩
    · rintro k ⟨total, value⟩ hend ⟨-, hnot⟩
      exact absurd (hend _ (Multiset.mem_map_of_mem g.slot (mem_of_smallest hx))) hnot
  rw [hdrValueAtPercentile, htotal]
  simp only [rankAt_eq hp hp']
  rw [show g.holding vs = g.ofSlots (vs.map g.slot) from rfl] at hwalk ⊢
  rw [hwalk, ← hvalue]
  rfl

/-- `hdr_mean` adds up the middles of the slots. -/
theorem hdrMean_ofSlots (hg : g.Narrow) (hS : ∀ s ∈ S, s < g.countsLen)
    (hfuel : g.countsLen < fuel) : hdrMean fuel (g.ofSlots S) =
      if (S.map g.medianOf).sum < 2 ^ 63 then some (divide (S.map g.medianOf).sum S.card)
      else none := by
  obtain ⟨total, hwalk, rfl⟩ : ∃ total : ℤ, whileNext (g.ofSlots S) (fun iter total =>
      (false, if iter.countAtIndex ≠ 0 then
        total + iter.countAtIndex * medianEquivalentValue (g.ofSlots S) iter.valueFromIndex
        else total)) fuel hdrIterInit 0 = some total ∧
      total = ((S.map g.medianOf).sum : ℕ) := by
    refine whileNext_init hg.toShaped hS hfuel
      (fun k (total : ℤ) => total = (((S.filter (· < k)).map g.medianOf).sum : ℕ)) _ (by simp) ?_ ?_
    · rintro k total ⟨s, hs, hks⟩ rfl
      have hslot : (g.ofSlots S).slot (g.representative k) = k := slot_representative k
      have hmedian := medianEquivalentValue_natCast (v := g.representative k)
        (hg.ofSlots S).toShaped
        (hslot.symm ▸ hg.width_lt (Nat.lt_of_le_of_lt hks (hS s hs)))
      rw [hslot] at hmedian
      have hvalue : medianEquivalentValue (g.ofSlots S) (iterAt g S (k + 1)).valueFromIndex =
        (g.medianOf k : ℕ) := hmedian
      have hcount : (iterAt g S (k + 1)).countAtIndex = S.count k := rfl
      have hsplit : S.filter (· < k + 1) =
          S.filter (· < k) + Multiset.replicate (S.count k) k := by
        rw [← Multiset.filter_eq', Multiset.filter_add_filter]
        have hempty : S.filter (fun s => s < k ∧ s = k) = 0 :=
          Multiset.filter_eq_nil.mpr fun s _ hs => by omega
        rw [hempty, add_zero]
        exact Multiset.filter_congr fun s _ => by omega
      refine Or.inr ⟨rfl, ?_⟩
      simp only [hvalue, hcount, hsplit, Multiset.map_add, Multiset.map_replicate,
        Multiset.sum_add, Multiset.sum_replicate, smul_eq_mul]
      split
      · push_cast
        rfl
      · rename_i hzero
        rw [not_not.mp hzero]
        simp
    · rintro k total hend rfl
      rw [Multiset.filter_eq_self.mpr hend]
  rw [hdrMean, hwalk, Option.bind_eq_bind, Option.bind_some, Int.cast_natCast]
  have hbound : (((S.map g.medianOf).sum : ℕ) : ℤ) < 2 ^ 63 ↔ (S.map g.medianOf).sum < 2 ^ 63 :=
    ⟨fun h => by omega, fun h => by omega⟩
  simp only [hbound]
  rfl

end

end WrkQuic
