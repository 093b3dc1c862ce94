import Mathlib.Algebra.Order.Group.Multiset
import Mathlib.Algebra.BigOperators.Group.Multiset.Basic
import Mathlib.Data.Multiset.Filter
import Mathlib.Tactic.NormNum
import WrkQuic.HdrHistogram

/-!
# Merging is recording

The purpose of a histogram is to stand for a multiset of latencies up to
the resolution of its slots. `HdrHistogram.ofSlots g S` is the histogram
of geometry `g` that holds exactly the slot numbers `S`, and every
operation acts on it as the multiset operation it is meant to be:
`hdr_init` gives the empty multiset, `hdr_record_values` adds an element,
`hdr_reset` empties it and `hdr_add` adds the other histogram's multiset
(`hdrAdd_ofSlots`).

`hdr_add` replays each slot through the slot's smallest value, so the
last one needs that a slot's value indexes back to the slot, and that
`total_count` is the number of recorded values, since the iterator stops
on `count_to_index < total_count` alone.
-/

namespace WrkQuic

open LogBuckets

/-- The width of a sub-bucket number. -/
def HdrHistogram.mantissa (h : HdrHistogram) : ℕ := h.subBucketHalfCountMagnitude + 1

/-- The geometry `hdr_init` computes. -/
structure HdrHistogram.Shaped (h : HdrHistogram) : Prop where
  mask : h.subBucketMask = mask h.mantissa h.unitMagnitude
  count : h.subBucketCount = 2 ^ h.mantissa
  half : h.subBucketHalfCount = 2 ^ h.subBucketHalfCountMagnitude
  buckets : 0 < h.bucketCount
  len : h.countsLen = (h.bucketCount + 1) * 2 ^ h.subBucketHalfCountMagnitude

namespace HdrHistogram

theorem mantissa_pos {h : HdrHistogram} : 0 < h.mantissa := Nat.succ_pos _

theorem mantissa_sub_one {h : HdrHistogram} :
    h.mantissa - 1 = h.subBucketHalfCountMagnitude := rfl

/-- The number of the slot that `v` falls in. -/
def slot (h : HdrHistogram) (v : ℕ) : ℕ :=
  index h.mantissa h.unitMagnitude v

def bucketOf (h : HdrHistogram) (i : ℕ) : ℕ :=
  (slotOf h.mantissa i).1

def subBucketOf (h : HdrHistogram) (i : ℕ) : ℕ :=
  (slotOf h.mantissa i).2

/-- The value `hdr_add` replays slot `i` with. -/
def representative (h : HdrHistogram) (i : ℕ) : ℕ :=
  valueOf h.mantissa h.unitMagnitude i

/-- The histogram with the geometry of `g` that holds the slots `S`. -/
def ofSlots (g : HdrHistogram) (S : Multiset ℕ) : HdrHistogram :=
  { g with totalCount := S.card, counts := fun i => S.count i }

/-- The histogram with the geometry of `g` that holds the values `vs`. -/
def holding (g : HdrHistogram) (vs : Multiset ℕ) : HdrHistogram :=
  g.ofSlots (vs.map g.slot)

/-- The values below the last bucket's end, the ones a histogram tracks. -/
def Tracks (h : HdrHistogram) (v : ℕ) : Prop :=
  v < 2 ^ (h.subBucketHalfCountMagnitude + h.unitMagnitude + h.bucketCount)

theorem Shaped.ofSlots {g : HdrHistogram} (hg : g.Shaped) (S : Multiset ℕ) :
    (g.ofSlots S).Shaped :=
  ⟨hg.mask, hg.count, hg.half, hg.buckets, hg.len⟩

end HdrHistogram

open HdrHistogram

variable {h g : HdrHistogram}

/-! ## The geometry -/

theorem bucketsNeeded_pos {highest : ℕ} :
    ∀ {fuel trackable buckets n : ℕ},
      bucketsNeeded highest fuel trackable buckets = some n → buckets ≤ n
  | 0, _, _, _, hn => by simp [bucketsNeeded] at hn
  | fuel + 1, trackable, buckets, n, hn => by
      unfold bucketsNeeded at hn
      split at hn
      · obtain ⟨_, -, hn⟩ := Option.bind_eq_some_iff.mp hn
        exact Nat.le_of_succ_le (bucketsNeeded_pos hn)
      · exact (Option.some.inj hn).le

theorem fits_eq_some {w n m : ℕ} : fits w n = some m ↔ n < 2 ^ w ∧ n = m := by
  unfold fits
  split <;> simp_all

theorem hdrInit_shaped {lowest highest figures : ℕ}
    (hinit : hdrInit lowest highest figures = some h) :
    h.Shaped ∧ h.ofSlots 0 = h := by
  unfold hdrInit at hinit
  split at hinit
  · exact absurd hinit (by simp)
  · simp only [Option.bind_eq_bind, Option.bind_eq_some_iff, Option.some.injEq] at hinit
    obtain ⟨unit, -, subBucketMask, hmask, buckets, hbuckets, rfl⟩ := hinit
    obtain ⟨-, rfl⟩ := fits_eq_some.mp hmask
    have hpos := bucketsNeeded_pos hbuckets
    refine ⟨⟨rfl, rfl, ?_, hpos, ?_⟩, ?_⟩
    · simp only [Nat.pow_succ', Nat.mul_div_cancel_left _ Nat.two_pos]
    · simp only [Nat.pow_succ', Nat.mul_div_cancel_left _ Nat.two_pos]
    · simp [HdrHistogram.ofSlots]

theorem slot_lt (hh : h.Shaped) {v : ℕ} (hv : h.Tracks v) : h.slot v < h.countsLen := by
  have hpos := hh.buckets
  have hexp : h.mantissa + h.unitMagnitude + (h.bucketCount - 1)
      = h.subBucketHalfCountMagnitude + h.unitMagnitude + h.bucketCount := by
    rw [mantissa]
    omega
  have hbucket : bucket h.mantissa h.unitMagnitude v ≤ h.bucketCount - 1 :=
    bucket_le mantissa_pos (by rw [hexp]; exact hv)
  rw [hh.len]
  exact index_lt mantissa_pos (by omega)

theorem bucketOf_lt (hh : h.Shaped) {i : ℕ} (hi : i < h.countsLen) :
    h.bucketOf i < h.bucketCount :=
  slotOf_fst_lt mantissa_pos hh.buckets (by rw [hh.len] at hi; exact hi)

/-! ## Indexing -/

theorem getBucketIndex_natCast (hh : h.Shaped) (v : ℕ) :
    getBucketIndex h v = bucket h.mantissa h.unitMagnitude v := by
  simp only [getBucketIndex, bucket, hh.mask, Int.toNat_natCast]
  rw [if_neg (by omega), mantissa]

/-- The assertions of `counts_index` hold on a slot, and its result is the
slot's number. -/
theorem countsIndex_slot (hh : h.Shaped) {b s : ℕ} (hslot : IsSlot h.mantissa b s)
    (hb : b < h.bucketCount) :
    countsIndex h b s = some ↑(slotIndex h.mantissa b s) := by
  obtain ⟨hlt, hhalf⟩ := hslot
  rw [mantissa_sub_one] at hhalf
  have hle : 2 ^ h.subBucketHalfCountMagnitude
      ≤ (b + 1) * 2 ^ h.subBucketHalfCountMagnitude :=
    Nat.le_mul_of_pos_left _ (Nat.succ_pos b)
  unfold countsIndex
  rw [if_pos ⟨hb, by rw [hh.count]; exact_mod_cast hlt,
    hhalf.imp id fun hs => by rw [hh.half]; exact_mod_cast hs⟩]
  simp only [slotIndex, hh.half, Nat.shiftLeft_eq, mantissa_sub_one, Option.some.injEq]
  omega

theorem slot_bucket_lt (hh : h.Shaped) {v : ℕ} (hv : h.slot v < h.countsLen) :
    bucket h.mantissa h.unitMagnitude v < h.bucketCount := by
  by_contra hge
  have hpos := hh.buckets
  have hslot := isSlot_of_value (u := h.unitMagnitude) (mantissa_pos (h := h)) v
  have hs := hslot.2.resolve_left (by omega)
  have hmul : (h.bucketCount + 1) * 2 ^ h.subBucketHalfCountMagnitude
      ≤ (bucket h.mantissa h.unitMagnitude v + 1) * 2 ^ h.subBucketHalfCountMagnitude :=
    Nat.mul_le_mul_right _ (by omega)
  rw [hh.len, slot, index, slotIndex, mantissa_sub_one] at hv
  rw [mantissa_sub_one] at hs
  omega

theorem countsIndexFor_natCast (hh : h.Shaped) {v : ℕ} (hv : h.slot v < h.countsLen) :
    countsIndexFor h v = some ↑(h.slot v) := by
  simp only [countsIndexFor, getBucketIndex_natCast hh]
  exact countsIndex_slot hh (isSlot_of_value mantissa_pos v) (slot_bucket_lt hh hv)

theorem slot_representative (i : ℕ) : h.slot (h.representative i) = i :=
  index_valueOf mantissa_pos i

theorem countsIndex_ofIndex (hh : h.Shaped) {i : ℕ} (hi : i < h.countsLen) :
    countsIndex h (h.bucketOf i) (h.subBucketOf i) = some ↑i := by
  have hidx : slotIndex h.mantissa (h.bucketOf i) (h.subBucketOf i) = i :=
    slotIndex_slotOf mantissa_pos i
  have hslot := countsIndex_slot hh (slotOf_isSlot mantissa_pos i) (bucketOf_lt hh hi)
  exact hslot.trans (congrArg (fun n : ℕ => some (n : ℤ)) hidx)

/-! ## Recording and resetting -/

theorem hdrRecordValues_ofSlots (hg : g.Shaped) (S : Multiset ℕ) {v : ℕ} (n : ℕ)
    (hv : g.slot v < g.countsLen) :
    hdrRecordValues (g.ofSlots S) v n
      = some (true, g.ofSlots (S + Multiset.replicate n (g.slot v))) := by
  have hidx := countsIndexFor_natCast (hg.ofSlots S) hv
  have hslot : (g.ofSlots S).slot v = g.slot v := rfl
  have hlen : (g.ofSlots S).countsLen = g.countsLen := rfl
  unfold hdrRecordValues
  simp only [hidx, hslot, hlen, Option.bind_eq_bind, Option.bind_some, Int.toNat_natCast]
  rw [if_neg (by omega)]
  simp only [HdrHistogram.ofSlots, Multiset.card_add, Multiset.card_replicate,
    Option.some.injEq, Prod.mk.injEq, HdrHistogram.mk.injEq, true_and]
  funext i
  by_cases hi : i = g.slot v
  · subst hi
    simp
  · simp [Function.update_of_ne hi, Multiset.count_replicate, Ne.symm hi]

theorem hdrRecordValue_holding (hg : g.Shaped) (vs : Multiset ℕ) {v : ℕ}
    (hv : g.Tracks v) :
    hdrRecordValue (g.holding vs) v = some (true, g.holding (vs + {v})) := by
  rw [hdrRecordValue, holding, hdrRecordValues_ofSlots hg _ 1 (slot_lt hg hv), holding,
    Multiset.map_add, Multiset.map_singleton, Multiset.replicate_one]

theorem hdrReset_holding (hg : g.Shaped) {vs : Multiset ℕ} (hvs : ∀ v ∈ vs, g.Tracks v) :
    hdrReset (g.holding vs) = g.holding 0 := by
  have hzero : ∀ i, (if i < g.countsLen then 0 else (vs.map g.slot).count i) = 0 := by
    intro i
    split
    · rfl
    · rename_i hi
      rw [Multiset.count_eq_zero, Multiset.mem_map]
      rintro ⟨v, hv, rfl⟩
      exact hi (slot_lt hg (hvs v hv))
  simp only [hdrReset, holding, HdrHistogram.ofSlots, Multiset.map_zero, Multiset.card_zero,
    Multiset.count_zero, HdrHistogram.mk.injEq, true_and]
  exact funext hzero

/-! ## The walk over a histogram -/

/-- The iterator after `k` calls of `move_next`. -/
def iterAt (g : HdrHistogram) (S : Multiset ℕ) : ℕ → HdrIter
  | 0 => hdrIterInit
  | k + 1 => {
      bucketIndex := g.bucketOf k
      subBucketIndex := g.subBucketOf k
      countAtIndex := S.count k
      countToIndex := S.countP (· < k + 1)
      valueFromIndex := g.representative k
      highestEquivalentValue := highestEquivalentValue (g.ofSlots S) (g.representative k) }

theorem iterAt_countToIndex (S : Multiset ℕ) :
    ∀ k, (iterAt g S k).countToIndex = S.countP (· < k)
  | 0 => by simp [iterAt, hdrIterInit]
  | _ + 1 => rfl

theorem countP_lt_succ (S : Multiset ℕ) (k : ℕ) :
    S.countP (· < k + 1) = S.countP (· < k) + S.count k := by
  induction S using Multiset.induction_on with
  | empty => simp
  | cons a S ih =>
      rw [Multiset.countP_cons, Multiset.countP_cons, Multiset.count_cons, ih]
      split_ifs <;> omega

theorem hasNext_iterAt (S : Multiset ℕ) (k : ℕ) :
    hasNext (g.ofSlots S) (iterAt g S k) = true ↔ ∃ s ∈ S, k ≤ s := by
  have hcard : S.countP (· < k) + S.countP (fun s => ¬s < k) = S.card :=
    (Multiset.card_eq_countP_add_countP _ S).symm
  have hpos : 0 < S.countP (fun s => ¬s < k) ↔ ∃ s ∈ S, ¬s < k := Multiset.countP_pos
  simp only [not_lt] at hpos hcard
  rw [← hpos, hasNext, iterAt_countToIndex, decide_eq_true_iff]
  show _ < S.card ↔ _
  omega

theorem incrementBucket_iterAt (hg : g.Shaped) (S : Multiset ℕ) (k : ℕ) :
    incrementBucket (g.ofSlots S) (iterAt g S k).bucketIndex (iterAt g S k).subBucketIndex
      = (g.bucketOf k, (g.subBucketOf k : ℤ)) := by
  have hcount : (g.ofSlots S).subBucketCount = 2 ^ g.mantissa :=
    hg.count
  have hhalf : (g.ofSlots S).subBucketHalfCount = 2 ^ g.subBucketHalfCountMagnitude :=
    hg.half
  cases k with
  | zero =>
      have hpos : 0 < 2 ^ g.mantissa := Nat.two_pow_pos _
      simp only [incrementBucket, iterAt, hdrIterInit, hcount, bucketOf, subBucketOf, slotOf]
      rw [if_neg (by omega)]
      rfl
  | succ k =>
      simp only [incrementBucket, iterAt, hcount, hhalf, bucketOf, subBucketOf, slotOf,
        nextSlot]
      by_cases hlast : (slotOf g.mantissa k).2 + 1 < 2 ^ g.mantissa
      · rw [if_neg (by omega), if_pos hlast, Nat.cast_succ]
      · rw [if_pos (by omega), if_neg hlast, mantissa_sub_one]

theorem moveNext_iterAt (hg : g.Shaped) (S : Multiset ℕ) {k : ℕ} (hk : k < g.countsLen) :
    moveNext (g.ofSlots S) (iterAt g S k) = some (true, iterAt g S (k + 1)) := by
  have hbucket : g.bucketOf k < (g.ofSlots S).bucketCount := bucketOf_lt hg hk
  have hidx : countsIndex (g.ofSlots S) (g.bucketOf k) (g.subBucketOf k) = some ↑k :=
    countsIndex_ofIndex (hg.ofSlots S) hk
  have hvalue : valueFromIndex (g.bucketOf k) (g.subBucketOf k) (g.ofSlots S).unitMagnitude
      = g.representative k := rfl
  simp only [moveNext, incrementBucket_iterAt hg S k]
  rw [if_pos (by simpa [hasBuckets] using hbucket)]
  simp only [getCountAtIndex, hidx, hvalue, Option.map_some, Option.bind_eq_bind,
    Option.bind_some, iterAt_countToIndex, Int.toNat_natCast]
  simp only [iterAt, countP_lt_succ, HdrHistogram.ofSlots]

theorem hdrIterNext_more (hg : g.Shaped) {S : Multiset ℕ} (hS : ∀ s ∈ S, s < g.countsLen)
    {k : ℕ} (hmore : ∃ s ∈ S, k ≤ s) :
    hdrIterNext (g.ofSlots S) (iterAt g S k) = some (true, iterAt g S (k + 1)) := by
  obtain ⟨s, hs, hks⟩ := id hmore
  unfold hdrIterNext
  rw [if_pos ((hasNext_iterAt S k).mpr hmore),
    moveNext_iterAt hg S (lt_of_le_of_lt hks (hS s hs))]
  rfl

theorem hdrIterNext_end {S : Multiset ℕ} {k : ℕ} (hend : ∀ s ∈ S, s < k) :
    hdrIterNext (g.ofSlots S) (iterAt g S k) = some (false, iterAt g S k) := by
  unfold hdrIterNext
  rw [if_neg]
  intro hn
  obtain ⟨s, hs, hks⟩ := (hasNext_iterAt S k).mp hn
  exact absurd (hend s hs) (by omega)

theorem hdrRecordedIterNext_end {S : Multiset ℕ} {fuel k added : ℕ}
    (hend : ∀ s ∈ S, s < k) :
    hdrRecordedIterNext (g.ofSlots S) (fuel + 1) ⟨iterAt g S k, added⟩
      = some (false, ⟨iterAt g S k, added⟩) := by
  unfold hdrRecordedIterNext
  simp [hdrIterNext_end hend]

/-- The recorded iterator stops at the next occupied slot. -/
theorem hdrRecordedIterNext_more (hg : g.Shaped) {S : Multiset ℕ}
    (hS : ∀ s ∈ S, s < g.countsLen) :
    ∀ (fuel k added : ℕ), g.countsLen ≤ fuel + k → (∃ s ∈ S, k ≤ s) →
      ∃ j ∈ S, k ≤ j ∧ (∀ s ∈ S, k ≤ s → j ≤ s) ∧
        hdrRecordedIterNext (g.ofSlots S) fuel ⟨iterAt g S k, added⟩
          = some (true, ⟨iterAt g S (j + 1), S.count j⟩)
  | 0, k, added, hfuel, hmore => by
      obtain ⟨s, hs, hks⟩ := hmore
      have := hS s hs
      omega
  | fuel + 1, k, added, hfuel, hmore => by
      unfold hdrRecordedIterNext
      simp only [hdrIterNext_more hg hS hmore, Option.bind_eq_bind, Option.bind_some, if_true]
      by_cases hk : k ∈ S
      · have hcount : (iterAt g S (k + 1)).countAtIndex ≠ 0 := Multiset.count_ne_zero.mpr hk
        refine ⟨k, hk, Nat.le_refl k, fun s _ hks => hks, ?_⟩
        rw [if_pos hcount]
        rfl
      · have hcount : ¬(iterAt g S (k + 1)).countAtIndex ≠ 0 :=
          not_not_intro (Multiset.count_eq_zero.mpr hk)
        have hskip : ∀ s ∈ S, k ≤ s → k + 1 ≤ s := fun s hs hks =>
          Nat.lt_of_le_of_ne hks (fun heq => hk (heq ▸ hs))
        obtain ⟨s, hs, hks⟩ := hmore
        obtain ⟨j, hj, hkj, hleast, hrun⟩ := hdrRecordedIterNext_more hg hS
          fuel (k + 1) added (by omega) ⟨s, hs, hskip s hs hks⟩
        refine ⟨j, hj, by omega, fun t ht hkt => hleast t ht (hskip t ht hkt), ?_⟩
        rw [if_neg hcount]
        exact hrun

/-! ## Merging -/

/-- The slots from `k` on, split at the first occupied one. -/
theorem filter_ge_split {S : Multiset ℕ} {k j : ℕ} (hkj : k ≤ j)
    (hleast : ∀ s ∈ S, k ≤ s → j ≤ s) :
    S.filter (k ≤ ·)
      = Multiset.replicate (S.count j) j + S.filter (j + 1 ≤ ·) := by
  rw [← Multiset.filter_eq', Multiset.filter_add_filter]
  have hempty : S.filter (fun s => s = j ∧ j + 1 ≤ s) = 0 :=
    Multiset.filter_eq_nil.mpr fun s _ hs => by omega
  rw [hempty, add_zero]
  refine Multiset.filter_congr fun s hs => ⟨fun hks => ?_, fun h => by omega⟩
  have := hleast s hs hks
  omega

/-- The loop of `hdr_add` from slot `k` on adds the slots that remain. -/
theorem hdrAddLoop_iterAt (hg : g.Shaped) {S : Multiset ℕ}
    (hS : ∀ s ∈ S, s < g.countsLen) {iterFuel : ℕ} (hiter : g.countsLen < iterFuel) :
    ∀ (fuel k added : ℕ) (R : Multiset ℕ) (dropped : ℕ), g.countsLen < fuel + k →
      k ≤ g.countsLen →
      hdrAddLoop (g.ofSlots S) iterFuel fuel ⟨iterAt g S k, added⟩ (g.ofSlots R) dropped
        = some (dropped, g.ofSlots (R + S.filter (k ≤ ·)))
  | 0, k, added, R, dropped, hfuel, hk => by omega
  | fuel + 1, k, added, R, dropped, hfuel, hk => by
      unfold hdrAddLoop
      by_cases hmore : ∃ s ∈ S, k ≤ s
      · obtain ⟨j, hj, hkj, hleast, hnext⟩ :=
          hdrRecordedIterNext_more hg hS iterFuel k added (by omega) hmore
        have hjlen := hS j hj
        have hrecord : hdrRecordValues (g.ofSlots R) (g.representative j) (S.count j)
            = some (true, g.ofSlots (R + Multiset.replicate (S.count j) j)) := by
          have hslot := slot_representative (h := g) j
          rw [hdrRecordValues_ofSlots hg R _ (by omega), hslot]
        have hloop := hdrAddLoop_iterAt hg hS hiter fuel (j + 1) (S.count j)
          (R + Multiset.replicate (S.count j) j) dropped (by omega) (by omega)
        rw [filter_ge_split hkj hleast, ← add_assoc, ← hloop]
        simp only [hnext, Option.bind_eq_bind, Option.bind_some, if_true]
        simp only [iterAt, hrecord, Option.bind_some, if_true]
      · have hend : ∀ s ∈ S, s < k := fun s hs => by
          by_contra hge
          exact hmore ⟨s, hs, by omega⟩
        have hempty : S.filter (k ≤ ·) = 0 :=
          Multiset.filter_eq_nil.mpr fun s hs hks => by
            have := hend s hs
            omega
        obtain ⟨f, rfl⟩ : ∃ f, iterFuel = f + 1 := ⟨iterFuel - 1, by omega⟩
        simp [hdrRecordedIterNext_end hend, hempty]

theorem hdrAdd_ofSlots (hg : g.Shaped) {R S : Multiset ℕ} (hS : ∀ s ∈ S, s < g.countsLen)
    {fuel : ℕ} (hfuel : g.countsLen < fuel) :
    hdrAdd fuel (g.ofSlots R) (g.ofSlots S) = some (0, g.ofSlots (R + S)) := by
  have hloop := hdrAddLoop_iterAt hg hS hfuel fuel 0 0 R 0 (by omega) (Nat.zero_le _)
  have hall : S.filter (0 ≤ ·) = S := Multiset.filter_eq_self.mpr fun s _ => Nat.zero_le s
  rw [hall] at hloop
  exact hloop

theorem hdrAdd_holding (hg : g.Shaped) {vs ws : Multiset ℕ} (hws : ∀ w ∈ ws, g.Tracks w)
    {fuel : ℕ} (hfuel : g.countsLen < fuel) :
    hdrAdd fuel (g.holding vs) (g.holding ws) = some (0, g.holding (vs + ws)) := by
  rw [holding, holding, holding, Multiset.map_add]
  refine hdrAdd_ofSlots hg (fun s hs => ?_) hfuel
  obtain ⟨w, hw, rfl⟩ := Multiset.mem_map.mp hs
  exact slot_lt hg (hws w hw)

/-! ## Threads -/

/-- `MAX_LATENCY`, a day in microseconds. -/
def maxLatency : ℕ := 24 * 60 * 60 * 1000000

/-- What a worker does to one of its histograms: `stats_request_completed`
records a latency, `calibrate` resets. -/
inductive HistOp where
  | record (latency : ℤ)
  | reset
deriving DecidableEq, Repr

def HistOp.run (h : HdrHistogram) : HistOp → Option HdrHistogram
  | .record latency => (hdrRecordValue h latency).map Prod.snd
  | .reset => some (hdrReset h)

/-- A worker's histogram after `ops`. -/
def workerHistogram (ops : List HistOp) : Option HdrHistogram := do
  let h ← hdrInit 1 maxLatency 3
  ops.foldlM HistOp.run h

/-- One round of the aggregation loop of `main`, which discards the results
of `hdr_add`; they are kept here. -/
def aggregateStep (fuel : ℕ) (acc : List ℕ × HdrHistogram) (t : HdrHistogram) :
    Option (List ℕ × HdrHistogram) := do
  let (dropped, h) ← hdrAdd fuel acc.2 t
  some (acc.1 ++ [dropped], h)

def aggregate (fuel : ℕ) (threads : List HdrHistogram) :
    Option (List ℕ × HdrHistogram) := do
  let h ← hdrInit 1 maxLatency 3
  threads.foldlM (aggregateStep fuel) ([], h)

def HistOp.keep (kept : List ℤ) : HistOp → List ℤ
  | .record latency => kept ++ [latency]
  | .reset => []

/-- The latencies recorded since the last reset. -/
def sinceReset (ops : List HistOp) : List ℤ := ops.foldl HistOp.keep []

/-- The latencies as the multiset a histogram stands for. -/
def latencies (vs : List ℤ) : Multiset ℕ := (vs.map Int.toNat : List ℕ)

/-- The histogram `hdr_init(1, MAX_LATENCY, 3)` makes. -/
def latencyHistogram : HdrHistogram where
  lowestTrackableValue := 1
  highestTrackableValue := 86400000000
  unitMagnitude := 0
  significantFigures := 3
  subBucketHalfCountMagnitude := 10
  subBucketHalfCount := 1024
  subBucketMask := 2047
  subBucketCount := 2048
  bucketCount := 27
  countsLen := 28672
  totalCount := 0
  counts := fun _ => 0

theorem hdrInit_latency : hdrInit 1 maxLatency 3 = some latencyHistogram := by
  have hclog : Nat.clog 2 (2 * 10 ^ 3) = 11 := by decide +kernel
  have hlog : Nat.log 2 1 = 0 := by decide +kernel
  unfold hdrInit floorLog2
  simp only [hclog, hlog]
  rfl

theorem latencyHistogram_shaped : latencyHistogram.Shaped :=
  (hdrInit_shaped hdrInit_latency).1

theorem latencyHistogram_holding : latencyHistogram.holding 0 = latencyHistogram :=
  (hdrInit_shaped hdrInit_latency).2

theorem latencyHistogram_tracks {v : ℕ} (hv : v < 2 ^ 37) : latencyHistogram.Tracks v := hv

theorem mem_keep {v : ℤ} : ∀ {ops : List HistOp} {kept : List ℤ},
    v ∈ ops.foldl HistOp.keep kept → v ∈ kept ∨ HistOp.record v ∈ ops
  | [], _, hv => Or.inl hv
  | .record latency :: ops, kept, hv => by
      rw [List.foldl_cons, HistOp.keep] at hv
      rcases mem_keep hv with hk | hops
      · rcases List.mem_append.mp hk with hk | hk
        · exact Or.inl hk
        · rw [List.mem_singleton] at hk
          exact Or.inr (hk ▸ List.mem_cons_self)
      · exact Or.inr (List.mem_cons_of_mem _ hops)
  | .reset :: ops, kept, hv => by
      rw [List.foldl_cons, HistOp.keep] at hv
      rcases mem_keep hv with hk | hops
      · exact absurd hk List.not_mem_nil
      · exact Or.inr (List.mem_cons_of_mem _ hops)

theorem foldlM_run_holding (hg : g.Shaped) :
    ∀ (ops : List HistOp) (kept : List ℤ), (∀ v ∈ kept, g.Tracks v.toNat) →
      (∀ v, HistOp.record v ∈ ops → 0 ≤ v ∧ g.Tracks v.toNat) →
      ops.foldlM HistOp.run (g.holding (latencies kept))
        = some (g.holding (latencies (ops.foldl HistOp.keep kept)))
  | [], kept, _, _ => rfl
  | op :: ops, kept, hkept, hops => by
      have hrest : ∀ v, HistOp.record v ∈ ops → 0 ≤ v ∧ g.Tracks v.toNat :=
        fun v hv => hops v (List.mem_cons_of_mem _ hv)
      rw [List.foldlM_cons, List.foldl_cons]
      cases op with
      | record latency =>
          obtain ⟨hnonneg, htrack⟩ := hops latency List.mem_cons_self
          have hvalue : latency = (latency.toNat : ℤ) := (Int.toNat_of_nonneg hnonneg).symm
          have hlat : latencies (kept ++ [latency])
              = latencies kept + {latency.toNat} := by
            simp [latencies, ← Multiset.coe_add]
          have hrun : HistOp.run (g.holding (latencies kept)) (.record latency)
              = some (g.holding (latencies (kept ++ [latency]))) := by
            rw [HistOp.run, hvalue, hdrRecordValue_holding hg _ htrack, ← hvalue, hlat]
            rfl
          rw [hrun, Option.bind_eq_bind, Option.bind_some]
          refine foldlM_run_holding hg ops _ (fun v hv => ?_) hrest
          rcases List.mem_append.mp hv with hv | hv
          · exact hkept v hv
          · rw [List.mem_singleton] at hv
            exact hv ▸ htrack
      | reset =>
          have hrun : HistOp.run (g.holding (latencies kept)) .reset
              = some (g.holding (latencies [])) := by
            rw [HistOp.run, hdrReset_holding hg]
            · rfl
            · intro v hv
              obtain ⟨w, hw, rfl⟩ := List.mem_map.mp (Multiset.mem_coe.mp hv)
              exact hkept w hw
          rw [hrun, Option.bind_eq_bind, Option.bind_some]
          exact foldlM_run_holding hg ops [] (fun v hv => absurd hv List.not_mem_nil) hrest

/-- A worker's histogram holds what was recorded since its last reset. -/
theorem workerHistogram_holding {ops : List HistOp}
    (hrange : ∀ v, HistOp.record v ∈ ops → 0 ≤ v ∧ v < 2 ^ 37) :
    workerHistogram ops = some (latencyHistogram.holding (latencies (sinceReset ops))) := by
  rw [workerHistogram, hdrInit_latency, Option.bind_eq_bind, Option.bind_some,
    ← latencyHistogram_holding]
  refine foldlM_run_holding latencyHistogram_shaped ops []
    (fun v hv => absurd hv List.not_mem_nil) fun v hv => ⟨(hrange v hv).1, ?_⟩
  have := (hrange v hv).2
  exact latencyHistogram_tracks (by omega)

theorem sinceReset_record : ∀ vs kept : List ℤ,
    (vs.map HistOp.record).foldl HistOp.keep kept = kept ++ vs
  | [], kept => (List.append_nil kept).symm
  | v :: vs, kept => by
      rw [List.map_cons, List.foldl_cons, sinceReset_record vs, HistOp.keep,
        List.append_assoc, List.singleton_append]

theorem aggregate_loop (hg : g.Shaped) {fuel : ℕ} (hfuel : g.countsLen < fuel) :
    ∀ (ts : List (Multiset ℕ)) (ds : List ℕ) (vs : Multiset ℕ),
      (∀ t ∈ ts, ∀ v ∈ t, g.Tracks v) →
      (ts.map g.holding).foldlM (aggregateStep fuel) (ds, g.holding vs)
        = some (ds ++ List.replicate ts.length 0, g.holding (vs + ts.sum))
  | [], ds, vs, _ => by simp
  | t :: ts, ds, vs, hts => by
      have hstep : aggregateStep fuel (ds, g.holding vs) (g.holding t)
          = some (ds ++ [0], g.holding (vs + t)) := by
        rw [aggregateStep, hdrAdd_holding hg (hts t List.mem_cons_self) hfuel]
        rfl
      have hloop := aggregate_loop hg hfuel ts (ds ++ [0]) (vs + t)
        fun t' ht' => hts t' (List.mem_cons_of_mem _ ht')
      rw [List.map_cons, List.foldlM_cons, hstep, Option.bind_eq_bind, Option.bind_some,
        hloop, List.sum_cons, List.length_cons, List.replicate_succ, List.append_assoc,
        List.singleton_append, add_assoc]

theorem latencies_flatMap (runs : List (List HistOp)) :
    latencies (runs.flatMap sinceReset)
      = (runs.map fun ops => latencies (sinceReset ops)).sum := by
  induction runs with
  | nil => rfl
  | cons ops runs ih =>
      rw [List.flatMap_cons, List.map_cons, List.sum_cons, ← ih]
      simp [latencies, ← Multiset.coe_add]

theorem mapM_workerHistogram :
    ∀ {order : List (List HistOp)},
      (∀ ops ∈ order, ∀ v, HistOp.record v ∈ ops → 0 ≤ v ∧ v < 2 ^ 37) →
      order.mapM workerHistogram
        = some ((order.map fun ops => latencies (sinceReset ops)).map
            latencyHistogram.holding)
  | [], _ => rfl
  | ops :: order, hrange => by
      rw [List.mapM_cons, workerHistogram_holding (hrange ops List.mem_cons_self),
        mapM_workerHistogram fun ops' hops' => hrange ops' (List.mem_cons_of_mem _ hops')]
      rfl

/-- The histogram that `main` reports, of threads that did `runs`. -/
def mainHistogram (fuel : ℕ) (runs : List (List HistOp)) : Option HdrHistogram := do
  let threads ← runs.mapM workerHistogram
  let (_, h) ← aggregate fuel threads
  some h

theorem mainHistogram_holding (runs : List (List HistOp))
    (hrange : ∀ ops ∈ runs, ∀ v, HistOp.record v ∈ ops → 0 ≤ v ∧ v < 2 ^ 37) {fuel : ℕ}
    (hfuel : latencyHistogram.countsLen < fuel) :
    mainHistogram fuel runs =
        some (latencyHistogram.holding (latencies (runs.flatMap sinceReset))) ∧
      ∀ v ∈ latencies (runs.flatMap sinceReset), latencyHistogram.Tracks v := by
  have htracks : ∀ t ∈ runs.map (fun ops => latencies (sinceReset ops)),
      ∀ v ∈ t, latencyHistogram.Tracks v := by
    intro t ht v hv
    obtain ⟨ops, hops, rfl⟩ := List.mem_map.mp ht
    obtain ⟨w, hw, rfl⟩ := List.mem_map.mp (Multiset.mem_coe.mp hv)
    rcases mem_keep hw with hw | hw
    · exact absurd hw List.not_mem_nil
    · have := hrange ops hops w hw
      exact latencyHistogram_tracks (by omega)
  refine ⟨?_, ?_⟩
  · have hmerge := aggregate_loop latencyHistogram_shaped hfuel
      (runs.map fun ops => latencies (sinceReset ops)) [] 0 htracks
    rw [zero_add, ← latencies_flatMap, List.nil_append, List.length_map] at hmerge
    rw [mainHistogram, mapM_workerHistogram hrange, Option.bind_eq_bind, Option.bind_some,
      aggregate, hdrInit_latency, ← latencyHistogram_holding]
    exact congrArg (Option.bind · fun r => some r.2) hmerge
  · intro v hv
    obtain ⟨w, hw, rfl⟩ := List.mem_map.mp (Multiset.mem_coe.mp hv)
    obtain ⟨ops, hops, hw⟩ := List.mem_flatMap.mp hw
    exact htracks _ (List.mem_map_of_mem hops) _
      (Multiset.mem_coe.mpr (List.mem_map_of_mem hw))

/-- **Merging is recording**: whatever each worker recorded and reset, the
histogram `main` aggregates, in any order of the threads, is the one that
recording every surviving latency into a single fresh histogram gives,
which counts each of them in its slot; no `hdr_add` drops a value, and the
merge loop returns as soon as it may take as many steps as the histogram has
slots. -/
theorem aggregate_eq_record (runs order : List (List HistOp)) (hperm : order.Perm runs)
    (hrange : ∀ ops ∈ runs, ∀ v, HistOp.record v ∈ ops → 0 ≤ v ∧ v < 2 ^ 37) (fuel : ℕ)
    (hfuel : latencyHistogram.countsLen < fuel) :
    ∃ threads direct merged,
      order.mapM workerHistogram = some threads ∧
      workerHistogram ((runs.flatMap sinceReset).map HistOp.record) = some direct ∧
      aggregate fuel threads = some (List.replicate order.length 0, merged) ∧
      (∀ i, merged.counts i = direct.counts i) ∧
      merged.totalCount = direct.totalCount ∧
      direct = latencyHistogram.holding (latencies (runs.flatMap sinceReset)) := by
  have hkept : ∀ ops ∈ runs, ∀ v ∈ sinceReset ops, 0 ≤ v ∧ v < 2 ^ 37 := by
    intro ops hops v hv
    rcases mem_keep hv with hv | hv
    · exact absurd hv List.not_mem_nil
    · exact hrange ops hops v hv
  have hdirect : workerHistogram ((runs.flatMap sinceReset).map HistOp.record)
      = some (latencyHistogram.holding (latencies (runs.flatMap sinceReset))) := by
    rw [workerHistogram_holding, sinceReset, sinceReset_record, List.nil_append]
    intro v hv
    obtain ⟨w, hw, hwv⟩ := List.mem_map.mp hv
    obtain ⟨ops, hops, hw⟩ := List.mem_flatMap.mp hw
    exact HistOp.record.inj hwv ▸ hkept ops hops w hw
  have horder : ∀ ops ∈ order, ∀ v, HistOp.record v ∈ ops → 0 ≤ v ∧ v < 2 ^ 37 :=
    fun ops hops => hrange ops (hperm.mem_iff.mp hops)
  have htracks : ∀ t ∈ order.map (fun ops => latencies (sinceReset ops)),
      ∀ v ∈ t, latencyHistogram.Tracks v := by
    intro t ht v hv
    obtain ⟨ops, hops, rfl⟩ := List.mem_map.mp ht
    obtain ⟨w, hw, rfl⟩ := List.mem_map.mp (Multiset.mem_coe.mp hv)
    have := hkept ops (hperm.mem_iff.mp hops) w hw
    exact latencyHistogram_tracks (by omega)
  have hmerge := aggregate_loop latencyHistogram_shaped hfuel
    (order.map fun ops => latencies (sinceReset ops)) [] 0 htracks
  rw [zero_add, (hperm.map _).sum_eq, ← latencies_flatMap, List.nil_append,
    List.length_map] at hmerge
  refine ⟨_, _, _, mapM_workerHistogram horder, hdirect, ?_, fun _ => rfl, rfl, rfl⟩
  rw [aggregate, hdrInit_latency, Option.bind_eq_bind, Option.bind_some,
    ← latencyHistogram_holding]
  exact hmerge

/-- Two threads, one of them calibrated in between, merged in the other
order. -/
theorem aggregate_eq_record_two_threads :
    ∃ threads direct merged,
      [[HistOp.record 7], [.record 5, .reset, .record 137438953471]].mapM workerHistogram
        = some threads ∧
      workerHistogram (([[HistOp.record 5, .reset, .record 137438953471],
        [.record 7]].flatMap sinceReset).map HistOp.record) = some direct ∧
      aggregate 28673 threads = some ([0, 0], merged) ∧
      (∀ i, merged.counts i = direct.counts i) ∧
      merged.totalCount = direct.totalCount ∧
      direct = latencyHistogram.holding (latencies [137438953471, 7]) :=
  aggregate_eq_record [[.record 5, .reset, .record 137438953471], [.record 7]]
    [[.record 7], [.record 5, .reset, .record 137438953471]] (List.Perm.swap _ _ _)
    (by simp) 28673 (by decide)

end WrkQuic
