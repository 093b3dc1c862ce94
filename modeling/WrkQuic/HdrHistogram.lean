import Mathlib.Data.Nat.Log
import WrkQuic.Lib.LogBuckets

/-!
# hdr_histogram.c

The histogram every worker thread records its latencies in, with the
operations on the recording and merging path: `hdr_init`, `hdr_reset`,
`hdr_record_value(s)`, the iterator and `hdr_add`.

The build does not define `NDEBUG`, so a failed assertion of
`counts_index` aborts the process: functions that reach it return an
`Option`, and `none` is the abort. The loops that C leaves unbounded take
fuel, and running out of it is `none` too, so `some` always means that
the code returns.
-/

namespace WrkQuic

/-- `struct hdr_histogram`. The geometry fields are written by `hdr_init`
only; `counts` is the trailing array of `countsLen` cells. -/
structure HdrHistogram where
  lowestTrackableValue : ℕ
  highestTrackableValue : ℕ
  unitMagnitude : ℕ
  significantFigures : ℕ
  subBucketHalfCountMagnitude : ℕ
  subBucketHalfCount : ℕ
  subBucketMask : ℕ
  subBucketCount : ℕ
  bucketCount : ℕ
  countsLen : ℕ
  totalCount : ℕ
  counts : ℕ → ℕ

/-! ## Indexing -/

/-- `64 - __builtin_clzll(value | mask)` is the size of the operand as an
unsigned 64-bit number; a negative value has its top bit set. -/
def getBucketIndex (h : HdrHistogram) (value : ℤ) : ℕ :=
  let pow2ceiling :=
    if value < 0 then 64 else Nat.size (value.toNat ||| h.subBucketMask)
  pow2ceiling - h.unitMagnitude - (h.subBucketHalfCountMagnitude + 1)

def getSubBucketIndex (value : ℤ) (bucketIndex unitMagnitude : ℕ) : ℤ :=
  value >>> (bucketIndex + unitMagnitude)

/-- `none` when one of the three assertions fails. -/
def countsIndex (h : HdrHistogram) (bucketIndex : ℕ) (subBucketIndex : ℤ) :
    Option ℤ :=
  if bucketIndex < h.bucketCount ∧ subBucketIndex < h.subBucketCount ∧
      (bucketIndex = 0 ∨ h.subBucketHalfCount ≤ subBucketIndex) then
    let bucketBaseIndex : ℕ := (bucketIndex + 1) <<< h.subBucketHalfCountMagnitude
    let offsetInBucket := subBucketIndex - h.subBucketHalfCount
    some (bucketBaseIndex + offsetInBucket)
  else none

def countsIndexFor (h : HdrHistogram) (value : ℤ) : Option ℤ :=
  let bucketIndex := getBucketIndex h value
  let subBucketIndex := getSubBucketIndex value bucketIndex h.unitMagnitude
  countsIndex h bucketIndex subBucketIndex

def valueFromIndex (bucketIndex : ℕ) (subBucketIndex : ℤ) (unitMagnitude : ℕ) : ℤ :=
  subBucketIndex <<< (bucketIndex + unitMagnitude)

def getCountAtIndex (h : HdrHistogram) (bucketIndex : ℕ) (subBucketIndex : ℤ) :
    Option ℕ :=
  (countsIndex h bucketIndex subBucketIndex).map fun i => h.counts i.toNat

/-- The shift is one of an `int`, which is as wide as a slot can be: from
31 on C does not define it. -/
def sizeOfEquivalentValueRange (h : HdrHistogram) (value : ℤ) : ℤ :=
  let bucketIndex := getBucketIndex h value
  let subBucketIndex := getSubBucketIndex value bucketIndex h.unitMagnitude
  let adjustedBucket :=
    if h.subBucketCount ≤ subBucketIndex then bucketIndex + 1 else bucketIndex
  ((1 : ℤ) <<< (h.unitMagnitude + adjustedBucket)).bmod (2 ^ 32)

def lowestEquivalentValue (h : HdrHistogram) (value : ℤ) : ℤ :=
  let bucketIndex := getBucketIndex h value
  let subBucketIndex := getSubBucketIndex value bucketIndex h.unitMagnitude
  valueFromIndex bucketIndex subBucketIndex h.unitMagnitude

def nextNonEquivalentValue (h : HdrHistogram) (value : ℤ) : ℤ :=
  lowestEquivalentValue h value + sizeOfEquivalentValueRange h value

def highestEquivalentValue (h : HdrHistogram) (value : ℤ) : ℤ :=
  nextNonEquivalentValue h value - 1

/-! ## Initialising and resetting -/

/-- A signed result of `w + 1` bits; `none` is an overflow. -/
def fits (w n : ℕ) : Option ℕ := if n < 2 ^ w then some n else none

/-- The `while` loop of `hdr_init` that doubles `trackable_value`; an
`int64_t` can be doubled at most 63 times. -/
def bucketsNeeded (highest : ℕ) : ℕ → ℕ → ℕ → Option ℕ
  | 0, _, _ => none
  | fuel + 1, trackableValue, buckets =>
      if trackableValue < highest then do
        let trackableValue ← fits 63 (trackableValue <<< 1)
        bucketsNeeded highest fuel trackableValue (buckets + 1)
      else some buckets

/-- `floor(log(lowest_trackable_value) / log(2))`. The quotient is exact
enough for every value whose `sub_bucket_mask` does not overflow. -/
def floorLog2 (lowest : ℕ) : Option ℕ := if lowest = 0 then none else some (Nat.log 2 lowest)

/-- `none` is `EINVAL`, or arithmetic that C does not define: the logarithm
of 0, a `sub_bucket_mask` beyond an `int32_t` (the loop does not end then)
or a `trackable_value` beyond an `int64_t`. -/
def hdrInit (lowest highest significantFigures : ℕ) : Option HdrHistogram :=
  if significantFigures < 1 ∨ 5 < significantFigures then none
  else do
    let largestValueWithSingleUnitResolution := 2 * 10 ^ significantFigures
    let subBucketCountMagnitude := Nat.clog 2 largestValueWithSingleUnitResolution
    let subBucketHalfCountMagnitude :=
      (if 1 < subBucketCountMagnitude then subBucketCountMagnitude else 1) - 1
    let unitMagnitude ← floorLog2 lowest
    let subBucketCount := 2 ^ (subBucketHalfCountMagnitude + 1)
    let subBucketHalfCount := subBucketCount / 2
    let subBucketMask ← fits 31 ((subBucketCount - 1) <<< unitMagnitude)
    let bucketCount ← bucketsNeeded highest 64 subBucketMask 1
    let countsLen := (bucketCount + 1) * (subBucketCount / 2)
    some {
      lowestTrackableValue := lowest
      highestTrackableValue := highest
      unitMagnitude := unitMagnitude
      significantFigures := significantFigures
      subBucketHalfCountMagnitude := subBucketHalfCountMagnitude
      subBucketHalfCount := subBucketHalfCount
      subBucketMask := subBucketMask
      subBucketCount := subBucketCount
      bucketCount := bucketCount
      countsLen := countsLen
      totalCount := 0
      counts := fun _ => 0 }

def hdrReset (h : HdrHistogram) : HdrHistogram :=
  { h with
    totalCount := 0
    counts := fun i => if i < h.countsLen then 0 else h.counts i }

/-! ## Recording -/

def hdrRecordValues (h : HdrHistogram) (value : ℤ) (count : ℕ) :
    Option (Bool × HdrHistogram) := do
  let countsIndex ← countsIndexFor h value
  if countsIndex < 0 ∨ h.countsLen ≤ countsIndex then
    some (false, h)
  else
    let i := countsIndex.toNat
    some (true, { h with
      counts := Function.update h.counts i (h.counts i + count)
      totalCount := h.totalCount + count })

/-- `hdr_record_value` is the same text with `++` for `+= count`. -/
def hdrRecordValue (h : HdrHistogram) (value : ℤ) : Option (Bool × HdrHistogram) :=
  hdrRecordValues h value 1

/-! ## The iterator -/

/-- `struct hdr_iter`; the histogram it walks is passed separately. -/
structure HdrIter where
  bucketIndex : ℕ
  subBucketIndex : ℤ
  countAtIndex : ℕ
  countToIndex : ℕ
  valueFromIndex : ℤ
  highestEquivalentValue : ℤ
deriving DecidableEq, Repr

def hdrIterInit : HdrIter where
  bucketIndex := 0
  subBucketIndex := -1
  countAtIndex := 0
  countToIndex := 0
  valueFromIndex := 0
  highestEquivalentValue := 0

def hasBuckets (h : HdrHistogram) (it : HdrIter) : Bool :=
  it.bucketIndex < h.bucketCount

def hasNext (h : HdrHistogram) (it : HdrIter) : Bool :=
  it.countToIndex < h.totalCount

def incrementBucket (h : HdrHistogram) (bucketIndex : ℕ) (subBucketIndex : ℤ) :
    ℕ × ℤ :=
  if h.subBucketCount ≤ subBucketIndex + 1 then
    (bucketIndex + 1, h.subBucketHalfCount)
  else (bucketIndex, subBucketIndex + 1)

def moveNext (h : HdrHistogram) (it : HdrIter) : Option (Bool × HdrIter) :=
  let (bucketIndex, subBucketIndex) :=
    incrementBucket h it.bucketIndex it.subBucketIndex
  let moved := { it with bucketIndex := bucketIndex, subBucketIndex := subBucketIndex }
  if hasBuckets h moved then do
    let countAtIndex ← getCountAtIndex h bucketIndex subBucketIndex
    let value := valueFromIndex bucketIndex subBucketIndex h.unitMagnitude
    some (true, { moved with
      countAtIndex := countAtIndex
      countToIndex := it.countToIndex + countAtIndex
      valueFromIndex := value
      highestEquivalentValue := highestEquivalentValue h value })
  else some (false, moved)

/-- The result of `move_next` is ignored: only `has_next` ends the walk. -/
def hdrIterNext (h : HdrHistogram) (it : HdrIter) : Option (Bool × HdrIter) :=
  if hasNext h it then do
    let (_, it') ← moveNext h it
    some (true, it')
  else some (false, it)

structure HdrRecordedIter where
  iter : HdrIter
  countAddedInThisIterationStep : ℕ
deriving DecidableEq, Repr

def hdrRecordedIterInit : HdrRecordedIter where
  iter := hdrIterInit
  countAddedInThisIterationStep := 0

def hdrRecordedIterNext (h : HdrHistogram) :
    ℕ → HdrRecordedIter → Option (Bool × HdrRecordedIter)
  | 0, _ => none
  | fuel + 1, recorded => do
      let (more, it) ← hdrIterNext h recorded.iter
      if more then
        if it.countAtIndex ≠ 0 then
          some (true, { iter := it, countAddedInThisIterationStep := it.countAtIndex })
        else hdrRecordedIterNext h fuel { recorded with iter := it }
      else some (false, { recorded with iter := it })

/-! ## Merging -/

/-- The `while` loop of `hdr_add`. -/
def hdrAddLoop (src : HdrHistogram) (iterFuel : ℕ) :
    ℕ → HdrRecordedIter → HdrHistogram → ℕ → Option (ℕ × HdrHistogram)
  | 0, _, _, _ => none
  | fuel + 1, iter, h, dropped => do
      let (more, iter) ← hdrRecordedIterNext src iterFuel iter
      if more then
        let value := iter.iter.valueFromIndex
        let count := iter.iter.countAtIndex
        let (recorded, h) ← hdrRecordValues h value count
        hdrAddLoop src iterFuel fuel iter h (if recorded then dropped else dropped + count)
      else some (dropped, h)

/-- Returns the number of dropped values and the histogram `h` after
the call. -/
def hdrAdd (fuel : ℕ) (h src : HdrHistogram) : Option (ℕ × HdrHistogram) :=
  hdrAddLoop src fuel fuel hdrRecordedIterInit h 0

end WrkQuic
