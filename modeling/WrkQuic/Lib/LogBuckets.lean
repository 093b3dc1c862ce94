import Mathlib.Data.Nat.Size
import Mathlib.Order.Monotone.Basic
import Mathlib.Tactic.Ring

/-!
# Log-linear buckets

A natural number split the way a floating-point format splits it: an
exponent (`bucket`) and an `m`-bit mantissa (`subBucket`), after dropping
`u` low bits. The first bucket holds every value below `2 ^ (m + u)`
exactly (up to `u` bits); from there on each bucket covers one power of
two with the `2 ^ (m - 1)` mantissas whose leading bit is set.

`IsSlot b s` are the pairs in use and `slotValue b s` is the smallest
value of such a slot. The two directions are inverse: `bucket_slotValue`
and `subBucket_slotValue` recover a slot from its value, and
`isSlot_of_value` says that every value has a slot. `slotIndex` numbers
the slots consecutively, in the order in which an iterator walks them
(`nextSlot_index`), so `index` (value to number) undoes `valueOf`
(number to value).
-/

namespace LogBuckets

variable (m u : ℕ)

/-- The all-ones mantissa, in place. -/
def mask : ℕ := (2 ^ m - 1) <<< u

/-- The exponent of `v`: how far its leading bit is above the mantissa. -/
def bucket (v : ℕ) : ℕ := Nat.size (v ||| mask m u) - u - m

def subBucket (v : ℕ) : ℕ := v >>> (bucket m u v + u)

/-- The exponent/mantissa pairs in use. -/
def IsSlot (b s : ℕ) : Prop := s < 2 ^ m ∧ (b = 0 ∨ 2 ^ (m - 1) ≤ s)

def slotValue (b s : ℕ) : ℕ := s <<< (b + u)

/-- Slots in consecutive order: all of bucket 0, then the upper half of
each further bucket. -/
def slotIndex (b s : ℕ) : ℕ := (b + 1) * 2 ^ (m - 1) + s - 2 ^ (m - 1)

/-- The slot an iterator visits after `(b, s)`. -/
def nextSlot (b s : ℕ) : ℕ × ℕ :=
  if s + 1 < 2 ^ m then (b, s + 1) else (b + 1, 2 ^ (m - 1))

variable {m u}

/-! ## The exponent -/

theorem size_or (x y : ℕ) : Nat.size (x ||| y) = max (Nat.size x) (Nat.size y) := by
  refine le_antisymm ?_ ?_
  · rw [Nat.size_le]
    exact Nat.or_lt_two_pow (Nat.size_le.mp (le_max_left _ _))
      (Nat.size_le.mp (le_max_right _ _))
  · exact max_le (Nat.size_le_size Nat.left_le_or) (Nat.size_le_size Nat.right_le_or)

theorem size_mask (hm : 0 < m) : Nat.size (mask m u) = m + u := by
  have hpow : 2 ^ m = 2 * 2 ^ (m - 1) := by
    rw [← Nat.pow_succ', Nat.succ_eq_add_one, Nat.sub_add_cancel hm]
  have hpos : 0 < 2 ^ (m - 1) := Nat.two_pow_pos _
  rw [mask, Nat.size_shiftLeft (by omega)]
  congr 1
  refine le_antisymm (Nat.size_le.mpr (by omega)) ?_
  have : m - 1 < Nat.size (2 ^ m - 1) := Nat.lt_size.mpr (by omega)
  omega

/-- The mask only stops the exponent from going below zero. -/
theorem bucket_eq (hm : 0 < m) (v : ℕ) : bucket m u v = Nat.size v - u - m := by
  rw [bucket, size_or, size_mask hm]
  omega

theorem bucket_le (hm : 0 < m) {v b : ℕ} (h : v < 2 ^ (m + u + b)) :
    bucket m u v ≤ b := by
  have := Nat.size_le.mpr h
  rw [bucket_eq hm]
  omega

/-! ## Every value has a slot -/

theorem isSlot_of_value (hm : 0 < m) (v : ℕ) :
    IsSlot m (bucket m u v) (subBucket m u v) := by
  have hsz : Nat.size v ≤ m + (bucket m u v + u) := by
    rw [bucket_eq hm]
    omega
  refine ⟨?_, ?_⟩
  · rw [subBucket, Nat.shiftRight_eq_div_pow, Nat.div_lt_iff_lt_mul (Nat.two_pow_pos _),
      ← Nat.pow_add]
    exact Nat.size_le.mp hsz
  · by_cases hb : bucket m u v = 0
    · exact Or.inl hb
    · right
      have hlt : (m - 1) + (bucket m u v + u) < Nat.size v := by
        rw [bucket_eq hm] at hb ⊢
        omega
      rw [subBucket, Nat.shiftRight_eq_div_pow, Nat.le_div_iff_mul_le (Nat.two_pow_pos _),
        ← Nat.pow_add]
      exact Nat.lt_size.mp hlt

/-! ## A slot is recovered from its value -/

theorem bucket_slotValue (hm : 0 < m) {b s : ℕ} (h : IsSlot m b s) :
    bucket m u (slotValue u b s) = b := by
  obtain ⟨hlt, hb⟩ := h
  have hs : Nat.size s ≤ m := Nat.size_le.mpr hlt
  rw [bucket_eq hm, slotValue]
  rcases hb with rfl | hhalf
  · by_cases h0 : s = 0
    · subst h0
      simp
    · rw [Nat.size_shiftLeft h0]
      omega
  · have h0 : s ≠ 0 := by
      have := Nat.two_pow_pos (m - 1)
      omega
    have : m - 1 < Nat.size s := Nat.lt_size.mpr hhalf
    rw [Nat.size_shiftLeft h0]
    omega

theorem subBucket_slotValue (hm : 0 < m) {b s : ℕ} (h : IsSlot m b s) :
    subBucket m u (slotValue u b s) = s := by
  rw [subBucket, bucket_slotValue hm h, slotValue, Nat.shiftLeft_shiftRight]

/-! ## The numbering -/

theorem slotIndex_zero (s : ℕ) : slotIndex m 0 s = s := by
  simp [slotIndex]

theorem slotIndex_succ (b s : ℕ) :
    slotIndex m (b + 1) s = (b + 1) * 2 ^ (m - 1) + s := by
  rw [slotIndex, Nat.succ_mul (b + 1)]
  omega

theorem slotIndex_lt {B b s : ℕ} (hm : 0 < m) (h : IsSlot m b s) (hb : b < B) :
    slotIndex m b s < (B + 1) * 2 ^ (m - 1) := by
  have hpow : 2 ^ m = 2 ^ (m - 1) + 2 ^ (m - 1) := by
    rw [← Nat.two_mul, ← Nat.pow_succ', Nat.succ_eq_add_one, Nat.sub_add_cancel hm]
  have hle : (b + 2) * 2 ^ (m - 1) ≤ (B + 1) * 2 ^ (m - 1) :=
    Nat.mul_le_mul_right _ (by omega)
  have h2 : (b + 2) * 2 ^ (m - 1) = (b + 1) * 2 ^ (m - 1) + 2 ^ (m - 1) := by ring
  have h3 : 2 ^ (m - 1) ≤ (b + 1) * 2 ^ (m - 1) :=
    Nat.le_mul_of_pos_left _ (Nat.succ_pos b)
  obtain ⟨hlt, -⟩ := h
  rw [slotIndex]
  omega

theorem nextSlot_isSlot (hm : 0 < m) {b s : ℕ} (h : IsSlot m b s) :
    IsSlot m (nextSlot m b s).1 (nextSlot m b s).2 := by
  unfold nextSlot
  split
  · rename_i hlt
    exact ⟨hlt, h.2.imp id fun hs => by omega⟩
  · refine ⟨?_, Or.inr (Nat.le_refl _)⟩
    exact Nat.pow_lt_pow_right (by omega) (by omega)

/-- The walk visits the slots in the order of their numbers. -/
theorem nextSlot_index (hm : 0 < m) {b s : ℕ} (h : IsSlot m b s) :
    slotIndex m (nextSlot m b s).1 (nextSlot m b s).2 = slotIndex m b s + 1 := by
  have hpow : 2 ^ m = 2 ^ (m - 1) + 2 ^ (m - 1) := by
    rw [← Nat.two_mul, ← Nat.pow_succ', Nat.succ_eq_add_one, Nat.sub_add_cancel hm]
  have hle : 2 ^ (m - 1) ≤ (b + 1) * 2 ^ (m - 1) :=
    Nat.le_mul_of_pos_left _ (Nat.succ_pos b)
  obtain ⟨hlt, -⟩ := h
  unfold nextSlot
  split
  · simp only [slotIndex]
    omega
  · simp only [slotIndex_succ]
    rw [slotIndex]
    omega

/-! ## The walk -/

variable (m) in
/-- The slot reached after `i` steps from the first one. -/
def slotOf : ℕ → ℕ × ℕ
  | 0 => (0, 0)
  | i + 1 => nextSlot m (slotOf i).1 (slotOf i).2

theorem slotOf_isSlot (hm : 0 < m) : ∀ i, IsSlot m (slotOf m i).1 (slotOf m i).2
  | 0 => ⟨Nat.two_pow_pos _, Or.inl rfl⟩
  | i + 1 => nextSlot_isSlot hm (slotOf_isSlot hm i)

theorem slotIndex_slotOf (hm : 0 < m) :
    ∀ i, slotIndex m (slotOf m i).1 (slotOf m i).2 = i
  | 0 => slotIndex_zero 0
  | i + 1 => by
      rw [slotOf, nextSlot_index hm (slotOf_isSlot hm i), slotIndex_slotOf hm i]

/-- The first `(B + 1) * 2 ^ (m - 1)` steps stay in the first `B` buckets. -/
theorem slotOf_fst_lt (hm : 0 < m) {B i : ℕ} (hB : 0 < B)
    (h : i < (B + 1) * 2 ^ (m - 1)) : (slotOf m i).1 < B := by
  by_contra hge
  obtain ⟨-, hb⟩ := slotOf_isSlot hm i
  have hs : 2 ^ (m - 1) ≤ (slotOf m i).2 := hb.resolve_left (by omega)
  have hidx := slotIndex_slotOf hm i
  have hmul : (B + 1) * 2 ^ (m - 1) ≤ ((slotOf m i).1 + 1) * 2 ^ (m - 1) :=
    Nat.mul_le_mul_right _ (by omega)
  rw [slotIndex] at hidx
  omega

/-! ## Values by slot number -/

variable (m u) in
/-- The number of the slot that holds `v`. -/
def index (v : ℕ) : ℕ := slotIndex m (bucket m u v) (subBucket m u v)

variable (m u) in
/-- The smallest value of slot number `i`. -/
def valueOf (i : ℕ) : ℕ := slotValue u (slotOf m i).1 (slotOf m i).2

theorem index_lt (hm : 0 < m) {B v : ℕ} (hb : bucket m u v < B) :
    index m u v < (B + 1) * 2 ^ (m - 1) :=
  slotIndex_lt hm (isSlot_of_value hm v) hb

/-- A slot's representative value lies in that slot. -/
theorem index_valueOf (hm : 0 < m) (i : ℕ) : index m u (valueOf m u i) = i := by
  have hslot := slotOf_isSlot hm i
  rw [index, valueOf, bucket_slotValue hm hslot, subBucket_slotValue hm hslot,
    slotIndex_slotOf hm i]

/-! ## Neighbouring slots -/

theorem slotIndex_injective (hm : 0 < m) {b s b' s' : ℕ} (h : IsSlot m b s)
    (h' : IsSlot m b' s') (heq : slotIndex m b s = slotIndex m b' s') : b = b' ∧ s = s' := by
  have hpow : 2 ^ m = 2 ^ (m - 1) + 2 ^ (m - 1) := by
    rw [← Nat.two_mul, ← Nat.pow_succ', Nat.succ_eq_add_one, Nat.sub_add_cancel hm]
  -- a larger exponent gives a larger number
  have hlt {b s b' s' : ℕ} (h : IsSlot m b s) (h' : IsSlot m b' s') (hb : b < b') :
      slotIndex m b s < slotIndex m b' s' := by
    have hhalf := h'.2.resolve_left (by omega)
    have hmul : (b + 2) * 2 ^ (m - 1) ≤ (b' + 1) * 2 ^ (m - 1) :=
      Nat.mul_le_mul_right _ (by omega)
    have hmul' : (b + 2) * 2 ^ (m - 1) = (b + 1) * 2 ^ (m - 1) + 2 ^ (m - 1) := by ring
    have hle : 2 ^ (m - 1) ≤ (b + 1) * 2 ^ (m - 1) := Nat.le_mul_of_pos_left _ (Nat.succ_pos b)
    have hs := h.1
    rw [slotIndex, slotIndex]
    omega
  rcases Nat.lt_trichotomy b b' with hb | rfl | hb
  · exact absurd heq (Nat.ne_of_lt (hlt h h' hb))
  · have hle : 2 ^ (m - 1) ≤ (b + 1) * 2 ^ (m - 1) := Nat.le_mul_of_pos_left _ (Nat.succ_pos b)
    rw [slotIndex, slotIndex] at heq
    exact ⟨rfl, by omega⟩
  · exact absurd heq.symm (Nat.ne_of_lt (hlt h' h hb))

theorem slotOf_slotIndex (hm : 0 < m) {b s : ℕ} (h : IsSlot m b s) :
    slotOf m (slotIndex m b s) = (b, s) :=
  Prod.ext_iff.mpr (slotIndex_injective hm (slotOf_isSlot hm _) h (slotIndex_slotOf hm _))

variable (m u) in
/-- The number of values of slot number `i`. -/
def width (i : ℕ) : ℕ := 2 ^ ((slotOf m i).1 + u)

/-- The slots follow each other without a gap. -/
theorem valueOf_succ (hm : 0 < m) (i : ℕ) :
    valueOf m u (i + 1) = valueOf m u i + width m u i := by
  obtain ⟨hlt, -⟩ := slotOf_isSlot hm i
  rw [valueOf, valueOf, slotOf, nextSlot, width, slotValue, slotValue]
  simp only [Nat.shiftLeft_eq]
  split
  · rw [Nat.add_mul, Nat.one_mul]
  · have hlast : (slotOf m i).2 + 1 = 2 ^ m := by omega
    have hpow : 2 ^ m = 2 * 2 ^ (m - 1) := by
      rw [← Nat.pow_succ', Nat.succ_eq_add_one, Nat.sub_add_cancel hm]
    calc 2 ^ (m - 1) * 2 ^ ((slotOf m i).1 + 1 + u)
        = 2 * 2 ^ (m - 1) * 2 ^ ((slotOf m i).1 + u) := by
          rw [Nat.add_right_comm, Nat.pow_succ]
          ring
      _ = ((slotOf m i).2 + 1) * 2 ^ ((slotOf m i).1 + u) := by rw [hlast, hpow]
      _ = (slotOf m i).2 * 2 ^ ((slotOf m i).1 + u) + 2 ^ ((slotOf m i).1 + u) := by
          rw [Nat.add_mul, Nat.one_mul]

theorem width_pos (i : ℕ) : 0 < width m u i := Nat.two_pow_pos _

theorem valueOf_strictMono (hm : 0 < m) : StrictMono (valueOf m u) :=
  strictMono_nat_of_lt_succ fun i => by
    rw [valueOf_succ hm]
    exact Nat.lt_add_of_pos_right (width_pos i)

theorem valueOf_index (hm : 0 < m) (v : ℕ) :
    valueOf m u (index m u v) = slotValue u (bucket m u v) (subBucket m u v) := by
  rw [valueOf, index, slotOf_slotIndex hm (isSlot_of_value hm v)]

/-- A value lies between the smallest one of its slot and that of the next. -/
theorem valueOf_index_le (hm : 0 < m) (v : ℕ) : valueOf m u (index m u v) ≤ v := by
  rw [valueOf_index hm, slotValue, subBucket, Nat.shiftLeft_eq, Nat.shiftRight_eq_div_pow]
  exact Nat.div_mul_le_self _ _

theorem lt_valueOf_index_succ (hm : 0 < m) (v : ℕ) : v < valueOf m u (index m u v + 1) := by
  rw [valueOf_succ hm, valueOf_index hm, width, index, slotOf_slotIndex hm (isSlot_of_value hm v),
    slotValue, subBucket, Nat.shiftLeft_eq, Nat.shiftRight_eq_div_pow]
  exact Nat.lt_div_mul_add (Nat.two_pow_pos _)

theorem index_mono (hm : 0 < m) {v w : ℕ} (h : v ≤ w) : index m u v ≤ index m u w := by
  have hlt := Nat.lt_of_le_of_lt ((valueOf_index_le (u := u) hm v).trans h)
    (lt_valueOf_index_succ (u := u) hm w)
  exact Nat.le_of_lt_succ ((valueOf_strictMono hm).lt_iff_lt.mp hlt)

/-- The values of slot `i`. -/
theorem index_eq_iff (hm : 0 < m) {v i : ℕ} :
    index m u v = i ↔ valueOf m u i ≤ v ∧ v < valueOf m u (i + 1) := by
  refine ⟨?_, ?_⟩
  · rintro rfl
    exact ⟨valueOf_index_le hm v, lt_valueOf_index_succ hm v⟩
  · rintro ⟨hle, hlt⟩
    have hmono := valueOf_strictMono (u := u) hm
    have hge := hmono.lt_iff_lt.mp (Nat.lt_of_le_of_lt hle (lt_valueOf_index_succ (u := u) hm v))
    have hle := hmono.lt_iff_lt.mp (Nat.lt_of_le_of_lt (valueOf_index_le (u := u) hm v) hlt)
    omega

/-- Beyond the first bucket a slot is narrow for its values. -/
theorem width_le (hm : 0 < m) {i : ℕ} (hi : (slotOf m i).1 ≠ 0) :
    width m u i * 2 ^ (m - 1) ≤ valueOf m u i := by
  obtain ⟨-, hhalf⟩ := slotOf_isSlot hm i
  rw [width, valueOf, slotValue, Nat.shiftLeft_eq, Nat.mul_comm]
  exact Nat.mul_le_mul_right _ (hhalf.resolve_left hi)

/-- The first slots hold one value each. -/
theorem slotOf_of_lt (hm : 0 < m) {i : ℕ} (hi : i < 2 ^ m) : slotOf m i = (0, i) := by
  have hslot : IsSlot m 0 i := ⟨hi, Or.inl rfl⟩
  have h := slotOf_slotIndex hm hslot
  rwa [slotIndex_zero] at h

end LogBuckets
