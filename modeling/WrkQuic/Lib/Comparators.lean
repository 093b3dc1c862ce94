import Mathlib.Data.List.Sort
import WrkQuic.Lib.OrderStatistics

/-!
# Sorting with a comparator

A comparator returns a negative number, 0 or a positive number, as that of
`qsort`. It may be an order of the elements of a list and of no others.
Elements that compare equal come in any order, so that what stands at a place
of the sorted list is certain only when nothing else compares equal to it
(`getElem?_sorts_iff`).
-/

namespace Comparators

open OrderStatistics

variable {α : Type*} {c : α → α → ℤ} {l s : List α} {u v w : α} {r : ℕ}

/-- The sign of `c` is an order of the elements of `l`. -/
structure ConsistentOn (c : α → α → ℤ) (l : List α) : Prop where
  antisymm : ∀ u ∈ l, ∀ v ∈ l, (c u v).sign = -(c v u).sign
  trans : ∀ u ∈ l, ∀ v ∈ l, ∀ w ∈ l, c u v ≤ 0 → c v w ≤ 0 → c u w ≤ 0

/-- `s` is `l` in the order of `c`. -/
def Sorts (c : α → α → ℤ) (l s : List α) : Prop := s.Perm l ∧ s.Pairwise fun u v => c u v ≤ 0

/-- Every element can come to every place. -/
theorem exists_perm_getElem? (hu : u ∈ l) (hr : r < l.length) :
    ∃ s : List α, s.Perm l ∧ s[r]? = some u := by
  obtain ⟨before, after, rfl⟩ := List.append_of_mem hu
  let others := before ++ after
  have hle : r ≤ others.length := by
    rw [List.length_append, List.length_cons] at hr
    rw [List.length_append]
    omega
  refine ⟨others.take r ++ u :: others.drop r, ?_, ?_⟩
  · refine List.perm_middle.trans ?_
    rw [List.take_append_drop]
    exact List.perm_middle.symm
  · have htake := List.length_take_of_le hle
    rw [List.getElem?_append_right htake.le, htake, Nat.sub_self]
    rfl

/-- What compares less than `v`, equal to it and greater. -/
theorem filter_parts (c : α → α → ℤ) (v : α) (s : List α) :
    (s.filter (c · v < 0) ++ (s.filter (c · v = 0) ++ s.filter (0 < c · v))).Perm s := by
  let rest := s.filter fun x => !decide (c x v < 0)
  have hequal : rest.filter (c · v = 0) = s.filter (c · v = 0) := by
    rw [List.filter_filter]
    refine List.filter_congr fun x _ => ?_
    simp only [← decide_not, ← Bool.decide_and, decide_eq_decide]
    omega
  have habove : rest.filter (fun x => !decide (c x v = 0)) = s.filter (0 < c · v) := by
    rw [List.filter_filter]
    refine List.filter_congr fun x _ => ?_
    simp only [← decide_not, ← Bool.decide_and, decide_eq_decide]
    omega
  rw [← hequal, ← habove]
  exact ((List.filter_append_perm _ rest).append_left _).trans (List.filter_append_perm _ s)

namespace ConsistentOn

theorem of_perm (h : ConsistentOn c l) (hs : s.Perm l) : ConsistentOn c s where
  antisymm u hu v hv := h.antisymm u (hs.mem_iff.mp hu) v (hs.mem_iff.mp hv)
  trans u hu v hv w hw :=
    h.trans u (hs.mem_iff.mp hu) v (hs.mem_iff.mp hv) w (hs.mem_iff.mp hw)

theorem pos_iff (h : ConsistentOn c l) (hu : u ∈ l) (hv : v ∈ l) : 0 < c u v ↔ c v u < 0 := by
  rw [← Int.sign_eq_one_iff_pos, ← Int.sign_eq_neg_one_iff_neg, h.antisymm u hu v hv]
  generalize (c v u).sign = k
  omega

theorem eq_zero_iff (h : ConsistentOn c l) (hu : u ∈ l) (hv : v ∈ l) : c u v = 0 ↔ c v u = 0 := by
  rw [← Int.sign_eq_zero_iff_zero, h.antisymm u hu v hv, ← Int.sign_eq_zero_iff_zero (a := c v u)]
  generalize (c v u).sign = k
  omega

theorem self (h : ConsistentOn c l) (hu : u ∈ l) : c u u = 0 := by
  have := h.antisymm u hu u hu
  rw [← Int.sign_eq_zero_iff_zero]
  omega

theorem exists_sorts (h : ConsistentOn c l) : ∃ s, Sorts c l s := by
  let le (u v : { u // u ∈ l }) : Bool := decide (c u v ≤ 0)
  refine ⟨(l.attach.mergeSort le).map Subtype.val, ?_, ?_⟩
  · have := (List.mergeSort_perm l.attach le).map Subtype.val
    rwa [List.attach_map_subtype_val] at this
  · have hsorted : (l.attach.mergeSort le).Pairwise (fun u v => le u v) :=
      List.pairwise_mergeSort (fun u v w huv hvw => ?_) (fun u v => ?_) l.attach
    · rw [List.pairwise_map]
      exact hsorted.imp fun huv => of_decide_eq_true huv
    · exact decide_eq_true (h.trans u u.2 v v.2 w w.2 (of_decide_eq_true huv)
        (of_decide_eq_true hvw))
    · have := h.pos_iff u.2 v.2
      simp only [le, Bool.or_eq_true, decide_eq_true_eq]
      omega

/-- The elements that compare equal to `v` may stand in any order. -/
theorem sorts_reorder (h : ConsistentOn c l) (hv : v ∈ l) (hs : Sorts c l s) {equal : List α}
    (hequal : equal.Perm (s.filter (c · v = 0))) :
    Sorts c l (s.filter (c · v < 0) ++ (equal ++ s.filter (0 < c · v))) := by
  have hmem {x : α} (hx : x ∈ equal) : x ∈ s ∧ c x v = 0 :=
    (List.mem_filter.mp (hequal.mem_iff.mp hx)).imp_right of_decide_eq_true
  have hbelow {x : α} (hx : x ∈ s.filter (c · v < 0)) : x ∈ s ∧ c x v < 0 :=
    (List.mem_filter.mp hx).imp_right of_decide_eq_true
  have habove {x : α} (hx : x ∈ s.filter (0 < c · v)) : x ∈ s ∧ 0 < c x v :=
    (List.mem_filter.mp hx).imp_right of_decide_eq_true
  -- what is not above `v` comes before what is not below it
  have hcross {x y : α} (hx : x ∈ s) (hy : y ∈ s) (hxv : c x v ≤ 0) (hyv : 0 ≤ c y v) :
      c x y ≤ 0 := by
    have hx := hs.1.mem_iff.mp hx
    have hy := hs.1.mem_iff.mp hy
    refine h.trans x hx v hv y hy hxv (Int.not_lt.mp fun hpos => ?_)
    have := (h.pos_iff hv hy).mp hpos
    omega
  refine ⟨((hequal.append_right _).append_left _).trans ((filter_parts c v s).trans hs.1), ?_⟩
  refine List.pairwise_append.mpr ⟨hs.2.filter _, List.pairwise_append.mpr ⟨?_, ?_, ?_⟩, ?_⟩
  · refine List.pairwise_of_forall_mem_list fun x hx y hy => ?_
    exact hcross (hmem hx).1 (hmem hy).1 (hmem hx).2.le (hmem hy).2.ge
  · exact hs.2.filter _
  · exact fun x hx y hy => hcross (hmem hx).1 (habove hy).1 (hmem hx).2.le (habove hy).2.le
  · intro x hx y hy
    rcases List.mem_append.mp hy with hy | hy
    · exact hcross (hbelow hx).1 (hmem hy).1 (hbelow hx).2.le (hmem hy).2.ge
    · exact hcross (hbelow hx).1 (habove hy).1 (hbelow hx).2.le (habove hy).2.le

/-- Each element that compares equal to `v` comes to every place of theirs. -/
theorem exists_sorts_getElem (h : ConsistentOn c l) (hu : u ∈ l) (hv : v ∈ l) (heq : c u v = 0)
    (hlow : l.countP (c · v < 0) ≤ r) (hhigh : r < l.countP (c · v ≤ 0)) :
    ∃ s, Sorts c l s ∧ s[r]? = some u := by
  obtain ⟨s, hs⟩ := h.exists_sorts
  rw [← hs.1.countP_eq] at hlow hhigh
  have hu' : u ∈ s.filter (c · v = 0) :=
    List.mem_filter.mpr ⟨hs.1.mem_iff.mpr hu, decide_eq_true heq⟩
  have hplace : r - s.countP (c · v < 0) < (s.filter (c · v = 0)).length := by
    have hlength := (filter_parts c v s).length_eq
    have hcount := s.length_eq_countP_add_countP fun x => decide (c x v ≤ 0)
    simp only [List.length_append, ← List.countP_eq_length_filter, decide_eq_true_eq,
      not_le] at hlength hcount
    rw [← List.countP_eq_length_filter]
    omega
  obtain ⟨equal, hequal, hget⟩ := exists_perm_getElem? hu' hplace
  refine ⟨_, h.sorts_reorder hv hs hequal, ?_⟩
  have hlt : r - s.countP (c · v < 0) < equal.length := by rwa [hequal.length_eq]
  rw [List.countP_eq_length_filter] at hlow hget hlt
  rw [List.getElem?_append_right hlow, List.getElem?_append_left hlt, hget]

end ConsistentOn

/-- What stands at a place of the sorted list, whatever the sorting. -/
theorem getElem?_sorts_iff (h : ConsistentOn c l) (hv : v ∈ l) :
    (∀ s, Sorts c l s → s[r]? = some v) ↔
      l.countP (c · v < 0) ≤ r ∧ r < l.countP (c · v ≤ 0) ∧ ∀ u ∈ l, c u v = 0 → u = v := by
  have hself := h.self hv
  have hbelow {s : List α} (hs : Sorts c l s) (hr : r < s.length) :
      r < l.countP (c · v < 0) ↔ c s[r] v < 0 := by
    rw [← hs.1.countP_eq]
    refine lt_countP_iff_of_pairwise (P := (c · v < 0)) hs.2 (fun x hx y hy hxy hneg => ?_) hr
    have hs' := h.of_perm hs.1
    have hv' := hs.1.mem_iff.mpr hv
    refine lt_of_le_of_ne (hs'.trans x hx y hy v hv' hxy hneg.le) fun hzero => ?_
    have := hs'.trans v hv' x hx y hy ((hs'.eq_zero_iff hx hv').mp hzero).le hxy
    have := (hs'.pos_iff hv' hy).mpr hneg
    omega
  have hnotAbove {s : List α} (hs : Sorts c l s) (hr : r < s.length) :
      r < l.countP (c · v ≤ 0) ↔ c s[r] v ≤ 0 := by
    rw [← hs.1.countP_eq]
    refine lt_countP_iff_of_pairwise (P := (c · v ≤ 0)) hs.2 (fun x hx y hy hxy hle => ?_) hr
    exact (h.of_perm hs.1).trans x hx y hy v (hs.1.mem_iff.mpr hv) hxy hle
  constructor
  · intro hall
    obtain ⟨s, hs⟩ := h.exists_sorts
    obtain ⟨hr, hget⟩ := List.getElem?_eq_some_iff.mp (hall s hs)
    have hlow := hbelow hs hr
    have hhigh := hnotAbove hs hr
    rw [hget, hself] at hlow hhigh
    have hlow' : l.countP (c · v < 0) ≤ r := by
      refine Nat.le_of_not_lt fun hlt => ?_
      exact absurd (hlow.mp hlt) (by decide)
    have hhigh' := hhigh.mpr le_rfl
    refine ⟨hlow', hhigh', fun u hu heq => ?_⟩
    obtain ⟨s', hs', hget'⟩ := h.exists_sorts_getElem hu hv heq hlow' hhigh'
    exact Option.some.inj (hget'.symm.trans (hall s' hs'))
  · rintro ⟨hlow, hhigh, halone⟩ s hs
    have hr : r < s.length := by
      have := List.countP_le_length (l := l) (p := (c · v ≤ 0))
      rw [hs.1.length_eq]
      omega
    have hnot : ¬ c s[r] v < 0 := fun hneg => absurd ((hbelow hs hr).mpr hneg) (by omega)
    have hle := (hnotAbove hs hr).mp hhigh
    rw [List.getElem?_eq_getElem hr]
    exact congrArg some (halone _ (hs.1.mem_iff.mp (List.getElem_mem hr)) (by omega))

end Comparators
