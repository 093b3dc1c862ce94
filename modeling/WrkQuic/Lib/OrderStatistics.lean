import Mathlib.Data.Multiset.Sort

/-!
# Order statistics

`smallest S r` is the `r`-th smallest element of a multiset, counted from 1
and with repetitions. The elements of which a downward closed predicate holds
come first, so that counting them compares their number with a rank
(`le_countP_iff`).
-/

namespace OrderStatistics

variable {α : Type*} [LinearOrder α] {S : Multiset α} {P : α → Prop} [DecidablePred P] {a b : α}
  {r n : ℕ}

def smallest (S : Multiset α) (r : ℕ) : Option α := S.sort[r - 1]?

omit [LinearOrder α] in
/-- In a sorted list the elements of a downward closed predicate come first. -/
theorem lt_countP_iff_of_pairwise {R : α → α → Prop} {l : List α} (hl : l.Pairwise R)
    (hP : ∀ a ∈ l, ∀ b ∈ l, R a b → P b → P a) (hr : r < l.length) :
    r < l.countP P ↔ P l[r] := by
  induction l generalizing r with
  | nil => cases hr
  | cons a l ih =>
      obtain ⟨hhead, hl⟩ := List.pairwise_cons.mp hl
      have hP' : ∀ b ∈ l, ∀ c ∈ l, R b c → P c → P b :=
        fun b hb c hc => hP b (by simp [hb]) c (by simp [hc])
      by_cases ha : P a
      · rw [List.countP_cons_of_pos (by simpa using ha)]
        cases r with
        | zero => simpa using ha
        | succ r =>
            rw [List.getElem_cons_succ, ← ih hl hP' (Nat.lt_of_succ_lt_succ hr)]
            exact Nat.succ_lt_succ_iff
      · have hbelow : ∀ b ∈ l, ¬ P b :=
          fun b hb hPb => ha (hP a (by simp) b (by simp [hb]) (hhead b hb) hPb)
        have hnone : l.countP P = 0 :=
          List.countP_eq_zero.mpr fun b hb hPb => hbelow b hb (by simpa using hPb)
        rw [List.countP_cons_of_neg (by simpa using ha), hnone]
        refine ⟨fun h => by omega, ?_⟩
        intro h
        cases r with
        | zero => exact absurd h ha
        | succ r => exact absurd h (hbelow _ (List.getElem_mem _))

theorem lt_countP_iff {l : List α} (hl : l.Pairwise (· ≤ ·)) (hP : ∀ a b, a ≤ b → P b → P a)
    (hr : r < l.length) : r < l.countP P ↔ P l[r] :=
  lt_countP_iff_of_pairwise hl (fun a _ b _ => hP a b) hr

theorem exists_smallest (hr : 0 < r) (hcard : r ≤ S.card) : ∃ a ∈ S, smallest S r = some a := by
  have hlt : r - 1 < S.sort.length := by
    rw [Multiset.length_sort]
    omega
  exact ⟨_, (Multiset.mem_sort _).mp (List.getElem_mem hlt), List.getElem?_eq_getElem hlt⟩

theorem mem_of_smallest (h : smallest S r = some a) : a ∈ S := by
  obtain ⟨hlt, rfl⟩ := List.getElem?_eq_some_iff.mp h
  exact (Multiset.mem_sort _).mp (List.getElem_mem hlt)

theorem le_countP_iff (h : smallest S r = some a) (hr : 0 < r) (hP : ∀ a b, a ≤ b → P b → P a) :
    r ≤ S.countP P ↔ P a := by
  obtain ⟨hlt, rfl⟩ := List.getElem?_eq_some_iff.mp h
  rw [← lt_countP_iff (Multiset.pairwise_sort ..) hP hlt, ← Multiset.coe_countP,
    Multiset.sort_eq]
  omega

omit [LinearOrder α] in
theorem countP_congr_iff {Q : α → Prop} [DecidablePred Q] (h : ∀ a ∈ S, P a ↔ Q a) :
    S.countP P = S.countP Q :=
  Multiset.countP_congr rfl fun a ha => propext (h a ha)

theorem smallest_mono (h : smallest S r = some a) (h' : smallest S n = some b) (hr : r ≤ n) :
    a ≤ b := by
  obtain ⟨hlt, rfl⟩ := List.getElem?_eq_some_iff.mp h
  obtain ⟨hlt', rfl⟩ := List.getElem?_eq_some_iff.mp h'
  rcases Nat.eq_or_lt_of_le (Nat.sub_le_sub_right hr 1) with heq | hlt''
  · exact le_of_eq (by congr 1)
  · exact List.pairwise_iff_getElem.mp (Multiset.pairwise_sort S (· ≤ ·)) _ _ hlt hlt' hlt''

end OrderStatistics
