import Mathlib.Logic.Function.Basic
import Mathlib.Data.List.Basic

/-!
# Descriptor tables

A table of open descriptors, each with a value of its own, as a kernel
keeps it for a process: `lowest` is the lowest number that is not open,
which is the one the next `socket` or `open` returns.
-/

/-- Only finitely many descriptors are open: none from `bound` on. -/
structure FdTable (α : Type*) where
  get : ℕ → Option α
  bound : ℕ
  closed : ∀ fd, bound ≤ fd → get fd = none

namespace FdTable

variable {α β : Type*}

/-- The lowest free descriptor. -/
def lowest (t : FdTable α) : ℕ :=
  ((List.range t.bound).find? fun fd => (t.get fd).isNone).getD t.bound

def set (t : FdTable α) (fd : ℕ) (value : Option α) : FdTable α where
  get := Function.update t.get fd value
  bound := max t.bound (fd + 1)
  closed fd' h := by
    rw [Function.update_of_ne (by omega)]
    exact t.closed fd' (by omega)

/-- Open the lowest free descriptor. -/
def openLowest (t : FdTable α) (a : α) : FdTable α := t.set t.lowest (some a)

def close (t : FdTable α) (fd : ℕ) : FdTable α := t.set fd none

def modify (t : FdTable α) (fd : ℕ) (f : α → α) : FdTable α := t.set fd ((t.get fd).map f)

def map (f : α → β) (t : FdTable α) : FdTable β where
  get fd := (t.get fd).map f
  bound := t.bound
  closed fd h := by rw [t.closed fd h, Option.map_none]

/-- The first `n` descriptors are open. -/
def firstOpen (n : ℕ) (a : α) : FdTable α where
  get fd := if fd < n then some a else none
  bound := n
  closed _ h := if_neg (Nat.not_lt.mpr h)

variable {t : FdTable α} {fd fd' : ℕ} {value : Option α} {a b : α} {f : α → α}

theorem get_lowest (t : FdTable α) : t.get t.lowest = none := by
  unfold lowest
  cases h : (List.range t.bound).find? fun fd => (t.get fd).isNone with
  | none => exact t.closed _ (Nat.le_refl _)
  | some fd =>
      have hfree : (t.get fd).isNone = true :=
        List.find?_some (p := fun fd => (t.get fd).isNone) h
      exact Option.isNone_iff_eq_none.mp hfree

/-- No free descriptor is below `lowest`. -/
theorem lowest_le (h : t.get fd = none) : t.lowest ≤ fd := by
  unfold lowest
  cases hf : (List.range t.bound).find? fun fd => (t.get fd).isNone with
  | none =>
      by_contra hlt
      have := List.find?_eq_none.mp hf fd (List.mem_range.mpr (Nat.not_le.mp hlt))
      rw [h] at this
      exact this rfl
  | some fd₀ =>
      by_contra hle
      have hlt : fd < fd₀ := Nat.not_le.mp hle
      obtain ⟨-, as, bs, hsplit, hbefore⟩ := List.find?_eq_some_iff_append.mp hf
      have hmem : fd₀ ∈ List.range t.bound := List.mem_of_find?_eq_some hf
      have hfd : fd ∈ List.range t.bound :=
        List.mem_range.mpr (Nat.lt_trans hlt (List.mem_range.mp hmem))
      have hsorted : (as ++ fd₀ :: bs).Pairwise (· < ·) := hsplit ▸ List.pairwise_lt_range
      rw [hsplit, List.mem_append, List.mem_cons] at hfd
      rcases hfd with has | rfl | hbs
      · have := hbefore fd has
        rw [h] at this
        cases this
      · exact Nat.lt_irrefl _ hlt
      · have := List.rel_of_pairwise_cons (List.pairwise_append.mp hsorted).2.1 hbs
        exact Nat.lt_asymm hlt this

/-- The lowest free descriptor depends on which are open. -/
theorem lowest_congr {t : FdTable α} {t' : FdTable β}
    (h : ∀ fd, (t'.get fd).isSome = (t.get fd).isSome) : t'.lowest = t.lowest := by
  have hfree (fd : ℕ) : t'.get fd = none ↔ t.get fd = none := by
    rw [← Option.isNone_iff_eq_none, ← Option.isNone_iff_eq_none, ← Option.not_isSome, h,
      Option.not_isSome]
  exact Nat.le_antisymm (lowest_le ((hfree _).mpr t.get_lowest))
    (lowest_le ((hfree _).mp t'.get_lowest))

@[simp]
theorem get_set_self : (t.set fd value).get fd = value := Function.update_self ..

theorem get_set_of_ne (h : fd' ≠ fd) : (t.set fd value).get fd' = t.get fd' :=
  Function.update_of_ne h ..

theorem get_set : (t.set fd value).get fd' = if fd' = fd then value else t.get fd' := by
  by_cases h : fd' = fd
  · rw [if_pos h, h, get_set_self]
  · rw [if_neg h, get_set_of_ne h]

@[simp]
theorem get_modify_self : (t.modify fd f).get fd = (t.get fd).map f := get_set_self

end FdTable
