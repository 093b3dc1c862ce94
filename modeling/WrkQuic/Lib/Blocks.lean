import Mathlib.Algebra.BigOperators.Group.Finset.Basic
import Mathlib.Data.Finmap

/-!
# Blocks of memory, their bytes and their owners

A heap is a finite map from the addresses of the live blocks to what the
blocks hold. Three things about it are general:

* the allocator: what `malloc`, `calloc`, `realloc` and `free` do to a
  heap of bytes, with the address and the unwritten bytes taken from the
  `Answer` of the environment;
* the ledger `total f`: the sum of a quantity over the live blocks, which
  an allocation raises and a release lowers by the block's own share;
* ownership: `OwnedBy owned h` says that the live blocks are exactly those
  that some owner holds, with the contents the owner expects, and that no
  two owners hold the same block. Every block is then released at most
  once, and none is live without an owner.

A number lies in memory as its bytes, the lowest first.
-/

namespace Blocks

/-! ## Numbers as bytes -/

def leBytes : ℕ → ℕ → List UInt8
  | 0, _ => []
  | n + 1, x => UInt8.ofNat x :: leBytes n (x / 256)

def ofLeBytes : List UInt8 → ℕ
  | [] => 0
  | b :: bs => b.toNat + 256 * ofLeBytes bs

@[simp] theorem length_leBytes (n x : ℕ) : (leBytes n x).length = n := by
  induction n generalizing x with
  | zero => rfl
  | succ n ih => rw [leBytes, List.length_cons, ih]

theorem ofLeBytes_leBytes {n x : ℕ} (h : x < 256 ^ n) : ofLeBytes (leBytes n x) = x := by
  induction n generalizing x with
  | zero =>
      rw [pow_zero] at h
      rw [leBytes, ofLeBytes]
      omega
  | succ n ih =>
      have hdiv : x / 256 < 256 ^ n := by
        rw [Nat.div_lt_iff_lt_mul (by decide), ← pow_succ]
        exact h
      rw [leBytes, ofLeBytes, ih hdiv, UInt8.toNat_ofNat']
      exact Nat.mod_add_div x 256

/-! ## The allocator -/

abbrev Heap (β : Type*) := Finmap fun _ : ℕ => β

/-- What the environment answers to an allocation: the address, 0 for
none, and the bytes that nothing has written yet. -/
structure Answer where
  addr : ℕ
  junk : ℕ → UInt8

/-- The first `n` bytes of a block that is being resized: what it held,
then bytes nobody wrote. -/
def resize : List UInt8 → ℕ → (ℕ → UInt8) → List UInt8
  | _, 0, _ => []
  | [], n + 1, junk => junk 0 :: resize [] n fun i => junk (i + 1)
  | b :: bs, n + 1, junk => b :: resize bs n fun i => junk (i + 1)

@[simp] theorem length_resize (bs : List UInt8) (n : ℕ) (junk : ℕ → UInt8) :
    (resize bs n junk).length = n := by
  induction n generalizing bs junk with
  | zero => cases bs <;> rfl
  | succ n ih => cases bs <;> rw [resize, List.length_cons, ih]

/-- Behind the first `k` bytes a resized block is what was behind them, resized. -/
theorem drop_resize (k : ℕ) (bs : List UInt8) (n : ℕ) (junk : ℕ → UInt8) :
    (resize bs n junk).drop k = resize (bs.drop k) (n - k) fun i => junk (i + k) := by
  induction k generalizing bs n junk with
  | zero => simp only [List.drop_zero, Nat.sub_zero, Nat.add_zero]
  | succ k ih =>
      cases n with
      | zero =>
          rw [Nat.zero_sub]
          cases bs <;> simp [resize]
      | succ n =>
          rw [Nat.add_sub_add_right]
          cases bs with
          | nil =>
              rw [resize, List.drop_succ_cons, ih, List.drop_nil, List.drop_nil]
              simp only [Nat.add_assoc]
          | cons b bs =>
              rw [resize, List.drop_succ_cons, List.drop_succ_cons, ih]
              simp only [Nat.add_assoc]

namespace Heap

def malloc (h : Heap (List UInt8)) (n : ℕ) (r : Answer) : Heap (List UInt8) :=
  h.insert r.addr (resize [] n r.junk)

def calloc (h : Heap (List UInt8)) (n : ℕ) (r : Answer) : Heap (List UInt8) :=
  h.insert r.addr (List.replicate n 0)

/-- The old block is gone, the new one starts with its bytes. -/
def realloc (h : Heap (List UInt8)) (old : ℕ) (bs : List UInt8) (n : ℕ) (r : Answer) :
    Heap (List UInt8) :=
  (h.erase old).insert r.addr (resize bs n r.junk)

end Heap

/-! ## The ledger -/

section Total

variable {β M : Type*} [AddCommMonoid M] {f : β → M} {h : Heap β} {a : ℕ} {b b' : β}

/-- The sum of `f` over the live blocks. -/
def total (f : β → M) (h : Heap β) : M :=
  ∑ a ∈ h.keys, (h.lookup a).elim 0 f

@[simp] theorem total_empty : total f (∅ : Heap β) = 0 := by
  rw [total, Finmap.keys_empty, Finset.sum_empty]

theorem total_erase (hb : h.lookup a = some b) : f b + total f (h.erase a) = total f h := by
  have hmem : a ∈ h.keys := Finmap.mem_keys.mpr (Finmap.mem_of_lookup_eq_some hb)
  rw [total, total, Finmap.keys_erase, ← Finset.add_sum_erase _ _ hmem, hb]
  congr 1
  refine Finset.sum_congr rfl fun x hx => ?_
  rw [Finmap.lookup_erase_ne (Finset.ne_of_mem_erase hx)]

theorem erase_insert (ha : a ∉ h) : (h.insert a b).erase a = h := by
  refine Finmap.ext_lookup fun x => ?_
  by_cases hx : x = a
  · rw [hx, Finmap.lookup_erase, Finmap.lookup_eq_none.mpr ha]
  · rw [Finmap.lookup_erase_ne hx, Finmap.lookup_insert_of_ne h hx]

theorem insert_erase : (h.erase a).insert a b = h.insert a b := by
  refine Finmap.ext_lookup fun x => ?_
  by_cases hx : x = a
  · rw [hx, Finmap.lookup_insert, Finmap.lookup_insert]
  · rw [Finmap.lookup_insert_of_ne _ hx, Finmap.lookup_erase_ne hx, Finmap.lookup_insert_of_ne h hx]

theorem total_insert (ha : a ∉ h) : total f (h.insert a b) = f b + total f h := by
  rw [← total_erase (Finmap.lookup_insert h), erase_insert ha]

/-- Writing into a block without changing its share changes no total. -/
theorem total_insert_of_lookup (hb : h.lookup a = some b) (hf : f b' = f b) :
    total f (h.insert a b') = total f h := by
  have herase : (h.insert a b').erase a = h.erase a := by
    refine Finmap.ext_lookup fun x => ?_
    by_cases hx : x = a
    · rw [hx, Finmap.lookup_erase, Finmap.lookup_erase]
    · rw [Finmap.lookup_erase_ne hx, Finmap.lookup_erase_ne hx, Finmap.lookup_insert_of_ne h hx]
  rw [← total_erase (Finmap.lookup_insert h), herase, hf, total_erase hb]

end Total

/-! ## Ownership -/

section Owners

variable {Ω β : Type*} {owned : Ω → Option (ℕ × β)} {h : Heap β} {o : Ω}
  {a : ℕ} {b b' : β}

structure OwnedBy (owned : Ω → Option (ℕ × β)) (h : Heap β) : Prop where
  lookup_iff : ∀ a b, h.lookup a = some b ↔ ∃ o, owned o = some (a, b)
  alone : ∀ {o o' a b b'}, owned o = some (a, b) → owned o' = some (a, b') → o = o'

theorem OwnedBy.lookup (hown : OwnedBy owned h) (ho : owned o = some (a, b)) :
    h.lookup a = some b :=
  (hown.lookup_iff a b).mpr ⟨o, ho⟩

theorem OwnedBy.empty : OwnedBy (fun _ : Ω => none) (∅ : Heap β) where
  lookup_iff a b := by simp
  alone h := by cases h

variable [DecidableEq Ω]

/-- A fresh block for an owner that had none. -/
theorem OwnedBy.alloc (hown : OwnedBy owned h) (ha : a ∉ h) (ho : owned o = none) :
    OwnedBy (Function.update owned o (some (a, b))) (h.insert a b) := by
  have hnot : ∀ {o' b'}, owned o' ≠ some (a, b') := fun ho' =>
    ha (Finmap.mem_of_lookup_eq_some (hown.lookup ho'))
  constructor
  · intro a' c
    by_cases haa : a' = a
    · subst haa
      rw [Finmap.lookup_insert]
      constructor
      · intro hc
        cases hc
        exact ⟨o, Function.update_self ..⟩
      · rintro ⟨o', ho'⟩
        by_cases hoo : o' = o
        · rw [hoo, Function.update_self] at ho'
          cases ho'
          rfl
        · rw [Function.update_of_ne hoo] at ho'
          exact absurd ho' hnot
    · rw [Finmap.lookup_insert_of_ne h haa, hown.lookup_iff]
      refine exists_congr fun o' => ?_
      by_cases hoo : o' = o
      · rw [hoo, Function.update_self, ho]
        constructor
        · intro hc
          cases hc
        · intro hc
          cases hc
          exact absurd rfl haa
      · rw [Function.update_of_ne hoo]
  · intro o₁ o₂ a' c c' h₁ h₂
    by_cases ho₁ : o₁ = o <;> by_cases ho₂ : o₂ = o
    · rw [ho₁, ho₂]
    · rw [ho₁, Function.update_self] at h₁
      rw [Function.update_of_ne ho₂] at h₂
      cases h₁
      exact absurd h₂ hnot
    · rw [ho₂, Function.update_self] at h₂
      rw [Function.update_of_ne ho₁] at h₁
      cases h₂
      exact absurd h₁ hnot
    · rw [Function.update_of_ne ho₁] at h₁
      rw [Function.update_of_ne ho₂] at h₂
      exact hown.alone h₁ h₂

/-- The owner gives its block back. -/
theorem OwnedBy.free (hown : OwnedBy owned h) (ho : owned o = some (a, b)) :
    OwnedBy (Function.update owned o none) (h.erase a) := by
  constructor
  · intro a' c
    by_cases haa : a' = a
    · subst haa
      rw [Finmap.lookup_erase]
      constructor
      · intro hc
        cases hc
      · rintro ⟨o', ho'⟩
        by_cases hoo : o' = o
        · rw [hoo, Function.update_self] at ho'
          cases ho'
        · rw [Function.update_of_ne hoo] at ho'
          exact absurd (hown.alone ho' ho) hoo
    · rw [Finmap.lookup_erase_ne haa, hown.lookup_iff]
      refine exists_congr fun o' => ?_
      by_cases hoo : o' = o
      · rw [hoo, Function.update_self, ho]
        constructor
        · intro hc
          cases hc
          exact absurd rfl haa
        · intro hc
          cases hc
      · rw [Function.update_of_ne hoo]
  · intro o₁ o₂ a' c c' h₁ h₂
    by_cases ho₁ : o₁ = o
    · rw [ho₁, Function.update_self] at h₁
      cases h₁
    by_cases ho₂ : o₂ = o
    · rw [ho₂, Function.update_self] at h₂
      cases h₂
    rw [Function.update_of_ne ho₁] at h₁
    rw [Function.update_of_ne ho₂] at h₂
    exact hown.alone h₁ h₂

/-- The owner moves to a fresh block, as after a `realloc`. -/
theorem OwnedBy.move {a' : ℕ} (hown : OwnedBy owned h) (ho : owned o = some (a, b))
    (ha : a' ∉ h.erase a) :
    OwnedBy (Function.update owned o (some (a', b'))) ((h.erase a).insert a' b') := by
  have hmove := (hown.free ho).alloc (o := o) (b := b') ha (Function.update_self ..)
  rwa [Function.update_idem] at hmove

/-- The owner writes into its block. -/
theorem OwnedBy.write (hown : OwnedBy owned h) (ho : owned o = some (a, b)) :
    OwnedBy (Function.update owned o (some (a, b'))) (h.insert a b') := by
  have hmove : OwnedBy (Function.update owned o (some (a, b'))) ((h.erase a).insert a b') :=
    hown.move ho Finmap.notMem_erase_self
  rwa [insert_erase] at hmove

end Owners

end Blocks
