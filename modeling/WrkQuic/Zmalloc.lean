import Mathlib.Data.BitVec
import Mathlib.Tactic.Ring
import WrkQuic.Lib.Blocks
import WrkQuic.Lib.Outcomes

/-!
# The counting allocator

zmalloc.c as it is built against the C library's own `malloc`: every block
is preceded by a header of `PREFIX_SIZE` bytes that stores the size the
caller asked for, and `used_memory` counts the bytes of all blocks.

The model works on the bytes. What the C library answers to an allocation
is an `Answer`; an access outside a live block is `Fault.undefined`, and
`zmalloc_oom` ends the program with `Fault.outOfMemory`.

The counter is kept without its mutex, as in wrk, which never calls
`zmalloc_enable_thread_safeness`: the model is of one thread.
-/

namespace WrkQuic.Zmalloc

open Blocks Outcomes

/-- The blocks of the C library, headers included, and the counter. -/
structure Zmem where
  heap : Heap (List UInt8)
  usedMemory : BitVec 64

inductive Fault
  | outOfMemory (size : BitVec 64)
  | undefined
  deriving DecidableEq, Repr

/-! ## Memory accesses -/

def PREFIX_SIZE : BitVec 64 := 8

/-- `*((size_t*)ptr) = size` at the start of a block. -/
def storeSize (heap : Heap (List UInt8)) (ptr : ℕ) (size : BitVec 64) :
    Except Fault (Heap (List UInt8)) :=
  match heap.lookup ptr with
  | some bs =>
      if 8 ≤ bs.length then .ok (heap.insert ptr (leBytes 8 size.toNat ++ bs.drop 8))
      else .error .undefined
  | none => .error .undefined

/-- `*((size_t*)ptr)` -/
def loadSize (heap : Heap (List UInt8)) (ptr : ℕ) : Except Fault (BitVec 64) :=
  match heap.lookup ptr with
  | some bs =>
      if 8 ≤ bs.length then .ok (BitVec.ofNat 64 (ofLeBytes (bs.take 8)))
      else .error .undefined
  | none => .error .undefined

def libcRealloc (heap : Heap (List UInt8)) (ptr : ℕ) (size : BitVec 64) (r : Answer) :
    Except Fault (Heap (List UInt8)) :=
  match heap.lookup ptr with
  | some bs => .ok (Heap.realloc heap ptr bs size.toNat r)
  | none => .error .undefined

def libcFree (heap : Heap (List UInt8)) (ptr : ℕ) : Except Fault (Heap (List UInt8)) :=
  if ptr ∈ heap then .ok (heap.erase ptr) else .error .undefined

def overwrite (bs : List UInt8) (off : ℕ) (src : List UInt8) : List UInt8 :=
  bs.take off ++ src ++ bs.drop (off + src.length)

/-- `memcpy(ptr + off, src, n)` into a block of `zmalloc`. -/
def copyIn (m : Zmem) (ptr off : ℕ) (src : List UInt8) : Except Fault Zmem :=
  match m.heap.lookup (ptr - 8) with
  | some bs =>
      if 8 + off + src.length ≤ bs.length then
        .ok { m with heap := m.heap.insert (ptr - 8) (overwrite bs (8 + off) src) }
      else .error .undefined
  | none => .error .undefined

/-- Read `n` bytes at `ptr + off` of a block of `zmalloc`. -/
def copyOut (m : Zmem) (ptr off n : ℕ) : Except Fault (List UInt8) :=
  match m.heap.lookup (ptr - 8) with
  | some bs =>
      if 8 + off + n ≤ bs.length then .ok ((bs.drop (8 + off)).take n)
      else .error .undefined
  | none => .error .undefined

/-! ## The functions of zmalloc.c -/

/-- `if (_n&(sizeof(long)-1)) _n += sizeof(long)-(_n&(sizeof(long)-1));` -/
def padded (n : BitVec 64) : BitVec 64 :=
  if n &&& 7 ≠ 0 then n + (8 - (n &&& 7)) else n

def updateZmallocStatAlloc (usedMemory n : BitVec 64) : BitVec 64 := usedMemory + padded n

def updateZmallocStatFree (usedMemory n : BitVec 64) : BitVec 64 := usedMemory - padded n

def zmalloc (m : Zmem) (size : BitVec 64) (r : Answer) : Except Fault (ℕ × Zmem) :=
  if r.addr = 0 then .error (.outOfMemory size)
  else do
    let heap ← storeSize (Heap.malloc m.heap (size + PREFIX_SIZE).toNat r) r.addr size
    .ok (r.addr + 8, ⟨heap, updateZmallocStatAlloc m.usedMemory (size + PREFIX_SIZE)⟩)

def zcalloc (m : Zmem) (size : BitVec 64) (r : Answer) : Except Fault (ℕ × Zmem) :=
  if r.addr = 0 then .error (.outOfMemory size)
  else do
    let heap ← storeSize (Heap.calloc m.heap (size + PREFIX_SIZE).toNat r) r.addr size
    .ok (r.addr + 8, ⟨heap, updateZmallocStatAlloc m.usedMemory (size + PREFIX_SIZE)⟩)

/-- The counter moves by the two sizes without their headers, which cancel. -/
def zrealloc (m : Zmem) (ptr : ℕ) (size : BitVec 64) (r : Answer) : Except Fault (ℕ × Zmem) :=
  if ptr = 0 then zmalloc m size r
  else do
    let realptr := ptr - 8
    let oldsize ← loadSize m.heap realptr
    if r.addr = 0 then .error (.outOfMemory size)
    else do
      let heap ← libcRealloc m.heap realptr (size + PREFIX_SIZE) r
      let heap ← storeSize heap r.addr size
      .ok (r.addr + 8,
        ⟨heap, updateZmallocStatAlloc (updateZmallocStatFree m.usedMemory oldsize) size⟩)

def zmallocSize (m : Zmem) (ptr : ℕ) : Except Fault (BitVec 64) := do
  let size ← loadSize m.heap (ptr - 8)
  .ok (padded size + PREFIX_SIZE)

def zfree (m : Zmem) (ptr : ℕ) : Except Fault Zmem :=
  if ptr = 0 then .ok m
  else do
    let realptr := ptr - 8
    let oldsize ← loadSize m.heap realptr
    let heap ← libcFree m.heap realptr
    .ok ⟨heap, updateZmallocStatFree m.usedMemory (oldsize + PREFIX_SIZE)⟩

/-- `s` is the string without its terminator. -/
def zstrdup (m : Zmem) (s : List UInt8) (r : Answer) : Except Fault (ℕ × Zmem) := do
  let (p, m) ← zmalloc m (BitVec.ofNat 64 (s.length + 1)) r
  let m ← copyIn m p 0 (s ++ [0])
  .ok (p, m)

/-! ## What the counter counts -/

/-- What a block of the caller's bytes adds to the counter. -/
def share (b : List UInt8) : BitVec 64 := padded (BitVec.ofNat 64 b.length) + PREFIX_SIZE

theorem and_seven_toNat (n : BitVec 64) : (n &&& 7).toNat = n.toNat % 8 := by
  rw [BitVec.toNat_and]
  exact Nat.and_two_pow_sub_one_eq_mod n.toNat 3

theorem add_header_and_seven (n : BitVec 64) : (n + PREFIX_SIZE) &&& 7 = n &&& 7 := by
  apply BitVec.eq_of_toNat_eq
  rw [and_seven_toNat, and_seven_toNat, BitVec.toNat_add, show PREFIX_SIZE.toNat = 8 from rfl]
  omega

/-- The header is a multiple of what sizes are padded to. -/
theorem padded_add_header (n : BitVec 64) : padded (n + PREFIX_SIZE) = padded n + PREFIX_SIZE := by
  rw [padded, padded, add_header_and_seven]
  split
  · rw [add_right_comm]
  · rfl

/-! ## Blocks with headers -/

/-- A block as the C library sees it. -/
def frame (b : List UInt8) : List UInt8 := leBytes 8 b.length ++ b

@[simp] theorem length_frame (b : List UInt8) : (frame b).length = 8 + b.length := by
  rw [frame, List.length_append, length_leBytes]

@[simp] theorem drop_frame (b : List UInt8) (n : ℕ) : (frame b).drop (8 + n) = b.drop n := by
  rw [frame, List.drop_append, length_leBytes, Nat.add_sub_cancel_left,
    List.drop_eq_nil_of_le (by rw [length_leBytes]; omega), List.nil_append]

theorem take_frame (b : List UInt8) : (frame b).take 8 = leBytes 8 b.length := by
  rw [frame, List.take_append_of_le_length (by rw [length_leBytes]),
    List.take_of_length_le (by rw [length_leBytes])]

theorem overwrite_frame {b src : List UInt8} {off : ℕ} (h : off + src.length ≤ b.length) :
    overwrite (frame b) (8 + off) src = frame (overwrite b off src) := by
  have hlen : (overwrite b off src).length = b.length := by
    rw [overwrite, List.length_append, List.length_append, List.length_take, List.length_drop]
    omega
  have htake : (frame b).take (8 + off) = leBytes 8 b.length ++ b.take off := by
    rw [frame, List.take_append, length_leBytes, Nat.add_sub_cancel_left,
      List.take_of_length_le (by rw [length_leBytes]; omega)]
  rw [overwrite, htake, Nat.add_assoc, drop_frame, frame, hlen, overwrite]
  simp only [List.append_assoc]

theorem length_overwrite {b src : List UInt8} {off : ℕ} (h : off + src.length ≤ b.length) :
    (overwrite b off src).length = b.length := by
  rw [overwrite, List.length_append, List.length_append, List.length_take, List.length_drop]
  omega

/-! ## The allocator the caller sees -/

/-- The memory implements the heap `u` of the callers' bytes: behind its
header every block of `u` is a block of the C library, there are no
others, and the counter is the sum of what the blocks count. -/
structure Refines (m : Zmem) (u : Heap (List UInt8)) : Prop where
  block : ∀ a, m.heap.lookup a = (u.lookup (a + 8)).map frame
  pointer : ∀ p ∈ u, 8 < p
  small : ∀ p b, u.lookup p = some b → b.length + 8 < 2 ^ 64
  used : m.usedMemory = total share u

/-- What the C library answered, as the caller of zmalloc.c sees it. -/
def behindHeader (r : Answer) : Answer := ⟨r.addr + 8, fun i => r.junk (i + 8)⟩

def Zmem.init : Zmem := ⟨∅, 0⟩

theorem Refines.init : Refines .init ∅ where
  block a := by simp [Zmem.init]
  pointer p hp := absurd hp Finmap.notMem_empty
  small p b hb := by simp at hb
  used := total_empty.symm

section Blocks

variable {m : Zmem} {u : Heap (List UInt8)} {p a : ℕ} {b b' : List UInt8}

theorem Refines.raw (h : Refines m u) (hb : u.lookup p = some b) :
    m.heap.lookup (p - 8) = some (frame b) ∧ p - 8 + 8 = p ∧ p ≠ 0 := by
  have hp := h.pointer p (Finmap.mem_of_lookup_eq_some hb)
  have hback : p - 8 + 8 = p := by omega
  refine ⟨?_, hback, by omega⟩
  rw [h.block, hback, hb]
  rfl

theorem Refines.insert (h : Refines m u) (ha : a ≠ 0) (hfresh : a + 8 ∉ u)
    (hsmall : b.length + 8 < 2 ^ 64) :
    Refines ⟨m.heap.insert a (frame b), m.usedMemory + share b⟩ (u.insert (a + 8) b) where
  block x := by
    by_cases hx : x = a
    · rw [hx, Finmap.lookup_insert, Finmap.lookup_insert]
      rfl
    · rw [Finmap.lookup_insert_of_ne _ hx, Finmap.lookup_insert_of_ne _ (by omega)]
      exact h.block x
  pointer q hq := by
    rcases Finmap.mem_insert.mp hq with rfl | hq
    · omega
    · exact h.pointer q hq
  small q c hc := by
    by_cases hq : q = a + 8
    · rw [hq, Finmap.lookup_insert] at hc
      cases hc
      exact hsmall
    · rw [Finmap.lookup_insert_of_ne _ hq] at hc
      exact h.small q c hc
  used := by rw [total_insert hfresh, h.used, add_comm]

theorem Refines.erase (h : Refines m u) (hb : u.lookup p = some b) :
    Refines ⟨m.heap.erase (p - 8), m.usedMemory - share b⟩ (u.erase p) where
  block x := by
    have hback := (h.raw hb).2.1
    by_cases hx : x = p - 8
    · rw [hx, Finmap.lookup_erase, hback, Finmap.lookup_erase]
      rfl
    · rw [Finmap.lookup_erase_ne hx, Finmap.lookup_erase_ne (by omega)]
      exact h.block x
  pointer q hq := h.pointer q (Finmap.mem_erase.mp hq).2
  small q c hc := by
    by_cases hq : q = p
    · rw [hq, Finmap.lookup_erase] at hc
      cases hc
    · rw [Finmap.lookup_erase_ne hq] at hc
      exact h.small q c hc
  used := by rw [h.used, ← total_erase hb, add_sub_cancel_left]

theorem Refines.write (h : Refines m u) (hb : u.lookup p = some b) (hlen : b'.length = b.length) :
    Refines { m with heap := m.heap.insert (p - 8) (frame b') } (u.insert p b') where
  block x := by
    have hback := (h.raw hb).2.1
    by_cases hx : x = p - 8
    · rw [hx, Finmap.lookup_insert, hback, Finmap.lookup_insert]
      rfl
    · rw [Finmap.lookup_insert_of_ne _ hx, Finmap.lookup_insert_of_ne _ (by omega)]
      exact h.block x
  pointer q hq := by
    rcases Finmap.mem_insert.mp hq with rfl | hq
    · exact h.pointer q (Finmap.mem_of_lookup_eq_some hb)
    · exact h.pointer q hq
  small q c hc := by
    by_cases hq : q = p
    · rw [hq, Finmap.lookup_insert] at hc
      cases hc
      rw [hlen]
      exact h.small p b hb
    · rw [Finmap.lookup_insert_of_ne _ hq] at hc
      exact h.small q c hc
  used := by
    rw [total_insert_of_lookup hb (by rw [share, share, hlen])]
    exact h.used

/-! ## Reading headers back -/

theorem loadSize_frame {heap : Heap (List UInt8)} (ha : heap.lookup a = some (frame b))
    (hsmall : b.length + 8 < 2 ^ 64) : loadSize heap a = .ok (BitVec.ofNat 64 b.length) := by
  rw [loadSize, ha]
  dsimp only
  rw [if_pos (by rw [length_frame]; omega), take_frame, ofLeBytes_leBytes]
  have hpow : (256 : ℕ) ^ 8 = 2 ^ 64 := by rfl
  omega

theorem storeSize_insert {heap : Heap (List UInt8)} {size : BitVec 64} {raw : List UInt8}
    (hraw : 8 ≤ raw.length) (hlen : (raw.drop 8).length = size.toNat) :
    storeSize (heap.insert a raw) a size = .ok (heap.insert a (frame (raw.drop 8))) := by
  rw [storeSize, Finmap.lookup_insert]
  dsimp only
  rw [if_pos hraw, Finmap.insert_insert, frame, hlen]

end Blocks

/-! ## One specification for each function -/

/-- The only way to fail that a function has on memory in order. -/
def Aborts (size : BitVec 64) (r : Answer) (e : Fault) : Prop :=
  e = .outOfMemory size ∧ r.addr = 0

/-- What the C library promises of the address of a new block: it is that
of no other live block of `u`. -/
def Fresh (u : Heap (List UInt8)) (r : Answer) : Prop := r.addr = 0 ∨ r.addr + 8 ∉ u

/-- The address a function returned and the heap it leaves. -/
def Returned (p : ℕ) (u : Heap (List UInt8)) (res : ℕ × Zmem) : Prop :=
  res.1 = p ∧ Refines res.2 u

section Specs

variable {m : Zmem} {u : Heap (List UInt8)} {p : ℕ} {b : List UInt8} {size : BitVec 64} {r : Answer}

theorem toNat_add_header (hsize : size.toNat + 8 < 2 ^ 64) :
    (size + PREFIX_SIZE).toNat = size.toNat + 8 := by
  rw [BitVec.toNat_add, show PREFIX_SIZE.toNat = 8 from rfl]
  exact Nat.mod_eq_of_lt hsize

/-- A new block whose bytes behind the header are `b`. -/
theorem Refines.new (h : Refines m u) (ha : r.addr ≠ 0) (hfresh : r.addr + 8 ∉ u)
    (hsize : size.toNat + 8 < 2 ^ 64) (hlen : b.length = size.toNat) :
    Refines ⟨m.heap.insert r.addr (frame b),
      updateZmallocStatAlloc m.usedMemory (size + PREFIX_SIZE)⟩ (u.insert (r.addr + 8) b) := by
  have hshare : padded (size + PREFIX_SIZE) = share b := by
    rw [padded_add_header, share, hlen, BitVec.ofNat_toNat, BitVec.setWidth_eq]
  rw [updateZmallocStatAlloc, hshare]
  exact h.insert ha hfresh (by omega)

/-- What `zmalloc` and `zcalloc` do with the block `raw` of the C library. -/
theorem header_spec (h : Refines m u) (hsize : size.toNat + 8 < 2 ^ 64) (hr : Fresh u r)
    {raw : List UInt8} (hraw : raw.length = size.toNat + 8) :
    Ensures (Aborts size r)
      (if r.addr = 0 then .error (.outOfMemory size)
        else do
          let heap ← storeSize (m.heap.insert r.addr raw) r.addr size
          .ok (r.addr + 8, ⟨heap, updateZmallocStatAlloc m.usedMemory (size + PREFIX_SIZE)⟩))
      (Returned (r.addr + 8) (u.insert (r.addr + 8) (raw.drop 8))) := by
  have hlen : (raw.drop 8).length = size.toNat := by
    rw [List.length_drop, hraw, Nat.add_sub_cancel]
  split
  · rename_i h0
    exact ⟨rfl, h0⟩
  · rename_i h0
    rw [storeSize_insert (by omega) hlen]
    exact ⟨rfl, h.new h0 (hr.resolve_left h0) hsize hlen⟩

theorem zmalloc_spec (h : Refines m u) (hsize : size.toNat + 8 < 2 ^ 64) (hr : Fresh u r) :
    Ensures (Aborts size r) (zmalloc m size r)
      (Returned (r.addr + 8) (Heap.malloc u size.toNat (behindHeader r))) := by
  have hdrop : (resize [] (size.toNat + 8) r.junk).drop 8 =
      resize [] size.toNat (behindHeader r).junk := by
    rw [drop_resize, List.drop_nil, Nat.add_sub_cancel, behindHeader]
  have hspec := header_spec h hsize hr (length_resize [] (size.toNat + 8) r.junk)
  rw [hdrop] at hspec
  rwa [zmalloc, Heap.malloc, toNat_add_header hsize]

theorem zcalloc_spec (h : Refines m u) (hsize : size.toNat + 8 < 2 ^ 64) (hr : Fresh u r) :
    Ensures (Aborts size r) (zcalloc m size r)
      (Returned (r.addr + 8) (Heap.calloc u size.toNat (behindHeader r))) := by
  have hdrop : (List.replicate (size.toNat + 8) (0 : UInt8)).drop 8 =
      List.replicate size.toNat 0 := by
    rw [List.drop_replicate, Nat.add_sub_cancel]
  have hspec := header_spec h hsize hr (List.length_replicate (n := size.toNat + 8) (a := 0))
  rw [hdrop] at hspec
  rwa [zcalloc, Heap.calloc, toNat_add_header hsize]

/-- `realloc` of the C library moves header and bytes together, so the
caller's bytes keep their place behind the header. -/
theorem zrealloc_spec (h : Refines m u) (hb : u.lookup p = some b)
    (hsize : size.toNat + 8 < 2 ^ 64) (hr : Fresh (u.erase p) r) :
    Ensures (Aborts size r) (zrealloc m p size r)
      (Returned (r.addr + 8) (Heap.realloc u p b size.toNat (behindHeader r))) := by
  obtain ⟨hraw, -, hp⟩ := h.raw hb
  rw [zrealloc, if_neg hp]
  show Ensures _ (Except.bind (loadSize m.heap (p - 8)) _) _
  rw [loadSize_frame hraw (h.small p b hb)]
  show Ensures _ (if r.addr = 0 then _ else _) _
  split
  · rename_i h0
    exact ⟨rfl, h0⟩
  · rename_i h0
    have hdrop : (resize (frame b) (size.toNat + 8) r.junk).drop 8 =
        resize b size.toNat (behindHeader r).junk := by
      rw [drop_resize, Nat.add_sub_cancel, behindHeader, drop_frame b 0, List.drop_zero]
    have hmoved := (h.erase hb).new h0 (hr.resolve_left h0) hsize
      (length_resize b size.toNat (behindHeader r).junk)
    have hused : updateZmallocStatAlloc
        (updateZmallocStatFree m.usedMemory (BitVec.ofNat 64 b.length)) size =
        updateZmallocStatAlloc (m.usedMemory - share b) (size + PREFIX_SIZE) := by
      rw [updateZmallocStatAlloc, updateZmallocStatAlloc, updateZmallocStatFree,
        padded_add_header, share]
      ring
    rw [libcRealloc, hraw]
    show Ensures _ (Except.bind (storeSize (Heap.realloc ..) _ _) _) _
    rw [Heap.realloc, toNat_add_header hsize, storeSize_insert (by rw [length_resize]; omega)
      (by rw [hdrop, length_resize]), hdrop]
    exact ⟨rfl, by rw [hused]; exact hmoved⟩

theorem zmallocSize_spec (h : Refines m u) (hb : u.lookup p = some b) :
    zmallocSize m p = .ok (share b) := by
  rw [zmallocSize, loadSize_frame (h.raw hb).1 (h.small p b hb)]
  rfl

theorem zfree_spec (h : Refines m u) (hb : u.lookup p = some b) :
    Ensures (fun _ => False) (zfree m p) (Refines · (u.erase p)) := by
  obtain ⟨hraw, -, hp⟩ := h.raw hb
  rw [zfree, if_neg hp]
  show Ensures _ (Except.bind (loadSize m.heap (p - 8)) _) _
  rw [loadSize_frame hraw (h.small p b hb)]
  show Ensures _ (Except.bind (libcFree m.heap (p - 8)) _) _
  rw [libcFree, if_pos (Finmap.mem_of_lookup_eq_some hraw)]
  show Refines ⟨m.heap.erase (p - 8), _⟩ (u.erase p)
  rw [updateZmallocStatFree, padded_add_header]
  exact h.erase hb

theorem copyIn_spec (off : ℕ) (src : List UInt8) (h : Refines m u) (hb : u.lookup p = some b)
    (hoff : off + src.length ≤ b.length) :
    Ensures (fun _ => False) (copyIn m p off src)
      (Refines · (u.insert p (overwrite b off src))) := by
  rw [copyIn, (h.raw hb).1]
  dsimp only
  rw [if_pos (by rw [length_frame]; omega), overwrite_frame hoff]
  exact h.write hb (length_overwrite hoff)

theorem copyOut_spec {off n : ℕ} (h : Refines m u) (hb : u.lookup p = some b)
    (hoff : off + n ≤ b.length) : copyOut m p off n = .ok ((b.drop off).take n) := by
  rw [copyOut, (h.raw hb).1]
  dsimp only
  rw [if_pos (by rw [length_frame]; omega), drop_frame]

theorem overwrite_all {b src : List UInt8} (h : src.length = b.length) :
    overwrite b 0 src = src := by
  rw [overwrite, List.take_zero, Nat.zero_add, h, List.drop_length, List.nil_append,
    List.append_nil]

/-- A block filled at once: what was in it does not matter. -/
theorem Refines.fill (h : Refines m (u.insert p b)) (src : List UInt8)
    (hlen : src.length = b.length) :
    Ensures (fun _ => False) (copyIn m p 0 src) (Refines · (u.insert p src)) := by
  have hcopy := copyIn_spec 0 src h (Finmap.lookup_insert u) (by omega)
  rwa [overwrite_all hlen, Finmap.insert_insert] at hcopy

theorem zstrdup_spec {s : List UInt8} (h : Refines m u) (hsize : s.length + 1 + 8 < 2 ^ 64)
    (hr : Fresh u r) :
    Ensures (Aborts (BitVec.ofNat 64 (s.length + 1)) r) (zstrdup m s r)
      (Returned (r.addr + 8) (u.insert (r.addr + 8) (s ++ [0]))) := by
  have hl : (BitVec.ofNat 64 (s.length + 1)).toNat = s.length + 1 :=
    Nat.mod_eq_of_lt (by omega)
  rw [zstrdup]
  refine (zmalloc_spec h (by rw [hl]; exact hsize) hr).bind fun res hres => ?_
  obtain ⟨p, m₁⟩ := res
  obtain ⟨rfl, h₁⟩ := hres
  have hcopy := h₁.fill (s ++ [0]) (by rw [length_resize, hl, List.length_append]; rfl)
  exact hcopy.of_total.bind fun m₂ h₂ => ⟨rfl, h₂⟩

/-- A size within a header of the largest one wraps around, and the header
does not fit into the block. -/
theorem zmalloc_wraps (hsize : 2 ^ 64 ≤ size.toNat + 8) (hr : r.addr ≠ 0) :
    zmalloc m size r = .error .undefined := by
  have hraw : (size + PREFIX_SIZE).toNat = size.toNat + 8 - 2 ^ 64 := by
    have hlt := size.isLt
    rw [BitVec.toNat_add, show PREFIX_SIZE.toNat = 8 from rfl]
    omega
  have hshort : ¬ 8 ≤ (resize [] (size + PREFIX_SIZE).toNat r.junk).length := by
    have hlt := size.isLt
    rw [length_resize, hraw]
    omega
  rw [zmalloc, if_neg hr, storeSize, Heap.malloc, Finmap.lookup_insert]
  dsimp only
  rw [if_neg hshort]
  rfl

end Specs

/-! ## Runs of calls -/

/-- What a caller does with the allocator and with its blocks. -/
inductive Call
  | zmalloc (size : BitVec 64)
  | zcalloc (size : BitVec 64)
  | zrealloc (ptr : ℕ) (size : BitVec 64)
  | zfree (ptr : ℕ)
  | zmallocSize (ptr : ℕ)
  | zmallocUsedMemory
  | zstrdup (s : List UInt8)
  | store (ptr off : ℕ) (src : List UInt8)
  | load (ptr off n : ℕ)

inductive Value
  | pointer (ptr : ℕ)
  | size (n : BitVec 64)
  | bytes (bs : List UInt8)
  | void
  deriving DecidableEq

def Zmem.call (m : Zmem) (c : Call) (r : Answer) : Except Fault (Value × Zmem) :=
  match c with
  | .zmalloc size => (Zmalloc.zmalloc m size r).map fun (p, m) => (.pointer p, m)
  | .zcalloc size => (Zmalloc.zcalloc m size r).map fun (p, m) => (.pointer p, m)
  | .zrealloc ptr size => (Zmalloc.zrealloc m ptr size r).map fun (p, m) => (.pointer p, m)
  | .zfree ptr => (Zmalloc.zfree m ptr).map fun m => (.void, m)
  | .zmallocSize ptr => (Zmalloc.zmallocSize m ptr).map fun n => (.size n, m)
  | .zmallocUsedMemory => .ok (.size m.usedMemory, m)
  | .zstrdup s => (Zmalloc.zstrdup m s r).map fun (p, m) => (.pointer p, m)
  | .store ptr off src => (copyIn m ptr off src).map fun m => (.void, m)
  | .load ptr off n => (copyOut m ptr off n).map fun bs => (.bytes bs, m)

def Zmem.calls (m : Zmem) : List (Call × Answer) → Except Fault (List Value × Zmem)
  | [] => .ok ([], m)
  | (c, r) :: rest => do
      let (v, m) ← m.call c r
      let (vs, m) ← m.calls rest
      .ok (v :: vs, m)

namespace Call

/-- What the caller has to respect: pointers it owns, or NULL where that is
allowed, accesses within its block, and sizes that leave room for a header. -/
def Legal (u : Heap (List UInt8)) : Call → Prop
  | .zmalloc size => size.toNat + 8 < 2 ^ 64
  | .zcalloc size => size.toNat + 8 < 2 ^ 64
  | .zrealloc ptr size => (ptr = 0 ∨ ptr ∈ u) ∧ size.toNat + 8 < 2 ^ 64
  | .zfree ptr => ptr = 0 ∨ ptr ∈ u
  | .zmallocSize ptr => ptr ∈ u
  | .zmallocUsedMemory => True
  | .zstrdup s => s.length + 1 + 8 < 2 ^ 64
  | .store ptr off src => ptr ∈ u ∧ off + src.length ≤ ((u.lookup ptr).getD []).length
  | .load ptr off n => ptr ∈ u ∧ off + n ≤ ((u.lookup ptr).getD []).length

/-- What the C library respects: a new block is apart from the live ones; the
one that is being resized may stay where it is. -/
def Answered (u : Heap (List UInt8)) (r : Answer) : Call → Prop
  | .zrealloc ptr _ => Fresh (u.erase ptr) r
  | _ => Fresh u r

/-- What the call does to the callers' heap. -/
def next (u : Heap (List UInt8)) (r : Answer) : Call → Heap (List UInt8)
  | .zmalloc size => Heap.malloc u size.toNat (behindHeader r)
  | .zcalloc size => Heap.calloc u size.toNat (behindHeader r)
  | .zrealloc ptr size =>
      Heap.realloc u ptr ((u.lookup ptr).getD []) size.toNat (behindHeader r)
  | .zfree ptr => u.erase ptr
  | .zstrdup s => u.insert (r.addr + 8) (s ++ [0])
  | .store ptr off src => u.insert ptr (overwrite ((u.lookup ptr).getD []) off src)
  | .zmallocSize _ | .zmallocUsedMemory | .load _ _ _ => u

/-- What the call returns, in terms of the callers' heap. -/
def value (u : Heap (List UInt8)) (r : Answer) : Call → Value
  | .zmalloc _ | .zcalloc _ | .zrealloc _ _ | .zstrdup _ => .pointer (r.addr + 8)
  | .zfree _ | .store _ _ _ => .void
  | .zmallocSize ptr => .size (share ((u.lookup ptr).getD []))
  | .zmallocUsedMemory => .size (total share u)
  | .load ptr off n => .bytes ((((u.lookup ptr).getD []).drop off).take n)

instance (u : Heap (List UInt8)) : (c : Call) → Decidable (c.Legal u)
  | .zmalloc size => inferInstanceAs (Decidable (size.toNat + 8 < 2 ^ 64))
  | .zcalloc size => inferInstanceAs (Decidable (size.toNat + 8 < 2 ^ 64))
  | .zrealloc ptr size =>
      inferInstanceAs (Decidable ((ptr = 0 ∨ ptr ∈ u) ∧ size.toNat + 8 < 2 ^ 64))
  | .zfree ptr => inferInstanceAs (Decidable (ptr = 0 ∨ ptr ∈ u))
  | .zmallocSize ptr => inferInstanceAs (Decidable (ptr ∈ u))
  | .zmallocUsedMemory => inferInstanceAs (Decidable True)
  | .zstrdup s => inferInstanceAs (Decidable (s.length + 1 + 8 < 2 ^ 64))
  | .store _ _ _ => inferInstanceAs (Decidable (_ ∧ _))
  | .load _ _ _ => inferInstanceAs (Decidable (_ ∧ _))

instance (u : Heap (List UInt8)) (r : Answer) : Decidable (Fresh u r) :=
  inferInstanceAs (Decidable (r.addr = 0 ∨ r.addr + 8 ∉ u))

instance (u : Heap (List UInt8)) (r : Answer) : (c : Call) → Decidable (c.Answered u r)
  | .zrealloc ptr _ => inferInstanceAs (Decidable (Fresh (u.erase ptr) r))
  | .zmalloc _ | .zcalloc _ | .zfree _ | .zmallocSize _ | .zmallocUsedMemory | .zstrdup _
  | .store _ _ _ | .load _ _ _ => inferInstanceAs (Decidable (Fresh u r))

end Call

def LegalRun : Heap (List UInt8) → List (Call × Answer) → Prop
  | _, [] => True
  | u, (c, r) :: rest => c.Legal u ∧ c.Answered u r ∧ LegalRun (c.next u r) rest

def after : Heap (List UInt8) → List (Call × Answer) → Heap (List UInt8)
  | u, [] => u
  | u, (c, r) :: rest => after (c.next u r) rest

def values : Heap (List UInt8) → List (Call × Answer) → List Value
  | _, [] => []
  | u, (c, r) :: rest => c.value u r :: values (c.next u r) rest

instance decidableLegalRun :
    ∀ (u : Heap (List UInt8)) (cs : List (Call × Answer)), Decidable (LegalRun u cs)
  | _, [] => inferInstanceAs (Decidable True)
  | u, (c, r) :: rest =>
      have := decidableLegalRun (c.next u r) rest
      inferInstanceAs (Decidable (c.Legal u ∧ c.Answered u r ∧ LegalRun (c.next u r) rest))

section Runs

variable {m : Zmem} {u : Heap (List UInt8)} {r : Answer}

theorem lookup_of_mem {p : ℕ} (hp : p ∈ u) : u.lookup p = some ((u.lookup p).getD []) := by
  obtain ⟨b, hb⟩ := Finmap.mem_iff.mp hp
  rw [hb, Option.getD_some]

/-- The heap of a caller whose block is at NULL: there is none. -/
theorem erase_null (h : Refines m u) : u.erase 0 = u := by
  refine Finmap.ext_lookup fun x => ?_
  by_cases hx : x = 0
  · have hnull : (0 : ℕ) ∉ u := fun h0 => absurd (h.pointer 0 h0) (by omega)
    rw [hx, Finmap.lookup_erase, Finmap.lookup_eq_none.mpr hnull]
  · exact Finmap.lookup_erase_ne hx

theorem call_spec {c : Call} (h : Refines m u) (hc : c.Legal u) (hr : c.Answered u r) :
    Ensures (fun e => ∃ size, Aborts size r e) (m.call c r)
      (fun res => res.1 = c.value u r ∧ Refines res.2 (c.next u r)) := by
  have hpointer : ∀ {x : Except Fault (ℕ × Zmem)} {size : BitVec 64} {u' : Heap (List UInt8)},
      Ensures (Aborts size r) x (Returned (r.addr + 8) u') →
      Ensures (fun e => ∃ size, Aborts size r e) (x.map fun (p, m) => (Value.pointer p, m))
        fun res => res.1 = .pointer (r.addr + 8) ∧ Refines res.2 u' := fun hx =>
    (hx.relax fun e he => ⟨_, he⟩).map fun _ hres => ⟨congrArg Value.pointer hres.1, hres.2⟩
  cases c with
  | zmalloc size => exact hpointer (zmalloc_spec h hc hr)
  | zcalloc size => exact hpointer (zcalloc_spec h hc hr)
  | zrealloc ptr size =>
      obtain ⟨hptr, hsize⟩ := hc
      rcases hptr with rfl | hptr
      · have hnull : u.lookup 0 = none :=
          Finmap.lookup_eq_none.mpr fun h0 => absurd (h.pointer 0 h0) (by omega)
        rw [Call.Answered, erase_null h] at hr
        show Ensures _ (Except.map _ (zrealloc m 0 size r)) _
        rw [zrealloc, if_pos rfl, Call.next, hnull, Option.getD_none, Heap.realloc, erase_null h]
        exact hpointer (zmalloc_spec h hsize hr)
      · exact hpointer (zrealloc_spec h (lookup_of_mem hptr) hsize hr)
  | zfree ptr =>
      have hfree : Ensures (fun _ => False) (zfree m ptr) (Refines · (u.erase ptr)) := by
        rcases hc with rfl | hptr
        · rw [zfree, if_pos rfl, erase_null h]
          exact h
        · exact zfree_spec h (lookup_of_mem hptr)
      exact hfree.of_total.map fun _ h' => ⟨rfl, h'⟩
  | zmallocSize ptr =>
      have hsize := zmallocSize_spec h (lookup_of_mem hc)
      show Ensures _ (Except.map _ (zmallocSize m ptr)) _
      rw [hsize]
      exact ⟨rfl, h⟩
  | zmallocUsedMemory => exact ⟨congrArg Value.size h.used, h⟩
  | zstrdup s => exact hpointer (zstrdup_spec h hc hr)
  | store ptr off src =>
      have hcopy := copyIn_spec off src h (lookup_of_mem hc.1) hc.2
      exact hcopy.of_total.map fun _ h' => ⟨rfl, h'⟩
  | load ptr off n =>
      have hcopy := copyOut_spec h (lookup_of_mem hc.1) hc.2
      show Ensures _ (Except.map _ (copyOut m ptr off n)) _
      rw [hcopy]
      exact ⟨rfl, h⟩

theorem calls_spec {cs : List (Call × Answer)} (h : Refines m u) (hcs : LegalRun u cs) :
    Ensures (fun e => ∃ size, e = Fault.outOfMemory size ∧ ∃ cr ∈ cs, cr.2.addr = 0) (m.calls cs)
      (fun res => res.1 = values u cs ∧ Refines res.2 (after u cs)) := by
  induction cs generalizing m u with
  | nil => exact ⟨rfl, h⟩
  | cons cr rest ih =>
      obtain ⟨c, r⟩ := cr
      obtain ⟨hc, hr, hrest⟩ := hcs
      have hstep := (call_spec h hc hr).relax fun e ⟨size, he, h0⟩ =>
        (⟨size, he, (c, r), List.mem_cons_self, h0⟩ :
          ∃ size, e = Fault.outOfMemory size ∧ ∃ cr ∈ (c, r) :: rest, cr.2.addr = 0)
      refine hstep.bind fun res hres => ?_
      obtain ⟨v, m₁⟩ := res
      obtain ⟨rfl, h₁⟩ := hres
      have hrun := (ih h₁ hrest).relax fun e ⟨size, he, cr, hmem, h0⟩ =>
        (⟨size, he, cr, List.mem_cons_of_mem _ hmem, h0⟩ :
          ∃ size, e = Fault.outOfMemory size ∧ ∃ cr ∈ (c, r) :: rest, cr.2.addr = 0)
      exact hrun.bind fun res hres => ⟨congrArg _ hres.1, hres.2⟩

end Runs

/-- Whatever calls a caller makes, as long as it respects the interface: the
program ends only when the C library has no memory, and until then every
call returns what it returns on the plain heap of the callers' bytes, the
counter included, which is the sum of `zmalloc_size` over the live blocks. -/
theorem zmalloc_holding (cs : List (Call × Answer)) (h : LegalRun ∅ cs) :
    Ensures (fun e => ∃ size, e = Fault.outOfMemory size ∧ ∃ cr ∈ cs, cr.2.addr = 0)
      (Zmem.init.calls cs)
      fun (vs, m) => vs = values ∅ cs ∧ Refines m (after ∅ cs) ∧
        m.usedMemory = total share (after ∅ cs) ∧
        ∀ p b, (after ∅ cs).lookup p = some b → zmallocSize m p = .ok (share b) :=
  (calls_spec Refines.init h).mono fun _ hres =>
    ⟨hres.1, hres.2, hres.2.used, fun _ _ hb => zmallocSize_spec hres.2 hb⟩

/-- A block that grows at a new address, and one that the C library put where
the first had been. -/
def growing : List (Call × Answer) :=
  [(.zmalloc 3, ⟨64, fun _ => 7⟩), (.store 72 0 [1, 2, 3], ⟨0, fun _ => 0⟩),
    (.zrealloc 72 9, ⟨128, fun _ => 7⟩), (.zcalloc 1, ⟨64, fun _ => 0⟩),
    (.zfree 136, ⟨0, fun _ => 0⟩), (.zmallocUsedMemory, ⟨0, fun _ => 0⟩)]

theorem zmalloc_holding_growing :
    LegalRun ∅ growing ∧ (values ∅ growing).getLast? = some (.size 16) ∧
      Ensures (fun e => ∃ size, e = Fault.outOfMemory size ∧ ∃ cr ∈ growing, cr.2.addr = 0)
        (Zmem.init.calls growing) fun (vs, m) =>
          vs = values ∅ growing ∧ Refines m (after ∅ growing) ∧
          m.usedMemory = total share (after ∅ growing) ∧
          ∀ p b, (after ∅ growing).lookup p = some b → zmallocSize m p = .ok (share b) :=
  ⟨by decide +kernel, by decide +kernel, zmalloc_holding growing (by decide +kernel)⟩

end WrkQuic.Zmalloc
