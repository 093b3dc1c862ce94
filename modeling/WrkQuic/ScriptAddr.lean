import WrkQuic.Lib.Runs
import WrkQuic.Zmalloc

/-!
# Addresses between Lua and the threads

`wrk.lookup` hands the addresses of a host to Lua as userdata, reading
`thread.addr` makes a userdata of a thread's address, assigning it copies
one into the thread, and the collector frees what a userdata owns. Each
copy is a `struct addrinfo` of its own whose `ai_addr` points to a block of
its own, both of which the functions of script.c manage by hand.

The state is the memory itself: the userdata hold pointers, and the
`struct addrinfo` of a thread is 48 bytes in a block. Of Lua only the life
of the userdata is modelled: each is named by a number, and `scriptAddrGc`
is the collector's run of the finalizer, after which nothing refers to it.
-/

namespace WrkQuic.ScriptAddr

open Blocks Outcomes Zmalloc

/-! ## `struct addrinfo` -/

structure Addrinfo where
  flags : BitVec 32
  family : BitVec 32
  socktype : BitVec 32
  protocol : BitVec 32
  addrlen : BitVec 32
  addr : BitVec 64
  canonname : BitVec 64
  next : BitVec 64
  deriving DecidableEq

namespace Addrinfo

def toBytes (i : Addrinfo) : List UInt8 :=
  leBytes 4 i.flags.toNat ++ (leBytes 4 i.family.toNat ++ (leBytes 4 i.socktype.toNat ++
    (leBytes 4 i.protocol.toNat ++ (leBytes 4 i.addrlen.toNat ++ (leBytes 4 0 ++
      (leBytes 8 i.addr.toNat ++ (leBytes 8 i.canonname.toNat ++ leBytes 8 i.next.toNat)))))))

/-- The number of `n` bytes at offset `off`. -/
def word (bs : List UInt8) (off n : ℕ) : ℕ := ofLeBytes ((bs.drop off).take n)

def ofBytes (bs : List UInt8) : Addrinfo where
  flags := .ofNat 32 (word bs 0 4)
  family := .ofNat 32 (word bs 4 4)
  socktype := .ofNat 32 (word bs 8 4)
  protocol := .ofNat 32 (word bs 12 4)
  addrlen := .ofNat 32 (word bs 16 4)
  addr := .ofNat 64 (word bs 24 8)
  canonname := .ofNat 64 (word bs 32 8)
  next := .ofNat 64 (word bs 40 8)

@[simp] theorem length_toBytes (i : Addrinfo) : i.toBytes.length = 48 := by
  simp only [toBytes, List.length_append, length_leBytes]

/-- A word in front of the others. -/
theorem word_zero (n x : ℕ) (rest : List UInt8) (h : x < 256 ^ n) :
    word (leBytes n x ++ rest) 0 n = x := by
  rw [word, List.drop_zero, List.take_append_of_le_length (by rw [length_leBytes]),
    List.take_of_length_le (by rw [length_leBytes]), ofLeBytes_leBytes h]

/-- A word behind another. -/
theorem word_add (k off n x : ℕ) (rest : List UInt8) :
    word (leBytes k x ++ rest) (k + off) n = word rest off n := by
  rw [word, List.drop_append, length_leBytes, Nat.add_sub_cancel_left,
    List.drop_eq_nil_of_le (by rw [length_leBytes]; omega), List.nil_append, word]

theorem toNat_lt_word {w n : ℕ} (x : BitVec w) (h : 2 ^ w = 256 ^ n) : x.toNat < 256 ^ n :=
  h ▸ x.isLt

theorem ofBytes_toBytes (i : Addrinfo) : ofBytes i.toBytes = i := by
  have h32 : ∀ x : BitVec 32, x.toNat < 256 ^ 4 := fun x => toNat_lt_word x (by rfl)
  have h64 : ∀ x : BitVec 64, x.toNat < 256 ^ 8 := fun x => toNat_lt_word x (by rfl)
  have hlast : ∀ x : BitVec 64, word (leBytes 8 x.toNat) 0 8 = x.toNat := fun x => by
    rw [← List.append_nil (leBytes 8 x.toNat), word_zero 8 _ _ (h64 x)]
  have hflags : word i.toBytes 0 4 = i.flags.toNat := word_zero 4 _ _ (h32 _)
  have hfamily : word i.toBytes 4 4 = i.family.toNat := by
    rw [toBytes, word_add 4 0, word_zero 4 _ _ (h32 _)]
  have hsocktype : word i.toBytes 8 4 = i.socktype.toNat := by
    rw [toBytes, word_add 4 4, word_add 4 0, word_zero 4 _ _ (h32 _)]
  have hprotocol : word i.toBytes 12 4 = i.protocol.toNat := by
    rw [toBytes, word_add 4 8, word_add 4 4, word_add 4 0, word_zero 4 _ _ (h32 _)]
  have haddrlen : word i.toBytes 16 4 = i.addrlen.toNat := by
    rw [toBytes, word_add 4 12, word_add 4 8, word_add 4 4, word_add 4 0, word_zero 4 _ _ (h32 _)]
  have haddr : word i.toBytes 24 8 = i.addr.toNat := by
    rw [toBytes, word_add 4 20, word_add 4 16, word_add 4 12, word_add 4 8, word_add 4 4,
      word_add 4 0, word_zero 8 _ _ (h64 _)]
  have hcanonname : word i.toBytes 32 8 = i.canonname.toNat := by
    rw [toBytes, word_add 4 28, word_add 4 24, word_add 4 20, word_add 4 16, word_add 4 12,
      word_add 4 8, word_add 8 0, word_zero 8 _ _ (h64 _)]
  have hnext : word i.toBytes 40 8 = i.next.toNat := by
    rw [toBytes, word_add 4 36, word_add 4 32, word_add 4 28, word_add 4 24, word_add 4 20,
      word_add 4 16, word_add 8 8, word_add 8 0, hlast]
  simp only [ofBytes, hflags, hfamily, hsocktype, hprotocol, haddrlen, haddr, hcanonname, hnext,
    BitVec.ofNat_toNat, BitVec.setWidth_eq]

end Addrinfo

/-! ## The state -/

/-- The C library's allocator: the answer to the n-th allocation, given the
blocks that are live then. It never hands out a live block. -/
structure Libc where
  answer : ℕ → Heap (List UInt8) → Answer
  fresh : ∀ n h, (answer n h).addr = 0 ∨
    (answer n h).addr ∉ h ∧ (answer n h).addr + 8 < 2 ^ 64

/-- The memory, the userdata of type `wrk.addr`, `t->addr` of every thread,
and what `getaddrinfo` allocated and `freeaddrinfo` has not freed. -/
structure State where
  mem : Zmem
  clock : ℕ
  udata : Finmap fun _ : ℕ => Addrinfo
  threadAddr : ℕ → ℕ
  resolver : Finmap fun _ : ℕ => List UInt8

/-- How a run ends early: the C library refuses allocation `n`, asked for it
with the live blocks `h`, or a function does what C leaves undefined. -/
inductive Failure
  | refused (n : ℕ) (h : Heap (List UInt8))
  | undefined

/-- Of an allocation. -/
def Failure.of (n : ℕ) (h : Heap (List UInt8)) : Fault → Failure
  | .outOfMemory _ => .refused n h
  | .undefined => .undefined

namespace State

variable (lib : Libc) (s : State)

def init : State := ⟨.init, 0, ∅, fun _ => 0, ∅⟩

def zmalloc (size : BitVec 64) : Except Failure (ℕ × State) := do
  let (p, mem) ← (Zmalloc.zmalloc s.mem size (lib.answer s.clock s.mem.heap)).mapError
    (.of s.clock s.mem.heap)
  .ok (p, { s with mem, clock := s.clock + 1 })

/-- The block that is being resized may stay where it is. -/
def zrealloc (ptr : ℕ) (size : BitVec 64) : Except Failure (ℕ × State) := do
  let heap := s.mem.heap.erase (ptr - 8)
  let (p, mem) ← (Zmalloc.zrealloc s.mem ptr size (lib.answer s.clock heap)).mapError
    (.of s.clock heap)
  .ok (p, { s with mem, clock := s.clock + 1 })

def copyIn (ptr : ℕ) (src : List UInt8) : Except Failure State := do
  let mem ← (Zmalloc.copyIn s.mem ptr 0 src).mapError fun _ => .undefined
  .ok { s with mem }

def zfree (ptr : ℕ) : Except Failure State := do
  let mem ← (Zmalloc.zfree s.mem ptr).mapError fun _ => .undefined
  .ok { s with mem }

def load (ptr n : ℕ) : Except Failure (List UInt8) :=
  (copyOut s.mem ptr 0 n).mapError fun _ => .undefined

/-- The `ai_addrlen` bytes at `ai_addr`: in the resolver's memory or in ours. -/
def sockaddr (src : Addrinfo) : Except Failure (List UInt8) :=
  match s.resolver.lookup src.addr.toNat with
  | some bs =>
      if src.addrlen.toNat ≤ bs.length then .ok (bs.take src.addrlen.toNat)
      else .error .undefined
  | none => s.load src.addr.toNat src.addrlen.toNat

/-- `*t->addr` -/
def loadThreadAddr (t : ℕ) : Except Failure Addrinfo :=
  if s.threadAddr t = 0 then .error .undefined
  else do
    let bs ← s.load (s.threadAddr t) 48
    .ok (.ofBytes bs)

/-- The userdata on top of the Lua stack; a value of another type would be a
Lua error. -/
def checkaddr (h : ℕ) : Except Failure Addrinfo :=
  match s.udata.lookup h with
  | some i => .ok i
  | none => .error .undefined

/-! ## The functions of script.c -/

/-- Where `script_addr_copy` copies to. -/
inductive Dest
  | udata (h : ℕ)
  | block (ptr : ℕ)

def store (i : Addrinfo) : Dest → Except Failure State
  | .udata h => .ok { s with udata := s.udata.insert h i }
  | .block ptr => s.copyIn ptr i.toBytes

def scriptAddrCopy (src : Addrinfo) (dst : Dest) : Except Failure State := do
  let s ← s.store src dst
  let (q, s) ← s.zmalloc lib (src.addrlen.setWidth 64)
  let s ← s.store { src with addr := .ofNat 64 q } dst
  let bs ← s.sockaddr src
  s.copyIn q bs

/-- `h` is the userdata that Lua allocates. -/
def scriptAddrClone (h : ℕ) (addr : Addrinfo) : Except Failure State :=
  s.scriptAddrCopy lib addr (.udata h)

/-- The finalizer, after which Lua frees the userdata. -/
def scriptAddrGc (h : ℕ) : Except Failure State := do
  let addr ← s.checkaddr h
  let s ← s.zfree addr.addr.toNat
  .ok { s with udata := s.udata.erase h }

/-- `thread.addr` -/
def scriptThreadIndex (t h : ℕ) : Except Failure State := do
  let addr ← s.loadThreadAddr t
  s.scriptAddrClone lib h addr

/-- `if (t->addr) zfree(t->addr->ai_addr);` -/
def freeThreadSockaddr (t : ℕ) : Except Failure State :=
  if s.threadAddr t = 0 then .ok s
  else do
    let old ← s.loadThreadAddr t
    s.zfree old.addr.toNat

/-- `thread.addr = addr` -/
def scriptThreadNewindex (t h : ℕ) : Except Failure State := do
  let addr ← s.checkaddr h
  let s ← s.freeThreadSockaddr t
  let (p, s) ← s.zrealloc lib (s.threadAddr t) 48
  let s := { s with threadAddr := Function.update s.threadAddr t p }
  s.scriptAddrCopy lib addr (.block p)

/-- The loop over the list that `getaddrinfo` returned. -/
def cloneAll (s : State) : List Addrinfo → List ℕ → Except Failure State
  | addr :: addrs, h :: hs => do
      let s ← s.scriptAddrClone lib h addr
      cloneAll s addrs hs
  | _, _ => .ok s

/-- `getaddrinfo` succeeds with the list `addrs` and the memory it points
into; on failure the program exits. -/
def scriptWrkLookup (addrs : List Addrinfo) (resolver : Finmap fun _ : ℕ => List UInt8)
    (hs : List ℕ) : Except Failure State := do
  let s ← ({ s with resolver } : State).cloneAll lib addrs hs
  -- freeaddrinfo(addrs)
  .ok { s with resolver := ∅ }

end State

/-- What a socket is made for and connected to. -/
structure Dialled where
  family : BitVec 32
  socktype : BitVec 32
  protocol : BitVec 32
  sockaddr : List UInt8
  deriving DecidableEq

def dialled (i : Addrinfo) (sockaddr : List UInt8) : Dialled :=
  ⟨i.family, i.socktype, i.protocol, sockaddr⟩

/-- `script_wrk_connect`: what it gives to `socket` and `connect`. -/
def State.scriptWrkConnect (s : State) (h : ℕ) : Except Failure Dialled := do
  let addr ← s.checkaddr h
  let bs ← s.sockaddr addr
  .ok (dialled addr bs)

/-- `tcp_connect_socket`: the same, from the address of its thread. -/
def State.connectSocket (s : State) (t : ℕ) : Except Failure Dialled := do
  let addr ← s.loadThreadAddr t
  let bs ← s.sockaddr addr
  .ok (dialled addr bs)

end WrkQuic.ScriptAddr
