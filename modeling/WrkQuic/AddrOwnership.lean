import Mathlib.Data.Finset.Max
import WrkQuic.ScriptAddr

/-!
# Every address has one owner

`Values` says what the addresses of script.c are for: every userdata and
every thread has an address of its own, and all that ever happens is that
addresses are copied. The memory implements it (`Sim`): a userdata owns the
block of its socket address, a thread owns two, that of its `struct
addrinfo` and that of the socket address, and these are all the blocks
there are. A block is then freed once, by its owner, and nothing is read
after it was freed, in whatever order Lua copies, assigns and collects.

The functions are verified one by one against a map from the owners to
their blocks (`Held`); assembling the maps that `contents` gives before and
after is all that is left for a step.
-/

namespace WrkQuic.ScriptAddr

open Blocks Outcomes Zmalloc

/-! ## The values -/

/-- An address: what is copied of a `struct addrinfo`, and the socket
address, whose length a `socklen_t` holds. -/
structure Address where
  flags : BitVec 32
  family : BitVec 32
  socktype : BitVec 32
  protocol : BitVec 32
  canonname : BitVec 64
  next : BitVec 64
  sockaddr : List UInt8
  short : sockaddr.length < 2 ^ 32
  deriving DecidableEq

namespace Address

/-- The address with its socket address at `p`. -/
def info (a : Address) (p : ℕ) : Addrinfo :=
  ⟨a.flags, a.family, a.socktype, a.protocol, .ofNat 32 a.sockaddr.length, .ofNat 64 p,
    a.canonname, a.next⟩

def dialled (a : Address) : Dialled := ⟨a.family, a.socktype, a.protocol, a.sockaddr⟩

theorem addrlen_info (a : Address) (p : ℕ) : (a.info p).addrlen.toNat = a.sockaddr.length :=
  Nat.mod_eq_of_lt a.short

theorem addr_info (a : Address) {p : ℕ} (hp : p < 2 ^ 64) : (a.info p).addr.toNat = p :=
  Nat.mod_eq_of_lt hp

end Address

/-- The address of every userdata and of every thread that has one. -/
structure Values where
  handles : Finmap fun _ : ℕ => Address
  threads : ℕ → Option Address

/-! ## Owners and their blocks -/

inductive Owner
  | handle (h : ℕ)
  | struct (t : ℕ)
  | sockaddr (t : ℕ)
  deriving DecidableEq

abbrev Owned := Owner → Option (ℕ × List UInt8)

/-- The memory of `s` holds the blocks of `owned` and no others. -/
def Held (s : State) (owned : Owned) : Prop :=
  ∃ u, Refines s.mem u ∧ OwnedBy owned u ∧ ∀ o p b, owned o = some (p, b) → p < 2 ^ 64

/-- A function that works on the memory alone. -/
structure Frame (s s' : State) : Prop where
  udata : s'.udata = s.udata
  threadAddr : s'.threadAddr = s.threadAddr
  resolver : s'.resolver = s.resolver

theorem Frame.trans {s₁ s₂ s₃ : State} (h : Frame s₁ s₂) (h' : Frame s₂ s₃) : Frame s₁ s₃ :=
  ⟨h'.udata.trans h.udata, h'.threadAddr.trans h.threadAddr, h'.resolver.trans h.resolver⟩

/-- `zmalloc_oom`, the one way the program can end: the C library had no
memory for the allocation that the run asked it for. -/
def Oom (lib : Libc) (e : Failure) : Prop :=
  ∃ n h, e = .refused n h ∧ (lib.answer n h).addr = 0

theorem oom_of_aborts {lib : Libc} {size : BitVec 64} {n : ℕ} {h : Heap (List UInt8)} (e : Fault)
    (he : Aborts size (lib.answer n h) e) : Oom lib (.of n h e) := by
  obtain ⟨rfl, hanswer⟩ := he
  exact ⟨n, h, rfl, hanswer⟩

section Memory

variable {lib : Libc} {s : State} {owned : Owned} {o : Owner} {p : ℕ} {b src : List UInt8}
  {size : BitVec 64}

theorem space_update {q : ℕ} {b' : List UInt8} (hq : q < 2 ^ 64)
    (h : ∀ o p b, owned o = some (p, b) → p < 2 ^ 64) :
    ∀ o' p b, Function.update owned o (some (q, b')) o' = some (p, b) → p < 2 ^ 64 := by
  intro o' p b ho'
  by_cases hoo : o' = o
  · rw [hoo, Function.update_self] at ho'
    cases ho'
    exact hq
  · rw [Function.update_of_ne hoo] at ho'
    exact h o' p b ho'

theorem space_free (h : ∀ o p b, owned o = some (p, b) → p < 2 ^ 64) :
    ∀ o' p b, Function.update owned o none o' = some (p, b) → p < 2 ^ 64 := by
  intro o' p b ho'
  by_cases hoo : o' = o
  · rw [hoo, Function.update_self] at ho'
    cases ho'
  · rw [Function.update_of_ne hoo] at ho'
    exact h o' p b ho'

/-- An address that is none of the C library's blocks is none of ours. -/
theorem fresh_of_notMem {m : Zmem} {u : Heap (List UInt8)} {a : ℕ} (h : Refines m u)
    (ha : a ∉ m.heap) : a + 8 ∉ u := by
  have hnone := Finmap.lookup_eq_none.mpr ha
  rw [h.block, Option.map_eq_none_iff] at hnone
  exact Finmap.lookup_eq_none.mp hnone

/-- What a function did: the memory holds `owned'`, Lua is as it was. -/
def Leaves (s : State) (owned' : Owned) (s' : State) : Prop := Held s' owned' ∧ Frame s s'

/-- A new block of the size for the owner `o`. -/
def Gives (s : State) (owned : Owned) (o : Owner) (n : ℕ) (res : ℕ × State) : Prop :=
  ∃ b, b.length = n ∧ res.1 ≠ 0 ∧ res.1 < 2 ^ 64 ∧
    Leaves s (Function.update owned o (some (res.1, b))) res.2

/-- A function returned a new block, so the C library had one. -/
theorem answered_of_refines {m : Zmem} {u : Heap (List UInt8)} {r : Answer} {b : List UInt8}
    (h : Refines m (u.insert (r.addr + 8) b)) : r.addr ≠ 0 := by
  have hp := h.pointer (r.addr + 8) (Finmap.mem_insert.mpr (Or.inl rfl))
  omega

theorem Held.zmalloc (h : Held s owned) (lib : Libc) (ho : owned o = none)
    (hsize : size.toNat + 8 < 2 ^ 64) :
    Ensures (Oom lib) (s.zmalloc lib size) (Gives s owned o size.toNat) := by
  obtain ⟨u, href, howns, hspace⟩ := h
  have hlib := lib.fresh s.clock s.mem.heap
  have hmalloc := zmalloc_spec href hsize (r := lib.answer s.clock s.mem.heap)
    (hlib.imp id fun hn => fresh_of_notMem href hn.1)
  refine (hmalloc.mapError oom_of_aborts).bind fun res hres => ?_
  obtain ⟨q, m⟩ := res
  obtain ⟨rfl, href'⟩ := hres
  obtain ⟨hnot, hlt⟩ := hlib.resolve_left (answered_of_refines href')
  exact ⟨_, length_resize .., Nat.succ_ne_zero _, hlt,
    ⟨_, href', howns.alloc (fresh_of_notMem href hnot) ho, space_update hlt hspace⟩, rfl, rfl, rfl⟩

theorem Held.copyIn (h : Held s owned) (src : List UInt8) (ho : owned o = some (p, b))
    (hlen : src.length = b.length) :
    Ensures (fun _ => False) (s.copyIn p src)
      (Leaves s (Function.update owned o (some (p, src)))) := by
  obtain ⟨u, href, howns, hspace⟩ := h
  have hlookup := howns.lookup ho
  have hcopy := copyIn_spec 0 src href hlookup (by omega)
  rw [overwrite_all hlen] at hcopy
  exact (hcopy.mapError fun _ => id).bind fun m href' => ⟨⟨_, href', howns.write ho,
    space_update (hspace o p b ho) hspace⟩, rfl, rfl, rfl⟩

theorem Held.zfree (h : Held s owned) (ho : owned o = some (p, b)) :
    Ensures (fun _ => False) (s.zfree p) (Leaves s (Function.update owned o none)) := by
  obtain ⟨u, href, howns, hspace⟩ := h
  exact ((zfree_spec href (howns.lookup ho)).mapError fun _ => id).bind fun m href' =>
    ⟨⟨_, href', howns.free ho, space_free hspace⟩, rfl, rfl, rfl⟩

theorem Held.load (h : Held s owned) (ho : owned o = some (p, b)) :
    s.load p b.length = .ok b := by
  obtain ⟨u, href, howns, -⟩ := h
  rw [State.load, copyOut_spec href (howns.lookup ho) (by omega), List.drop_zero,
    List.take_length]
  rfl

theorem Held.ne_zero (h : Held s owned) (ho : owned o = some (p, b)) : p ≠ 0 := by
  obtain ⟨u, href, howns, -⟩ := h
  exact (href.raw (howns.lookup ho)).2.2

/-- `realloc(NULL, size)` is the first block of its owner. -/
theorem Held.zrealloc_null (h : Held s owned) (ho : owned o = none)
    (hsize : size.toNat + 8 < 2 ^ 64) :
    Ensures (Oom lib) (s.zrealloc lib 0 size) (Gives s owned o size.toNat) := by
  obtain ⟨u, href, howns, hspace⟩ := h
  have hlib := lib.fresh s.clock (s.mem.heap.erase (0 - 8))
  have hnot : ∀ {a : ℕ}, a ≠ 0 → a ∉ s.mem.heap.erase (0 - 8) → a + 8 ∉ u := fun ha hmem =>
    fresh_of_notMem href fun h0 => hmem (Finmap.mem_erase.mpr ⟨ha, h0⟩)
  have hmalloc := zmalloc_spec href hsize (r := lib.answer s.clock (s.mem.heap.erase (0 - 8)))
    (or_iff_not_imp_left.mpr fun h0 => hnot h0 (hlib.resolve_left h0).1)
  refine (hmalloc.mapError oom_of_aborts).bind fun res hres => ?_
  obtain ⟨q, m⟩ := res
  obtain ⟨rfl, href'⟩ := hres
  have hne := answered_of_refines href'
  obtain ⟨hmem, hlt⟩ := hlib.resolve_left hne
  exact ⟨_, length_resize .., Nat.succ_ne_zero _, hlt,
    ⟨_, href', howns.alloc (hnot hne hmem) ho, space_update hlt hspace⟩, rfl, rfl, rfl⟩

theorem Held.zrealloc (h : Held s owned) (ho : owned o = some (p, b))
    (hsize : size.toNat + 8 < 2 ^ 64) :
    Ensures (Oom lib) (s.zrealloc lib p size) (Gives s owned o size.toNat) := by
  obtain ⟨u, href, howns, hspace⟩ := h
  have hlib := lib.fresh s.clock (s.mem.heap.erase (p - 8))
  have hlookup := howns.lookup ho
  have hnot : ∀ {a : ℕ}, a ∉ s.mem.heap.erase (p - 8) → a + 8 ∉ u.erase p := fun hmem =>
    fresh_of_notMem (href.erase hlookup) hmem
  have hrealloc := zrealloc_spec href hlookup hsize
    (r := lib.answer s.clock (s.mem.heap.erase (p - 8))) (hlib.imp id fun hn => hnot hn.1)
  refine (hrealloc.mapError oom_of_aborts).bind fun res hres => ?_
  obtain ⟨q, m⟩ := res
  obtain ⟨rfl, href'⟩ := hres
  obtain ⟨hmem, hlt⟩ := hlib.resolve_left (answered_of_refines href')
  exact ⟨_, length_resize .., Nat.succ_ne_zero _, hlt,
    ⟨_, href', howns.move ho (hnot hmem), space_update hlt hspace⟩, rfl, rfl, rfl⟩

end Memory

/-! ## Copying an address -/

/-- The socket address of `src` is `bs`, in the block of an owner or, when
there is none, in the resolver's memory. -/
def Sourced (s : State) (owned : Owned) (src : Addrinfo) (bs : List UInt8) : Option Owner → Prop
  | some o => s.resolver.lookup src.addr.toNat = none ∧ owned o = some (src.addr.toNat, bs) ∧
      bs.length = src.addrlen.toNat
  | none => ∃ full, s.resolver.lookup src.addr.toNat = some full ∧
      src.addrlen.toNat ≤ full.length ∧ bs = full.take src.addrlen.toNat

section Copy

variable {lib : Libc} {s s' : State} {owned owned' : Owned} {o os : Owner} {p h : ℕ}
  {b bs : List UInt8} {src : Addrinfo} {source : Option Owner}

theorem Sourced.length (hs : Sourced s owned src bs source) : bs.length = src.addrlen.toNat := by
  cases source with
  | none =>
      obtain ⟨full, -, hle, rfl⟩ := hs
      rw [List.length_take, Nat.min_eq_left hle]
  | some o => exact hs.2.2

theorem Sourced.mono (hs : Sourced s owned src bs source) (s' : State)
    (hres : s'.resolver = s.resolver)
    (howned : ∀ o, source = some o → owned' o = owned o) : Sourced s' owned' src bs source := by
  cases source with
  | none =>
      obtain ⟨full, hfull, hrest⟩ := hs
      exact ⟨full, by rw [hres, hfull], hrest⟩
  | some o => exact ⟨by rw [hres, hs.1], by rw [howned o rfl, hs.2.1], hs.2.2⟩

theorem Held.sockaddr (hheld : Held s owned) (hs : Sourced s owned src bs source) :
    s.sockaddr src = .ok bs := by
  rw [State.sockaddr]
  cases source with
  | none =>
      obtain ⟨full, hfull, hle, rfl⟩ := hs
      rw [hfull]
      exact if_pos hle
  | some o =>
      rw [hs.1, ← hs.2.2]
      exact hheld.load hs.2.1

theorem toNat_addrlen (src : Addrinfo) :
    (src.addrlen.setWidth 64).toNat = src.addrlen.toNat := by
  have hlt := src.addrlen.isLt
  rw [BitVec.toNat_setWidth]
  omega

theorem addrlen_small (src : Addrinfo) : (src.addrlen.setWidth 64).toNat + 8 < 2 ^ 64 := by
  have hlt := src.addrlen.isLt
  rw [toNat_addrlen]
  omega

/-- Copying an address to a new userdata. -/
theorem Held.scriptAddrClone (hheld : Held s owned) (ho : owned o = none)
    (hs : Sourced s owned src bs source) :
    Ensures (Oom lib) (s.scriptAddrClone lib h src) fun s' => ∃ q < 2 ^ 64,
      Held s' (Function.update owned o (some (q, bs))) ∧
      s'.udata = s.udata.insert h { src with addr := .ofNat 64 q } ∧
      s'.threadAddr = s.threadAddr ∧ s'.resolver = s.resolver := by
  have hkeep : ∀ {b' : Option (ℕ × List UInt8)} (o' : Owner), source = some o' →
      Function.update owned o b' o' = owned o' := fun {b'} o' hsource => by
    subst hsource
    refine Function.update_of_ne (fun hoo => ?_) _ _
    rw [hoo] at hs
    rw [hs.2.1] at ho
    cases ho
  have hmalloc := Held.zmalloc (s := { s with udata := s.udata.insert h src }) hheld lib ho
    (addrlen_small src)
  refine hmalloc.bind fun res hres => ?_
  obtain ⟨q, s₁⟩ := res
  obtain ⟨b, hb, -, hq, hheld₁, hframe₁⟩ := hres
  let s₂ : State := { s₁ with udata := s₁.udata.insert h { src with addr := .ofNat 64 q } }
  have hread := Held.sockaddr (s := s₂) hheld₁
    (hs.mono s₂ hframe₁.resolver fun o' => hkeep o')
  show Ensures _ (Except.bind (s₂.sockaddr src) _) _
  rw [hread]
  have hcopy := Held.copyIn (s := s₂) hheld₁ bs (Function.update_self ..)
    (by rw [hb, toNat_addrlen, hs.length])
  refine hcopy.of_total.mono fun s₃ hs₃ => ?_
  obtain ⟨hheld₃, hframe₃⟩ := hs₃
  rw [Function.update_idem] at hheld₃
  refine ⟨q, hq, hheld₃, ?_, hframe₃.threadAddr.trans hframe₁.threadAddr,
    hframe₃.resolver.trans hframe₁.resolver⟩
  rw [hframe₃.udata, show s₂.udata = s₁.udata.insert h _ from rfl, hframe₁.udata,
    Finmap.insert_insert]

/-- Copying an address into the block of a thread's `struct addrinfo`. -/
theorem Held.scriptAddrCopy (hheld : Held s owned) (hos : owned os = some (p, b))
    (hb : b.length = 48) (ho : owned o = none) (hne : source ≠ some os)
    (hs : Sourced s owned src bs source) :
    Ensures (Oom lib) (s.scriptAddrCopy lib src (.block p)) fun s' => ∃ q < 2 ^ 64,
      Leaves s (Function.update (Function.update owned os
        (some (p, ({ src with addr := .ofNat 64 q } : Addrinfo).toBytes)))
        o (some (q, bs))) s' := by
  have hoos : o ≠ os := fun hoo => by
    rw [hoo, hos] at ho
    cases ho
  have hsource : ∀ o', source = some o' → o' ≠ o ∧ o' ≠ os := fun o' hso => by
    subst hso
    refine ⟨fun hoo => ?_, fun hoo => hne (congrArg some hoo)⟩
    rw [hoo] at hs
    rw [hs.2.1] at ho
    cases ho
  have hfirst := hheld.copyIn src.toBytes hos (by rw [hb, Addrinfo.length_toBytes])
  refine hfirst.of_total.bind fun s₁ hs₁ => ?_
  obtain ⟨hheld₁, hframe₁⟩ := hs₁
  have hmalloc := hheld₁.zmalloc lib (o := o)
    (by rw [Function.update_of_ne hoos, ho]) (addrlen_small src)
  refine hmalloc.bind fun res hres => ?_
  obtain ⟨q, s₂⟩ := res
  obtain ⟨b', hb', -, hq, hheld₂, hframe₂⟩ := hres
  have hsecond := hheld₂.copyIn (o := os) ({ src with addr := .ofNat 64 q } : Addrinfo).toBytes
    (by rw [Function.update_of_ne hoos.symm, Function.update_self])
    (by rw [Addrinfo.length_toBytes, Addrinfo.length_toBytes])
  refine hsecond.of_total.bind fun s₃ hs₃ => ?_
  obtain ⟨hheld₃, hframe₃⟩ := hs₃
  have hframe := (hframe₁.trans hframe₂).trans hframe₃
  have hread := hheld₃.sockaddr (hs.mono s₃ hframe.resolver fun o' hso => by
    obtain ⟨ho', hos'⟩ := hsource o' hso
    rw [Function.update_of_ne hos', Function.update_of_ne ho', Function.update_of_ne hos'])
  show Ensures _ (Except.bind (s₃.sockaddr src) _) _
  rw [hread]
  have hcopy := hheld₃.copyIn (o := o) bs
    (by rw [Function.update_of_ne hoos, Function.update_self])
    (by rw [hb', toNat_addrlen, hs.length])
  refine hcopy.of_total.mono fun s₄ hs₄ => ?_
  obtain ⟨hheld₄, hframe₄⟩ := hs₄
  refine ⟨q, hq, ?_, hframe.trans hframe₄⟩
  rwa [Function.update_comm hoos, Function.update_idem, Function.update_idem] at hheld₄

end Copy

/-! ## The memory implements the values -/

namespace Values

def setHandle (v : Values) (h : ℕ) (a : Address) : Values :=
  { v with handles := v.handles.insert h a }

def dropHandle (v : Values) (h : ℕ) : Values := { v with handles := v.handles.erase h }

def setThread (v : Values) (t : ℕ) (a : Address) : Values :=
  { v with threads := Function.update v.threads t (some a) }

theorem threads_setThread (v : Values) (t : ℕ) (a : Address) :
    (v.setThread t a).threads = Function.update v.threads t (some a) := rfl

end Values

/-- What every owner's block holds, when its place is `loc`. -/
def contents (v : Values) (loc : Owner → ℕ) : Owned
  | .handle h => (v.handles.lookup h).map fun a => (loc (.handle h), a.sockaddr)
  | .struct t => (v.threads t).map fun a =>
      (loc (.struct t), (a.info (loc (.sockaddr t))).toBytes)
  | .sockaddr t => (v.threads t).map fun a => (loc (.sockaddr t), a.sockaddr)

structure Sim (s : State) (v : Values) (loc : Owner → ℕ) : Prop where
  held : Held s (contents v loc)
  udata : ∀ h, s.udata.lookup h = (v.handles.lookup h).map fun a => a.info (loc (.handle h))
  thread : ∀ t, s.threadAddr t = (v.threads t).elim 0 fun _ => loc (.struct t)

section Contents

variable {v : Values} {loc : Owner → ℕ} {h t p q : ℕ} {a : Address}

theorem contents_setHandle :
    contents (v.setHandle h a) (Function.update loc (.handle h) q) =
      Function.update (contents v loc) (.handle h) (some (q, a.sockaddr)) := by
  funext o
  cases o with
  | handle h' =>
      by_cases hh : h' = h
      · subst hh
        rw [Function.update_self, contents, Values.setHandle, Finmap.lookup_insert,
          Option.map_some, Function.update_self]
      · have hne : Owner.handle h' ≠ .handle h := fun he => hh (Owner.handle.inj he)
        rw [Function.update_of_ne hne, contents, Values.setHandle,
          Finmap.lookup_insert_of_ne _ hh, Function.update_of_ne hne, contents]
  | struct t => rfl
  | sockaddr t => rfl

theorem contents_dropHandle :
    contents (v.dropHandle h) loc = Function.update (contents v loc) (.handle h) none := by
  funext o
  cases o with
  | handle h' =>
      by_cases hh : h' = h
      · subst hh
        rw [Function.update_self, contents, Values.dropHandle, Finmap.lookup_erase, Option.map_none]
      · have hne : Owner.handle h' ≠ .handle h := fun he => hh (Owner.handle.inj he)
        rw [Function.update_of_ne hne, contents, Values.dropHandle, Finmap.lookup_erase_ne hh,
          contents]
  | struct t => rfl
  | sockaddr t => rfl

theorem contents_setThread :
    contents (v.setThread t a)
        (Function.update (Function.update loc (.struct t) p) (.sockaddr t) q) =
      Function.update (Function.update (contents v loc) (.struct t)
        (some (p, (a.info q).toBytes))) (.sockaddr t) (some (q, a.sockaddr)) := by
  funext o
  cases o with
  | handle h => rfl
  | struct t' =>
      have hss : ∀ x y, Owner.struct x ≠ .sockaddr y := fun x y he => by cases he
      by_cases ht : t' = t
      · subst ht
        rw [Function.update_of_ne (hss _ _), Function.update_self, contents, Values.setThread]
        simp only [Function.update_self, Function.update_of_ne (hss _ _), Option.map_some]
      · have hne : Owner.struct t' ≠ .struct t := fun he => ht (Owner.struct.inj he)
        have hne' : Owner.sockaddr t' ≠ .sockaddr t := fun he => ht (Owner.sockaddr.inj he)
        rw [Function.update_of_ne (hss _ _), Function.update_of_ne hne, contents, Values.setThread]
        simp only [Function.update_of_ne (hss _ _), Function.update_of_ne hne,
          Function.update_of_ne hne', Function.update_of_ne (hss _ _).symm,
          Function.update_of_ne ht, contents]
  | sockaddr t' =>
      have hss : ∀ x y, Owner.sockaddr x ≠ .struct y := fun x y he => by cases he
      by_cases ht : t' = t
      · subst ht
        rw [Function.update_self, contents, Values.setThread]
        simp only [Function.update_self, Option.map_some]
      · have hne : Owner.sockaddr t' ≠ .sockaddr t := fun he => ht (Owner.sockaddr.inj he)
        rw [Function.update_of_ne hne, Function.update_of_ne (hss _ _), contents, Values.setThread]
        simp only [Function.update_of_ne hne, Function.update_of_ne (hss _ _),
          Function.update_of_ne ht, contents]

theorem contents_handle (ha : v.handles.lookup h = some a) :
    contents v loc (.handle h) = some (loc (.handle h), a.sockaddr) := by
  rw [contents, ha, Option.map_some]

theorem contents_handle_none (hh : h ∉ v.handles) : contents v loc (.handle h) = none := by
  rw [contents, Finmap.lookup_eq_none.mpr hh, Option.map_none]

theorem contents_struct (ha : v.threads t = some a) :
    contents v loc (.struct t) =
      some (loc (.struct t), (a.info (loc (.sockaddr t))).toBytes) := by
  rw [contents, ha, Option.map_some]

theorem contents_sockaddr (ha : v.threads t = some a) :
    contents v loc (.sockaddr t) = some (loc (.sockaddr t), a.sockaddr) := by
  rw [contents, ha, Option.map_some]

end Contents

/-! ## One specification for each function -/

section Specs

variable {lib : Libc} {s : State} {v : Values} {loc : Owner → ℕ} {h t : ℕ} {a : Address}

theorem Held.space {owned : Owned} {o : Owner} {p : ℕ} {b : List UInt8} (hheld : Held s owned)
    (ho : owned o = some (p, b)) : p < 2 ^ 64 := by
  obtain ⟨u, -, -, hspace⟩ := hheld
  exact hspace o p b ho

theorem Sim.checkaddr (hsim : Sim s v loc) (ha : v.handles.lookup h = some a) :
    s.checkaddr h = .ok (a.info (loc (.handle h))) := by
  rw [State.checkaddr, hsim.udata, ha]
  rfl

theorem Sim.sourced_handle (hsim : Sim s v loc) (hidle : s.resolver = ∅)
    (ha : v.handles.lookup h = some a) :
    Sourced s (contents v loc) (a.info (loc (.handle h))) a.sockaddr (some (.handle h)) := by
  have hspace := hsim.held.space (contents_handle ha)
  refine ⟨by rw [hidle, Finmap.lookup_empty], ?_, (a.addrlen_info _).symm⟩
  rw [a.addr_info hspace, contents_handle ha]

theorem Sim.sourced_thread (hsim : Sim s v loc) (hidle : s.resolver = ∅)
    (ha : v.threads t = some a) :
    Sourced s (contents v loc) (a.info (loc (.sockaddr t))) a.sockaddr (some (.sockaddr t)) := by
  have hspace := hsim.held.space (contents_sockaddr ha)
  refine ⟨by rw [hidle, Finmap.lookup_empty], ?_, (a.addrlen_info _).symm⟩
  rw [a.addr_info hspace, contents_sockaddr ha]

theorem Sim.threadAddr (hsim : Sim s v loc) (ha : v.threads t = some a) :
    s.threadAddr t = loc (.struct t) := by
  rw [hsim.thread, ha]
  rfl

theorem Sim.loadThreadAddr (hsim : Sim s v loc) (ha : v.threads t = some a) :
    s.loadThreadAddr t = .ok (a.info (loc (.sockaddr t))) := by
  have hload := hsim.held.load (contents_struct ha)
  rw [Addrinfo.length_toBytes] at hload
  rw [State.loadThreadAddr, hsim.threadAddr ha, if_neg (hsim.held.ne_zero (contents_struct ha)),
    hload]
  exact congrArg Except.ok (Addrinfo.ofBytes_toBytes _)

theorem Sim.scriptWrkConnect (hsim : Sim s v loc) (hidle : s.resolver = ∅)
    (ha : v.handles.lookup h = some a) : s.scriptWrkConnect h = .ok a.dialled := by
  rw [State.scriptWrkConnect, hsim.checkaddr ha]
  show Except.bind (s.sockaddr _) _ = _
  rw [hsim.held.sockaddr (hsim.sourced_handle hidle ha)]
  rfl

theorem Sim.connectSocket (hsim : Sim s v loc) (hidle : s.resolver = ∅)
    (ha : v.threads t = some a) : s.connectSocket t = .ok a.dialled := by
  rw [State.connectSocket, hsim.loadThreadAddr ha]
  show Except.bind (s.sockaddr _) _ = _
  rw [hsim.held.sockaddr (hsim.sourced_thread hidle ha)]
  rfl

/-- A new userdata with a copy of an address, wherever it is copied from. -/
theorem Sim.scriptAddrClone {src : Addrinfo} {source : Option Owner} (hsim : Sim s v loc)
    (hh : h ∉ v.handles) (hs : Sourced s (contents v loc) src a.sockaddr source)
    (hsrc : ∀ q, { src with addr := .ofNat 64 q } = a.info q) :
    Ensures (Oom lib) (s.scriptAddrClone lib h src) fun s' =>
      (∃ loc', Sim s' (v.setHandle h a) loc') ∧ s'.resolver = s.resolver := by
  refine (hsim.held.scriptAddrClone (contents_handle_none hh) hs).mono fun s' hs' => ?_
  obtain ⟨q, -, hheld, hudata, hthread, hres⟩ := hs'
  refine ⟨⟨Function.update loc (.handle h) q, ?_, fun h' => ?_, fun t => ?_⟩, hres⟩
  · rw [contents_setHandle]
    exact hheld
  · rw [hudata, hsrc q, Values.setHandle]
    by_cases hh' : h' = h
    · rw [hh', Finmap.lookup_insert, Finmap.lookup_insert, Option.map_some, Function.update_self]
    · rw [Finmap.lookup_insert_of_ne _ hh', Finmap.lookup_insert_of_ne _ hh', hsim.udata,
        Function.update_of_ne fun he => hh' (Owner.handle.inj he)]
  · rw [hthread, hsim.thread]
    rfl

theorem Sim.scriptThreadIndex (hsim : Sim s v loc) (hidle : s.resolver = ∅)
    (ha : v.threads t = some a) (hh : h ∉ v.handles) :
    Ensures (Oom lib) (s.scriptThreadIndex lib t h) fun s' =>
      (∃ loc', Sim s' (v.setHandle h a) loc') ∧ s'.resolver = s.resolver := by
  rw [State.scriptThreadIndex, hsim.loadThreadAddr ha]
  exact hsim.scriptAddrClone hh (hsim.sourced_thread hidle ha) fun q => rfl

theorem Sim.scriptAddrGc (hsim : Sim s v loc) (ha : v.handles.lookup h = some a) :
    Ensures (fun _ => False) (s.scriptAddrGc h) fun s' =>
      Sim s' (v.dropHandle h) loc ∧ s'.resolver = s.resolver := by
  have hspace := hsim.held.space (contents_handle ha)
  rw [State.scriptAddrGc, hsim.checkaddr ha]
  show Ensures _ (Except.bind (s.zfree _) _) _
  rw [a.addr_info hspace]
  refine (hsim.held.zfree (contents_handle ha)).bind fun s' hs' => ?_
  obtain ⟨hheld, hframe⟩ := hs'
  refine ⟨⟨?_, fun h' => ?_, fun t => ?_⟩, hframe.resolver⟩
  · rw [contents_dropHandle]
    exact hheld
  · show (s'.udata.erase h).lookup h' = ((v.handles.erase h).lookup h').map _
    by_cases hh' : h' = h
    · rw [hh', Finmap.lookup_erase, Finmap.lookup_erase, Option.map_none]
    · rw [Finmap.lookup_erase_ne hh', Finmap.lookup_erase_ne hh', hframe.udata, hsim.udata]
  · show s'.threadAddr t = _
    rw [hframe.threadAddr, hsim.thread]
    rfl

/-- The block of the address that a thread had is gone, if it had one. -/
theorem Sim.freeThreadSockaddr (hsim : Sim s v loc) :
    Ensures (fun _ => False) (s.freeThreadSockaddr t)
      (Leaves s (Function.update (contents v loc) (.sockaddr t) none)) := by
  rw [State.freeThreadSockaddr]
  cases ht : v.threads t with
  | none =>
      have hnull : s.threadAddr t = 0 := by rw [hsim.thread, ht]; rfl
      have hnone : contents v loc (.sockaddr t) = none := by rw [contents, ht, Option.map_none]
      rw [if_pos hnull, ← hnone, Function.update_eq_self]
      exact ⟨hsim.held, rfl, rfl, rfl⟩
  | some a =>
      have hne : s.threadAddr t ≠ 0 := by
        rw [hsim.threadAddr ht]
        exact hsim.held.ne_zero (contents_struct ht)
      rw [if_neg hne, hsim.loadThreadAddr ht]
      show Ensures _ (s.zfree (a.info (loc (.sockaddr t))).addr.toNat) _
      rw [a.addr_info (hsim.held.space (contents_sockaddr ht))]
      exact hsim.held.zfree (contents_sockaddr ht)

/-- The block of a thread's `struct addrinfo`, resized or new. -/
theorem Sim.reallocThread {s₁ : State} (hsim : Sim s v loc)
    (hs₁ : Leaves s (Function.update (contents v loc) (.sockaddr t) none) s₁) :
    Ensures (Oom lib) (s₁.zrealloc lib (s₁.threadAddr t) 48)
      (Gives s₁ (Function.update (contents v loc) (.sockaddr t) none) (.struct t) 48) := by
  have hss : Owner.struct t ≠ .sockaddr t := fun he => by cases he
  obtain ⟨hheld, hframe⟩ := hs₁
  rw [hframe.threadAddr]
  cases ht : v.threads t with
  | none =>
      have hnull : s.threadAddr t = 0 := by rw [hsim.thread, ht]; rfl
      rw [hnull]
      refine hheld.zrealloc_null ?_ (by decide)
      rw [Function.update_of_ne hss, contents, ht, Option.map_none]
  | some a =>
      rw [hsim.threadAddr ht]
      have hstruct := (Function.update_of_ne hss none (contents v loc)).trans (contents_struct ht)
      exact hheld.zrealloc hstruct (by decide)

theorem Sim.scriptThreadNewindex (hsim : Sim s v loc) (hidle : s.resolver = ∅)
    (ha : v.handles.lookup h = some a) :
    Ensures (Oom lib) (s.scriptThreadNewindex lib t h) fun s' =>
      (∃ loc', Sim s' (v.setThread t a) loc') ∧ s'.resolver = s.resolver := by
  have hhs : Owner.handle h ≠ .struct t := fun he => by cases he
  have hha : Owner.handle h ≠ .sockaddr t := fun he => by cases he
  have hss' : ∀ t', Owner.struct t' ≠ .sockaddr t := fun t' he => by cases he
  rw [State.scriptThreadNewindex, hsim.checkaddr ha]
  refine hsim.freeThreadSockaddr.of_total.bind fun s₁ hs₁ => ?_
  refine (hsim.reallocThread hs₁).bind fun res hres => ?_
  obtain ⟨p, s₂⟩ := res
  obtain ⟨b, hb, -, -, hheld₂, hframe₂⟩ := hres
  let s₃ : State := { s₂ with threadAddr := Function.update s₂.threadAddr t p }
  have hframe := hs₁.2.trans hframe₂
  have hsource : Sourced s₃ (Function.update (Function.update (contents v loc) (.sockaddr t) none)
      (.struct t) (some (p, b))) (a.info (loc (.handle h))) a.sockaddr (some (.handle h)) := by
    refine (hsim.sourced_handle hidle ha).mono s₃ hframe.resolver fun o ho => ?_
    cases ho
    rw [Function.update_of_ne hhs, Function.update_of_ne hha]
  have hsockaddr : Function.update (Function.update (contents v loc) (.sockaddr t) none)
      (.struct t) (some (p, b)) (.sockaddr t) = none := by
    rw [Function.update_of_ne (hss' t).symm, Function.update_self]
  refine (Held.scriptAddrCopy (s := s₃) hheld₂ (Function.update_self ..) hb hsockaddr
    (fun he => hhs (Option.some.inj he)) hsource).mono fun s' hs' => ?_
  obtain ⟨q, -, hheld', hframe'⟩ := hs'
  refine ⟨⟨Function.update (Function.update loc (.struct t) p) (.sockaddr t) q,
    ?_, fun h' => ?_, fun t' => ?_⟩, hframe'.resolver.trans hframe.resolver⟩
  · rw [Function.update_idem, Function.update_comm (hss' t), Function.update_idem,
      Function.update_comm (hss' t).symm] at hheld'
    rw [contents_setThread]
    exact hheld'
  · rw [hframe'.udata, show s₃.udata = s₂.udata from rfl, hframe.udata, hsim.udata]
    rfl
  · rw [hframe'.threadAddr, show s₃.threadAddr = Function.update s₂.threadAddr t p from rfl,
      hframe.threadAddr, Values.threads_setThread, Function.update_of_ne (hss' t')]
    by_cases ht : t' = t
    · rw [ht, Function.update_self, Function.update_self, Function.update_self, Option.elim_some]
    · rw [Function.update_of_ne ht, Function.update_of_ne ht, hsim.thread,
        Function.update_of_ne fun he => ht (Owner.struct.inj he)]

end Specs

/-! ## The list of `getaddrinfo` -/

/-- What `getaddrinfo` promises: the socket address of every entry is in the
memory it allocated. -/
def Readable (resolver : Finmap fun _ : ℕ => List UInt8) (i : Addrinfo) : Prop :=
  i.addr.toNat ∈ resolver ∧
    i.addrlen.toNat ≤ ((resolver.lookup i.addr.toNat).getD []).length

/-- The address of an entry. -/
def addressOf (resolver : Finmap fun _ : ℕ => List UInt8) (i : Addrinfo) : Address where
  flags := i.flags
  family := i.family
  socktype := i.socktype
  protocol := i.protocol
  canonname := i.canonname
  next := i.next
  sockaddr := ((resolver.lookup i.addr.toNat).getD []).take i.addrlen.toNat
  short := (List.length_take_le _ _).trans_lt i.addrlen.isLt

/-- A userdata for every entry. -/
def Values.setHandles (v : Values) : List Address → List ℕ → Values
  | a :: as, h :: hs => (v.setHandle h a).setHandles as hs
  | _, _ => v

section Lookup

variable {lib : Libc} {s : State} {v : Values} {loc : Owner → ℕ}

theorem info_addressOf {resolver : Finmap fun _ : ℕ => List UInt8} {i : Addrinfo}
    (hi : Readable resolver i) (q : ℕ) :
    { i with addr := .ofNat 64 q } = (addressOf resolver i).info q := by
  have hlen : (addressOf resolver i).sockaddr.length = i.addrlen.toNat := by
    rw [addressOf, List.length_take, Nat.min_eq_left hi.2]
  rw [Address.info, hlen, BitVec.ofNat_toNat, BitVec.setWidth_eq, addressOf]

theorem sourced_resolver {owned : Owned} {i : Addrinfo} (hi : Readable s.resolver i) :
    Sourced s owned i (addressOf s.resolver i).sockaddr none :=
  ⟨_, lookup_of_mem hi.1, hi.2, rfl⟩

/-- One userdata after the other, each with its own copy. -/
theorem Sim.cloneAll {is : List Addrinfo} {hs : List ℕ} (hsim : Sim s v loc)
    (his : ∀ i ∈ is, Readable s.resolver i) (hnew : ∀ h ∈ hs, h ∉ v.handles) (hnodup : hs.Nodup) :
    Ensures (Oom lib) (s.cloneAll lib is hs) fun s' =>
      ∃ loc', Sim s' (v.setHandles (is.map (addressOf s.resolver)) hs) loc' := by
  induction is generalizing s v loc hs with
  | nil => exact ⟨loc, hsim⟩
  | cons i is ih =>
      cases hs with
      | nil => exact ⟨loc, hsim⟩
      | cons h hs =>
          obtain ⟨hh, hnodup⟩ := List.nodup_cons.mp hnodup
          have hi := his i List.mem_cons_self
          refine (hsim.scriptAddrClone (hnew h List.mem_cons_self) (sourced_resolver hi)
            (info_addressOf hi)).bind fun s₁ hs₁ => ?_
          obtain ⟨⟨loc₁, hsim₁⟩, hres⟩ := hs₁
          have hrest := ih hsim₁
            (fun i' hi' => hres ▸ his i' (List.mem_cons_of_mem _ hi'))
            (fun h' hh' hmem => (Finmap.mem_insert.mp hmem).elim
              (fun he => hh (he ▸ hh')) (hnew h' (List.mem_cons_of_mem _ hh'))) hnodup
          rw [hres] at hrest
          exact hrest

theorem Sim.scriptWrkLookup {is : List Addrinfo} {hs : List ℕ}
    {resolver : Finmap fun _ : ℕ => List UInt8} (hsim : Sim s v loc)
    (his : ∀ i ∈ is, Readable resolver i) (hnew : ∀ h ∈ hs, h ∉ v.handles) (hnodup : hs.Nodup) :
    Ensures (Oom lib) (s.scriptWrkLookup lib is resolver hs) fun s' =>
      (∃ loc', Sim s' (v.setHandles (is.map (addressOf resolver)) hs) loc') ∧ s'.resolver = ∅ := by
  have hstart : Sim { s with resolver } v loc := ⟨hsim.held, hsim.udata, hsim.thread⟩
  refine (hstart.cloneAll his hnew hnodup).bind fun s' hs' => ?_
  obtain ⟨loc', hsim'⟩ := hs'
  exact ⟨⟨loc', hsim'.held, hsim'.udata, hsim'.thread⟩, rfl⟩

theorem copyIn_resolver (s : State) (p : ℕ) (src : List UInt8) :
    Ensures (fun _ => True) (s.copyIn p src) (·.resolver = s.resolver) := by
  unfold State.copyIn
  cases (Zmalloc.copyIn s.mem p 0 src).mapError fun _ => Failure.undefined with
  | error e => trivial
  | ok mem => rfl

theorem zmalloc_resolver (lib : Libc) (s : State) (size : BitVec 64) :
    Ensures (fun _ => True) (s.zmalloc lib size) (·.2.resolver = s.resolver) := by
  unfold State.zmalloc
  cases (Zmalloc.zmalloc s.mem size (lib.answer s.clock s.mem.heap)).mapError
      (Failure.of s.clock s.mem.heap) with
  | error e => trivial
  | ok res => rfl

theorem scriptAddrClone_resolver (lib : Libc) (s : State) (h : ℕ) (src : Addrinfo) :
    Ensures (fun _ => True) (s.scriptAddrClone lib h src) (·.resolver = s.resolver) := by
  refine (zmalloc_resolver lib { s with udata := s.udata.insert h src } _).bind ?_
  rintro ⟨q, s₁⟩ hs₁
  let s₂ : State := { s₁ with udata := s₁.udata.insert h { src with addr := .ofNat 64 q } }
  show Ensures _ (Except.bind (s₂.sockaddr src) _) _
  cases s₂.sockaddr src with
  | error e => trivial
  | ok bs => exact (copyIn_resolver s₂ q bs).mono fun s₃ hs₃ => hs₃.trans hs₁

/-- A lookup can be done in parts: what is between two clones finds the memory
of the resolver as it was. -/
theorem scriptWrkLookup_append {resolver : Finmap fun _ : ℕ => List UInt8} {is : List Addrinfo}
    {hs : List ℕ} (hlength : is.length = hs.length) (is' : List Addrinfo) (hs' : List ℕ) :
    s.scriptWrkLookup lib (is ++ is') resolver (hs ++ hs') =
      (s.scriptWrkLookup lib is resolver hs).bind fun s' =>
        s'.scriptWrkLookup lib is' resolver hs' := by
  have hclones : ∀ s : State, s.resolver = resolver →
      (s.cloneAll lib (is ++ is') (hs ++ hs')).bind
          (fun s' => .ok { s' with resolver := ∅ }) =
        ((s.cloneAll lib is hs).bind fun s' => .ok { s' with resolver := ∅ }).bind
          fun s' => s'.scriptWrkLookup lib is' resolver hs' := by
    induction is generalizing hs with
    | nil =>
        intro s hres
        obtain rfl := List.eq_nil_of_length_eq_zero hlength.symm
        subst hres
        rfl
    | cons i is ih =>
        intro s hres
        obtain ⟨h, hs, rfl⟩ := List.exists_cons_of_length_eq_add_one hlength.symm
        have hclone := scriptAddrClone_resolver lib s h i
        simp only [List.cons_append, State.cloneAll]
        cases hs₁ : s.scriptAddrClone lib h i with
        | error e => rfl
        | ok s₁ => exact ih (Nat.succ.inj hlength) s₁ ((hclone.of_ok hs₁).trans hres)
  exact hclones { s with resolver } rfl

end Lookup

/-! ## Runs -/

/-- What happens to the addresses: calls from Lua, a run of the collector, and
a thread that connects. New userdata have names that no other has. When the
collector runs in the middle of a lookup, that is two lookups with `gc` in
between (`scriptWrkLookup_append`). -/
inductive Event
  | lookup (is : List Addrinfo) (resolver : Finmap fun _ : ℕ => List UInt8) (hs : List ℕ)
  | get (t h : ℕ)
  | set (t h : ℕ)
  | gc (h : ℕ)
  | connect (h : ℕ)
  | dial (t : ℕ)

/-- The functions of script.c that an event runs, and what it connects to. -/
def State.event (lib : Libc) (s : State) : Event → Except Failure (Option Dialled × State)
  | .lookup is resolver hs => (s.scriptWrkLookup lib is resolver hs).map fun s => (none, s)
  | .get t h => (s.scriptThreadIndex lib t h).map fun s => (none, s)
  | .set t h => (s.scriptThreadNewindex lib t h).map fun s => (none, s)
  | .gc h => (s.scriptAddrGc h).map fun s => (none, s)
  | .connect h => (s.scriptWrkConnect h).map fun d => (some d, s)
  | .dial t => (s.connectSocket t).map fun d => (some d, s)

namespace Event

/-- Lua names live userdata and gives new ones new names, and nobody asks
for the address of a thread before it has one, which `wrk.setup` sees to. -/
def Legal (v : Values) : Event → Prop
  | .lookup is resolver hs =>
      (∀ i ∈ is, Readable resolver i) ∧ (∀ h ∈ hs, h ∉ v.handles) ∧ hs.Nodup
  | .get t h => (v.threads t).isSome ∧ h ∉ v.handles
  | .set _ h => h ∈ v.handles
  | .gc h => h ∈ v.handles
  | .connect h => h ∈ v.handles
  | .dial t => (v.threads t).isSome

/-- What the event does to the addresses. -/
def next (v : Values) : Event → Values
  | .lookup is resolver hs => v.setHandles (is.map (addressOf resolver)) hs
  | .get t h => (v.threads t).elim v (v.setHandle h)
  | .set t h => (v.handles.lookup h).elim v (v.setThread t)
  | .gc h => v.dropHandle h
  | .connect _ | .dial _ => v

/-- The address it connects to. -/
def dials (v : Values) : Event → Option Dialled
  | .connect h => (v.handles.lookup h).map Address.dialled
  | .dial t => (v.threads t).map Address.dialled
  | .lookup _ _ _ | .get _ _ | .set _ _ | .gc _ => none

end Event

def State.events (lib : Libc) (s : State) :
    List Event → Except Failure (List (Option Dialled) × State)
  | [] => .ok ([], s)
  | e :: es => do
      let (d, s) ← s.event lib e
      let (ds, s) ← s.events lib es
      .ok (d :: ds, s)

namespace Values

def init : Values := ⟨∅, fun _ => none⟩

def Legal (v : Values) : List Event → Prop
  | [] => True
  | e :: es => e.Legal v ∧ (e.next v).Legal es

def after (v : Values) : List Event → Values
  | [] => v
  | e :: es => (e.next v).after es

def dials (v : Values) : List Event → List (Option Dialled)
  | [] => []
  | e :: es => e.dials v :: (e.next v).dials es

end Values

section Runs

variable {lib : Libc} {s : State} {v : Values} {loc : Owner → ℕ}

theorem Sim.init : Sim .init .init fun _ => 0 where
  held := by
    refine ⟨∅, Refines.init, ?_, fun o p b ho => ?_⟩
    · rw [show contents .init (fun _ => 0) = fun _ => none from funext fun o => by cases o <;> rfl]
      exact OwnedBy.empty
    · cases o <;> cases ho
  udata _ := rfl
  thread _ := rfl

/-- Between the events the resolver's memory is freed. -/
theorem Sim.event {e : Event} (hsim : Sim s v loc) (hidle : s.resolver = ∅) (he : e.Legal v) :
    Ensures (Oom lib) (s.event lib e) fun res =>
      res.1 = e.dials v ∧ (∃ loc', Sim res.2 (e.next v) loc') ∧ res.2.resolver = ∅ := by
  have hvoid : ∀ {x : Except Failure State} {v' : Values},
      Ensures (Oom lib) x (fun s' => (∃ loc', Sim s' v' loc') ∧ s'.resolver = ∅) →
      Ensures (Oom lib) (x.map fun s => ((none : Option Dialled), s)) fun res =>
        res.1 = none ∧ (∃ loc', Sim res.2 v' loc') ∧ res.2.resolver = ∅ := fun hx =>
    hx.map fun _ hs' => ⟨rfl, hs'⟩
  cases e with
  | lookup is resolver hs => exact hvoid (hsim.scriptWrkLookup he.1 he.2.1 he.2.2)
  | get t h =>
      obtain ⟨a, ha⟩ := Option.isSome_iff_exists.mp he.1
      rw [Event.next, ha]
      exact hvoid ((hsim.scriptThreadIndex hidle ha he.2).mono fun s' hs' =>
        ⟨hs'.1, hs'.2.trans hidle⟩)
  | set t h =>
      obtain ⟨a, ha⟩ := Finmap.mem_iff.mp he
      rw [Event.next, ha]
      exact hvoid ((hsim.scriptThreadNewindex hidle ha).mono fun s' hs' =>
        ⟨hs'.1, hs'.2.trans hidle⟩)
  | gc h =>
      obtain ⟨a, ha⟩ := Finmap.mem_iff.mp he
      exact hvoid ((hsim.scriptAddrGc ha).of_total.mono fun s' hs' =>
        ⟨⟨loc, hs'.1⟩, hs'.2.trans hidle⟩)
  | connect h =>
      obtain ⟨a, ha⟩ := Finmap.mem_iff.mp he
      rw [State.event, hsim.scriptWrkConnect hidle ha, Event.dials, ha]
      exact ⟨rfl, ⟨loc, hsim⟩, hidle⟩
  | dial t =>
      obtain ⟨a, ha⟩ := Option.isSome_iff_exists.mp he
      rw [State.event, hsim.connectSocket hidle ha, Event.dials, ha]
      exact ⟨rfl, ⟨loc, hsim⟩, hidle⟩

theorem Sim.events {es : List Event} (hsim : Sim s v loc) (hidle : s.resolver = ∅)
    (hes : v.Legal es) :
    Ensures (Oom lib) (s.events lib es) fun res =>
      res.1 = v.dials es ∧ ∃ loc', Sim res.2 (v.after es) loc' := by
  induction es generalizing s v loc with
  | nil => exact ⟨rfl, loc, hsim⟩
  | cons e es ih =>
      refine (hsim.event hidle hes.1).bind fun res hres => ?_
      obtain ⟨d, s₁⟩ := res
      obtain ⟨rfl, ⟨loc₁, hsim₁⟩, hidle₁⟩ := hres
      refine (ih hsim₁ hidle₁ hes.2).bind fun res hres => ?_
      exact ⟨congrArg _ hres.1, hres.2⟩

end Runs

/-- An owner that has a block: a live userdata, a thread with an address. -/
def Owner.Active (v : Values) : Owner → Prop
  | .handle h => h ∈ v.handles
  | .struct t => (v.threads t).isSome
  | .sockaddr t => (v.threads t).isSome

section Holding

variable {s : State} {v : Values} {loc : Owner → ℕ}

theorem active_iff (loc : Owner → ℕ) {o : Owner} :
    o.Active v ↔ ∃ b, contents v loc o = some (loc o, b) := by
  cases o with
  | handle h =>
      rw [Owner.Active, contents]
      constructor
      · intro hh
        obtain ⟨a, ha⟩ := Finmap.mem_iff.mp hh
        exact ⟨a.sockaddr, by rw [ha, Option.map_some]⟩
      · rintro ⟨b, hb⟩
        obtain ⟨a, ha, -⟩ := Option.map_eq_some_iff.mp hb
        exact Finmap.mem_of_lookup_eq_some ha
  | struct t | sockaddr t =>
      rw [Owner.Active, contents, Option.isSome_iff_exists]
      constructor
      · rintro ⟨a, ha⟩
        exact ⟨_, by rw [ha, Option.map_some]⟩
      · rintro ⟨b, hb⟩
        obtain ⟨a, ha, -⟩ := Option.map_eq_some_iff.mp hb
        exact ⟨a, ha⟩

theorem contents_loc {o : Owner} {p : ℕ} {b : List UInt8} (ho : contents v loc o = some (p, b)) :
    p = loc o := by
  cases o with
  | handle h | struct t | sockaddr t =>
      obtain ⟨a, -, ha⟩ := Option.map_eq_some_iff.mp ho
      exact (Prod.mk.inj ha).1.symm

/-- The blocks of the C library are those of the owners, one each. -/
theorem Sim.mem_heap (hsim : Sim s v loc) (a : ℕ) :
    a ∈ s.mem.heap ↔ ∃! o, o.Active v ∧ loc o = a + 8 := by
  obtain ⟨u, href, howns, -⟩ := hsim.held
  rw [← Finmap.lookup_isSome, href.block, Option.isSome_map, Option.isSome_iff_exists]
  constructor
  · rintro ⟨b, hb⟩
    obtain ⟨o, ho⟩ := (howns.lookup_iff _ _).mp hb
    have hloc := contents_loc ho
    refine ⟨o, ⟨(active_iff loc).mpr ⟨b, hloc ▸ ho⟩, hloc.symm⟩, ?_⟩
    rintro o' ⟨hactive, hloc'⟩
    obtain ⟨b', ho'⟩ := (active_iff loc).mp hactive
    rw [hloc'] at ho'
    exact howns.alone ho' ho
  · rintro ⟨o, ⟨hactive, hloc⟩, -⟩
    obtain ⟨b, ho⟩ := (active_iff loc).mp hactive
    rw [hloc] at ho
    exact ⟨b, howns.lookup ho⟩

theorem Sim.used_nothing (hsim : Sim s v loc) (hnone : ∀ o : Owner, ¬ o.Active v) :
    s.mem.usedMemory = 0 := by
  obtain ⟨u, href, howns, -⟩ := hsim.held
  have hempty : u = ∅ := Finmap.ext_lookup fun p => by
    cases hb : u.lookup p with
    | none => rw [Finmap.lookup_empty]
    | some b =>
        obtain ⟨o, ho⟩ := (howns.lookup_iff _ _).mp hb
        exact absurd ((active_iff loc).mpr ⟨b, contents_loc ho ▸ ho⟩) (hnone o)
  rw [href.used, hempty, total_empty]

/-- Whatever Lua does with addresses and whenever its collector runs, no
function of script.c reads or frees memory that is not there, or not its own:
the program ends only without memory, every socket is made for and connected
to the address that was assigned, and the live blocks are those of the live
userdata and of the threads, one owner each. -/
theorem addr_holding (lib : Libc) (es : List Event) (hes : Values.init.Legal es) :
    Ensures (Oom lib) (State.init.events lib es) fun (ds, s) =>
      ds = Values.init.dials es ∧
      (∃ loc : Owner → ℕ, ∀ a, a ∈ s.mem.heap ↔
        ∃! o, o.Active (Values.init.after es) ∧ loc o = a + 8) ∧
      ((∀ o : Owner, ¬ o.Active (Values.init.after es)) → s.mem.usedMemory = 0) :=
  (Sim.init.events rfl hes).mono fun _ hres => by
    obtain ⟨hds, loc, hsim⟩ := hres
    exact ⟨hds, ⟨loc, hsim.mem_heap⟩, hsim.used_nothing⟩

end Holding

/-! ## A run -/

/-- Every new block behind all others, as long as there is room. -/
def bumpLibc : Libc where
  answer _ h :=
    let last := h.keys.max.unbotD 0
    ⟨if last + 24 < 2 ^ 64 then last + 16 else 0, fun _ => 0⟩
  fresh _ h := by
    dsimp only
    split
    · refine Or.inr ⟨fun hmem => ?_, by omega⟩
      obtain ⟨last, hlast⟩ := Finset.max_of_mem (Finmap.mem_keys.mpr hmem)
      have hle := Finset.le_max_of_eq (Finmap.mem_keys.mpr hmem) hlast
      rw [hlast, WithBot.unbotD_coe] at hle
      omega
    · exact Or.inl rfl

def resolved : Finmap fun _ : ℕ => List UInt8 :=
  Finmap.insert (100 : ℕ) ([2, 0, 0, 80] : List UInt8)
    (Finmap.insert (200 : ℕ) ([10, 0, 0, 80, 1] : List UInt8) ∅)

/-- Two addresses are looked up and the second is assigned twice, each time
collected in between. -/
def assigned : List Event :=
  [.lookup [⟨0, 2, 1, 6, 4, 100, 0, 0⟩, ⟨0, 10, 1, 6, 5, 200, 0, 0⟩] resolved [1, 2],
    .connect 2, .set 0 2, .gc 2, .get 0 3, .set 0 3, .gc 3, .dial 0, .gc 1]

instance (resolver : Finmap fun _ : ℕ => List UInt8) (i : Addrinfo) :
    Decidable (Readable resolver i) :=
  inferInstanceAs (Decidable (_ ∈ resolver ∧ _ ≤ _))

instance (v : Values) : (e : Event) → Decidable (e.Legal v)
  | .lookup is resolver hs => inferInstanceAs (Decidable
      ((∀ i ∈ is, Readable resolver i) ∧ (∀ h ∈ hs, h ∉ v.handles) ∧ hs.Nodup))
  | .get t h => inferInstanceAs (Decidable ((v.threads t).isSome ∧ h ∉ v.handles))
  | .set _ h | .gc h | .connect h => inferInstanceAs (Decidable (h ∈ v.handles))
  | .dial t => inferInstanceAs (Decidable ((v.threads t).isSome = true))

instance decidableLegal : ∀ (v : Values) (es : List Event), Decidable (v.Legal es)
  | _, [] => inferInstanceAs (Decidable True)
  | v, e :: es =>
      have := decidableLegal (e.next v) es
      inferInstanceAs (Decidable (e.Legal v ∧ (e.next v).Legal es))

/-- The run returns, and connects to the address that was assigned. -/
theorem addr_holding_assigned :
    Values.init.Legal assigned ∧ ∃ ds s, State.init.events bumpLibc assigned = .ok (ds, s) ∧
      ds[7]? = some (some ⟨10, 1, 6, [10, 0, 0, 80, 1]⟩) ∧
      ds = Values.init.dials assigned ∧
      (∃ loc : Owner → ℕ, ∀ a, a ∈ s.mem.heap ↔
        ∃! o, o.Active (Values.init.after assigned) ∧ loc o = a + 8) ∧
      ((∀ o : Owner, ¬ o.Active (Values.init.after assigned)) → s.mem.usedMemory = 0) := by
  have hlegal : Values.init.Legal assigned := by decide +kernel
  obtain ⟨⟨ds, s⟩, hrun⟩ : ∃ res, State.init.events bumpLibc assigned = .ok res := by
    have hreturns : (State.init.events bumpLibc assigned).toOption.isSome = true := by
      decide +kernel
    cases hrun : State.init.events bumpLibc assigned with
    | ok res => exact ⟨res, rfl⟩
    | error e =>
        rw [hrun] at hreturns
        cases hreturns
  have hholds := (addr_holding bumpLibc assigned hlegal).of_ok hrun
  refine ⟨hlegal, ds, s, hrun, ?_, hholds⟩
  rw [hholds.1]
  decide +kernel

end WrkQuic.ScriptAddr
