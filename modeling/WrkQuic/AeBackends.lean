import WrkQuic.AeEvport

/-!
# `epoll`, `kqueue` and `select`

The back ends of `ae_epoll.c`, `ae_kqueue.c` and `ae_select.c`, and that
they are correct. The kernel's side of a back end is what its manual pages
promise: what a system call adds, changes and drops, when it fails, and
what a wait may return.

`epoll` and `select` watch exactly what is registered. `kqueue` has one
filter for each event: when the second filter of a registration is
refused, the first one stays, and the kernel watches more than what is
registered. `aeProcessEvents` drops what it reports then.
-/

namespace WrkQuic

/-! ## `ae_epoll.c` -/

namespace Epoll

inductive CtlOp where
  | add
  | mod
  | del

/-- An `epoll_event` with the descriptor it was added with; `failed` is
`EPOLLERR` or `EPOLLHUP`. -/
structure Event where
  fd : ℕ
  events : Mask
  failed : Bool

/-- `epoll_ctl` on an interest list: an addition fails on a descriptor that
is in the list, the others on one that is not. -/
def epollCtl (accept : Bool) (interest : ℕ → Option Mask) (op : CtlOp) (fd : ℕ)
    (events : Mask) : Option (ℕ → Option Mask) :=
  match op, interest fd with
  | .add, none => if accept then some (Function.update interest fd (some events)) else none
  | .mod, some _ => if accept then some (Function.update interest fd (some events)) else none
  | .del, some _ => some (Function.update interest fd none)
  | _, _ => none

def aeApiAddEvent (answers : ℕ → Bool) (masks : ℕ → Mask) (interest : ℕ → Option Mask)
    (fd : ℕ) (mask : Mask) : Bool × (ℕ → Option Mask) :=
  let op := if (masks fd).isNone then CtlOp.add else .mod
  match epollCtl (answers 0) interest op fd (mask.or (masks fd)) with
  | some interest => (true, interest)
  | none => (false, interest)

/-- The kernel has no reason to refuse a change of what is in the list. -/
def aeApiDelEvent (masks : ℕ → Mask) (interest : ℕ → Option Mask) (fd : ℕ) (delmask : Mask) :
    ℕ → Option Mask :=
  let mask := (masks fd).without delmask
  let op := if mask.isNone then CtlOp.del else .mod
  (epollCtl true interest op fd mask).getD interest

/-- What `epoll_wait` may return, of at most `setsize` events. -/
structure Returns (setsize : ℕ) (kernel : Readiness) (interest : ℕ → Option Mask)
    (events : List Event) : Prop where
  fits : events.length ≤ setsize
  once : (events.map (·.fd)).Nodup
  sound : ∀ e ∈ events, ∃ mask, interest e.fd = some mask ∧
    e.events = mask.and (kernel.ready e.fd) ∧ e.failed = kernel.failed e.fd ∧
    (e.events ≠ .aeNone ∨ e.failed = true)
  complete : events.length < setsize → ∀ fd mask, interest fd = some mask →
    (mask.and (kernel.ready fd) ≠ .aeNone ∨ kernel.failed fd = true) →
    ∃ e ∈ events, e.fd = fd

def eventMask (e : Event) : Mask := if e.failed then e.events.or .aeWritable else e.events

def api : AeApi where
  State := ℕ → Option Mask
  Result := List Event
  aeApiCreate _ := none
  aeApiAddEvent := aeApiAddEvent
  aeApiDelEvent _ masks interest fd mask := some (aeApiDelEvent masks interest fd mask)
  pollEnter _ interest := some interest
  pollLeave _ _ interest events := (events.map fun e => (e.fd, eventMask e), interest)
  room _ := True
  closed interest fd := Function.update interest fd none
  watched interest fd := (interest fd).getD .aeNone
  returns setsize _ kernel interest events := Returns setsize kernel interest events
  reported kernel fd :=
    if kernel.failed fd then (kernel.ready fd).or .aeWritable else kernel.ready fd
  batch setsize _ := setsize

/-- The interest list is what is registered. -/
def Watches (masks : ℕ → Mask) (interest : ℕ → Option Mask) : Prop :=
  ∀ fd, interest fd = if (masks fd).isNone then none else some (masks fd)

variable {masks : ℕ → Mask} {interest interest' : ℕ → Option Mask} {fd n : ℕ} {mask m : Mask}
  {answers : ℕ → Bool} {kernel : Readiness} {events : List Event}

theorem Watches.update (h : Watches masks interest) (fd : ℕ) (m : Mask) :
    Watches (Function.update masks fd m)
      (Function.update interest fd (if m.isNone then none else some m)) := by
  intro fd'
  by_cases heq : fd' = fd
  · rw [heq, Function.update_self, Function.update_self]
  · rw [Function.update_of_ne heq, Function.update_of_ne heq]
    exact h fd'

/-- The operation is the one that fits the interest list, so only the
kernel's resources can make it fail. -/
theorem aeApiAddEvent_eq (answers : ℕ → Bool) (h : Watches masks interest) :
    aeApiAddEvent answers masks interest fd mask =
      if answers 0 then (true, Function.update interest fd (some (mask.or (masks fd))))
      else (false, interest) := by
  have hfd := h fd
  unfold aeApiAddEvent epollCtl
  cases hnone : (masks fd).isNone <;> simp only [hnone] at hfd <;>
    simp only [hfd] <;> cases answers 0 <;> rfl

theorem aeApiDelEvent_eq (h : Watches masks interest) (hset : masks fd ≠ .aeNone) :
    aeApiDelEvent (Function.update masks fd ((masks fd).without mask)) interest fd mask =
      Function.update interest fd
        (if ((masks fd).without mask).isNone then none else some ((masks fd).without mask)) := by
  have hfd := h fd
  rw [if_neg (by rw [Mask.isNone_eq_false_iff.mpr hset]; exact Bool.false_ne_true)] at hfd
  have htwice : ((masks fd).without mask).without mask = (masks fd).without mask := by
    refine Mask.ext ?_ ?_ <;> simp
  unfold aeApiDelEvent epollCtl
  rw [Function.update_self, htwice]
  cases hnone : ((masks fd).without mask).isNone <;> simp [hfd, hnone]

theorem reported_of_returns (h : Watches masks interest)
    (hbound : ∀ fd, masks fd ≠ .aeNone → fd < n) (hret : Returns n kernel interest events) :
    Reported n n masks (api.reported kernel) (events.map fun e => (e.fd, eventMask e)) := by
  have hwatch {fd : ℕ} {m : Mask} (hm : interest fd = some m) : masks fd = m ∧ m ≠ .aeNone := by
    rw [h fd] at hm
    split at hm
    · cases hm
    · rename_i hnone
      obtain rfl := Option.some.inj hm
      exact ⟨rfl, Mask.isNone_eq_false_iff.mp (Bool.not_eq_true _ ▸ hnone)⟩
  have hlist {fd : ℕ} (hset : masks fd ≠ .aeNone) : interest fd = some (masks fd) := by
    rw [h fd, Mask.isNone_eq_false_iff.mpr hset]
    rfl
  refine ⟨?_, ?_, ?_, ?_, ?_⟩
  · intro p hp
    obtain ⟨e, he, rfl⟩ := List.mem_map.mp hp
    obtain ⟨m, -, hevents, hfailed, -⟩ := hret.sound e he
    simp only [api, eventMask, hevents, hfailed]
    split
    · exact Mask.and_le_right.or_right
    · exact Mask.and_le_right
  · intro p hp
    obtain ⟨e, he, rfl⟩ := List.mem_map.mp hp
    obtain ⟨m, hm, -⟩ := hret.sound e he
    obtain ⟨rfl, hset⟩ := hwatch hm
    exact hbound e.fd hset
  · rw [List.length_map]
    exact hret.fits
  · intro hroom fd hset hready
    rw [List.length_map] at hroom
    have hne : masks fd ≠ .aeNone := fun hnone => by rw [hnone] at hset; cases hset
    have hin : (kernel.ready fd).readable = true := by
      simp only [api] at hready
      split at hready <;> simpa using hready
    have hboth : ((masks fd).and (kernel.ready fd)).readable = true := by
      rw [Mask.and_readable, hset, hin, Bool.and_self]
    obtain ⟨e, he, rfl⟩ := hret.complete hroom fd (masks fd) (hlist hne)
      (.inl fun hnone => by rw [hnone] at hboth; cases hboth)
    refine ⟨_, List.mem_map_of_mem he, rfl, ?_⟩
    obtain ⟨m, hm, hevents, -⟩ := hret.sound e he
    obtain ⟨rfl, -⟩ := hwatch hm
    simp only [eventMask]
    split
    · rw [Mask.or_readable, hevents, hboth, Bool.true_or]
    · rw [hevents, hboth]
  · intro hroom fd hset hready
    rw [List.length_map] at hroom
    have hne : masks fd ≠ .aeNone := fun hnone => by rw [hnone] at hset; cases hset
    have hout : (kernel.ready fd).writable = true ∨ kernel.failed fd = true := by
      simp only [api] at hready
      split at hready
      · rename_i hfailed
        exact .inr hfailed
      · exact .inl hready
    have hboth (hw : (kernel.ready fd).writable = true) :
        ((masks fd).and (kernel.ready fd)).writable = true := by
      rw [Mask.and_writable, hset, hw, Bool.and_self]
    obtain ⟨e, he, rfl⟩ := hret.complete hroom fd (masks fd) (hlist hne)
      (hout.imp (fun hw hnone => by
        have := hboth hw
        rw [hnone] at this
        cases this) id)
    refine ⟨_, List.mem_map_of_mem he, rfl, ?_⟩
    obtain ⟨m, hm, hevents, hfailed, -⟩ := hret.sound e he
    obtain ⟨rfl, -⟩ := hwatch hm
    simp only [eventMask]
    split
    · simp [Mask.aeWritable]
    · rename_i hok
      rw [hfailed] at hok
      rw [hevents]
      exact hboth (hout.resolve_right hok)

def correct : api.Correct where
  Inv _ masks interest := Watches masks interest
  create _ _ := rfl
  added {n masks interest answers fd mask interest'} h _ _ hmask hadd := by
    have hadd : aeApiAddEvent answers masks interest fd mask = (true, interest') := hadd
    rw [aeApiAddEvent_eq answers h] at hadd
    split at hadd
    · obtain ⟨-, rfl⟩ := Prod.mk.inj hadd
      have hne := Mask.or_ne_aeNone (a := masks fd) hmask
      have hupdate := h.update fd ((masks fd).or mask)
      rw [Mask.isNone_eq_false_iff.mpr hne, if_neg Bool.false_ne_true] at hupdate
      rwa [Mask.or_comm (a := mask)]
    · obtain ⟨h, -⟩ := Prod.mk.inj hadd
      cases h
  refused {n masks interest answers fd mask interest'} h _ _ hadd := by
    have hadd : aeApiAddEvent answers masks interest fd mask = (false, interest') := hadd
    rw [aeApiAddEvent_eq answers h] at hadd
    split at hadd
    · obtain ⟨h, -⟩ := Prod.mk.inj hadd
      cases h
    · obtain ⟨-, rfl⟩ := Prod.mk.inj hadd
      exact h
  deleted {n masks interest answers fd mask interest'} h hset hdel := by
    obtain rfl := Option.some.inj hdel
    rw [aeApiDelEvent_eq h hset]
    exact h.update fd _
  closed {n masks interest fd} h hnone := by
    have hupdate := h.update fd .aeNone
    rw [show Mask.aeNone.isNone = true from rfl, if_pos rfl] at hupdate
    rwa [← hnone, Function.update_eq_self] at hupdate
  entered {n masks interest answers interest'} h henter fd := by
    obtain rfl : interest = interest' := Option.some.inj henter
    show (masks fd).Le ((interest fd).getD .aeNone)
    rw [h fd]
    split
    · rename_i hnone
      rw [Mask.isNone_iff.mp hnone]
      exact Mask.aeNone_le
    · exact Mask.Le.refl
  left {n masks maxfd interest answers interest' kernel events} h hbound _ henter hret := by
    obtain rfl : interest = interest' := Option.some.inj henter
    exact ⟨h, reported_of_returns h hbound hret⟩

/-! ### The event loop of `EventLoop` -/

section Agrees

variable {F T D : Type} {loop loop' : Loop api F D} {e : EventLoop F T (Option D)} {proc : F}
  {data : D}

/-- `EventLoop` keeps for a slot the procedures whose bit is set, and for
the interest list which descriptors are in it. -/
structure Agrees (loop : Loop api F D) (e : EventLoop F T (Option D)) : Prop where
  setsize : e.setsize = loop.setsize
  events : ∀ fd, e.events fd = (loop.events fd).toFileEvent
  apidata : ∀ fd, e.apidata fd = ((loop.apidata : ℕ → Option Mask) fd).isSome

theorem isSome_update {apidata : ℕ → Bool} (h : ∀ fd, apidata fd = (interest fd).isSome)
    (entry : Option Mask) (fd' : ℕ) :
    Function.update apidata fd entry.isSome fd' =
      (Function.update interest fd entry fd').isSome := by
  by_cases heq : fd' = fd
  · rw [heq, Function.update_self, Function.update_self]
  · rw [Function.update_of_ne heq, Function.update_of_ne heq, h fd']

theorem agrees_create {ok : Bool} (h : Agrees loop e) (hw : Watches loop.masks loop.apidata)
    (hcreate : loop.aeCreateFileEvent answers fd mask proc data = (ok, loop')) :
    Agrees loop' ((aeCreateFileEvent (answers 0) e fd mask proc (some data)).getD e) ∧
    (aeCreateFileEvent (answers 0) e fd mask proc (some data)).isSome = ok := by
  have hslot : (e.apidata fd == !(e.events fd).isNone) = true := by
    rw [h.apidata fd, hw fd, h.events fd, FileSlot.toFileEvent_isNone]
    show (_ == !(loop.masks fd).isNone) = true
    cases (loop.masks fd).isNone <;> rfl
  unfold aeCreateFileEvent WrkQuic.aeApiAddEvent
  rw [hslot, Bool.and_true, h.setsize]
  rcases Loop.aeCreateFileEvent_cases hcreate with ⟨rfl, hsize, rfl⟩ | ⟨interest, hfd, hadd, rfl⟩
  · rw [if_pos hsize]
    exact ⟨h, rfl⟩
  · rw [if_neg (Nat.not_le.mpr hfd)]
    have hadd := (aeApiAddEvent_eq answers hw).symm.trans hadd
    cases hanswer : answers 0 with
    | false =>
        rw [hanswer, if_neg Bool.false_ne_true] at hadd
        obtain ⟨rfl, rfl⟩ := Prod.mk.inj hadd
        exact ⟨h, rfl⟩
    | true =>
        rw [hanswer, if_pos rfl] at hadd
        obtain ⟨rfl, rfl⟩ := Prod.mk.inj hadd
        refine ⟨?_, rfl⟩
        change Agrees _ (e.addSlot fd mask proc (some data))
        refine ⟨h.setsize, fun fd' => ?_, fun fd' => ?_⟩
        · by_cases heq : fd' = fd
          · subst heq
            simp [EventLoop.addSlot, Files.register, h.events, FileSlot.toFileEvent_add]
          · simp [EventLoop.addSlot, Files.register, Function.update_of_ne heq, h.events]
        · exact isSome_update h.apidata (some (mask.or (loop.masks fd))) fd'

theorem agrees_delete (h : Agrees loop e) (hw : Watches loop.masks loop.apidata)
    (hdel : loop.aeDeleteFileEvent answers fd mask = some loop') :
    Agrees loop' (aeDeleteFileEvent e fd mask) := by
  have hnone : (e.events fd).isNone = (loop.masks fd).isNone := by
    rw [h.events fd, FileSlot.toFileEvent_isNone]
    rfl
  unfold aeDeleteFileEvent
  rw [h.setsize, hnone]
  rcases Loop.aeDeleteFileEvent_cases hdel with ⟨hcase, rfl⟩ | ⟨interest, hfd, hset, hapi, rfl⟩
  · rcases hcase with hsize | hmask
    · rw [if_pos hsize]
      exact h
    · rw [hmask]
      split
      · exact h
      · exact h
  · rw [if_neg (Nat.not_le.mpr hfd), Mask.isNone_eq_false_iff.mpr hset, if_neg Bool.false_ne_true]
    rw [Files.masks_unregister] at hapi
    obtain rfl : interest = _ := ((Option.some.inj hapi).symm.trans (aeApiDelEvent_eq hw hset))
    dsimp only
    refine ⟨rfl, fun fd' => ?_, fun fd' => ?_⟩
    · by_cases heq : fd' = fd
      · subst heq
        simp [Files.unregister, h.events, FileSlot.toFileEvent_remove]
      · simp [Files.unregister, Function.update_of_ne heq, h.events]
    · have hleft : ((e.events fd).remove mask).isNone = ((loop.masks fd).without mask).isNone := by
        rw [h.events fd, ← FileSlot.toFileEvent_remove, FileSlot.toFileEvent_isNone]
        rfl
      have hin : e.apidata fd = true := by
        rw [h.apidata fd, hw fd, Mask.isNone_eq_false_iff.mpr hset]
        rfl
      have hsome : (if ((loop.masks fd).without mask).isNone then Function.update e.apidata fd false
          else e.apidata) = Function.update e.apidata fd
            (if ((loop.masks fd).without mask).isNone then none
              else some ((loop.masks fd).without mask)).isSome := by
        cases ((loop.masks fd).without mask).isNone with
        | true => rfl
        | false => exact (Function.update_eq_self_iff.mpr hin.symm).symm
      dsimp only
      rw [hleft, hsome]
      exact isSome_update h.apidata _ fd'

end Agrees

end Epoll

/-! ## `ae_kqueue.c` -/

namespace Kqueue

/-- `EVFILT_READ` or `EVFILT_WRITE`. -/
inductive Filter where
  | read
  | write
  deriving DecidableEq

def Filter.mask : Filter → Mask
  | .read => .aeReadable
  | .write => .aeWritable

/-- A `kevent` as the wait returns it. -/
structure Event where
  ident : ℕ
  filter : Filter
  deriving DecidableEq

/-- `EV_ADD`. -/
def evAdd (filters : ℕ → Mask) (fd : ℕ) (filter : Filter) : ℕ → Mask :=
  Function.update filters fd ((filters fd).or filter.mask)

/-- `EV_DELETE`; it fails, and changes nothing, where there is no such
filter. -/
def evDelete (filters : ℕ → Mask) (fd : ℕ) (filter : Filter) : ℕ → Mask :=
  Function.update filters fd ((filters fd).without filter.mask)

/-- `EV_ADD` for a bit that is in the mask. -/
def evAddIf (bit : Bool) (filters : ℕ → Mask) (fd : ℕ) (filter : Filter) : ℕ → Mask :=
  if bit then evAdd filters fd filter else filters

/-- A filter of the mask that is refused ends the function; what was added
before it stays. -/
def aeApiAddEvent (answers : ℕ → Bool) (filters : ℕ → Mask) (fd : ℕ) (mask : Mask) :
    Bool × (ℕ → Mask) :=
  if mask.readable && !answers 0 then (false, filters)
  else
    let filters := evAddIf mask.readable filters fd .read
    if mask.writable && !answers 1 then (false, filters)
    else (true, evAddIf mask.writable filters fd .write)

def aeApiDelEvent (filters : ℕ → Mask) (fd : ℕ) (mask : Mask) : ℕ → Mask :=
  let filters := if mask.readable then evDelete filters fd .read else filters
  if mask.writable then evDelete filters fd .write else filters

/-- What `kevent` may return, of at most `setsize` events. -/
structure Returns (setsize : ℕ) (kernel : Readiness) (filters : ℕ → Mask)
    (events : List Event) : Prop where
  fits : events.length ≤ setsize
  once : events.Nodup
  sound : ∀ e ∈ events,
    e.filter.mask.Le (filters e.ident) ∧ e.filter.mask.Le (kernel.ready e.ident)
  complete : events.length < setsize → ∀ fd (filter : Filter), filter.mask.Le (filters fd) →
    filter.mask.Le (kernel.ready fd) → ⟨fd, filter⟩ ∈ events

def api : AeApi where
  State := ℕ → Mask
  Result := List Event
  aeApiCreate _ := .aeNone
  aeApiAddEvent answers _ filters fd mask := aeApiAddEvent answers filters fd mask
  aeApiDelEvent _ _ filters fd mask := some (aeApiDelEvent filters fd mask)
  pollEnter _ filters := some filters
  pollLeave _ _ filters events := (events.map fun e => (e.ident, e.filter.mask), filters)
  room _ := True
  closed filters fd := Function.update filters fd .aeNone
  watched filters := filters
  returns setsize _ kernel filters events := Returns setsize kernel filters events
  reported kernel := kernel.ready
  batch setsize _ := setsize

variable {masks filters filters' : ℕ → Mask} {fd fd' n : ℕ} {mask : Mask} {answers : ℕ → Bool}
  {kernel : Readiness} {events : List Event} {ok : Bool}

theorem read_le : Filter.read.mask.Le mask ↔ mask.readable = true := by
  constructor
  · intro h
    exact h.1 rfl
  · intro h
    refine ⟨fun _ => h, fun hw => ?_⟩
    cases hw

theorem write_le : Filter.write.mask.Le mask ↔ mask.writable = true := by
  constructor
  · intro h
    exact h.2 rfl
  · intro h
    refine ⟨fun hr => ?_, fun _ => h⟩
    cases hr

theorem evAddIf_of_ne {bit : Bool} {filter : Filter} (h : fd' ≠ fd) :
    evAddIf bit filters fd filter fd' = filters fd' := by
  unfold evAddIf
  split
  · exact Function.update_of_ne h ..
  · rfl

theorem evAddIf_self {bit : Bool} {filter : Filter} :
    evAddIf bit filters fd filter fd = if bit then (filters fd).or filter.mask else filters fd := by
  unfold evAddIf
  split
  · exact Function.update_self ..
  · rfl

theorem le_evAddIf {bit : Bool} {filter : Filter} :
    (filters fd).Le (evAddIf bit filters fd filter fd) := by
  rw [evAddIf_self]
  split
  · exact Mask.le_or_left
  · exact Mask.Le.refl

/-- The filters after `aeApiAddEvent`: all of the old ones, no other
descriptor's, and when it succeeds the new ones. -/
theorem aeApiAddEvent_spec (h : aeApiAddEvent answers filters fd mask = (ok, filters')) :
    (∀ fd', fd' ≠ fd → filters' fd' = filters fd') ∧ (filters fd).Le (filters' fd) ∧
    (ok = true → filters' fd = (filters fd).or mask) := by
  unfold aeApiAddEvent at h
  split at h
  · obtain ⟨rfl, rfl⟩ := Prod.mk.inj h
    exact ⟨fun _ _ => rfl, Mask.Le.refl, fun h => by cases h⟩
  · dsimp only at h
    split at h
    · obtain ⟨rfl, rfl⟩ := Prod.mk.inj h
      exact ⟨fun _ hne => evAddIf_of_ne hne, le_evAddIf, fun h => by cases h⟩
    · obtain ⟨rfl, rfl⟩ := Prod.mk.inj h
      refine ⟨fun _ hne => (evAddIf_of_ne hne).trans (evAddIf_of_ne hne),
        le_evAddIf.trans le_evAddIf, fun _ => ?_⟩
      obtain ⟨r, w⟩ := mask
      rw [evAddIf_self, evAddIf_self]
      cases r <;> cases w <;>
        simp [Filter.mask, Mask.or, Mask.aeReadable, Mask.aeWritable]

theorem aeApiDelEvent_eq :
    aeApiDelEvent filters fd mask = Function.update filters fd ((filters fd).without mask) := by
  obtain ⟨r, w⟩ := mask
  cases r <;> cases w <;>
    simp [aeApiDelEvent, evDelete, Filter.mask, Mask.without, Mask.aeReadable, Mask.aeWritable]

theorem reported_of_returns (hle : ∀ fd, (masks fd).Le (filters fd))
    (hbound : ∀ fd, filters fd ≠ .aeNone → fd < n) (hret : Returns n kernel filters events) :
    Reported n n masks (api.reported kernel)
      (events.map fun e => (e.ident, e.filter.mask)) := by
  refine ⟨?_, ?_, ?_, ?_, ?_⟩
  · intro p hp
    obtain ⟨e, he, rfl⟩ := List.mem_map.mp hp
    exact (hret.sound e he).2
  · intro p hp
    obtain ⟨e, he, rfl⟩ := List.mem_map.mp hp
    refine hbound e.ident ?_
    intro hnone
    have hsound := (hret.sound e he).1
    rw [hnone] at hsound
    cases hfilter : e.filter <;> rw [hfilter] at hsound
    · exact absurd (read_le.mp hsound) Bool.false_ne_true
    · exact absurd (write_le.mp hsound) Bool.false_ne_true
  · rw [List.length_map]
    exact hret.fits
  · intro hroom fd hset hready
    rw [List.length_map] at hroom
    have hmem := hret.complete hroom fd .read (read_le.mpr ((hle fd).1 hset)) (read_le.mpr hready)
    exact ⟨_, List.mem_map_of_mem hmem, rfl, rfl⟩
  · intro hroom fd hset hready
    rw [List.length_map] at hroom
    have hmem := hret.complete hroom fd .write (write_le.mpr ((hle fd).2 hset))
      (write_le.mpr hready)
    exact ⟨_, List.mem_map_of_mem hmem, rfl, rfl⟩

/-- What is registered is watched; a refused registration can leave more. -/
structure Watches (n : ℕ) (masks filters : ℕ → Mask) : Prop where
  le : ∀ fd, (masks fd).Le (filters fd)
  bounded : ∀ fd, filters fd ≠ .aeNone → fd < n

theorem Watches.added (h : Watches n masks filters) (hfd : fd < n)
    (hadd : aeApiAddEvent answers filters fd mask = (true, filters')) :
    Watches n (Function.update masks fd ((masks fd).or mask)) filters' := by
  obtain ⟨hother, -, hnew⟩ := aeApiAddEvent_spec hadd
  refine ⟨fun fd' => ?_, fun fd' hset => ?_⟩ <;> by_cases heq : fd' = fd
  · rw [heq, Function.update_self, hnew rfl]
    exact (h.le fd).or_right
  · rw [Function.update_of_ne heq, hother fd' heq]
    exact h.le fd'
  · exact heq ▸ hfd
  · exact h.bounded fd' (hother fd' heq ▸ hset)

theorem Watches.refused (h : Watches n masks filters) (hfd : fd < n)
    (hadd : aeApiAddEvent answers filters fd mask = (ok, filters')) :
    Watches n masks filters' := by
  obtain ⟨hother, hle, -⟩ := aeApiAddEvent_spec hadd
  refine ⟨fun fd' => ?_, fun fd' hset => ?_⟩ <;> by_cases heq : fd' = fd
  · rw [heq]
    exact (h.le fd).trans hle
  · rw [hother fd' heq]
    exact h.le fd'
  · exact heq ▸ hfd
  · exact h.bounded fd' (hother fd' heq ▸ hset)

theorem Watches.deleted (h : Watches n masks filters) :
    Watches n (Function.update masks fd ((masks fd).without mask))
      (aeApiDelEvent filters fd mask) := by
  rw [aeApiDelEvent_eq]
  refine ⟨fun fd' => ?_, fun fd' hset => ?_⟩ <;> by_cases heq : fd' = fd
  · rw [heq, Function.update_self, Function.update_self]
    exact (h.le fd).without
  · rw [Function.update_of_ne heq, Function.update_of_ne heq]
    exact h.le fd'
  · rw [heq, Function.update_self] at hset
    rw [heq]
    exact h.bounded fd fun hnone => hset (Mask.without_eq_aeNone_of hnone)
  · rw [Function.update_of_ne heq] at hset
    exact h.bounded fd' hset

theorem Watches.closed (h : Watches n masks filters) (hnone : masks fd = .aeNone) :
    Watches n masks (Function.update filters fd .aeNone) := by
  refine ⟨fun fd' => ?_, fun fd' hset => ?_⟩ <;> by_cases heq : fd' = fd
  · rw [heq, hnone]
    exact Mask.aeNone_le
  · rw [Function.update_of_ne heq]
    exact h.le fd'
  · rw [heq, Function.update_self] at hset
    exact absurd rfl hset
  · rw [Function.update_of_ne heq] at hset
    exact h.bounded fd' hset

def correct : api.Correct where
  Inv := Watches
  create _ := ⟨fun _ => Mask.Le.refl, fun _ h => absurd rfl h⟩
  added h hfd _ _ hadd := h.added hfd hadd
  refused h hfd _ hadd := h.refused hfd hadd
  deleted h _ hdel := Option.some.inj hdel ▸ h.deleted
  closed h hnone := h.closed hnone
  entered {n masks filters answers filters'} h henter := by
    obtain rfl : filters = filters' := Option.some.inj henter
    exact h.le
  left {n masks maxfd filters answers filters' kernel events} h _ _ henter hret := by
    obtain rfl : filters = filters' := Option.some.inj henter
    exact ⟨h, reported_of_returns h.le h.bounded hret⟩

end Kqueue

/-! ## `ae_select.c` -/

namespace Select

/-- `FD_SETSIZE`. -/
def fdSetsize : ℕ := 1024

abbrev FdSet := Fin fdSetsize → Bool

/-- `FD_SET` and `FD_CLR`. Outside the set they are undefined, and here
leave it as it is; `ae_select.c` does not check the descriptor. -/
def fdSet (fds : FdSet) (fd : ℕ) : FdSet := fun i => if i = fd then true else fds i

def fdClr (fds : FdSet) (fd : ℕ) : FdSet := fun i => if i = fd then false else fds i

def fdIsset (fds : FdSet) (fd : ℕ) : Bool := if h : fd < fdSetsize then fds ⟨fd, h⟩ else false

structure State where
  rfds : FdSet
  wfds : FdSet

def aeApiAddEvent (state : State) (fd : ℕ) (mask : Mask) : State where
  rfds := if mask.readable then fdSet state.rfds fd else state.rfds
  wfds := if mask.writable then fdSet state.wfds fd else state.wfds

def aeApiDelEvent (state : State) (fd : ℕ) (mask : Mask) : State where
  rfds := if mask.readable then fdClr state.rfds fd else state.rfds
  wfds := if mask.writable then fdClr state.wfds fd else state.wfds

/-- What `select` leaves in the sets, below `maxfd + 1`; `none` is a result
that is not positive. -/
def Returns (maxfd : ℤ) (kernel : Readiness) (state : State) : Option State → Prop
  | none => ∀ fd : ℕ, (fd : ℤ) ≤ maxfd →
      (fdIsset state.rfds fd && (kernel.ready fd).readable) = false ∧
      (fdIsset state.wfds fd && (kernel.ready fd).writable) = false
  | some sets => ∀ fd : ℕ, (fd : ℤ) ≤ maxfd →
      fdIsset sets.rfds fd = (fdIsset state.rfds fd && (kernel.ready fd).readable) ∧
      fdIsset sets.wfds fd = (fdIsset state.wfds fd && (kernel.ready fd).writable)

/-- One event for each slot that has one, also where it did not happen. -/
def slotEvent (masks : ℕ → Mask) (sets : State) (fd : ℕ) : Option (ℕ × Mask) :=
  if (masks fd).isNone then none
  else some (fd, (masks fd).and ⟨fdIsset sets.rfds fd, fdIsset sets.wfds fd⟩)

def fired (masks : ℕ → Mask) (maxfd : ℤ) : Option State → List (ℕ × Mask)
  | none => []
  | some sets => (List.range (maxfd + 1).toNat).filterMap (slotEvent masks sets)

def api : AeApi where
  State := State
  Result := Option State
  aeApiCreate := ⟨fun _ => false, fun _ => false⟩
  aeApiAddEvent _ _ state fd mask := (true, aeApiAddEvent state fd mask)
  aeApiDelEvent _ _ state fd mask := some (aeApiDelEvent state fd mask)
  pollEnter _ state := some state
  pollLeave masks maxfd state sets := (fired masks maxfd sets, state)
  room fd := fd < fdSetsize
  closed state _ := state
  watched state fd := ⟨fdIsset state.rfds fd, fdIsset state.wfds fd⟩
  returns _ maxfd kernel state sets := Returns maxfd kernel state sets
  reported kernel := kernel.ready
  batch setsize _ := setsize + 1

variable {masks : ℕ → Mask} {state : State} {maxfd : ℤ} {fd fd' n : ℕ} {mask : Mask}
  {kernel : Readiness} {sets : Option State} {fds : FdSet}

theorem fdIsset_zero : fdIsset (fun _ => false) fd = false := by
  simp [fdIsset]

theorem fdIsset_fdSet_self (h : fd < fdSetsize) : fdIsset (fdSet fds fd) fd = true := by
  simp [fdIsset, fdSet, h]

theorem fdIsset_fdSet_of_ne (h : fd' ≠ fd) : fdIsset (fdSet fds fd) fd' = fdIsset fds fd' := by
  simp [fdIsset, fdSet, h]

theorem fdIsset_fdClr_self : fdIsset (fdClr fds fd) fd = false := by
  simp [fdIsset, fdClr]

theorem fdIsset_fdClr_of_ne (h : fd' ≠ fd) : fdIsset (fdClr fds fd) fd' = fdIsset fds fd' := by
  simp [fdIsset, fdClr, h]

/-- The sets are what is registered. -/
def Watches (masks : ℕ → Mask) (state : State) : Prop :=
  ∀ fd, masks fd = ⟨fdIsset state.rfds fd, fdIsset state.wfds fd⟩

theorem Watches.added (h : Watches masks state) (hroom : fd < fdSetsize) :
    Watches (Function.update masks fd ((masks fd).or mask)) (aeApiAddEvent state fd mask) := by
  intro fd'
  obtain ⟨r, w⟩ := mask
  have hfd := h fd'
  by_cases heq : fd' = fd
  · subst heq
    cases r <;> cases w <;> simp [aeApiAddEvent, fdIsset_fdSet_self hroom, Mask.or, hfd]
  · cases r <;> cases w <;>
      simp [aeApiAddEvent, fdIsset_fdSet_of_ne heq, Function.update_of_ne heq, hfd]

theorem Watches.deleted (h : Watches masks state) :
    Watches (Function.update masks fd ((masks fd).without mask))
      (aeApiDelEvent state fd mask) := by
  intro fd'
  obtain ⟨r, w⟩ := mask
  have hfd := h fd'
  by_cases heq : fd' = fd
  · subst heq
    cases r <;> cases w <;> simp [aeApiDelEvent, fdIsset_fdClr_self, Mask.without, hfd]
  · cases r <;> cases w <;>
      simp [aeApiDelEvent, fdIsset_fdClr_of_ne heq, Function.update_of_ne heq, hfd]

theorem mem_fired {p : ℕ × Mask} {state : State} :
    p ∈ fired masks maxfd (some state) ↔ (p.1 : ℤ) ≤ maxfd ∧ masks p.1 ≠ .aeNone ∧
      p.2 = (masks p.1).and ⟨fdIsset state.rfds p.1, fdIsset state.wfds p.1⟩ := by
  simp only [fired, List.mem_filterMap, List.mem_range, slotEvent]
  constructor
  · rintro ⟨fd, hfd, hslot⟩
    split at hslot
    · cases hslot
    · rename_i hset
      obtain rfl := Option.some.inj hslot
      refine ⟨?_, fun hnone => hset (Mask.isNone_iff.mpr hnone), rfl⟩
      show (fd : ℤ) ≤ maxfd
      omega
  · rintro ⟨hle, hset, hmask⟩
    refine ⟨p.1, by omega, ?_⟩
    rw [Mask.isNone_eq_false_iff.mpr hset, if_neg Bool.false_ne_true, ← hmask]

theorem reported_of_returns (h : Watches masks state)
    (hbound : ∀ fd, masks fd ≠ .aeNone → fd < n) (hmax : Highest masks maxfd)
    (hret : Returns maxfd kernel state sets) :
    Reported n (n + 1) masks (api.reported kernel) (fired masks maxfd sets) := by
  have hread {fd : ℕ} : (masks fd).readable = fdIsset state.rfds fd := by rw [h fd]
  have hwrite {fd : ℕ} : (masks fd).writable = fdIsset state.wfds fd := by rw [h fd]
  cases sets with
  | none =>
      refine ⟨?_, ?_, Nat.zero_le _, ?_, ?_⟩
      · intro p hp
        cases hp
      · intro p hp
        cases hp
      · intro _ fd hset hready
        have hle := hmax.le fd fun hnone => by rw [hnone] at hset; cases hset
        have hno := (hret fd hle).1
        rw [← hread, hset, Bool.true_and] at hno
        exact absurd (hready.symm.trans hno) (by decide)
      · intro _ fd hset hready
        have hle := hmax.le fd fun hnone => by rw [hnone] at hset; cases hset
        have hno := (hret fd hle).2
        rw [← hwrite, hset, Bool.true_and] at hno
        exact absurd (hready.symm.trans hno) (by decide)
  | some result =>
      refine ⟨?_, ?_, ?_, ?_, ?_⟩
      · intro p hp
        obtain ⟨hle, -, hmask⟩ := mem_fired.mp hp
        obtain ⟨hr, hw⟩ := hret p.1 hle
        constructor
        · intro hbit
          rw [hmask, Mask.and_readable, hr] at hbit
          simp only [Bool.and_eq_true] at hbit
          exact hbit.2.2
        · intro hbit
          rw [hmask, Mask.and_writable, hw] at hbit
          simp only [Bool.and_eq_true] at hbit
          exact hbit.2.2
      · intro p hp
        exact hbound p.1 (mem_fired.mp hp).2.1
      · have hlen : (fired masks maxfd (some result)).length ≤ (maxfd + 1).toNat := by
          calc
            _ ≤ (List.range (maxfd + 1).toNat).length := List.length_filterMap_le ..
            _ = (maxfd + 1).toNat := List.length_range
        by_cases h0 : 0 ≤ maxfd
        · have := hbound _ (hmax.set h0)
          omega
        · have := hmax.least
          omega
      · intro _ fd hset hready
        have hne : masks fd ≠ .aeNone := fun hnone => by rw [hnone] at hset; cases hset
        have hle := hmax.le fd hne
        refine ⟨(fd, (masks fd).and ⟨fdIsset result.rfds fd, fdIsset result.wfds fd⟩),
          mem_fired.mpr ⟨hle, hne, rfl⟩, rfl, ?_⟩
        rw [Mask.and_readable, (hret fd hle).1, ← hread, hset]
        exact hready
      · intro _ fd hset hready
        have hne : masks fd ≠ .aeNone := fun hnone => by rw [hnone] at hset; cases hset
        have hle := hmax.le fd hne
        refine ⟨(fd, (masks fd).and ⟨fdIsset result.rfds fd, fdIsset result.wfds fd⟩),
          mem_fired.mpr ⟨hle, hne, rfl⟩, rfl, ?_⟩
        rw [Mask.and_writable, (hret fd hle).2, ← hwrite, hset]
        exact hready

def correct : api.Correct where
  Inv _ := Watches
  create _ fd := by
    show Mask.aeNone = ⟨fdIsset (fun _ => false) fd, fdIsset (fun _ => false) fd⟩
    rw [fdIsset_zero]
    rfl
  added {n masks state answers fd mask state'} h _ hroom _ hadd := by
    obtain ⟨-, rfl⟩ := Prod.mk.inj hadd
    exact Watches.added h hroom
  refused _ _ _ hadd := by
    obtain ⟨h, -⟩ := Prod.mk.inj hadd
    cases h
  deleted {n masks state answers fd mask state'} h _ hdel := by
    obtain rfl := Option.some.inj hdel
    exact Watches.deleted h
  closed h _ := h
  entered {n masks state answers state'} h henter fd := by
    obtain rfl : state = state' := Option.some.inj henter
    rw [h fd]
    exact Mask.Le.refl
  left {n masks maxfd state answers state' kernel sets} h hbound hmax henter hret := by
    obtain rfl : state = state' := Option.some.inj henter
    exact ⟨h, reported_of_returns h hbound hmax hret⟩

end Select

/-! ## Every back end -/

/-- In the order in which `ae.c` takes the first one there is. -/
def aeApis : List AeApi := [Evport.api, Epoll.api, Kqueue.api, Select.api]

theorem correct_of_mem {A : AeApi} (h : A ∈ aeApis) : Nonempty A.Correct := by
  simp only [aeApis, List.mem_cons, List.not_mem_nil, or_false] at h
  rcases h with rfl | rfl | rfl | rfl
  · exact ⟨Evport.correct⟩
  · exact ⟨Epoll.correct⟩
  · exact ⟨Kqueue.correct⟩
  · exact ⟨Select.correct⟩

section EveryBackend

variable {A : AeApi} {F D : Type} [DecidableEq F] {n : ℕ}

/-- Over every back end, in every run that deletes the events of a
descriptor before closing it (and over `select` registers no descriptor
from `FD_SETSIZE` on), a step of the event loop is one of the `poller`,
`maxfd` is the highest descriptor that is registered, and the kernel looks
at everything that is registered whenever it is waited on. -/
theorem every_backend_refines (hA : A ∈ aeApis) {s s' : Loop A F D}
    (h : (Loop.machine A F D n).ReachableWith Loop.Disciplined s)
    {e : LoopEvent A F D × FilesEvent F D} (hok : s.Disciplined e)
    (hstep : (Loop.machine A F D n).step s e s') :
    (poller n).step s.toFiles e.2 s'.toFiles ∧ Highest s.masks s.maxfd ∧
    ∀ answers api, A.pollEnter answers s.apidata = some api →
      ∀ fd, (s.masks fd).Le (A.watched api fd) := by
  obtain ⟨C⟩ := correct_of_mem hA
  obtain ⟨hpoller, hwatched⟩ := Loop.refines_poller C h hok hstep
  exact ⟨hpoller, (Loop.inv_of_reachable C h).highest, hwatched⟩

/-- A registration over `epoll`, in the first state. -/
theorem every_backend_refines_epoll :
    (poller 1).step (Files.create 1) (.created 0 .aeReadable () ())
      ((Files.create 1).register 0 .aeReadable () ()) := by
  have hcreated : Loop.Step (.aeCreateEventLoop Epoll.api Unit Unit 1)
      (.create (fun _ => true) 0 .aeReadable () ()) (.created 0 .aeReadable () ())
      (Loop.aeCreateFileEvent (fun _ => true) (.aeCreateEventLoop Epoll.api Unit Unit 1) 0
        .aeReadable () ()).2 := .created rfl
  have hset : Mask.aeReadable ≠ .aeNone := Mask.isNone_eq_false_iff.mp rfl
  exact (every_backend_refines (A := Epoll.api) (List.mem_cons_of_mem _ List.mem_cons_self)
    (.init rfl) (e := (.create (fun _ => true) 0 .aeReadable () (), .created 0 .aeReadable () ()))
    ⟨hset, trivial⟩ hcreated).1

/-- Over every back end, in every such run, a procedure is only called for
an event of a descriptor that the last wait reported and that is still
registered, and it is the procedure registered for that event. -/
theorem every_backend_calls (hA : A ∈ aeApis) {s s' : Loop A F D × Poller.LastWait}
    (h : (Loop.withWait A F D n).ReachableWith (fun s e => s.1.Disciplined e) s)
    {e : LoopEvent A F D × FilesEvent F D} (hok : s.1.Disciplined e)
    (hstep : (Loop.withWait A F D n).step s e s') {call : FileCall F D} :
    (e.2 = .read (some call) → Poller.ReadCall (s.1.toFiles, s.2) call) ∧
    (e.2 = .wrote (some call) → Poller.WriteCall (s.1.toFiles, s.2) call) := by
  obtain ⟨C⟩ := correct_of_mem hA
  have hpoller := (Loop.refines_poller C h.of_withHistory hok hstep.1).1
  have hstep' : (Poller.withWait n).step (s.1.toFiles, s.2) e.2 (s'.1.toFiles, s'.2) :=
    ⟨hpoller, hstep.2⟩
  exact Poller.call_registered (Loop.withWait_refines C h) hstep'

/-- Over event ports, where a wait has returned the descriptor. -/
theorem every_backend_calls_evport :
    Poller.ReadCall (Evport.returnedOnce.toFiles, ⟨fun _ => .aeReadable, [(0, .aeReadable)]⟩)
      ⟨some (), 0, some (), .aeReadable⟩ := by
  have hcreated : Loop.Step (.aeCreateEventLoop Evport.api Unit Unit 1)
      (.create (fun _ => true) 0 .aeReadable () ()) (.created 0 .aeReadable () ())
      Evport.registeredOnce := .created rfl
  have hset : Mask.aeReadable ≠ .aeNone := Mask.isNone_eq_false_iff.mp rfl
  have hinit : (Loop.withWait Evport.api Unit Unit 1).ReachableWith
      (fun s e => s.1.Disciplined e)
      (.aeCreateEventLoop Evport.api Unit Unit 1, .never) := .init ⟨rfl, rfl⟩
  have hreach := Loop.withWait_step (Loop.withWait_step hinit hcreated ⟨hset, trivial⟩)
    Evport.step_returnedOnce trivial
  have hread : Loop.Step Evport.returnedOnce .read
      (.read (some ⟨some (), 0, some (), .aeReadable⟩))
      { Evport.returnedOnce with
        toFiles :=
          { Evport.returnedOnce.toFiles with
            fired := [], current := some (0, .aeReadable, true) } } := .read rfl
  have hstep : (Loop.withWait Evport.api Unit Unit 1).step
      (Evport.returnedOnce, ⟨fun _ => .aeReadable, [(0, .aeReadable)]⟩)
      (.read, .read (some ⟨some (), 0, some (), .aeReadable⟩))
      (_, ⟨fun _ => .aeReadable, [(0, .aeReadable)]⟩) := ⟨hread, rfl⟩
  exact (every_backend_calls List.mem_cons_self hreach (by trivial) hstep).1 rfl

end EveryBackend

end WrkQuic
