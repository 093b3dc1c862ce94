import Mathlib.Data.List.Nodup
import WrkQuic.Lib.FdTable

/-!
# The event loop

`ae.c` over `ae_epoll.c`. An event loop has one slot for each descriptor
below its size and a list of time events. It is generic in the file and
time procedures and in the client data.

A bit of a slot's mask and the procedure it stands for are one value: the
procedure is there exactly while the bit is set. `apidata` is the interest
list of the `epoll` instance, from which the kernel drops a descriptor when
it is closed.

The wall clock decides when a time event is due, and a backward jump makes
every one due at once; the model keeps no times, and any pending time event
may fire next.
-/

namespace WrkQuic

structure Mask where
  readable : Bool
  writable : Bool

namespace Mask

def aeReadable : Mask := ⟨true, false⟩

def aeWritable : Mask := ⟨false, true⟩

def both : Mask := ⟨true, true⟩

end Mask

/-- `aeFileEvent`. -/
structure FileEvent (F D : Type) where
  rfileProc : Option F
  wfileProc : Option F
  clientData : D

/-- `aeTimeEvent`. -/
structure TimeEvent (T D : Type) where
  id : ℕ
  timeProc : T
  clientData : D

/-- `aeEventLoop`. Time events are pushed at the head with a fresh id, so
the ids of the list decrease. -/
structure EventLoop (F T D : Type) where
  setsize : ℕ
  events : ℕ → FileEvent F D
  apidata : ℕ → Bool
  timeEvents : List (TimeEvent T D)
  timeEventNextId : ℕ
  stop : Bool
  ids_decrease : (timeEvents.map (·.id)).Pairwise (· > ·)
  ids_below : ∀ te ∈ timeEvents, te.id < timeEventNextId

variable {F T D : Type}

/-- `fe->mask == AE_NONE`. -/
def FileEvent.isNone (fe : FileEvent F D) : Bool := fe.rfileProc.isNone && fe.wfileProc.isNone

/-- `fe->mask |= mask`, with the procedures of the mask. -/
def FileEvent.add (fe : FileEvent F D) (mask : Mask) (proc : F) (clientData : D) :
    FileEvent F D where
  rfileProc := if mask.readable then some proc else fe.rfileProc
  wfileProc := if mask.writable then some proc else fe.wfileProc
  clientData := clientData

/-- `fe->mask & ~mask`. -/
def FileEvent.remove (fe : FileEvent F D) (mask : Mask) : FileEvent F D where
  rfileProc := if mask.readable then none else fe.rfileProc
  wfileProc := if mask.writable then none else fe.wfileProc
  clientData := fe.clientData

def aeCreateEventLoop [Inhabited D] (setsize : ℕ) : EventLoop F T D where
  setsize := setsize
  events _ := ⟨none, none, default⟩
  apidata _ := false
  timeEvents := []
  timeEventNextId := 0
  stop := false
  ids_decrease := .nil
  ids_below _ h := nomatch h

def aeStop (loop : EventLoop F T D) : EventLoop F T D := { loop with stop := true }

/-- `epoll_ctl` with `EPOLL_CTL_ADD` for an empty slot and `EPOLL_CTL_MOD`
otherwise: it fails on a closed descriptor, and where the interest list
disagrees with the operation. -/
def aeApiAddEvent (isOpen : Bool) (loop : EventLoop F T D) (fd : ℕ) : Bool :=
  isOpen && (loop.apidata fd == !(loop.events fd).isNone)

/-- `fd` registered for more events, also with the kernel. -/
def EventLoop.addSlot (loop : EventLoop F T D) (fd : ℕ) (mask : Mask) (proc : F)
    (clientData : D) : EventLoop F T D :=
  { loop with
    events := Function.update loop.events fd ((loop.events fd).add mask proc clientData)
    apidata := Function.update loop.apidata fd true }

/-- The result `none` is `AE_ERR`. -/
def aeCreateFileEvent (isOpen : Bool) (loop : EventLoop F T D) (fd : ℕ) (mask : Mask)
    (proc : F) (clientData : D) : Option (EventLoop F T D) :=
  if loop.setsize ≤ fd then none
  else if aeApiAddEvent isOpen loop fd then some (loop.addSlot fd mask proc clientData)
  else none

/-- `aeApiDelEvent` deletes the descriptor from the interest list when no
bit of the mask is left. -/
def aeDeleteFileEvent (loop : EventLoop F T D) (fd : ℕ) (mask : Mask) : EventLoop F T D :=
  if loop.setsize ≤ fd then loop
  else if (loop.events fd).isNone then loop
  else
    let fe := (loop.events fd).remove mask
    { loop with
      events := Function.update loop.events fd fe
      apidata := if fe.isNone then Function.update loop.apidata fd false else loop.apidata }

/-- What the kernel does to the interest list when `fd` is closed. -/
def EventLoop.dropClosed (loop : EventLoop F T D) (fd : ℕ) : EventLoop F T D :=
  { loop with apidata := Function.update loop.apidata fd false }

def aeCreateTimeEvent (loop : EventLoop F T D) (proc : T) (clientData : D) :
    EventLoop F T D :=
  { loop with
    timeEvents := ⟨loop.timeEventNextId, proc, clientData⟩ :: loop.timeEvents
    timeEventNextId := loop.timeEventNextId + 1
    ids_decrease := by
      rw [List.map_cons, List.pairwise_cons]
      refine ⟨?_, loop.ids_decrease⟩
      intro id hid
      obtain ⟨te, hte, rfl⟩ := List.mem_map.mp hid
      exact loop.ids_below te hte
    ids_below := by
      intro te hte
      rcases List.mem_cons.mp hte with rfl | hte
      · exact Nat.lt_succ_self _
      · exact Nat.lt_succ_of_lt (loop.ids_below te hte) }

/-- The first time event with the id is unlinked. -/
def aeDeleteTimeEvent (loop : EventLoop F T D) (id : ℕ) : EventLoop F T D :=
  { loop with
    timeEvents := loop.timeEvents.eraseP (·.id == id)
    ids_decrease := loop.ids_decrease.sublist (List.eraseP_sublist.map _)
    ids_below te hte := loop.ids_below te (List.mem_of_mem_eraseP hte) }

/-! ## What the operations change -/

variable {loop loop' : EventLoop F T D} {isOpen : Bool} {fd fd' id : ℕ} {mask : Mask} {proc : F}
  {data : D}

theorem addSlot_events_self :
    (loop.addSlot fd mask proc data).events fd = (loop.events fd).add mask proc data :=
  Function.update_self ..

/-- The only thing `aeCreateFileEvent` can do, when it does anything. -/
theorem aeCreateFileEvent_cases
    (h : aeCreateFileEvent isOpen loop fd mask proc data = some loop') :
    fd < loop.setsize ∧ isOpen = true ∧ loop' = loop.addSlot fd mask proc data := by
  unfold aeCreateFileEvent at h
  split at h
  · cases h
  · rename_i hsize
    split at h
    · rename_i hadd
      rw [aeApiAddEvent, Bool.and_eq_true] at hadd
      exact ⟨Nat.not_le.mp hsize, hadd.1, (Option.some.inj h).symm⟩
    · cases h

theorem timeEvent_unique {te te' : TimeEvent T D} (h : te ∈ loop.timeEvents)
    (h' : te' ∈ loop.timeEvents) (hid : te.id = te'.id) : te = te' :=
  List.inj_on_of_nodup_map (loop.ids_decrease.imp fun hlt => Nat.ne_of_gt hlt) h h' hid

/-- A time event that survives a deletion has another id. -/
theorem mem_aeDeleteTimeEvent {te : TimeEvent T D}
    (h : te ∈ (aeDeleteTimeEvent loop id).timeEvents) : te ∈ loop.timeEvents ∧ te.id ≠ id := by
  refine ⟨List.mem_of_mem_eraseP h, ?_⟩
  have hids := loop.ids_decrease
  simp only [aeDeleteTimeEvent] at h
  generalize loop.timeEvents = l at h hids
  induction l with
  | nil => cases h
  | cons x xs ih =>
      rw [List.map_cons, List.pairwise_cons] at hids
      obtain ⟨hx, hids⟩ := hids
      by_cases hid : x.id = id
      · have hfirst : (x.id == id) = true := beq_iff_eq.mpr hid
        rw [List.eraseP_cons, hfirst, cond_true] at h
        intro hte
        have := hx te.id (List.mem_map_of_mem h)
        omega
      · have hother : (x.id == id) = false := beq_false_of_ne hid
        rw [List.eraseP_cons, hother, cond_false] at h
        rcases List.mem_cons.mp h with rfl | h
        · exact hid
        · exact ih h hids

end WrkQuic
