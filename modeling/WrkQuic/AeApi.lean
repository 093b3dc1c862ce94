import Mathlib.Data.Int.Notation
import Mathlib.Data.List.Nodup
import WrkQuic.EventLoop
import WrkQuic.Lib.Runs

/-!
# File events over any back end

The file events of `ae.c`, over an `aeApi…` that is a parameter: `ae.c`
includes one of `ae_evport.c`, `ae_epoll.c`, `ae_kqueue.c` and
`ae_select.c`. A back end is its state together with what the kernel keeps
for it, and the functions that `ae.c` calls.

`poller` is what the event loop is for, without a back end: procedures
registered for descriptors, and waits that report what is registered and
ready. `Loop.refines_poller` says that over a back end that is `Correct`
every step of the event loop is a step of the `poller`, in every run that
deletes the events of a descriptor before it closes it.
-/

namespace WrkQuic

/-! ## Masks -/

namespace Mask

/-- `AE_NONE`. -/
def aeNone : Mask := ⟨false, false⟩

/-- `a | b`. -/
def or (a b : Mask) : Mask := ⟨a.readable || b.readable, a.writable || b.writable⟩

/-- `a & b`. -/
def and (a b : Mask) : Mask := ⟨a.readable && b.readable, a.writable && b.writable⟩

/-- `a & ~b`. -/
def without (a b : Mask) : Mask := ⟨a.readable && !b.readable, a.writable && !b.writable⟩

def isNone (a : Mask) : Bool := !a.readable && !a.writable

/-- Every bit of `a` is one of `b`. -/
def Le (a b : Mask) : Prop :=
  (a.readable = true → b.readable = true) ∧ (a.writable = true → b.writable = true)

variable {a b c : Mask}

theorem ext (hr : a.readable = b.readable) (hw : a.writable = b.writable) : a = b := by
  cases a; cases b
  cases hr; cases hw
  rfl

@[simp] theorem or_readable : (a.or b).readable = (a.readable || b.readable) := rfl
@[simp] theorem or_writable : (a.or b).writable = (a.writable || b.writable) := rfl
@[simp] theorem and_readable : (a.and b).readable = (a.readable && b.readable) := rfl
@[simp] theorem and_writable : (a.and b).writable = (a.writable && b.writable) := rfl
@[simp] theorem without_readable : (a.without b).readable = (a.readable && !b.readable) := rfl
@[simp] theorem without_writable : (a.without b).writable = (a.writable && !b.writable) := rfl
@[simp] theorem aeNone_readable : aeNone.readable = false := rfl
@[simp] theorem aeNone_writable : aeNone.writable = false := rfl
@[simp] theorem aeWritable_readable : aeWritable.readable = false := rfl
@[simp] theorem aeWritable_writable : aeWritable.writable = true := rfl

theorem isNone_iff : a.isNone = true ↔ a = aeNone := by
  constructor
  · intro h
    simp only [isNone, Bool.and_eq_true, Bool.not_eq_true'] at h
    exact ext h.1 h.2
  · rintro rfl
    rfl

theorem isNone_eq_false_iff : a.isNone = false ↔ a ≠ aeNone := by
  rw [ne_eq, ← isNone_iff, Bool.not_eq_true]

theorem or_isNone : (a.or b).isNone = (a.isNone && b.isNone) := by
  simp only [isNone, or_readable, or_writable, Bool.not_or]
  cases a.readable <;> cases a.writable <;> cases b.readable <;> cases b.writable <;> rfl

theorem or_comm : a.or b = b.or a := ext (Bool.or_comm ..) (Bool.or_comm ..)

theorem or_or_self : a.or (b.or a) = a.or b := by
  refine ext ?_ ?_
  · simp only [or_readable]
    cases a.readable <;> cases b.readable <;> rfl
  · simp only [or_writable]
    cases a.writable <;> cases b.writable <;> rfl

theorem Le.refl : a.Le a := ⟨id, id⟩

theorem Le.trans (hab : a.Le b) (hbc : b.Le c) : a.Le c :=
  ⟨fun h => hbc.1 (hab.1 h), fun h => hbc.2 (hab.2 h)⟩

theorem and_le_right : (a.and b).Le b :=
  ⟨fun h => (Bool.and_eq_true _ _ ▸ h).2, fun h => (Bool.and_eq_true _ _ ▸ h).2⟩

theorem aeNone_le : aeNone.Le a := by
  constructor <;> intro h <;> cases h

theorem le_or_left : a.Le (a.or b) := by
  constructor <;> intro h <;> simp [h]

theorem Le.without (h : a.Le b) : (a.without c).Le (b.without c) := by
  constructor
  · intro hbits
    rw [without_readable, Bool.and_eq_true] at hbits ⊢
    exact hbits.imp h.1 id
  · intro hbits
    rw [without_writable, Bool.and_eq_true] at hbits ⊢
    exact hbits.imp h.2 id

theorem Le.or_right (h : a.Le b) : (a.or c).Le (b.or c) := by
  constructor
  · intro hor
    rw [or_readable, Bool.or_eq_true] at hor ⊢
    exact hor.imp h.1 id
  · intro hor
    rw [or_writable, Bool.or_eq_true] at hor ⊢
    exact hor.imp h.2 id

end Mask

/-! ## Slots -/

/-- `aeFileEvent`. A procedure stays in its slot when its bit is cleared;
one that was never set is `none`. -/
structure FileSlot (F D : Type) where
  mask : Mask
  rfileProc : Option F
  wfileProc : Option F
  clientData : Option D
  readable_set : mask.readable = true → rfileProc.isSome = true
  writable_set : mask.writable = true → wfileProc.isSome = true

namespace FileSlot

variable {F D : Type} {fe : FileSlot F D} {bits : Mask} {proc : F} {data : D}

def unset : FileSlot F D where
  mask := .aeNone
  rfileProc := none
  wfileProc := none
  clientData := none
  readable_set h := by cases h
  writable_set h := by cases h

/-- `fe->mask |= mask`, with the procedures of the mask. -/
def add (fe : FileSlot F D) (bits : Mask) (proc : F) (data : D) : FileSlot F D where
  mask := fe.mask.or bits
  rfileProc := if bits.readable then some proc else fe.rfileProc
  wfileProc := if bits.writable then some proc else fe.wfileProc
  clientData := some data
  readable_set h := by
    split
    · rfl
    · exact fe.readable_set (by simp_all)
  writable_set h := by
    split
    · rfl
    · exact fe.writable_set (by simp_all)

/-- `fe->mask = fe->mask & (~mask)`. -/
def remove (fe : FileSlot F D) (bits : Mask) : FileSlot F D where
  mask := fe.mask.without bits
  rfileProc := fe.rfileProc
  wfileProc := fe.wfileProc
  clientData := fe.clientData
  readable_set h := fe.readable_set (by simp_all)
  writable_set h := fe.writable_set (by simp_all)

/-- The slot without the procedures whose bit is clear. -/
def toFileEvent (fe : FileSlot F D) : FileEvent F (Option D) where
  rfileProc := if fe.mask.readable then fe.rfileProc else none
  wfileProc := if fe.mask.writable then fe.wfileProc else none
  clientData := fe.clientData

@[simp] theorem mask_add : (fe.add bits proc data).mask = fe.mask.or bits := rfl
@[simp] theorem mask_remove : (fe.remove bits).mask = fe.mask.without bits := rfl

/-- Clearing bits of an empty mask. -/
theorem remove_of_isNone (h : fe.mask = .aeNone) : fe.remove bits = fe := by
  obtain ⟨mask, r, w, data, hr, hw⟩ := fe
  cases h
  rfl

theorem toFileEvent_isNone : fe.toFileEvent.isNone = fe.mask.isNone := by
  have hr := fe.readable_set
  have hw := fe.writable_set
  simp only [FileEvent.isNone, toFileEvent, Mask.isNone]
  cases hmr : fe.mask.readable <;> cases hmw : fe.mask.writable <;> simp_all

theorem toFileEvent_add :
    (fe.add bits proc data).toFileEvent = fe.toFileEvent.add bits proc (some data) := by
  obtain ⟨r, w⟩ := bits
  simp only [toFileEvent, add, FileEvent.add, Mask.or_readable, Mask.or_writable]
  cases r <;> cases w <;> simp

theorem toFileEvent_remove : (fe.remove bits).toFileEvent = fe.toFileEvent.remove bits := by
  obtain ⟨r, w⟩ := bits
  simp only [toFileEvent, remove, FileEvent.remove, Mask.without_readable,
    Mask.without_writable]
  cases r <;> cases w <;> simp

end FileSlot

/-! ## What the event loop is for -/

/-- The part of `aeEventLoop` that file events are about. `fired` are the
events of the last wait that are still to be handled; `current` is the one
whose read half is done, with `rfired`. -/
structure Files (F D : Type) where
  setsize : ℕ
  events : ℕ → FileSlot F D
  fired : List (ℕ × Mask)
  current : Option (ℕ × Mask × Bool)

/-- A call of a file procedure. -/
structure FileCall (F D : Type) where
  proc : Option F
  fd : ℕ
  clientData : Option D
  mask : Mask

namespace Files

variable {F D : Type}

/-- `fe->mask` of every slot. -/
def masks (s : Files F D) (fd : ℕ) : Mask := (s.events fd).mask

def register (s : Files F D) (fd : ℕ) (mask : Mask) (proc : F) (data : D) : Files F D :=
  { s with events := Function.update s.events fd ((s.events fd).add mask proc data) }

def unregister (s : Files F D) (fd : ℕ) (mask : Mask) : Files F D :=
  { s with events := Function.update s.events fd ((s.events fd).remove mask) }

/-- The read half of an event that fired. -/
def handleReadable (s : Files F D) : Option (Option (FileCall F D) × Files F D) :=
  match s.current, s.fired with
  | none, (fd, mask) :: rest =>
      let fe := s.events fd
      let rfired := fe.mask.readable && mask.readable
      some (if rfired then some ⟨fe.rfileProc, fd, fe.clientData, mask⟩ else none,
        { s with fired := rest, current := some (fd, mask, rfired) })
  | _, _ => none

/-- The write half: it is left out when the read half was the same
procedure. -/
def handleWritable [DecidableEq F] (s : Files F D) :
    Option (Option (FileCall F D) × Files F D) :=
  match s.current with
  | some (fd, mask, rfired) =>
      let fe := s.events fd
      let wfired :=
        (fe.mask.writable && mask.writable) && (!rfired || fe.wfileProc != fe.rfileProc)
      some (if wfired then some ⟨fe.wfileProc, fd, fe.clientData, mask⟩ else none,
        { s with current := none })
  | none => none

end Files

/-- What a wait may report: only what is ready, within the arrays of the
event loop, and everything that is registered and ready unless the batch
is full. -/
structure Reported (setsize batch : ℕ) (masks ready : ℕ → Mask) (fired : List (ℕ × Mask)) :
    Prop where
  only_ready : ∀ p ∈ fired, p.2.Le (ready p.1)
  slots : ∀ p ∈ fired, p.1 < setsize
  fits : fired.length ≤ setsize
  readable : fired.length < batch → ∀ fd, (masks fd).readable = true →
    (ready fd).readable = true → ∃ p ∈ fired, p.1 = fd ∧ p.2.readable = true
  writable : fired.length < batch → ∀ fd, (masks fd).writable = true →
    (ready fd).writable = true → ∃ p ∈ fired, p.1 = fd ∧ p.2.writable = true

/-- What can be seen of a step of the event loop. -/
inductive FilesEvent (F D : Type) where
  | created (fd : ℕ) (mask : Mask) (proc : F) (data : D)
  | refused
  | deleted (fd : ℕ) (mask : Mask)
  | closed (fd : ℕ)
  | waited (batch : ℕ) (ready : ℕ → Mask) (fired : List (ℕ × Mask))
  | read (call : Option (FileCall F D))
  | wrote (call : Option (FileCall F D))

section Poller

variable {F D : Type} [DecidableEq F]

/-- The steps of an event loop that has no back end. -/
inductive PollerStep : Files F D → FilesEvent F D → Files F D → Prop where
  | created {s : Files F D} {fd : ℕ} {mask : Mask} {proc : F} {data : D} :
      fd < s.setsize → PollerStep s (.created fd mask proc data) (s.register fd mask proc data)
  | refused {s : Files F D} : PollerStep s .refused s
  | deleted {s : Files F D} {fd : ℕ} {mask : Mask} :
      PollerStep s (.deleted fd mask) (s.unregister fd mask)
  | closed {s : Files F D} {fd : ℕ} : s.masks fd = .aeNone → PollerStep s (.closed fd) s
  | waited {s : Files F D} {batch : ℕ} {ready : ℕ → Mask} {fired : List (ℕ × Mask)} :
      s.fired = [] → s.current = none → Reported s.setsize batch s.masks ready fired →
      PollerStep s (.waited batch ready fired) { s with fired := fired }
  | read {s s' : Files F D} {call : Option (FileCall F D)} :
      s.handleReadable = some (call, s') → PollerStep s (.read call) s'
  | wrote {s s' : Files F D} {call : Option (FileCall F D)} :
      s.handleWritable = some (call, s') → PollerStep s (.wrote call) s'

/-- The state `aeCreateEventLoop` leaves. -/
def Files.create (setsize : ℕ) : Files F D where
  setsize := setsize
  events _ := .unset
  fired := []
  current := none

def poller (setsize : ℕ) : Runs.Machine (Files F D) (FilesEvent F D) where
  init s := s = Files.create setsize
  step := PollerStep

end Poller

/-! ## Back ends -/

/-- What can be seen of descriptors: `ready` are those that would not
block, `failed` those with an error or a hangup. -/
structure Readiness where
  ready : ℕ → Mask
  failed : ℕ → Bool

/-- The functions of an `ae_….c`, with the kernel object they use as part
of the state. A function that makes system calls is given whether the
kernel accepts each of them, in order; the result `none` is `abort()`.
`aeApiPoll` is cut in two at the system call that waits. -/
structure AeApi where
  State : Type
  /-- what the system call that waits returns -/
  Result : Type
  aeApiCreate : State
  aeApiAddEvent : (ℕ → Bool) → (ℕ → Mask) → State → ℕ → Mask → Bool × State
  aeApiDelEvent : (ℕ → Bool) → (ℕ → Mask) → State → ℕ → Mask → Option State
  pollEnter : (ℕ → Bool) → State → Option State
  pollLeave : (ℕ → Mask) → ℤ → State → Result → List (ℕ × Mask) × State
  /-- the descriptors that fit in the state -/
  room : ℕ → Prop
  /-- what the kernel drops when a descriptor is closed -/
  closed : State → ℕ → State
  /-- the events of a descriptor that the kernel looks at -/
  watched : State → ℕ → Mask
  /-- what the wait may return: `setsize`, `maxfd` -/
  returns : ℕ → ℤ → Readiness → State → Result → Prop
  /-- the readiness that the back end reports -/
  reported : Readiness → ℕ → Mask
  /-- how many events one wait can report: `setsize`, `maxfd` -/
  batch : ℕ → ℤ → ℕ

/-- `maxfd` is the highest descriptor with a registered event. -/
structure Highest (masks : ℕ → Mask) (maxfd : ℤ) : Prop where
  le : ∀ fd, masks fd ≠ .aeNone → (fd : ℤ) ≤ maxfd
  least : -1 ≤ maxfd
  set : 0 ≤ maxfd → masks maxfd.toNat ≠ .aeNone

/-- What a back end has to guarantee. `Inv` relates what is registered to
the state of the back end. -/
structure AeApi.Correct (A : AeApi) where
  Inv : ℕ → (ℕ → Mask) → A.State → Prop
  create : ∀ n, Inv n (fun _ => .aeNone) A.aeApiCreate
  added : ∀ {n masks api answers fd mask api'}, Inv n masks api → fd < n → A.room fd →
    mask ≠ .aeNone → A.aeApiAddEvent answers masks api fd mask = (true, api') →
    Inv n (Function.update masks fd ((masks fd).or mask)) api'
  refused : ∀ {n masks api answers fd mask api'}, Inv n masks api → fd < n → mask ≠ .aeNone →
    A.aeApiAddEvent answers masks api fd mask = (false, api') → Inv n masks api'
  deleted : ∀ {n masks api answers fd mask api'}, Inv n masks api → masks fd ≠ .aeNone →
    A.aeApiDelEvent answers (Function.update masks fd ((masks fd).without mask)) api fd mask
      = some api' →
    Inv n (Function.update masks fd ((masks fd).without mask)) api'
  closed : ∀ {n masks api fd}, Inv n masks api → masks fd = .aeNone →
    Inv n masks (A.closed api fd)
  entered : ∀ {n masks api answers api'}, Inv n masks api →
    A.pollEnter answers api = some api' → ∀ fd, (masks fd).Le (A.watched api' fd)
  left : ∀ {n masks maxfd api answers api' kernel result}, Inv n masks api →
    (∀ fd, masks fd ≠ .aeNone → fd < n) → Highest masks maxfd →
    A.pollEnter answers api = some api' → A.returns n maxfd kernel api' result →
    Inv n masks (A.pollLeave masks maxfd api' result).2 ∧
    Reported n (A.batch n maxfd) masks (A.reported kernel)
      (A.pollLeave masks maxfd api' result).1

/-- `aeEventLoop`, as far as file events go. -/
structure Loop (A : AeApi) (F D : Type) extends Files F D where
  maxfd : ℤ
  apidata : A.State

/-- The highest descriptor below `fd` with a registered event, or `-1`. -/
def highestBelow (masks : ℕ → Mask) : ℕ → ℤ
  | 0 => -1
  | fd + 1 => if (masks fd).isNone then highestBelow masks fd else fd

namespace Loop

variable {A : AeApi} {F D : Type}

def aeCreateEventLoop (A : AeApi) (F D : Type) (setsize : ℕ) : Loop A F D where
  toFiles := .create setsize
  maxfd := -1
  apidata := A.aeApiCreate

/-- The result `false` is `AE_ERR`. -/
def aeCreateFileEvent (answers : ℕ → Bool) (loop : Loop A F D) (fd : ℕ) (mask : Mask)
    (proc : F) (data : D) : Bool × Loop A F D :=
  if loop.setsize ≤ fd then (false, loop)
  else
    match A.aeApiAddEvent answers loop.masks loop.apidata fd mask with
    | (false, apidata) => (false, { loop with apidata := apidata })
    | (true, apidata) =>
        (true,
          { loop with
            toFiles := loop.toFiles.register fd mask proc data
            maxfd := if loop.maxfd < fd then fd else loop.maxfd
            apidata := apidata })

/-- The slot and `maxfd` are updated before `aeApiDelEvent` is called. -/
def aeDeleteFileEvent (answers : ℕ → Bool) (loop : Loop A F D) (fd : ℕ) (mask : Mask) :
    Option (Loop A F D) :=
  if loop.setsize ≤ fd then some loop
  else if (loop.masks fd).isNone then some loop
  else
    let files := loop.toFiles.unregister fd mask
    let maxfd :=
      if (fd : ℤ) = loop.maxfd ∧ (files.masks fd).isNone = true then highestBelow files.masks fd
      else loop.maxfd
    (A.aeApiDelEvent answers files.masks loop.apidata fd mask).map fun apidata =>
      { toFiles := files, maxfd := maxfd, apidata := apidata }

/-- The event loop when `aeApiPoll` returns. -/
def wake (loop : Loop A F D) (api : A.State) (result : A.Result) : Loop A F D :=
  { loop with
    fired := (A.pollLeave loop.masks loop.maxfd api result).1
    apidata := (A.pollLeave loop.masks loop.maxfd api result).2 }

/-- Every event of the last wait has been handled. -/
def idle (loop : Loop A F D) : Prop := loop.fired = [] ∧ loop.current = none

end Loop

/-! ## Runs -/

inductive LoopEvent (A : AeApi) (F D : Type) where
  | create (answers : ℕ → Bool) (fd : ℕ) (mask : Mask) (proc : F) (data : D)
  | delete (answers : ℕ → Bool) (fd : ℕ) (mask : Mask)
  | close (fd : ℕ)
  | wait (answers : ℕ → Bool) (kernel : Readiness) (result : A.Result)
  | read
  | write

namespace Loop

variable {A : AeApi} {F D : Type} [DecidableEq F]

inductive Step : Loop A F D → LoopEvent A F D → FilesEvent F D → Loop A F D → Prop where
  | created {s s' : Loop A F D} {answers fd mask proc data} :
      s.aeCreateFileEvent answers fd mask proc data = (true, s') →
      Step s (.create answers fd mask proc data) (.created fd mask proc data) s'
  | refused {s s' : Loop A F D} {answers fd mask proc data} :
      s.aeCreateFileEvent answers fd mask proc data = (false, s') →
      Step s (.create answers fd mask proc data) .refused s'
  | deleted {s s' : Loop A F D} {answers fd mask} :
      s.aeDeleteFileEvent answers fd mask = some s' →
      Step s (.delete answers fd mask) (.deleted fd mask) s'
  | closed {s : Loop A F D} {fd} :
      Step s (.close fd) (.closed fd) { s with apidata := A.closed s.apidata fd }
  | waited {s : Loop A F D} {answers kernel result api} :
      s.idle → A.pollEnter answers s.apidata = some api →
      A.returns s.setsize s.maxfd kernel api result →
      Step s (.wait answers kernel result)
        (.waited (A.batch s.setsize s.maxfd) (A.reported kernel) (s.wake api result).fired)
        (s.wake api result)
  | read {s : Loop A F D} {call files} : s.handleReadable = some (call, files) →
      Step s .read (.read call) { s with toFiles := files }
  | write {s : Loop A F D} {call files} : s.handleWritable = some (call, files) →
      Step s .write (.wrote call) { s with toFiles := files }

def machine (A : AeApi) (F D : Type) [DecidableEq F] (setsize : ℕ) :
    Runs.Machine (Loop A F D) (LoopEvent A F D × FilesEvent F D) where
  init s := s = aeCreateEventLoop A F D setsize
  step s e s' := Step s e.1 e.2 s'

/-- The events of a descriptor are deleted before it is closed, no slot is
registered for no event, and the back end has room for what is registered. -/
def Disciplined (s : Loop A F D) (e : LoopEvent A F D × FilesEvent F D) : Prop :=
  match e.1 with
  | .create _ fd mask _ _ => mask ≠ .aeNone ∧ A.room fd
  | .close fd => s.masks fd = .aeNone
  | _ => True

/-- What holds between the steps of a run. -/
structure Inv (C : A.Correct) (setsize : ℕ) (s : Loop A F D) : Prop where
  size : s.setsize = setsize
  api : C.Inv setsize s.masks s.apidata
  bounded : ∀ fd, s.masks fd ≠ .aeNone → fd < setsize
  highest : Highest s.masks s.maxfd
  fired : ∀ p ∈ s.fired, p.1 < setsize
  current : ∀ p, s.current = some p → p.1 < setsize

end Loop

/-! ## What the functions change -/

namespace Files

variable {F D : Type} {s : Files F D} {fd : ℕ} {mask : Mask} {proc : F} {data : D}

theorem masks_register :
    (s.register fd mask proc data).masks = Function.update s.masks fd ((s.masks fd).or mask) := by
  funext fd'
  by_cases h : fd' = fd
  · subst h
    simp [masks, register]
  · simp [masks, register, Function.update_of_ne h]

theorem masks_unregister :
    (s.unregister fd mask).masks = Function.update s.masks fd ((s.masks fd).without mask) := by
  funext fd'
  by_cases h : fd' = fd
  · subst h
    simp [masks, unregister]
  · simp [masks, unregister, Function.update_of_ne h]

/-- A slot without events stays as it is. -/
theorem unregister_of_isNone (h : s.masks fd = .aeNone) : s.unregister fd mask = s := by
  have hslot : (s.events fd).remove mask = s.events fd := FileSlot.remove_of_isNone h
  rw [unregister, hslot, Function.update_eq_self]

/-- What the read half of an event does. -/
theorem handleReadable_cases {s' : Files F D} {call : Option (FileCall F D)}
    (h : s.handleReadable = some (call, s')) : ∃ fd mask rest,
      s.current = none ∧ s.fired = (fd, mask) :: rest ∧
      s' = { s with fired := rest,
                    current := some (fd, mask, (s.masks fd).readable && mask.readable) } := by
  unfold handleReadable at h
  split at h
  · rename_i fd mask rest hcurrent hfired
    exact ⟨fd, mask, rest, hcurrent, hfired, (Prod.mk.inj (Option.some.inj h)).2.symm⟩
  · cases h

theorem handleWritable_cases [DecidableEq F] {s' : Files F D} {call : Option (FileCall F D)}
    (h : s.handleWritable = some (call, s')) :
    ∃ p, s.current = some p ∧ s' = { s with current := none } := by
  unfold handleWritable at h
  split at h
  · rename_i hcurrent
    exact ⟨_, hcurrent, (Prod.mk.inj (Option.some.inj h)).2.symm⟩
  · cases h

end Files

namespace Mask

variable {a b : Mask}

theorem or_ne_aeNone (h : b ≠ aeNone) : a.or b ≠ aeNone := by
  rw [← isNone_eq_false_iff] at h ⊢
  rw [or_isNone, h, Bool.and_false]

theorem without_eq_aeNone_of (h : a = aeNone) : a.without b = aeNone := by
  subst h
  refine ext ?_ ?_ <;> simp

end Mask

section Highest

variable {masks : ℕ → Mask} {maxfd : ℤ} {fd : ℕ} {m : Mask}

theorem highest_init : Highest (fun _ => .aeNone) (-1) where
  le _ h := absurd rfl h
  least := Int.le_refl _
  set h := by omega

/-- The loop of `aeDeleteFileEvent` finds the highest descriptor below. -/
theorem highestBelow_spec (masks : ℕ → Mask) : ∀ n : ℕ,
    (∀ fd < n, masks fd ≠ .aeNone → (fd : ℤ) ≤ highestBelow masks n) ∧
    -1 ≤ highestBelow masks n ∧
    (0 ≤ highestBelow masks n → masks (highestBelow masks n).toNat ≠ .aeNone)
  | 0 => by
      refine ⟨fun fd h => absurd h (Nat.not_lt_zero _), Int.le_refl _, ?_⟩
      intro h
      rw [highestBelow] at h
      omega
  | n + 1 => by
      obtain ⟨hle, hleast, hset⟩ := highestBelow_spec masks n
      unfold highestBelow
      split
      · rename_i hnone
        refine ⟨?_, hleast, hset⟩
        intro fd hfd hmask
        rcases Nat.lt_succ_iff_lt_or_eq.mp hfd with hfd | rfl
        · exact hle fd hfd hmask
        · exact absurd (Mask.isNone_iff.mp hnone) hmask
      · rename_i hsome
        refine ⟨?_, by omega, ?_⟩
        · intro fd hfd _
          omega
        · intro _ hmask
          exact hsome (Mask.isNone_iff.mpr hmask)

theorem Highest.register (h : Highest masks maxfd) (hm : m ≠ .aeNone) :
    Highest (Function.update masks fd ((masks fd).or m))
      (if maxfd < fd then (fd : ℤ) else maxfd) where
  le fd' hfd' := by
    by_cases heq : fd' = fd
    · subst heq
      split <;> omega
    · rw [Function.update_of_ne heq] at hfd'
      have := h.le fd' hfd'
      split <;> omega
  least := by
    have := h.least
    split <;> omega
  set h0 := by
    split at h0 <;> rename_i hlt
    · rw [if_pos hlt, Int.toNat_natCast, Function.update_self]
      exact Mask.or_ne_aeNone hm
    · rw [if_neg hlt]
      by_cases heq : maxfd.toNat = fd
      · rw [heq, Function.update_self]
        exact Mask.or_ne_aeNone hm
      · rw [Function.update_of_ne heq]
        exact h.set h0

/-- `maxfd` after a deletion: `masks'` has fewer events, at `fd` only. -/
theorem Highest.unregister (h : Highest masks maxfd) {m' : Mask}
    (hm' : masks fd = .aeNone → m' = .aeNone) :
    Highest (Function.update masks fd m')
      (if (fd : ℤ) = maxfd ∧ (Function.update masks fd m' fd).isNone = true
        then highestBelow (Function.update masks fd m') fd else maxfd) := by
  have hsub : ∀ fd', Function.update masks fd m' fd' ≠ .aeNone → masks fd' ≠ .aeNone := by
    intro fd' hfd' hnone
    by_cases heq : fd' = fd
    · subst heq
      rw [Function.update_self] at hfd'
      exact hfd' (hm' hnone)
    · rw [Function.update_of_ne heq] at hfd'
      exact hfd' hnone
  split
  · rename_i hlast
    obtain ⟨hfd, hnone⟩ := hlast
    obtain ⟨hle, hleast, hset⟩ := highestBelow_spec (Function.update masks fd m') fd
    refine ⟨?_, hleast, hset⟩
    intro fd' hfd'
    have hbelow := h.le fd' (hsub fd' hfd')
    refine hle fd' ?_ hfd'
    have hne : fd' ≠ fd := by
      rintro rfl
      exact hfd' (Mask.isNone_iff.mp hnone)
    omega
  · rename_i hlast
    refine ⟨fun fd' hfd' => h.le fd' (hsub fd' hfd'), h.least, ?_⟩
    intro h0
    by_cases heq : maxfd.toNat = fd
    · intro hnone
      refine hlast ⟨by omega, ?_⟩
      rw [heq] at hnone
      exact Mask.isNone_iff.mpr hnone
    · rw [Function.update_of_ne heq]
      exact h.set h0

end Highest

/-! ## Refinement -/

namespace Loop

variable {A : AeApi} {C : A.Correct} {F D : Type} {n : ℕ} {s s' : Loop A F D}
  {answers : ℕ → Bool} {fd : ℕ} {mask : Mask} {proc : F} {data : D}

/-- The ways `aeCreateFileEvent` can end. -/
theorem aeCreateFileEvent_cases {ok : Bool}
    (h : s.aeCreateFileEvent answers fd mask proc data = (ok, s')) :
    (ok = false ∧ s.setsize ≤ fd ∧ s' = s) ∨
    (∃ api, fd < s.setsize ∧ A.aeApiAddEvent answers s.masks s.apidata fd mask = (ok, api) ∧
      s' = if ok then
        { s with
          toFiles := s.toFiles.register fd mask proc data
          maxfd := if s.maxfd < fd then (fd : ℤ) else s.maxfd
          apidata := api }
      else { s with apidata := api }) := by
  unfold aeCreateFileEvent at h
  split at h
  · rename_i hsize
    obtain ⟨rfl, rfl⟩ := Prod.mk.inj h
    exact .inl ⟨rfl, hsize, rfl⟩
  · rename_i hsize
    split at h
    · rename_i api hadd
      obtain ⟨rfl, rfl⟩ := Prod.mk.inj h
      exact .inr ⟨api, Nat.not_le.mp hsize, hadd, rfl⟩
    · rename_i api hadd
      obtain ⟨rfl, rfl⟩ := Prod.mk.inj h
      exact .inr ⟨api, Nat.not_le.mp hsize, hadd, rfl⟩

/-- A deletion leaves what has no slot or no event; anything else it hands
to the back end, with the slot already updated. -/
theorem aeDeleteFileEvent_cases (h : s.aeDeleteFileEvent answers fd mask = some s') :
    ((s.setsize ≤ fd ∨ s.masks fd = .aeNone) ∧ s' = s) ∨
    (∃ api, fd < s.setsize ∧ s.masks fd ≠ .aeNone ∧
      A.aeApiDelEvent answers (s.toFiles.unregister fd mask).masks s.apidata fd mask
        = some api ∧
      s' = { toFiles := s.toFiles.unregister fd mask
             maxfd :=
               if (fd : ℤ) = s.maxfd ∧
                  ((s.toFiles.unregister fd mask).masks fd).isNone = true
               then highestBelow (s.toFiles.unregister fd mask).masks fd else s.maxfd
             apidata := api }) := by
  unfold aeDeleteFileEvent at h
  split at h
  · rename_i hsize
    exact .inl ⟨.inl hsize, (Option.some.inj h).symm⟩
  · rename_i hsize
    split at h
    · rename_i hnone
      exact .inl ⟨.inr (Mask.isNone_iff.mp hnone), (Option.some.inj h).symm⟩
    · rename_i hnone
      obtain ⟨api, hdel, rfl⟩ := Option.map_eq_some_iff.mp h
      refine .inr ⟨api, Nat.not_le.mp hsize, ?_, hdel, rfl⟩
      intro hmask
      exact hnone (Mask.isNone_iff.mpr hmask)

theorem inv_create (C : A.Correct) (n : ℕ) : Inv C n (aeCreateEventLoop A F D n) where
  size := rfl
  api := C.create n
  bounded _ h := absurd rfl h
  highest := highest_init
  fired p h := by cases h
  current p h := by cases h

theorem Inv.registered (h : Inv C n s) (hfd : fd < n) (hroom : A.room fd)
    (hmask : mask ≠ .aeNone) {api : A.State}
    (hadd : A.aeApiAddEvent answers s.masks s.apidata fd mask = (true, api)) :
    Inv C n
      { s with
        toFiles := s.toFiles.register fd mask proc data
        maxfd := if s.maxfd < fd then (fd : ℤ) else s.maxfd
        apidata := api } where
  size := h.size
  api := by
    rw [Files.masks_register]
    exact C.added h.api hfd hroom hmask hadd
  bounded fd' hfd' := by
    rw [Files.masks_register] at hfd'
    by_cases heq : fd' = fd
    · rw [heq]
      exact hfd
    · rw [Function.update_of_ne heq] at hfd'
      exact h.bounded fd' hfd'
  highest := by
    rw [Files.masks_register]
    exact h.highest.register hmask
  fired := h.fired
  current := h.current

theorem Inv.unregistered (h : Inv C n s) (hset : s.masks fd ≠ .aeNone) {api : A.State}
    (hdel : A.aeApiDelEvent answers (s.toFiles.unregister fd mask).masks s.apidata fd mask
      = some api) :
    Inv C n
      { toFiles := s.toFiles.unregister fd mask
        maxfd :=
          if (fd : ℤ) = s.maxfd ∧ ((s.toFiles.unregister fd mask).masks fd).isNone = true
          then highestBelow (s.toFiles.unregister fd mask).masks fd else s.maxfd
        apidata := api } where
  size := h.size
  api := by
    rw [Files.masks_unregister] at hdel ⊢
    exact C.deleted h.api hset hdel
  bounded fd' hfd' := by
    rw [Files.masks_unregister] at hfd'
    by_cases heq : fd' = fd
    · rw [heq]
      exact h.bounded fd hset
    · rw [Function.update_of_ne heq] at hfd'
      exact h.bounded fd' hfd'
  highest := by
    rw [Files.masks_unregister]
    exact h.highest.unregister fun hnone => Mask.without_eq_aeNone_of hnone
  fired := h.fired
  current := h.current

variable [DecidableEq F]

/-- One step over a correct back end: what is left is an invariant, and the
step is one of the `poller`. -/
theorem step_refines (h : Inv C n s) {e : LoopEvent A F D × FilesEvent F D}
    (hok : s.Disciplined e) (hstep : Step s e.1 e.2 s') :
    Inv C n s' ∧ PollerStep s.toFiles e.2 s'.toFiles := by
  obtain ⟨event, seen⟩ := e
  cases hstep with
  | created hcreate =>
      rcases aeCreateFileEvent_cases hcreate with ⟨hok', -⟩ | ⟨api, hfd, hadd, rfl⟩
      · cases hok'
      · exact ⟨h.registered (h.size ▸ hfd) hok.2 hok.1 hadd, .created hfd⟩
  | refused hcreate =>
      rcases aeCreateFileEvent_cases hcreate with ⟨-, -, rfl⟩ | ⟨api, hfd, hadd, rfl⟩
      · exact ⟨h, .refused⟩
      · exact ⟨{ h with api := C.refused h.api (h.size ▸ hfd) hok.1 hadd }, .refused⟩
  | @deleted _ answers fd mask hdelete =>
      rcases aeDeleteFileEvent_cases hdelete with ⟨hnone, rfl⟩ | ⟨api, -, hset, hdel, rfl⟩
      · have hmask : s'.masks fd = .aeNone := by
          by_contra hset
          have hfd := h.bounded fd hset
          rcases hnone with hsize | hnone
          · rw [h.size] at hsize
            omega
          · exact hset hnone
        refine ⟨h, ?_⟩
        have hsame : PollerStep s'.toFiles (.deleted fd mask) (s'.toFiles.unregister fd mask) :=
          .deleted
        rwa [Files.unregister_of_isNone hmask] at hsame
      · exact ⟨h.unregistered hset hdel, .deleted⟩
  | closed => exact ⟨{ h with api := C.closed h.api hok }, .closed hok⟩
  | @waited answers kernel result api hidle henter hreturns =>
      rw [h.size] at hreturns
      obtain ⟨hinv, hreported⟩ := C.left h.api h.bounded h.highest henter hreturns
      have hfired : ∀ p ∈ (A.pollLeave s.masks s.maxfd api result).1, p.1 < n := hreported.slots
      refine ⟨⟨h.size, hinv, h.bounded, h.highest, hfired, h.current⟩, ?_⟩
      refine .waited hidle.1 hidle.2 ?_
      rw [h.size]
      exact hreported
  | read hread =>
      refine ⟨?_, .read hread⟩
      obtain ⟨fd, mask, rest, -, hfired, rfl⟩ := Files.handleReadable_cases hread
      have hrest : ∀ p ∈ (fd, mask) :: rest, p.1 < n := hfired ▸ h.fired
      refine ⟨h.size, h.api, h.bounded, h.highest, ?_, ?_⟩
      · intro p hp
        exact hrest p (List.mem_cons_of_mem _ hp)
      · intro p hp
        obtain rfl := Option.some.inj hp
        exact hrest (fd, mask) List.mem_cons_self
  | write hwrite =>
      refine ⟨?_, .wrote hwrite⟩
      obtain ⟨p, -, rfl⟩ := Files.handleWritable_cases hwrite
      exact ⟨h.size, h.api, h.bounded, h.highest, h.fired, fun p hp => by cases hp⟩

theorem reachable_step {event : LoopEvent A F D} {seen : FilesEvent F D}
    (h : (machine A F D n).ReachableWith Disciplined s) (hstep : Step s event seen s')
    (hok : s.Disciplined (event, seen)) : (machine A F D n).ReachableWith Disciplined s' :=
  .step (e := (event, seen)) h hstep hok

theorem inv_of_reachable (C : A.Correct) (h : (machine A F D n).ReachableWith Disciplined s) :
    Inv C n s :=
  h.invariant (fun _ hs => hs ▸ inv_create C n)
    (fun _ _ _ hinv hstep hok => (step_refines hinv hok hstep).1)

/-- In every run over a correct back end, every step is one of the
`poller`, and the kernel is asked for everything that is registered
whenever the event loop waits. -/
theorem refines_poller (C : A.Correct) (h : (machine A F D n).ReachableWith Disciplined s)
    {e : LoopEvent A F D × FilesEvent F D} (hok : s.Disciplined e)
    (hstep : (machine A F D n).step s e s') :
    (poller n).step s.toFiles e.2 s'.toFiles ∧
    ∀ answers api, A.pollEnter answers s.apidata = some api →
      ∀ fd, (s.masks fd).Le (A.watched api fd) := by
  have hinv := inv_of_reachable C h
  exact ⟨(step_refines hinv hok hstep).2, fun answers api henter => C.entered hinv.api henter⟩

end Loop

/-! ## Calls -/

namespace Poller

variable {F D : Type} [DecidableEq F] {n : ℕ}

/-- The last wait: the readiness it saw, and the events it reported. -/
structure LastWait where
  ready : ℕ → Mask
  fired : List (ℕ × Mask)

/-- Before the first wait. -/
def LastWait.never : LastWait := ⟨fun _ => .aeNone, []⟩

def LastWait.next (w : LastWait) : FilesEvent F D → LastWait
  | .waited _ ready fired => ⟨ready, fired⟩
  | _ => w

/-- The poller, with its last wait. -/
def withWait (n : ℕ) : Runs.Machine (Files F D × LastWait) (FilesEvent F D) :=
  (poller n).withHistory .never LastWait.next

/-- What is still to be handled was reported, and what was reported was
ready. -/
structure Pending (s : Files F D × LastWait) : Prop where
  ready : ∀ p ∈ s.2.fired, p.2.Le (s.2.ready p.1)
  fired : ∀ p ∈ s.1.fired, p ∈ s.2.fired
  current : ∀ p, s.1.current = some p → (p.1, p.2.1) ∈ s.2.fired

theorem pending_step {s s' : Files F D × LastWait} {e : FilesEvent F D} (h : Pending s)
    (hstep : (withWait n).step s e s') : Pending s' := by
  obtain ⟨files, last⟩ := s
  obtain ⟨files', last'⟩ := s'
  obtain ⟨hstep, hlast⟩ := hstep
  cases hstep with
  | created =>
      obtain rfl : last' = last := hlast
      exact ⟨h.ready, h.fired, h.current⟩
  | refused =>
      obtain rfl : last' = last := hlast
      exact h
  | deleted =>
      obtain rfl : last' = last := hlast
      exact ⟨h.ready, h.fired, h.current⟩
  | closed =>
      obtain rfl : last' = last := hlast
      exact h
  | waited hfired hcurrent hreported =>
      obtain rfl : last' = _ := hlast
      refine ⟨hreported.only_ready, fun p hp => hp, ?_⟩
      intro p hp
      have : some p = none := hp.symm.trans hcurrent
      cases this
  | read hread =>
      obtain rfl : last' = last := hlast
      obtain ⟨fd, mask, rest, -, hfired, rfl⟩ := Files.handleReadable_cases hread
      have hall : ∀ p ∈ (fd, mask) :: rest, p ∈ last'.fired := hfired ▸ h.fired
      refine ⟨h.ready, fun p hp => hall p (List.mem_cons_of_mem _ hp), ?_⟩
      intro p hp
      obtain rfl := Option.some.inj hp
      exact hall (fd, mask) List.mem_cons_self
  | wrote hwrite =>
      obtain rfl : last' = last := hlast
      obtain ⟨p, -, rfl⟩ := Files.handleWritable_cases hwrite
      exact ⟨h.ready, h.fired, fun p hp => by cases hp⟩

omit [DecidableEq F] in
theorem pending_create : Pending (Files.create (F := F) (D := D) n, .never) where
  ready p hp := by cases hp
  fired p hp := by cases hp
  current p hp := by cases hp

theorem pending_of_reachable {s : Files F D × LastWait} (h : (withWait n).Reachable s) :
    Pending s :=
  h.invariant (fun s hs => (Prod.ext hs.1 hs.2 : s = (Files.create n, .never)) ▸
    pending_create) (fun _ _ _ hp hstep => pending_step hp hstep)

/-- A call of the read half: an event of the last wait, which was ready and
is registered at the time of the call, with the procedure registered for it. -/
structure ReadCall (s : Files F D × LastWait) (call : FileCall F D) : Prop where
  reported : (call.fd, call.mask) ∈ s.2.fired
  event : call.mask.readable = true
  ready : (s.2.ready call.fd).readable = true
  registered : (s.1.masks call.fd).readable = true
  proc : call.proc = (s.1.events call.fd).rfileProc
  isSome : call.proc.isSome = true

/-- The same of the write half. -/
structure WriteCall (s : Files F D × LastWait) (call : FileCall F D) : Prop where
  reported : (call.fd, call.mask) ∈ s.2.fired
  event : call.mask.writable = true
  ready : (s.2.ready call.fd).writable = true
  registered : (s.1.masks call.fd).writable = true
  proc : call.proc = (s.1.events call.fd).wfileProc
  isSome : call.proc.isSome = true

/-- A procedure is called only for an event that the last wait reported and
that is registered at the time of the call. -/
theorem call_registered {s s' : Files F D × LastWait} {e : FilesEvent F D}
    (h : (withWait n).Reachable s) (hstep : (withWait n).step s e s')
    {call : FileCall F D} :
    (e = .read (some call) → ReadCall s call) ∧ (e = .wrote (some call) → WriteCall s call) := by
  have hpending := pending_of_reachable h
  obtain ⟨hstep, -⟩ := hstep
  constructor
  · rintro rfl
    cases hstep with
    | read hread =>
        unfold Files.handleReadable at hread
        split at hread
        · rename_i fd mask rest hcurrent hfired
          obtain ⟨hcall, -⟩ := Prod.mk.inj (Option.some.inj hread)
          split at hcall
          · rename_i hbits
            rw [Bool.and_eq_true] at hbits
            obtain rfl := Option.some.inj hcall
            have hlast := hpending.fired (fd, mask) (hfired ▸ List.mem_cons_self)
            exact
              { reported := hlast
                event := hbits.2
                ready := (hpending.ready _ hlast).1 hbits.2
                registered := hbits.1
                proc := rfl
                isSome := (s.1.events fd).readable_set hbits.1 }
          · cases hcall
        · cases hread
  · rintro rfl
    cases hstep with
    | wrote hwrite =>
        unfold Files.handleWritable at hwrite
        split at hwrite
        · rename_i fd mask rfired hcurrent
          obtain ⟨hcall, -⟩ := Prod.mk.inj (Option.some.inj hwrite)
          split at hcall
          · rename_i hbits
            rw [Bool.and_eq_true, Bool.and_eq_true] at hbits
            obtain rfl := Option.some.inj hcall
            have hlast := hpending.current _ hcurrent
            exact
              { reported := hlast
                event := hbits.1.2
                ready := (hpending.ready _ hlast).2 hbits.1.2
                registered := hbits.1.1
                proc := rfl
                isSome := (s.1.events fd).writable_set hbits.1.1 }
          · cases hcall
        · cases hwrite

end Poller

namespace Loop

variable {A : AeApi} {F D : Type} [DecidableEq F] {n : ℕ}

/-- The event loop over a back end, with its last wait. -/
def withWait (A : AeApi) (F D : Type) [DecidableEq F] (n : ℕ) :
    Runs.Machine (Loop A F D × Poller.LastWait) (LoopEvent A F D × FilesEvent F D) :=
  (machine A F D n).withHistory .never fun last e => last.next e.2

theorem withWait_step {s s' : Loop A F D} {last : Poller.LastWait} {event : LoopEvent A F D}
    {seen : FilesEvent F D}
    (h : (withWait A F D n).ReachableWith (fun s e => s.1.Disciplined e) (s, last))
    (hstep : Step s event seen s') (hok : s.Disciplined (event, seen)) :
    (withWait A F D n).ReachableWith (fun s e => s.1.Disciplined e) (s', last.next seen) :=
  .step (e := (event, seen)) h ⟨hstep, rfl⟩ hok

theorem withWait_refines (C : A.Correct) {s : Loop A F D × Poller.LastWait}
    (h : (withWait A F D n).ReachableWith (fun s e => s.1.Disciplined e) s) :
    (Poller.withWait n).Reachable (s.1.toFiles, s.2) := by
  refine h.refines (fun s => (s.1.toFiles, s.2)) (·.2) ?_ ?_
  · rintro ⟨s, last⟩ ⟨hs, hlast⟩
    obtain rfl : s = aeCreateEventLoop A F D n := hs
    exact ⟨rfl, hlast⟩
  · rintro ⟨s, last⟩ e ⟨s', last'⟩ hreach ⟨hstep, hlast⟩ hok
    exact ⟨(refines_poller C hreach.of_withHistory hok hstep).1, hlast⟩

end Loop

end WrkQuic
