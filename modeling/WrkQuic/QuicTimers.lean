import WrkQuic.QuicThreads

/-!
# QUIC timers

Each event loop counts the ids of its timers for itself, but `fd_to_cnx`,
which keeps the id of the `write_request` timer of a socket, is one table
for the process: a descriptor number that is closed by one thread may be
the next socket of another, and its `ae` is left as it was.

`LoopOk` is what the loop of one thread has to do with the shared tables;
it is kept by every handler as long as no socket inherits an `ae` from
another thread (`OwnNumber`).
-/

namespace WrkQuic

open Runs QuicProcess

/-- The thread that calls `quic_connect_socket`. -/
def connecting (s : QuicProcess) : QuicProcessEvent → Option ℕ
  | .timer t id _ _ =>
      ((s.loops t).timeEvents.find? (·.id == id)).bind fun te =>
        if te.timeProc = .delayedInitialConnect ∨ te.timeProc = .delayRecon then
          some te.clientData.owner
        else none
  | .restart t _ false _ => some t
  | _ => none

/-- A socket gets a number whose `ae` is 0 or was stored by its own
thread. -/
def OwnNumber (s : QuicProcess) (e : QuicProcessEvent) : Prop :=
  ∀ t ∈ connecting s e, (s.fdToCnx s.fds.lowest).ae = 0 ∨ (s.fdToCnx s.fds.lowest).setBy = t

instance (s : QuicProcess) (e : QuicProcessEvent) : Decidable (OwnNumber s e) :=
  inferInstanceAs (Decidable (∀ t ∈ connecting s e, _))

/-! ## One event loop -/

/-- No `write_request` timer of the loop is pending for `fd`. -/
def Idle (loop : QuicLoop) (fd : ℕ) : Prop :=
  ∀ te ∈ loop.timeEvents, te.timeProc = .writeRequest → ∀ use, te.clientData ≠ .socket fd use

/-- The procedures of a slot. A socket that is not connected yet waits for
both events. -/
structure SlotOk (fe : FileEvent QuicFileProc Client) : Prop where
  connecting : fe.rfileProc = some .quicSocketConnected →
    fe.wfileProc = some .quicSocketConnected
  readable : fe.rfileProc ≠ some .quicWriteable
  writable : fe.wfileProc ≠ some .quicReadable

/-- What the loop of thread `t` has to do with the tables of the process.
Only sockets of `t` are registered; while a `write_request` timer is pending
its socket is open and waits for it alone, so that `ae` is its id; and an
`ae` stored by `t` names no other timer of `t`. -/
structure LoopOk (fds : FdTable QuicSocket) (wr : ℕ → Wr) (t : ℕ) (loop : QuicLoop) : Prop where
  registered : ∀ fd, (loop.events fd).isNone = false → fd < loop.setsize ∧
    (∃ use, fds.get fd = some ⟨some t, use⟩) ∧ (loop.events fd).clientData.owner = t
  slots : ∀ fd, SlotOk (loop.events fd)
  pending : ∀ te ∈ loop.timeEvents, te.timeProc = .writeRequest → ∃ fd use,
    te.clientData = .socket fd use ∧ fds.get fd = some ⟨some t, use⟩ ∧
    (loop.events fd).wfileProc = none ∧ (wr fd).ae = te.id ∧ (wr fd).setBy = t
  stored : ∀ fd, (wr fd).setBy = t → (wr fd).ae ≠ 0 → (wr fd).ae < loop.timeEventNextId ∧
    ∀ te ∈ loop.timeEvents, te.id = (wr fd).ae →
      te.timeProc = .writeRequest ∧ ∃ use, te.clientData = .socket fd use

variable {fds : FdTable QuicSocket} {wr : ℕ → Wr} {t fd : ℕ} {loop : QuicLoop}
  {mask : Mask} {proc : QuicFileProc} {c : Client}

theorem SlotOk.addReadable {fe : FileEvent QuicFileProc Client} (h : SlotOk fe) (c : Client) :
    SlotOk (fe.add .aeReadable .quicReadable c) :=
  ⟨(fun hr => by cases hr), (fun hr => by cases hr), h.writable⟩

theorem SlotOk.addWritable {fe : FileEvent QuicFileProc Client} (h : SlotOk fe)
    (hconnected : fe.rfileProc ≠ some .quicSocketConnected) (c : Client) :
    SlotOk (fe.add .aeWritable .quicWriteable c) :=
  ⟨fun hr => absurd hr hconnected, h.readable, (fun hw => by cases hw)⟩

theorem SlotOk.addBoth {fe : FileEvent QuicFileProc Client} (c : Client) :
    SlotOk (fe.add .both .quicSocketConnected c) :=
  ⟨fun _ => rfl, (fun hr => by cases hr), (fun hw => by cases hw)⟩

/-- A slot loses bits of its mask, if both those of a socket that is not
connected yet. -/
theorem SlotOk.remove {fe : FileEvent QuicFileProc Client} (h : SlotOk fe)
    (hconnecting : mask = .both ∨ fe.rfileProc ≠ some .quicSocketConnected) :
    SlotOk (fe.remove mask) := by
  obtain ⟨r, w⟩ := mask
  refine ⟨?_, ?_, ?_⟩
  · intro hr
    cases r with
    | true => cases hr
    | false =>
        rcases hconnecting with hboth | hne
        · cases hboth
        · exact absurd hr hne
  · intro hr
    cases r with
    | true => cases hr
    | false => exact h.readable hr
  · intro hw
    cases w with
    | true => cases hw
    | false => exact h.writable hw

/-- A socket that waits to become writable has no timer. -/
theorem LoopOk.idle (h : LoopOk fds wr t loop) (hw : (loop.events fd).wfileProc ≠ none) :
    Idle loop fd := by
  intro te hte hproc use hdata
  obtain ⟨fd', use', hdata', -, hnone, -⟩ := h.pending te hte hproc
  obtain ⟨rfl, -⟩ := Client.socket.inj (hdata.symm.trans hdata')
  exact hw hnone

/-- So has a descriptor that is not a socket of the thread. -/
theorem LoopOk.idle_of_fds (h : LoopOk fds wr t loop)
    (hfd : ∀ use, fds.get fd ≠ some ⟨some t, use⟩) : Idle loop fd := by
  intro te hte hproc use hdata
  obtain ⟨fd', use', hdata', hopen, -⟩ := h.pending te hte hproc
  obtain ⟨rfl, -⟩ := Client.socket.inj (hdata.symm.trans hdata')
  exact hfd _ hopen

theorem LoopOk.unregistered (h : LoopOk fds wr t loop)
    (hfd : ∀ use, fds.get fd ≠ some ⟨some t, use⟩) : (loop.events fd).isNone = true := by
  by_contra hreg
  obtain ⟨-, ⟨use, hopen⟩, -⟩ := h.registered fd (Bool.eq_false_iff.mpr hreg)
  exact hfd use hopen

/-! ### Changes of the loop -/

theorem LoopOk.addSlot (h : LoopOk fds wr t loop) (hsize : fd < loop.setsize)
    (hopen : ∃ use, fds.get fd = some ⟨some t, use⟩) (hidle : Idle loop fd) (hc : c.owner = t)
    (hslot : SlotOk ((loop.events fd).add mask proc c)) :
    LoopOk fds wr t (loop.addSlot fd mask proc c) where
  registered fd' hfd' := by
    simp only [EventLoop.addSlot] at hfd' ⊢
    by_cases hfd : fd' = fd
    · subst hfd
      rw [Function.update_self]
      exact ⟨hsize, hopen, hc⟩
    · rw [Function.update_of_ne hfd] at hfd' ⊢
      exact h.registered fd' hfd'
  slots fd' := by
    simp only [EventLoop.addSlot]
    by_cases hfd : fd' = fd
    · subst hfd
      rw [Function.update_self]
      exact hslot
    · rw [Function.update_of_ne hfd]
      exact h.slots fd'
  pending te hte hproc := by
    obtain ⟨fd', use, hdata, hfd', hnone, hae⟩ := h.pending te hte hproc
    have hne : fd' ≠ fd := by
      rintro rfl
      exact hidle te hte hproc use hdata
    refine ⟨fd', use, hdata, hfd', ?_, hae⟩
    simp only [EventLoop.addSlot]
    rw [Function.update_of_ne hne]
    exact hnone
  stored := h.stored

/-- The slots after `aeDeleteFileEvent`. -/
theorem aeDeleteFileEvent_events (loop : QuicLoop) (fd fd' : ℕ) (mask : Mask) :
    (aeDeleteFileEvent loop fd mask).events fd' = loop.events fd' ∧
        (fd' = fd → loop.setsize ≤ fd ∨ (loop.events fd).isNone = true) ∨
      fd' = fd ∧ (aeDeleteFileEvent loop fd mask).events fd' = (loop.events fd).remove mask := by
  unfold aeDeleteFileEvent
  split
  · rename_i hsize
    exact Or.inl ⟨rfl, fun _ => Or.inl hsize⟩
  · split
    · rename_i hnone
      exact Or.inl ⟨rfl, fun _ => Or.inr hnone⟩
    · by_cases hfd : fd' = fd
      · subst hfd
        exact Or.inr ⟨rfl, Function.update_self ..⟩
      · exact Or.inl ⟨Function.update_of_ne hfd .., fun h => absurd h hfd⟩

theorem aeDeleteFileEvent_timers (loop : QuicLoop) (fd : ℕ) (mask : Mask) :
    (aeDeleteFileEvent loop fd mask).timeEvents = loop.timeEvents ∧
      (aeDeleteFileEvent loop fd mask).timeEventNextId = loop.timeEventNextId ∧
      (aeDeleteFileEvent loop fd mask).setsize = loop.setsize := by
  unfold aeDeleteFileEvent
  split
  · exact ⟨rfl, rfl, rfl⟩
  · split
    · exact ⟨rfl, rfl, rfl⟩
    · exact ⟨rfl, rfl, rfl⟩

theorem remove_cases {F D : Type} (fe : FileEvent F D) (mask : Mask) :
    ((fe.remove mask).rfileProc = none ∨ (fe.remove mask).rfileProc = fe.rfileProc) ∧
      ((fe.remove mask).wfileProc = none ∨ (fe.remove mask).wfileProc = fe.wfileProc) := by
  obtain ⟨_ | _, _ | _⟩ := mask
  · exact ⟨Or.inr rfl, Or.inr rfl⟩
  · exact ⟨Or.inr rfl, Or.inl rfl⟩
  · exact ⟨Or.inl rfl, Or.inr rfl⟩
  · exact ⟨Or.inl rfl, Or.inl rfl⟩

theorem LoopOk.deleteFileEvent (h : LoopOk fds wr t loop)
    (hconnecting : mask = .both ∨ (loop.events fd).rfileProc ≠ some .quicSocketConnected) :
    LoopOk fds wr t (aeDeleteFileEvent loop fd mask) := by
  obtain ⟨htimers, hnext, hsize⟩ := aeDeleteFileEvent_timers loop fd mask
  refine ⟨?_, ?_, ?_, ?_⟩
  · intro fd' hfd'
    rw [hsize]
    rcases aeDeleteFileEvent_events loop fd fd' mask with ⟨heq, -⟩ | ⟨rfl, heq⟩
    · rw [heq] at hfd' ⊢
      exact h.registered fd' hfd'
    · rw [heq] at hfd' ⊢
      refine h.registered fd' ?_
      obtain ⟨hr, hw⟩ := remove_cases (loop.events fd') mask
      rw [FileEvent.isNone, Bool.and_eq_false_iff] at hfd' ⊢
      refine hfd'.imp (fun hsome => ?_) (fun hsome => ?_)
      · rcases hr with hr | hr
        · rw [hr] at hsome
          cases hsome
        · rw [← hr]
          exact hsome
      · rcases hw with hw | hw
        · rw [hw] at hsome
          cases hsome
        · rw [← hw]
          exact hsome
  · intro fd'
    rcases aeDeleteFileEvent_events loop fd fd' mask with ⟨heq, -⟩ | ⟨rfl, heq⟩
    · rw [heq]
      exact h.slots fd'
    · rw [heq]
      exact (h.slots fd').remove hconnecting
  · intro te hte hproc
    rw [htimers] at hte
    obtain ⟨fd', use, hdata, hfd', hnone, hae⟩ := h.pending te hte hproc
    refine ⟨fd', use, hdata, hfd', ?_, hae⟩
    rcases aeDeleteFileEvent_events loop fd fd' mask with ⟨heq, -⟩ | ⟨rfl, heq⟩
    · rw [heq]
      exact hnone
    · rw [heq]
      rcases (remove_cases (loop.events fd') mask).2 with hw | hw
      · exact hw
      · rw [hw]
        exact hnone
  · intro fd' hset hae
    rw [htimers, hnext]
    exact h.stored fd' hset hae

/-- A timer that is not a `write_request` gets an id that no `ae` names. -/
theorem LoopOk.createTimeEvent (h : LoopOk fds wr t loop) {timeProc : QuicTimeProc}
    (hproc : timeProc ≠ .writeRequest) (data : Client) :
    LoopOk fds wr t (aeCreateTimeEvent loop timeProc data) where
  registered := h.registered
  slots := h.slots
  pending te hte hwrite := by
    rcases List.mem_cons.mp hte with rfl | hte
    · exact absurd hwrite hproc
    · exact h.pending te hte hwrite
  stored fd hset hae := by
    obtain ⟨hbelow, hnamed⟩ := h.stored fd hset hae
    refine ⟨Nat.lt_succ_of_lt hbelow, ?_⟩
    intro te hte hid
    rcases List.mem_cons.mp hte with rfl | hte
    · exact absurd hid (Nat.ne_of_gt hbelow)
    · exact hnamed te hte hid

theorem LoopOk.deleteTimeEvent (h : LoopOk fds wr t loop) (id : ℕ) :
    LoopOk fds wr t (aeDeleteTimeEvent loop id) where
  registered := h.registered
  slots := h.slots
  pending te hte hwrite := h.pending te (mem_aeDeleteTimeEvent hte).1 hwrite
  stored fd hset hae := by
    obtain ⟨hbelow, hnamed⟩ := h.stored fd hset hae
    exact ⟨hbelow, fun te hte => hnamed te (mem_aeDeleteTimeEvent hte).1⟩

theorem LoopOk.dropClosed (h : LoopOk fds wr t loop) (fd : ℕ) :
    LoopOk fds wr t (loop.dropClosed fd) :=
  ⟨h.registered, h.slots, h.pending, h.stored⟩

/-! ### Changes of the tables -/

/-- A descriptor that the loop does not use is opened or closed. -/
theorem LoopOk.setFd (h : LoopOk fds wr t loop) (hfd : (loop.events fd).isNone = true)
    (hidle : Idle loop fd) (value : Option QuicSocket) :
    LoopOk (fds.set fd value) wr t loop where
  registered fd' hfd' := by
    have hne : fd' ≠ fd := by
      rintro rfl
      rw [hfd] at hfd'
      cases hfd'
    rw [FdTable.get_set_of_ne hne]
    exact h.registered fd' hfd'
  slots := h.slots
  pending te hte hproc := by
    obtain ⟨fd', use, hdata, hopen, hrest⟩ := h.pending te hte hproc
    have hne : fd' ≠ fd := by
      rintro rfl
      exact hidle te hte hproc use hdata
    refine ⟨fd', use, hdata, ?_, hrest⟩
    rw [FdTable.get_set_of_ne hne]
    exact hopen
  stored := h.stored

/-- The entry of a descriptor without a timer is cleared, or only its
connection is changed, or it is now that of another thread. -/
theorem LoopOk.setWr (h : LoopOk fds wr t loop) (hidle : Idle loop fd) {w : Wr}
    (hw : w.ae = 0 ∨ w.setBy ≠ t ∨ w.ae = (wr fd).ae ∧ w.setBy = (wr fd).setBy) :
    LoopOk fds (Function.update wr fd w) t loop where
  registered := h.registered
  slots := h.slots
  pending te hte hproc := by
    obtain ⟨fd', use, hdata, hopen, hnone, hae⟩ := h.pending te hte hproc
    have hne : fd' ≠ fd := by
      rintro rfl
      exact hidle te hte hproc use hdata
    refine ⟨fd', use, hdata, hopen, hnone, ?_⟩
    rw [Function.update_of_ne hne]
    exact hae
  stored fd' hset hae := by
    by_cases hfd : fd' = fd
    · subst hfd
      rw [Function.update_self] at hset hae ⊢
      rcases hw with hzero | hother | ⟨hsame, hby⟩
      · exact absurd hzero hae
      · exact absurd hset hother
      · rw [hsame] at hae ⊢
        exact h.stored fd' (hby.symm.trans hset) hae
    · rw [Function.update_of_ne hfd] at hset hae ⊢
      exact h.stored fd' hset hae

/-- `quic_writeable` arms the timer of a socket that has none and no longer
waits to become writable. -/
theorem LoopOk.arm (h : LoopOk fds wr t loop) {use : ℕ}
    (hopen : fds.get fd = some ⟨some t, use⟩) (hnone : (loop.events fd).wfileProc = none)
    (hidle : Idle loop fd) (c : Client) :
    LoopOk fds (Function.update wr fd ⟨c, loop.timeEventNextId, t⟩) t
      (aeCreateTimeEvent loop .writeRequest (.socket fd use)) where
  registered := h.registered
  slots := h.slots
  pending te hte hproc := by
    rcases List.mem_cons.mp hte with rfl | hold
    · refine ⟨fd, use, rfl, hopen, hnone, ?_⟩
      rw [Function.update_self]
      exact ⟨rfl, rfl⟩
    · obtain ⟨fd', use', hdata, hopen', hnone', hae⟩ := h.pending te hold hproc
      have hne : fd' ≠ fd := by
        rintro rfl
        exact hidle te hold hproc use' hdata
      refine ⟨fd', use', hdata, hopen', hnone', ?_⟩
      rw [Function.update_of_ne hne]
      exact hae
  stored fd' hset hae := by
    by_cases hfd : fd' = fd
    · subst hfd
      rw [Function.update_self] at hset hae ⊢
      refine ⟨Nat.lt_succ_self _, ?_⟩
      intro te hte hid
      rcases List.mem_cons.mp hte with rfl | hte
      · exact ⟨rfl, use, rfl⟩
      · exact absurd hid (Nat.ne_of_lt (loop.ids_below te hte))
    · rw [Function.update_of_ne hfd] at hset hae ⊢
      obtain ⟨hbelow, hnamed⟩ := h.stored fd' hset hae
      refine ⟨Nat.lt_succ_of_lt hbelow, ?_⟩
      intro te hte hid
      rcases List.mem_cons.mp hte with rfl | hte
      · exact absurd hid (Nat.ne_of_gt hbelow)
      · exact hnamed te hte hid

/-- A timer that a socket's `ae` names is the one made for its current
use. -/
theorem LoopOk.named (h : LoopOk fds wr t loop) (hset : (wr fd).setBy = t)
    (hae : (wr fd).ae ≠ 0) {te : TimeEvent QuicTimeProc Client} (hte : te ∈ loop.timeEvents)
    (hid : te.id = (wr fd).ae) : te.timeProc = .writeRequest ∧
      ∃ use, te.clientData = .socket fd use ∧ fds.get fd = some ⟨some t, use⟩ := by
  obtain ⟨hproc, use, hdata⟩ := (h.stored fd hset hae).2 te hte hid
  obtain ⟨fd', use', hdata', hopen, -⟩ := h.pending te hte hproc
  obtain ⟨rfl, rfl⟩ := Client.socket.inj (hdata.symm.trans hdata')
  exact ⟨hproc, use, hdata, hopen⟩

/-- Once that timer is gone the socket has none. -/
theorem LoopOk.idle_of_deleted (h : LoopOk fds wr t loop) :
    Idle (aeDeleteTimeEvent loop (wr fd).ae) fd := by
  intro te hte hproc use hdata
  obtain ⟨hold, hne⟩ := mem_aeDeleteTimeEvent hte
  obtain ⟨fd', use', hdata', -, -, hae, -⟩ := h.pending te hold hproc
  obtain ⟨rfl, -⟩ := Client.socket.inj (hdata.symm.trans hdata')
  exact hne hae.symm

/-! ## All event loops -/

structure QuicProcess.TimersOk (s : QuicProcess) : Prop where
  loops : ∀ t, LoopOk s.fds s.fdToCnx t (s.loops t)
  connection : ∀ fd t use, s.fds.get fd = some ⟨some t, use⟩ → (s.fdToCnx fd).c.owner = t
  owned : ∀ fd t use, s.fds.get fd = some ⟨some t, use⟩ →
    (s.fdToCnx fd).ae = 0 ∨ (s.fdToCnx fd).setBy = t
  removed : ∀ r ∈ s.removed, r.timeProc = .writeRequest ∧ r.clientData = .socket r.fd r.use

section Handlers

variable {s : QuicProcess} {use id : ℕ}

@[simp] theorem setLoop_self (s : QuicProcess) (t : ℕ) (loop : QuicLoop) :
    (s.setLoop t loop).loops t = loop := Function.update_self ..

/-- Only the loop of thread `t` changes. -/
theorem QuicProcess.TimersOk.setLoop (h : s.TimersOk)
    (hloop : LoopOk s.fds s.fdToCnx t loop) : (s.setLoop t loop).TimersOk where
  loops t' := by
    by_cases ht : t' = t
    · subst ht
      rw [setLoop_self]
      exact hloop
    · simp only [QuicProcess.setLoop]
      rw [Function.update_of_ne ht]
      exact h.loops t'
  connection := h.connection
  owned := h.owned
  removed := h.removed

theorem QuicProcess.TimersOk.deleteTimeEvent (h : s.TimersOk) (t id : ℕ) :
    (s.deleteTimeEvent t id).TimersOk :=
  h.setLoop ((h.loops t).deleteTimeEvent id)

theorem QuicProcess.TimersOk.createTimeEvent (h : s.TimersOk) (t : ℕ) {timeProc : QuicTimeProc}
    (hproc : timeProc ≠ .writeRequest) (data : Client) :
    (s.createTimeEvent t timeProc data).TimersOk :=
  h.setLoop ((h.loops t).createTimeEvent hproc data)

/-- A socket of `t` is registered for more events. -/
theorem QuicProcess.TimersOk.createFileEvent (h : s.TimersOk)
    (hopen : s.fds.get fd = some ⟨some t, use⟩) (hidle : Idle (s.loops t) fd) (hc : c.owner = t)
    (hslot : SlotOk (((s.loops t).events fd).add mask proc c)) :
    (s.createFileEvent t fd mask proc c).TimersOk := by
  unfold QuicProcess.createFileEvent
  split
  · rename_i loop hloop
    obtain ⟨hsize, -, rfl⟩ := aeCreateFileEvent_cases hloop
    exact h.setLoop ((h.loops t).addSlot hsize ⟨use, hopen⟩ hidle hc hslot)
  · exact h

/-- The sockets of one thread are not registered by another. -/
theorem QuicProcess.TimersOk.unregistered (h : s.TimersOk) {t' : ℕ} (ht : t' ≠ t)
    (hopen : s.fds.get fd = some ⟨some t, use⟩) :
    ((s.loops t').events fd).isNone = true ∧ Idle (s.loops t') fd := by
  have hother : ∀ use', s.fds.get fd ≠ some ⟨some t', use'⟩ := by
    intro use' hopen'
    have hsame := (QuicSocket.mk.inj (Option.some.inj (hopen.symm.trans hopen'))).1
    exact ht (Option.some.inj hsame).symm
  exact ⟨(h.loops t').unregistered hother, (h.loops t').idle_of_fds hother⟩

theorem QuicProcess.TimersOk.close (h : s.TimersOk)
    (hfd : ∀ t, ((s.loops t).events fd).isNone = true ∧ Idle (s.loops t) fd) :
    (s.close fd).TimersOk where
  loops t := ((h.loops t).setFd (hfd t).1 (hfd t).2 none).dropClosed fd
  connection fd' t use hopen := by
    simp only [QuicProcess.close, FdTable.close, FdTable.get_set] at hopen
    split at hopen
    · cases hopen
    · exact h.connection fd' t use hopen
  owned fd' t use hopen := by
    simp only [QuicProcess.close, FdTable.close, FdTable.get_set] at hopen
    split at hopen
    · cases hopen
    · exact h.owned fd' t use hopen
  removed := h.removed

/-! ### `quic_connect_socket` -/

/-- The lowest free number is opened by `t`, for a connection of `t`. -/
theorem QuicProcess.TimersOk.openSocket (h : s.TimersOk) (use : ℕ)
    (hc : c.owner = t) (hnumber : (s.fdToCnx s.fds.lowest).ae = 0 ∨
      (s.fdToCnx s.fds.lowest).setBy = t) (uses : ℕ) :
    ({ s with
        fds := s.fds.openLowest ⟨some t, use⟩
        fdToCnx := Function.update s.fdToCnx s.fds.lowest
          { s.fdToCnx s.fds.lowest with c := c }
        uses := uses } : QuicProcess).TimersOk where
  loops t' := by
    have hfree : ∀ use', s.fds.get s.fds.lowest ≠ some ⟨some t', use'⟩ := by
      intro use' hopen
      rw [FdTable.get_lowest] at hopen
      cases hopen
    have hidle := (h.loops t').idle_of_fds hfree
    exact ((h.loops t').setFd ((h.loops t').unregistered hfree) hidle _).setWr hidle
      (Or.inr (Or.inr ⟨rfl, rfl⟩))
  connection fd t' use' hopen := by
    simp only [FdTable.openLowest, FdTable.get_set] at hopen
    by_cases hfd : fd = s.fds.lowest
    · subst hfd
      rw [if_pos rfl] at hopen
      obtain ⟨ht, -⟩ := QuicSocket.mk.inj (Option.some.inj hopen)
      simp only [Function.update_self]
      exact hc.trans (Option.some.inj ht)
    · rw [if_neg hfd] at hopen
      simp only [Function.update_of_ne hfd]
      exact h.connection fd t' use' hopen
  owned fd t' use' hopen := by
    simp only [FdTable.openLowest, FdTable.get_set] at hopen
    by_cases hfd : fd = s.fds.lowest
    · subst hfd
      rw [if_pos rfl] at hopen
      obtain ⟨ht, -⟩ := QuicSocket.mk.inj (Option.some.inj hopen)
      simp only [Function.update_self]
      rw [← Option.some.inj ht]
      exact hnumber
    · rw [if_neg hfd] at hopen
      simp only [Function.update_of_ne hfd]
      exact h.owned fd t' use' hopen
  removed := h.removed

/-- A descriptor that is not a socket is opened. -/
theorem QuicProcess.TimersOk.leak (h : s.TimersOk) :
    ({ s with fds := s.fds.openLowest ⟨none, 0⟩ } : QuicProcess).TimersOk where
  loops t := by
    have hfree : ∀ use, s.fds.get s.fds.lowest ≠ some ⟨some t, use⟩ := by
      intro use hopen
      rw [FdTable.get_lowest] at hopen
      cases hopen
    exact (h.loops t).setFd ((h.loops t).unregistered hfree) ((h.loops t).idle_of_fds hfree) _
  connection fd t use hopen := by
    simp only [FdTable.openLowest, FdTable.get_set] at hopen
    split at hopen
    · cases hopen
    · exact h.connection fd t use hopen
  owned fd t use hopen := by
    simp only [FdTable.openLowest, FdTable.get_set] at hopen
    split at hopen
    · cases hopen
    · exact h.owned fd t use hopen
  removed := h.removed

theorem QuicProcess.TimersOk.connectSocket (h : s.TimersOk) (c : Client)
    (hnumber : (s.fdToCnx s.fds.lowest).ae = 0 ∨ (s.fdToCnx s.fds.lowest).setBy = c.owner)
    (answer : SocketAnswer) : (s.quicConnectSocket c answer).TimersOk := by
  unfold quicConnectSocket
  simp only
  split
  · exact h
  · split
    · exact h.leak
    · have hopened := h.openSocket (c := c) s.uses rfl hnumber (s.uses + 1)
      have hfree : ∀ t, ((s.loops t).events s.fds.lowest).isNone = true ∧
          Idle (s.loops t) s.fds.lowest := by
        intro t
        have hnone : ∀ use, s.fds.get s.fds.lowest ≠ some ⟨some t, use⟩ := by
          intro use hopen
          rw [FdTable.get_lowest] at hopen
          cases hopen
        exact ⟨(h.loops t).unregistered hnone, (h.loops t).idle_of_fds hnone⟩
      split
      · exact hopened.close hfree
      · split
        · rename_i loop hloop
          obtain ⟨hsize, -, rfl⟩ := aeCreateFileEvent_cases hloop
          refine hopened.setLoop ((hopened.loops c.owner).addSlot hsize ⟨s.uses, ?_⟩
            (hfree c.owner).2 rfl (SlotOk.addBoth c))
          exact FdTable.get_set_self
        · exact hopened.close hfree

/-! ### The handlers of a socket -/

/-- What a handler knows of the socket it is called for. -/
structure Called (s : QuicProcess) (t fd use : ℕ) (c : Client) : Prop where
  size : fd < (s.loops t).setsize
  isOpen : s.fds.get fd = some ⟨some t, use⟩
  owner : c.owner = t

theorem aeCreateFileEvent_none {isOpen : Bool} {mask' : Mask} {proc' : QuicFileProc}
    (h : aeCreateFileEvent isOpen loop fd mask proc c = none) :
    aeCreateFileEvent isOpen loop fd mask' proc' c = none := by
  unfold aeCreateFileEvent at h ⊢
  split at h
  · rename_i hsize
    rw [if_pos hsize]
  · rename_i hsize
    rw [if_neg hsize]
    split at h
    · cases h
    · rename_i hadd
      rw [if_neg hadd]

theorem QuicProcess.TimersOk.socketConnected (h : s.TimersOk) (hcall : Called s t fd use c)
    (hw : ((s.loops t).events fd).wfileProc = some .quicSocketConnected) :
    (s.quicSocketConnected fd c).TimersOk := by
  have hidle : Idle (s.loops t) fd := (h.loops t).idle (by rw [hw]; exact Option.some_ne_none _)
  obtain ⟨-, hopen, rfl⟩ := hcall
  unfold QuicProcess.quicSocketConnected
  cases hread : aeCreateFileEvent (s.fds.get fd).isSome (s.loops c.owner) fd .aeReadable
      .quicReadable c with
  | none =>
      have hsame : s.createFileEvent c.owner fd .aeReadable .quicReadable c = s := by
        rw [QuicProcess.createFileEvent, hread]
      rw [hsame, QuicProcess.createFileEvent, aeCreateFileEvent_none hread]
      exact h
  | some loop =>
      have hcreated : (s.createFileEvent c.owner fd .aeReadable .quicReadable c).TimersOk :=
        h.createFileEvent hopen hidle rfl (((h.loops c.owner).slots fd).addReadable c)
      obtain ⟨-, -, rfl⟩ := aeCreateFileEvent_cases hread
      have hsame : s.createFileEvent c.owner fd .aeReadable .quicReadable c = s.setLoop c.owner
          ((s.loops c.owner).addSlot fd .aeReadable .quicReadable c) := by
        rw [QuicProcess.createFileEvent, hread]
      rw [hsame] at hcreated ⊢
      refine hcreated.createFileEvent hopen ?_ rfl ?_
      · rw [setLoop_self]
        exact hidle
      · rw [setLoop_self, addSlot_events_self]
        exact (((h.loops c.owner).slots fd).addReadable c).addWritable (fun hr => by cases hr) c

/-- The timer that `quic_read` deletes is that of its own socket. -/
theorem QuicProcess.TimersOk.read (h : s.TimersOk) (hcall : Called s t fd use c)
    (hr : ((s.loops t).events fd).rfileProc = some .quicReadable) :
    (s.quicRead fd c).TimersOk := by
  unfold quicRead
  simp only
  split
  · rename_i hae
    obtain ⟨-, hopen, rfl⟩ := hcall
    have hloop := h.loops c.owner
    have hset := (h.owned fd c.owner use hopen).resolve_left hae
    have hidle : Idle (aeDeleteTimeEvent (s.loops c.owner) (s.fdToCnx fd).ae) fd :=
      hloop.idle_of_deleted
    have hdeleted := h.deleteTimeEvent c.owner (s.fdToCnx fd).ae
    have huse : s.useOf fd = use := by
      rw [useOf, hopen]
      rfl
    have hremoved : (s.removeTimer c.owner fd (s.fdToCnx fd).ae).TimersOk := by
      refine ⟨hdeleted.loops, hdeleted.connection, hdeleted.owned, ?_⟩
      intro r hr
      rcases List.mem_append.mp hr with hnew | hold
      · obtain ⟨te, hfind, rfl⟩ := Option.map_eq_some_iff.mp (Option.mem_toList.mp hnew)
        have hid : te.id = (s.fdToCnx fd).ae := by
          have := List.find?_some hfind
          exact beq_iff_eq.mp this
        obtain ⟨hproc, use', hdata, hopen'⟩ :=
          hloop.named hset hae (List.mem_of_find?_eq_some hfind) hid
        have hsame := (QuicSocket.mk.inj (Option.some.inj (hopen.symm.trans hopen'))).2
        refine ⟨hproc, ?_⟩
        rw [hdata, huse, hsame]
      · exact h.removed r hold
    have hidles : ∀ t, Idle ((s.removeTimer c.owner fd (s.fdToCnx fd).ae).loops t) fd := by
      intro t
      by_cases ht : t = c.owner
      · subst ht
        simp only [removeTimer, QuicProcess.deleteTimeEvent, setLoop_self]
        exact hidle
      · exact (hremoved.unregistered ht hopen).2
    have hcleared : ((s.removeTimer c.owner fd (s.fdToCnx fd).ae).setWr fd
        { s.fdToCnx fd with ae := 0 }).TimersOk := by
      refine ⟨fun t => (hremoved.loops t).setWr (hidles t) (Or.inl rfl), ?_, ?_,
        hremoved.removed⟩
      · intro fd' t use' hopen'
        by_cases hfd : fd' = fd
        · subst hfd
          simp only [QuicProcess.setWr, Function.update_self]
          exact h.connection fd' t use' hopen'
        · simp only [QuicProcess.setWr, Function.update_of_ne hfd]
          exact h.connection fd' t use' hopen'
      · intro fd' t use' hopen'
        by_cases hfd : fd' = fd
        · subst hfd
          simp only [QuicProcess.setWr, Function.update_self]
          exact Or.inl trivial
        · simp only [QuicProcess.setWr, Function.update_of_ne hfd]
          exact h.owned fd' t use' hopen'
    refine hcleared.createFileEvent hopen (hidles c.owner) rfl ?_
    refine ((hcleared.loops c.owner).slots fd).addWritable ?_ c
    simp only [QuicProcess.setWr, removeTimer, QuicProcess.deleteTimeEvent, setLoop_self]
    intro hproc
    cases hr.symm.trans hproc
  · exact h

theorem QuicProcess.TimersOk.delay (h : s.TimersOk)
    (hopen : s.fds.get fd = some ⟨some t, use⟩)
    (hnone : ((s.loops t).events fd).wfileProc = none) (hidle : Idle (s.loops t) fd) :
    ((s.createTimeEvent t .writeRequest (.socket fd use)).setWr fd
      { s.fdToCnx fd with ae := (s.loops t).timeEventNextId, setBy := t }).TimersOk where
  loops t' := by
    by_cases ht : t' = t
    · subst ht
      simp only [QuicProcess.setWr, QuicProcess.createTimeEvent, setLoop_self]
      exact (h.loops t').arm hopen hnone hidle _
    · simp only [QuicProcess.setWr, QuicProcess.createTimeEvent, QuicProcess.setLoop,
        Function.update_of_ne ht]
      exact (h.loops t').setWr (h.unregistered ht hopen).2 (Or.inr (Or.inl (Ne.symm ht)))
  connection fd' t' use' hopen' := by
    by_cases hfd : fd' = fd
    · subst hfd
      simp only [QuicProcess.setWr, Function.update_self]
      exact h.connection fd' t' use' hopen'
    · simp only [QuicProcess.setWr, Function.update_of_ne hfd]
      exact h.connection fd' t' use' hopen'
  owned fd' t' use' hopen' := by
    by_cases hfd : fd' = fd
    · subst hfd
      have hsame := (QuicSocket.mk.inj (Option.some.inj (hopen.symm.trans hopen'))).1
      simp only [QuicProcess.setWr, Function.update_self]
      exact Or.inr (Option.some.inj hsame)
    · simp only [QuicProcess.setWr, Function.update_of_ne hfd]
      exact h.owned fd' t' use' hopen'
  removed := h.removed

theorem QuicProcess.TimersOk.writeable (h : s.TimersOk) (hcall : Called s t fd use c)
    (hw : ((s.loops t).events fd).wfileProc = some .quicWriteable) (answer : PacketAnswer) :
    (s.quicWriteable t fd c answer).TimersOk := by
  have hidle : Idle (s.loops t) fd := (h.loops t).idle (by rw [hw]; exact Option.some_ne_none _)
  have hconnected : ((s.loops t).events fd).rfileProc ≠ some .quicSocketConnected := by
    intro hr
    cases hw.symm.trans (((h.loops t).slots fd).connecting hr)
  have hreg : ((s.loops t).events fd).isNone = false := by
    rw [FileEvent.isNone, hw, Option.isNone_some, Bool.and_false]
  obtain ⟨hsize, hopen, rfl⟩ := hcall
  obtain ⟨htimers, -⟩ := aeDeleteFileEvent_timers (s.loops c.owner) fd .aeWritable
  have hremoved : ∀ mask, (aeDeleteFileEvent (s.loops c.owner) fd mask).events fd
      = ((s.loops c.owner).events fd).remove mask := by
    intro mask
    rcases aeDeleteFileEvent_events (s.loops c.owner) fd fd mask with ⟨-, hnone⟩ | ⟨-, heq⟩
    · rcases hnone rfl with hout | hnone
      · omega
      · rw [hreg] at hnone
        cases hnone
    · exact heq
  cases answer with
  | packet => exact h
  | error =>
      have hdeleted : (s.deleteFileEvent c.owner fd .both).TimersOk :=
        h.setLoop ((h.loops c.owner).deleteFileEvent (Or.inl rfl))
      refine hdeleted.close fun t => ?_
      by_cases ht : t = c.owner
      · subst ht
        simp only [QuicProcess.deleteFileEvent, setLoop_self, hremoved]
        refine ⟨rfl, ?_⟩
        intro te hte
        rw [(aeDeleteFileEvent_timers (s.loops c.owner) fd .both).1] at hte
        exact hidle te hte
      · exact hdeleted.unregistered ht hopen
  | wait =>
      have hdeleted : (s.deleteFileEvent c.owner fd .aeWritable).TimersOk :=
        h.setLoop ((h.loops c.owner).deleteFileEvent (Or.inr hconnected))
      have huse : (s.deleteFileEvent c.owner fd .aeWritable).useOf fd = use := by
        have hget : (s.deleteFileEvent c.owner fd .aeWritable).fds.get fd
            = some ⟨some c.owner, use⟩ := hopen
        rw [useOf, hget]
        rfl
      simp only [quicWriteable, huse]
      refine hdeleted.delay hopen ?_ ?_
      · simp only [QuicProcess.deleteFileEvent, setLoop_self, hremoved]
        rfl
      · intro te hte
        simp only [QuicProcess.deleteFileEvent, setLoop_self] at hte
        rw [htimers] at hte
        exact hidle te hte
  | noWait =>
      exact h.createFileEvent hopen hidle rfl
        (((h.loops c.owner).slots fd).addWritable hconnected c)

/-- Registering a socket and deleting a timer commute. -/
theorem createFileEvent_deleteTimeEvent (s : QuicProcess) (t fd id : ℕ) (mask : Mask)
    (proc : QuicFileProc) (c : Client) :
    (s.createFileEvent t fd mask proc c).deleteTimeEvent t id =
      (s.deleteTimeEvent t id).createFileEvent t fd mask proc c := by
  have hdeleted : ∀ isOpen,
      aeCreateFileEvent isOpen (aeDeleteTimeEvent (s.loops t) id) fd mask proc c
        = (aeCreateFileEvent isOpen (s.loops t) fd mask proc c).map
            (aeDeleteTimeEvent · id) := by
    intro isOpen
    unfold aeCreateFileEvent
    by_cases hsize : (s.loops t).setsize ≤ fd
    · rw [if_pos hsize, Option.map_none]
      exact if_pos hsize
    · rw [if_neg hsize]
      refine (if_neg hsize).trans ?_
      by_cases hadd : aeApiAddEvent isOpen (s.loops t) fd = true
      · rw [if_pos hadd]
        exact if_pos hadd
      · rw [if_neg hadd]
        exact if_neg hadd
  unfold QuicProcess.createFileEvent
  rw [show (s.deleteTimeEvent t id).loops t = aeDeleteTimeEvent (s.loops t) id from
    setLoop_self s t _]
  rw [show (s.deleteTimeEvent t id).fds = s.fds from rfl, hdeleted]
  cases aeCreateFileEvent (s.fds.get fd).isSome (s.loops t) fd mask proc c with
  | none => rfl
  | some loop =>
      simp only [Option.map_some, QuicProcess.deleteTimeEvent, QuicProcess.setLoop,
        Function.update_self, Function.update_idem]

/-- `write_request` fires: its socket waits to become writable again. -/
theorem QuicProcess.TimersOk.writeRequest (h : s.TimersOk)
    {te : TimeEvent QuicTimeProc Client} (hte : te ∈ (s.loops t).timeEvents)
    (hproc : te.timeProc = .writeRequest) (hdata : te.clientData = .socket fd use) :
    ((s.writeRequest t fd).deleteTimeEvent t te.id).TimersOk := by
  obtain ⟨fd', use', hdata', hopen, hnone, hae, -⟩ := (h.loops t).pending te hte hproc
  obtain ⟨rfl, rfl⟩ := Client.socket.inj (hdata.symm.trans hdata')
  rw [QuicProcess.writeRequest, createFileEvent_deleteTimeEvent]
  have hdeleted := h.deleteTimeEvent t te.id
  refine hdeleted.createFileEvent hopen ?_ (h.connection fd t use hopen) ?_
  · rw [QuicProcess.deleteTimeEvent, setLoop_self, ← hae]
    exact (h.loops t).idle_of_deleted
  · refine ((hdeleted.loops t).slots fd).addWritable ?_ _
    rw [QuicProcess.deleteTimeEvent, setLoop_self]
    intro hr
    cases hnone.symm.trans (((h.loops t).slots fd).connecting hr)

/-! ### One step -/

theorem QuicProcess.TimersOk.called (h : s.TimersOk)
    (hreg : ((s.loops t).events fd).isNone = false) :
    ∃ use, Called s t fd use ((s.loops t).events fd).clientData := by
  obtain ⟨hsize, ⟨use, hopen⟩, howner⟩ := (h.loops t).registered fd hreg
  exact ⟨use, hsize, hopen, howner⟩

theorem QuicProcess.TimersOk.timer (h : s.TimersOk) {te : TimeEvent QuicTimeProc Client}
    {calibrated : Bool} {answer : SocketAnswer} (hte : te ∈ (s.loops t).timeEvents)
    (hnumber : te.timeProc = .delayedInitialConnect ∨ te.timeProc = .delayRecon →
      (s.fdToCnx s.fds.lowest).ae = 0 ∨ (s.fdToCnx s.fds.lowest).setBy = te.clientData.owner) :
    (s.runTimeEvent t te calibrated answer).TimersOk := by
  unfold runTimeEvent
  split
  · rename_i hproc
    exact (h.connectSocket te.clientData (hnumber (Or.inl hproc)) answer).deleteTimeEvent t te.id
  · rename_i hproc
    exact (h.connectSocket te.clientData (hnumber (Or.inr hproc)) answer).deleteTimeEvent t te.id
  · split
    · refine (h.createTimeEvent t ?_ te.clientData).deleteTimeEvent t te.id
      intro hproc
      cases hproc
    · exact h
  · exact h
  · exact h
  · rename_i hproc
    split
    · rename_i fd use hdata
      exact h.writeRequest hte hproc hdata
    · exact h

theorem QuicProcess.TimersOk.step {s' : QuicProcess} {e : QuicProcessEvent} (h : s.TimersOk)
    (hstep : quicProcessStep s e = some s') (hok : OwnNumber s e) : s'.TimersOk := by
  cases e with
  | readable t fd answer =>
      obtain ⟨proc, hr, rfl⟩ := Option.map_eq_some_iff.mp hstep
      have hreg : ((s.loops t).events fd).isNone = false := by
        rw [FileEvent.isNone, hr]
        rfl
      obtain ⟨use, hcall⟩ := h.called hreg
      cases proc with
      | quicSocketConnected => exact h.socketConnected hcall (((h.loops t).slots fd).connecting hr)
      | quicReadable => exact h.read hcall hr
      | quicWriteable => exact absurd hr ((h.loops t).slots fd).readable
  | writable t fd answer =>
      obtain ⟨proc, hw, rfl⟩ := Option.map_eq_some_iff.mp hstep
      have hreg : ((s.loops t).events fd).isNone = false := by
        rw [FileEvent.isNone, hw, Option.isNone_some, Bool.and_false]
      obtain ⟨use, hcall⟩ := h.called hreg
      cases proc with
      | quicSocketConnected => exact h.socketConnected hcall hw
      | quicReadable => exact absurd hw ((h.loops t).slots fd).writable
      | quicWriteable => exact h.writeable hcall hw answer
  | timer t id calibrated answer =>
      obtain ⟨te, hfind, rfl⟩ := Option.map_eq_some_iff.mp hstep
      refine h.timer (List.mem_of_find?_eq_some hfind) fun hproc => ?_
      refine hok te.clientData.owner ?_
      simp only [connecting, hfind, Option.bind_some, if_pos hproc]
      rfl
  | restart t index wait answer =>
      cases wait with
      | true =>
          obtain rfl := Option.some.inj hstep
          refine h.createTimeEvent t ?_ _
          intro hproc
          cases hproc
      | false =>
          obtain rfl := Option.some.inj hstep
          exact h.connectSocket (.connection t index) (hok t rfl) answer

end Handlers

/-! ## Runs -/

/-- No slot of a new event loop is registered, and none of its timers is a
`write_request`. -/
theorem quicInitialLoop_fresh (setsize connections t : ℕ) :
    (∀ fd, ((quicInitialLoop setsize connections t).events fd) = ⟨none, none, default⟩) ∧
      ∀ te ∈ (quicInitialLoop setsize connections t).timeEvents,
        te.timeProc ≠ .writeRequest := by
  have hloop : ∀ n, ∀ loop, loop = (List.range n).foldl
      (fun loop i => aeCreateTimeEvent loop .delayedInitialConnect (.connection t i))
      (aeCreateEventLoop setsize : QuicLoop) →
      (∀ fd, loop.events fd = ⟨none, none, default⟩) ∧
        ∀ te ∈ loop.timeEvents, te.timeProc ≠ .writeRequest := by
    intro n
    induction n with
    | zero =>
        rintro loop rfl
        exact ⟨fun _ => rfl, fun te hte => by cases hte⟩
    | succ n ih =>
        rintro loop rfl
        obtain ⟨hevents, htimers⟩ := ih _ rfl
        rw [List.range_succ, List.foldl_append, List.foldl_cons, List.foldl_nil]
        refine ⟨hevents, ?_⟩
        intro te hte
        rcases List.mem_cons.mp hte with rfl | hte
        · exact fun hproc => by cases hproc
        · exact htimers te hte
  obtain ⟨hevents, htimers⟩ := hloop connections _ rfl
  refine ⟨hevents, ?_⟩
  intro te hte
  rcases List.mem_cons.mp hte with rfl | hte
  · exact fun hproc => by cases hproc
  · rcases List.mem_cons.mp hte with rfl | hte
    · exact fun hproc => by cases hproc
    · exact htimers te hte

theorem initial_timersOk (setsize connections : ℕ) (reserved : FdTable Unit) :
    (QuicProcess.initial setsize connections reserved).TimersOk := by
  have hother : ∀ fd t use, (QuicProcess.initial setsize connections reserved).fds.get fd
      ≠ some ⟨some t, use⟩ := by
    intro fd t use h
    obtain ⟨-, -, hsocket⟩ := Option.map_eq_some_iff.mp h
    cases hsocket
  refine ⟨fun t => ?_, fun fd t use h => absurd h (hother fd t use),
    fun fd t use h => absurd h (hother fd t use), fun r hr => by cases hr⟩
  obtain ⟨hevents, htimers⟩ := quicInitialLoop_fresh setsize connections t
  refine ⟨?_, ?_, fun te hte hproc => absurd hproc (htimers te hte), fun fd _ h => absurd rfl h⟩
  · intro fd hfd
    simp only [QuicProcess.initial, hevents] at hfd
    cases hfd
  · intro fd
    simp only [QuicProcess.initial, hevents]
    exact ⟨(fun h => by cases h), (fun h => by cases h), (fun h => by cases h)⟩

/-- In every run in which no socket gets a number whose `ae` was left there
by another thread, every timer that `quic_read` deletes is the
`write_request` timer made for the same use of its descriptor. -/
theorem quic_read_deletes_own (setsize connections : ℕ) {s : QuicProcess}
    (hs : (quicProcess setsize connections).ReachableWith OwnNumber s) :
    ∀ r ∈ s.removed, r.timeProc = .writeRequest ∧ r.clientData = .socket r.fd r.use := by
  have hok : s.TimersOk := by
    refine hs.invariant ?_ ?_
    · rintro s ⟨reserved, rfl⟩
      exact initial_timersOk setsize connections reserved
    · intro s e s' h hstep hok
      exact h.step hstep hok
  exact hok.removed

/-- Threads with one connection each; the first four descriptors are
taken. -/
def quicThreads : QuicProcess := .initial 16 1 (.firstOpen 4 ())

theorem quicThreads_initial : ∃ reserved, quicThreads = .initial 16 1 reserved :=
  ⟨.firstOpen 4 (), rfl⟩

/-- Thread 0 opens descriptor 4, finds nothing to send and arms timer 3. -/
def armedTimer : List QuicProcessEvent :=
  [.timer 0 0 false .bound, .writable 0 4 .packet, .writable 0 4 .wait]

/-- A packet arrives before the timer of the socket fires. -/
theorem quic_read_deletes_own_one : ∃ s, (quicProcess 16 1).ReachableWith OwnNumber s ∧
    (s.removed = [⟨4, 0, .writeRequest, .socket 4 0⟩]) ∧
    ∀ r ∈ s.removed, r.timeProc = .writeRequest ∧ r.clientData = .socket r.fd r.use := by
  obtain ⟨s, hs, hremoved⟩ : ∃ s, (quicProcess 16 1).ReachableWith OwnNumber s ∧
      s.removed = [⟨4, 0, .writeRequest, .socket 4 0⟩] :=
    exists_reachableWith_of_runEvents QuicProcess.removed
      (armedTimer ++ [.readable 0 4 .packet]) quicThreads_initial (by decide +kernel)
  exact ⟨s, hs, hremoved, quic_read_deletes_own 16 1 hs⟩

/-- The timer of thread 0 fires and its connection ends. Thread 1, which
has calibrated, opens the next socket and reads a packet from it. -/
def reusedNumber : List QuicProcessEvent :=
  armedTimer ++ [.timer 0 3 false .bound, .writable 0 4 .error, .timer 1 1 true .bound,
    .timer 1 0 false .bound, .readable 1 4 .packet, .readable 1 4 .packet]

/-- The `ae` of thread 0's socket names the `sample_rate` timer of
thread 1. -/
theorem sample_rate_deleted : ∃ s, (quicProcess 16 1).Reachable s ∧
    s.removed = [⟨4, 1, .sampleRate, .thread 1⟩] :=
  exists_reachable_of_runEvents QuicProcess.removed reusedNumber quicThreads_initial
    (by decide +kernel)

end WrkQuic
