import WrkQuic.QuicCnx

/-!
# The sockets of the QUIC threads

Every descriptor of a thread is in one of four states (`SlotState`): unused,
waiting for `quic_socket_connected`, registered for both handlers, or waiting
for a packet or its `write_request` timer. A step of a thread changes one
descriptor (`ChangedAt`), and takes it from one of these states to another
(`SlotsOk.step`).
-/

namespace WrkQuic

open Runs QuicProcess QuicHandlers

/-! ## The slots of a socket -/

/-- Every pending `write_request` timer of the loop for `fd` has this id. -/
def OnlyTimer (loop : QuicLoop) (fd id : ℕ) : Prop :=
  ∀ te ∈ loop.timeEvents, te.timeProc = .writeRequest →
    ∀ use, te.clientData = .socket fd use → te.id = id

theorem Idle.onlyTimer {loop : QuicLoop} {fd : ℕ} (h : Idle loop fd) (id : ℕ) :
    OnlyTimer loop fd id :=
  fun te hte hproc use hdata => absurd hdata (h te hte hproc use)

/-- Descriptor `fd` is a socket of thread `t`, registered with its event
loop for the connection of the table. -/
structure Owns (p : QuicProcess) (t fd use : ℕ) : Prop where
  size : fd < (p.loops t).setsize
  listed : (p.loops t).apidata fd = true
  isOpen : p.fds.get fd = some ⟨some t, use⟩
  connection : (p.fdToCnx fd).c = ((p.loops t).events fd).clientData
  owner : (p.fdToCnx fd).c.owner = t

/-- The entry is what `quic_connect` stored for this use of the socket. -/
structure StoredFor (entry : CnxEntry) (use : ℕ) : Prop where
  stored : entry.storedFor = some use
  cnx : ∀ cnx ∈ entry.cnx, cnx.use = use ∧ cnx.deleted = false

/-- The four states of a slot: unused, waiting for `quic_socket_connected`,
registered for both handlers, and waiting for a packet or its timer. -/
inductive SlotState (p : QuicProcess) (cnx : ℕ → CnxEntry) (t fd : ℕ) : Prop where
  | unused (isNone : ((p.loops t).events fd).isNone = true) (idle : Idle (p.loops t) fd)
  | connecting (use : ℕ) (owns : Owns p t fd use)
      (reads : ((p.loops t).events fd).rfileProc = some .quicSocketConnected)
      (writes : ((p.loops t).events fd).wfileProc = some .quicSocketConnected)
      (idle : Idle (p.loops t) fd)
  | serving (use : ℕ) (owns : Owns p t fd use) (stored : StoredFor (cnx fd) use)
      (reads : ((p.loops t).events fd).rfileProc = some .quicReadable)
      (writes : ((p.loops t).events fd).wfileProc = some .quicWriteable)
      (idle : Idle (p.loops t) fd)
  | delayed (use : ℕ) (owns : Owns p t fd use) (stored : StoredFor (cnx fd) use)
      (reads : ((p.loops t).events fd).rfileProc = some .quicReadable)
      (writes : ((p.loops t).events fd).wfileProc = none)
      (timer : OnlyTimer (p.loops t) fd (p.fdToCnx fd).ae)

def SlotsOk (p : QuicProcess) (cnx : ℕ → CnxEntry) : Prop := ∀ t fd, SlotState p cnx t fd

/-! ### What a handler leaves alone -/

/-- Thread `t` has done something to descriptor `fd`. -/
structure ChangedAt (p p' : QuicProcess) (t fd : ℕ) : Prop where
  events : ∀ t' fd', t' ≠ t ∨ fd' ≠ fd → (p'.loops t').events fd' = (p.loops t').events fd'
  apidata : ∀ t' fd', fd' ≠ fd → (p'.loops t').apidata fd' = (p.loops t').apidata fd'
  setsize : ∀ t', (p'.loops t').setsize = (p.loops t').setsize
  timers : ∀ t' fd', t' ≠ t ∨ fd' ≠ fd → ∀ te ∈ (p'.loops t').timeEvents,
    te.timeProc = .writeRequest → ∀ use, te.clientData = .socket fd' use →
      te ∈ (p.loops t').timeEvents
  fds : ∀ fd', fd' ≠ fd → p'.fds.get fd' = p.fds.get fd'
  fdToCnx : ∀ fd', fd' ≠ fd → p'.fdToCnx fd' = p.fdToCnx fd'

@[simp] theorem setWr_self (p : QuicProcess) (fd : ℕ) (wr : Wr) :
    (p.setWr fd wr).fdToCnx fd = wr := Function.update_self ..

section Changes

variable {p p' p'' : QuicProcess} {cnx cnx' : ℕ → CnxEntry} {t fd use : ℕ} {c : Client}
  {mask : Mask} {proc : QuicFileProc}

theorem ChangedAt.refl (p : QuicProcess) (t fd : ℕ) : ChangedAt p p t fd :=
  ⟨fun _ _ _ => rfl, fun _ _ _ => rfl, fun _ => rfl, fun _ _ _ _ hte _ _ _ => hte,
    fun _ _ => rfl, fun _ _ => rfl⟩

theorem ChangedAt.trans (h : ChangedAt p p' t fd) (h' : ChangedAt p' p'' t fd) :
    ChangedAt p p'' t fd where
  events t' fd' hne := (h'.events t' fd' hne).trans (h.events t' fd' hne)
  apidata t' fd' hne := (h'.apidata t' fd' hne).trans (h.apidata t' fd' hne)
  setsize t' := (h'.setsize t').trans (h.setsize t')
  timers t' fd' hne te hte hproc use hdata :=
    h.timers t' fd' hne te (h'.timers t' fd' hne te hte hproc use hdata) hproc use hdata
  fds fd' hne := (h'.fds fd' hne).trans (h.fds fd' hne)
  fdToCnx fd' hne := (h'.fdToCnx fd' hne).trans (h.fdToCnx fd' hne)

/-- The loop of thread `t` is replaced. -/
theorem changedAt_setLoop {loop : QuicLoop}
    (hevents : ∀ fd', fd' ≠ fd → loop.events fd' = (p.loops t).events fd')
    (hapidata : ∀ fd', fd' ≠ fd → loop.apidata fd' = (p.loops t).apidata fd')
    (hsize : loop.setsize = (p.loops t).setsize)
    (htimers : ∀ fd', fd' ≠ fd → ∀ te ∈ loop.timeEvents, te.timeProc = .writeRequest →
      ∀ use, te.clientData = .socket fd' use → te ∈ (p.loops t).timeEvents) :
    ChangedAt p (p.setLoop t loop) t fd := by
  have hother : ∀ t', t' ≠ t → (p.setLoop t loop).loops t' = p.loops t' :=
    fun t' ht => Function.update_of_ne ht ..
  refine ⟨?_, ?_, ?_, ?_, fun _ _ => rfl, fun _ _ => rfl⟩
  · intro t' fd' hne
    by_cases ht : t' = t
    · subst ht
      rw [setLoop_self]
      exact hevents fd' (hne.resolve_left (fun h => h rfl))
    · rw [hother t' ht]
  · intro t' fd' hne
    by_cases ht : t' = t
    · subst ht
      rw [setLoop_self]
      exact hapidata fd' hne
    · rw [hother t' ht]
  · intro t'
    by_cases ht : t' = t
    · subst ht
      rw [setLoop_self]
      exact hsize
    · rw [hother t' ht]
  · intro t' fd' hne te hte hproc use hdata
    by_cases ht : t' = t
    · subst ht
      rw [setLoop_self] at hte
      exact htimers fd' (hne.resolve_left (fun h => h rfl)) te hte hproc use hdata
    · rw [hother t' ht] at hte
      exact hte

theorem changedAt_addSlot (p : QuicProcess) (t fd : ℕ) (mask : Mask) (proc : QuicFileProc)
    (c : Client) : ChangedAt p (p.setLoop t ((p.loops t).addSlot fd mask proc c)) t fd :=
  changedAt_setLoop (fun _ hne => Function.update_of_ne hne ..)
    (fun _ hne => Function.update_of_ne hne ..) rfl fun _ _ _ hte _ _ _ => hte

theorem changedAt_deleteFileEvent (p : QuicProcess) (t fd : ℕ) (mask : Mask) :
    ChangedAt p (p.deleteFileEvent t fd mask) t fd := by
  obtain ⟨htimers, -, hsize⟩ := aeDeleteFileEvent_timers (p.loops t) fd mask
  refine changedAt_setLoop ?_ ?_ hsize ?_
  · intro fd' hne
    rcases aeDeleteFileEvent_events (p.loops t) fd fd' mask with ⟨heq, -⟩ | ⟨rfl, -⟩
    · exact heq
    · exact absurd rfl hne
  · intro fd' hne
    unfold aeDeleteFileEvent
    split
    · rfl
    · split
      · rfl
      · simp only
        split
        · exact Function.update_of_ne hne ..
        · rfl
  · intro fd' _ te hte _ _ _
    rw [htimers] at hte
    exact hte

theorem changedAt_deleteTimeEvent (p : QuicProcess) (t fd id : ℕ) :
    ChangedAt p (p.deleteTimeEvent t id) t fd :=
  changedAt_setLoop (fun _ _ => rfl) (fun _ _ => rfl) rfl
    fun _ _ _ hte _ _ _ => (mem_aeDeleteTimeEvent hte).1

/-- A timer is made, for `fd` if it is a `write_request`. -/
theorem changedAt_createTimeEvent {timeProc : QuicTimeProc} {data : Client}
    (h : timeProc = .writeRequest → ∃ use, data = .socket fd use) (p : QuicProcess) (t : ℕ) :
    ChangedAt p (p.createTimeEvent t timeProc data) t fd := by
  refine changedAt_setLoop (fun _ _ => rfl) (fun _ _ => rfl) rfl ?_
  intro fd' hne te hte hproc use hdata
  rcases List.mem_cons.mp hte with rfl | hte
  · obtain ⟨use', rfl⟩ := h hproc
    exact absurd (Client.socket.inj hdata).1.symm hne
  · exact hte

theorem changedAt_setWr (p : QuicProcess) (t fd : ℕ) (wr : Wr) :
    ChangedAt p (p.setWr fd wr) t fd :=
  ⟨fun _ _ _ => rfl, fun _ _ _ => rfl, fun _ => rfl, fun _ _ _ _ hte _ _ _ => hte,
    fun _ _ => rfl, fun _ hne => Function.update_of_ne hne ..⟩

theorem changedAt_close (p : QuicProcess) (t fd : ℕ) : ChangedAt p (p.close fd) t fd :=
  ⟨fun _ _ _ => rfl, fun _ _ hne => Function.update_of_ne hne .., fun _ => rfl,
    fun _ _ _ _ hte _ _ _ => hte, fun _ hne => FdTable.get_set_of_ne hne, fun _ _ => rfl⟩

theorem changedAt_openLowest (p : QuicProcess) (t : ℕ) (socket : QuicSocket) (uses : ℕ) :
    ChangedAt p { p with fds := p.fds.openLowest socket, uses := uses } t p.fds.lowest :=
  ⟨fun _ _ _ => rfl, fun _ _ _ => rfl, fun _ => rfl, fun _ _ _ _ hte _ _ _ => hte,
    fun _ hne => FdTable.get_set_of_ne hne, fun _ _ => rfl⟩

/-! ### Frames -/

/-- An unused slot stays so where nothing registers it. -/
theorem SlotState.unused_of_changed (hnone : ((p.loops t).events fd).isNone = true)
    (hidle : Idle (p.loops t) fd) {t' fd' : ℕ} (hp : ChangedAt p p' t' fd')
    (hne : t ≠ t' ∨ fd ≠ fd') : SlotState p' cnx' t fd := by
  refine .unused ?_ ?_
  · rw [hp.events t fd hne]
    exact hnone
  · intro te hte hproc use hdata
    exact hidle te (hp.timers t fd hne te hte hproc use hdata) hproc use hdata

theorem SlotState.frame (h : SlotState p cnx t fd) {t' fd' : ℕ} (hp : ChangedAt p p' t' fd')
    (hcnx : ∀ fd, fd ≠ fd' → cnx' fd = cnx fd) (hne : fd ≠ fd') : SlotState p' cnx' t fd := by
  have hevents := hp.events t fd (Or.inr hne)
  have htimers := hp.timers t fd (Or.inr hne)
  have howns : ∀ use, Owns p t fd use → Owns p' t fd use := by
    intro use howns
    refine ⟨?_, ?_, ?_, ?_, ?_⟩
    · rw [hp.setsize]
      exact howns.size
    · rw [hp.apidata t fd hne]
      exact howns.listed
    · rw [hp.fds fd hne]
      exact howns.isOpen
    · rw [hp.fdToCnx fd hne, hevents]
      exact howns.connection
    · rw [hp.fdToCnx fd hne]
      exact howns.owner
  have hidles : Idle (p.loops t) fd → Idle (p'.loops t) fd := fun hidle te hte hproc use hdata =>
    hidle te (htimers te hte hproc use hdata) hproc use hdata
  cases h with
  | unused isNone idle => exact .unused (hevents ▸ isNone) (hidles idle)
  | connecting use owns reads writes idle =>
      exact .connecting use (howns use owns) (hevents ▸ reads) (hevents ▸ writes) (hidles idle)
  | serving use owns stored reads writes idle =>
      exact .serving use (howns use owns) (hcnx fd hne ▸ stored) (hevents ▸ reads)
        (hevents ▸ writes) (hidles idle)
  | delayed use owns stored reads writes timer =>
      refine .delayed use (howns use owns) (hcnx fd hne ▸ stored) (hevents ▸ reads)
        (hevents ▸ writes) ?_
      intro te hte hproc use hdata
      rw [hp.fdToCnx fd hne]
      exact timer te (htimers te hte hproc use hdata) hproc use hdata

/-- Only the sockets of a thread have a slot with it. -/
theorem SlotState.unused_of_fds (h : SlotState p cnx t fd)
    (hfd : ∀ use, p.fds.get fd ≠ some ⟨some t, use⟩) :
    ((p.loops t).events fd).isNone = true ∧ Idle (p.loops t) fd := by
  cases h with
  | unused isNone idle => exact ⟨isNone, idle⟩
  | connecting use owns _ _ _ => exact absurd owns.isOpen (hfd use)
  | serving use owns _ _ _ _ => exact absurd owns.isOpen (hfd use)
  | delayed use owns _ _ _ _ => exact absurd owns.isOpen (hfd use)

/-- What remains to be shown of a handler of thread `t`: the slot of its
descriptor. -/
theorem SlotsOk.changed (h : SlotsOk p cnx) (hp : ChangedAt p p' t fd)
    (hcnx : ∀ fd', fd' ≠ fd → cnx' fd' = cnx fd')
    (hfd : ∀ t', t' ≠ t → ∀ use, p.fds.get fd ≠ some ⟨some t', use⟩)
    (hslot : SlotState p' cnx' t fd) : SlotsOk p' cnx' := by
  intro t' fd'
  by_cases hne : fd' = fd
  · subst hne
    by_cases ht : t' = t
    · subst ht
      exact hslot
    · obtain ⟨hnone, hidle⟩ := (h t' fd').unused_of_fds (hfd t' ht)
      exact .unused_of_changed hnone hidle hp (Or.inl ht)
  · exact (h t' fd').frame hp hcnx hne

end Changes

/-! ### Handlers -/

section Slots

variable {p p' : QuicProcess} {cnx cnx' : ℕ → CnxEntry} {t fd use : ℕ} {c : Client}
  {mask : Mask} {proc : QuicFileProc}

/-- A step that has only to do with timers other than `write_request`. -/
theorem SlotsOk.timersOnly (h : SlotsOk p cnx) (hp : ∀ fd, ChangedAt p p' t fd) :
    SlotsOk p' cnx :=
  fun t' fd' => (h t' fd').frame (hp (fd' + 1)) (fun _ _ => rfl) (Nat.ne_of_lt fd'.lt_succ_self)

theorem SlotsOk.deleteTimeEvent (h : SlotsOk p cnx) (t id : ℕ) :
    SlotsOk (p.deleteTimeEvent t id) cnx :=
  h.timersOnly fun fd => changedAt_deleteTimeEvent p t fd id

theorem SlotsOk.createTimeEvent (h : SlotsOk p cnx) (t : ℕ) {timeProc : QuicTimeProc}
    (hproc : timeProc ≠ .writeRequest) (data : Client) :
    SlotsOk (p.createTimeEvent t timeProc data) cnx :=
  h.timersOnly fun _ => changedAt_createTimeEvent (fun hwrite => absurd hwrite hproc) p t

theorem SlotsOk.connectSocket (h : SlotsOk p cnx) (c : Client) (answer : SocketAnswer) :
    SlotsOk (p.quicConnectSocket c answer) cnx := by
  have hfree : ∀ t use, p.fds.get p.fds.lowest ≠ some ⟨some t, use⟩ := by
    intro t use hopen
    rw [FdTable.get_lowest] at hopen
    cases hopen
  obtain ⟨hnone, hidle⟩ := (h c.owner p.fds.lowest).unused_of_fds (hfree c.owner)
  unfold QuicProcess.quicConnectSocket
  simp only
  split
  · exact h
  · split
    · exact h.changed (changedAt_openLowest p c.owner _ p.uses) (fun _ _ => rfl)
        (fun t _ => hfree t) (.unused hnone hidle)
    · have hopened := (changedAt_openLowest p c.owner ⟨some c.owner, p.uses⟩ (p.uses + 1)).trans
        (changedAt_setWr _ c.owner p.fds.lowest { p.fdToCnx p.fds.lowest with c := c })
      have hclosed := h.changed (hopened.trans (changedAt_close _ c.owner p.fds.lowest))
        (fun _ _ => rfl) (fun t _ => hfree t) (.unused hnone hidle)
      split
      · exact hclosed
      · split
        · rename_i loop hloop
          obtain ⟨hsize, -, rfl⟩ := aeCreateFileEvent_cases hloop
          refine h.changed (hopened.trans (changedAt_addSlot ..)) (fun _ _ => rfl)
            (fun t _ => hfree t) (.connecting p.uses ⟨?_, ?_, ?_, ?_, ?_⟩ ?_ ?_ ?_)
          · rw [setLoop_self]
            exact hsize
          · rw [setLoop_self]
            exact Function.update_self ..
          · exact FdTable.get_set_self
          · rw [setLoop_self, addSlot_events_self]
            exact congrArg Wr.c (setWr_self ..)
          · exact congrArg (Client.owner ∘ Wr.c) (setWr_self ..)
          · rw [setLoop_self, addSlot_events_self]
            rfl
          · rw [setLoop_self, addSlot_events_self]
            rfl
          · rw [setLoop_self]
            exact hidle
        · exact hclosed

/-- A socket belongs to one thread. -/
theorem Owns.others (h : Owns p t fd use) :
    ∀ t', t' ≠ t → ∀ use', p.fds.get fd ≠ some ⟨some t', use'⟩ := by
  intro t' ht use' hopen
  have hsame := (QuicSocket.mk.inj (Option.some.inj (h.isOpen.symm.trans hopen))).1
  exact ht (Option.some.inj hsame).symm

theorem Owns.useOf (h : Owns p t fd use) : p.useOf fd = use := by
  rw [QuicProcess.useOf, h.isOpen]
  rfl

/-- A registered socket of `t` is registered for more events. -/
structure Registers (p p' : QuicProcess) (t fd use : ℕ) (mask : Mask) (proc : QuicFileProc)
    (c : Client) : Prop where
  changed : ChangedAt p p' t fd
  owns : Owns p' t fd use
  slot : (p'.loops t).events fd = ((p.loops t).events fd).add mask proc c
  timers : (p'.loops t).timeEvents = (p.loops t).timeEvents

theorem Owns.register (h : Owns p t fd use) (hreg : ((p.loops t).events fd).isNone = false)
    (hc : c = (p.fdToCnx fd).c) (mask : Mask) (proc : QuicFileProc) :
    Registers p (p.createFileEvent t fd mask proc c) t fd use mask proc c := by
  have hcreated : p.createFileEvent t fd mask proc c
      = p.setLoop t ((p.loops t).addSlot fd mask proc c) := by
    have hadd : aeApiAddEvent (p.fds.get fd).isSome (p.loops t) fd = true := by
      rw [aeApiAddEvent, h.isOpen, h.listed, hreg]
      rfl
    rw [QuicProcess.createFileEvent, aeCreateFileEvent, if_neg (Nat.not_le.mpr h.size),
      if_pos hadd]
  rw [hcreated]
  refine ⟨changedAt_addSlot .., ⟨?_, ?_, h.isOpen, ?_, h.owner⟩, ?_, ?_⟩
  · rw [setLoop_self]
    exact h.size
  · rw [setLoop_self]
    exact Function.update_self ..
  · rw [setLoop_self, addSlot_events_self]
    exact hc.symm
  · rw [setLoop_self, addSlot_events_self]
  · rw [setLoop_self]
    rfl

theorem Registers.idle (h : Registers p p' t fd use mask proc c) (hidle : Idle (p.loops t) fd) :
    Idle (p'.loops t) fd := by
  intro te hte
  rw [h.timers] at hte
  exact hidle te hte

theorem isNone_of_reads (h : ((p.loops t).events fd).rfileProc = some proc) :
    ((p.loops t).events fd).isNone = false := by
  rw [FileEvent.isNone, h, Option.isNone_some, Bool.false_and]

/-- Both handlers are registered after `quic_socket_connected`. -/
theorem Owns.socketConnected (h : Owns p t fd use)
    (hreads : ((p.loops t).events fd).rfileProc = some .quicSocketConnected) :
    ∃ p₁, Registers p p₁ t fd use .aeReadable .quicReadable (p.fdToCnx fd).c ∧
      Registers p₁ (p.quicSocketConnected fd (p.fdToCnx fd).c) t fd use .aeWritable
        .quicWriteable (p.fdToCnx fd).c := by
  have hread := h.register (isNone_of_reads hreads) rfl .aeReadable .quicReadable
  refine ⟨_, hread, ?_⟩
  have hreading : (((p.createFileEvent t fd .aeReadable .quicReadable
      (p.fdToCnx fd).c).loops t).events fd).rfileProc = some .quicReadable := by
    rw [hread.slot]
    rfl
  have hconnection : (p.fdToCnx fd).c = ((p.createFileEvent t fd .aeReadable .quicReadable
      (p.fdToCnx fd).c).fdToCnx fd).c := by
    rw [hread.owns.connection, hread.slot]
    rfl
  unfold QuicProcess.quicSocketConnected
  rw [h.owner]
  exact hread.owns.register (isNone_of_reads hreading) hconnection .aeWritable .quicWriteable

theorem SlotsOk.socketConnected (h : SlotsOk p cnx) (howns : Owns p t fd use)
    (hreads : ((p.loops t).events fd).rfileProc = some .quicSocketConnected)
    (hidle : Idle (p.loops t) fd) (hcnx : ∀ fd', fd' ≠ fd → cnx' fd' = cnx fd')
    (hstored : StoredFor (cnx' fd) use) :
    SlotsOk (p.quicSocketConnected fd (p.fdToCnx fd).c) cnx' := by
  obtain ⟨p₁, hread, hwrite⟩ := howns.socketConnected hreads
  refine h.changed (hread.changed.trans hwrite.changed) hcnx howns.others
    (.serving use hwrite.owns hstored ?_ ?_ (hwrite.idle (hread.idle hidle)))
  · rw [hwrite.slot, hread.slot]
    rfl
  · rw [hwrite.slot]
    rfl

theorem Owns.setWr (h : Owns p t fd use) (wr : Wr) (hc : wr.c = (p.fdToCnx fd).c) :
    Owns (p.setWr fd wr) t fd use := by
  refine ⟨h.size, h.listed, h.isOpen, ?_, ?_⟩
  · rw [setWr_self, hc]
    exact h.connection
  · rw [setWr_self, hc]
    exact h.owner

/-- The timers of the loop are not part of it. -/
theorem Owns.setTimers (h : Owns p t fd use) (loop : QuicLoop)
    (hevents : loop.events = (p.loops t).events) (hapidata : loop.apidata = (p.loops t).apidata)
    (hsize : loop.setsize = (p.loops t).setsize) : Owns (p.setLoop t loop) t fd use := by
  refine ⟨?_, ?_, h.isOpen, ?_, h.owner⟩
  · rw [setLoop_self, hsize]
    exact h.size
  · rw [setLoop_self, hapidata]
    exact h.listed
  · rw [setLoop_self, hevents]
    exact h.connection

theorem changedAt_removeTimer (p : QuicProcess) (t fd id : ℕ) :
    ChangedAt p (p.removeTimer t fd id) t fd := by
  obtain ⟨hevents, hapidata, hsize, htimers, hfds, hwr⟩ := changedAt_deleteTimeEvent p t fd id
  exact ⟨hevents, hapidata, hsize, htimers, hfds, hwr⟩

theorem Owns.removeTimer (h : Owns p t fd use) (id : ℕ) :
    Owns (p.removeTimer t fd id) t fd use := by
  obtain ⟨hsize, hlisted, hopen, hconnection, howner⟩ :=
    h.setTimers (aeDeleteTimeEvent (p.loops t) id) rfl rfl rfl
  exact ⟨hsize, hlisted, hopen, hconnection, howner⟩

theorem OnlyTimer.idle_of_deleted {loop : QuicLoop} {id : ℕ} (h : OnlyTimer loop fd id) :
    Idle (aeDeleteTimeEvent loop id) fd := by
  intro te hte hproc use hdata
  obtain ⟨hold, hne⟩ := mem_aeDeleteTimeEvent hte
  exact hne (h te hold hproc use hdata)

/-- `quic_read`, of a socket that is served or waits for its timer. -/
theorem SlotsOk.read (h : SlotsOk p cnx) (howns : Owns p t fd use)
    (hstored : StoredFor (cnx fd) use)
    (hreads : ((p.loops t).events fd).rfileProc = some .quicReadable)
    (htimer : OnlyTimer (p.loops t) fd (p.fdToCnx fd).ae) :
    SlotsOk (p.quicRead fd (p.fdToCnx fd).c) cnx := by
  unfold quicRead
  simp only
  split
  · rw [howns.owner]
    have hcleared := (howns.removeTimer (p.fdToCnx fd).ae).setWr
      { p.fdToCnx fd with ae := 0 } rfl
    have hloop : ((p.removeTimer t fd (p.fdToCnx fd).ae).setWr fd
        { p.fdToCnx fd with ae := 0 }).loops t
        = aeDeleteTimeEvent (p.loops t) (p.fdToCnx fd).ae := setLoop_self ..
    have hreads' : ((((p.removeTimer t fd (p.fdToCnx fd).ae).setWr fd
        { p.fdToCnx fd with ae := 0 }).loops t).events fd).rfileProc = some .quicReadable := by
      rw [hloop]
      exact hreads
    have hwrite := hcleared.register (isNone_of_reads hreads')
      (congrArg Wr.c (setWr_self ..)).symm .aeWritable .quicWriteable
    have hidle := htimer.idle_of_deleted
    rw [← hloop] at hidle
    refine h.changed (((changedAt_removeTimer ..).trans (changedAt_setWr ..)).trans
      hwrite.changed) (fun _ _ => rfl) howns.others
      (.serving use hwrite.owns hstored ?_ ?_ (hwrite.idle hidle))
    · rw [hwrite.slot]
      exact hreads'
    · rw [hwrite.slot]
      rfl
  · exact h

/-- `write_request`, in the loop that holds its timer. -/
theorem SlotsOk.writeRequest (h : SlotsOk p cnx) {te : TimeEvent QuicTimeProc Client}
    (hte : te ∈ (p.loops t).timeEvents) (hproc : te.timeProc = .writeRequest)
    (hdata : te.clientData = .socket fd use) :
    SlotsOk ((p.writeRequest t fd).deleteTimeEvent t te.id) cnx := by
  cases h t fd with
  | unused _ idle => exact absurd hdata (idle te hte hproc use)
  | connecting _ _ _ _ idle => exact absurd hdata (idle te hte hproc use)
  | serving _ _ _ _ _ idle => exact absurd hdata (idle te hte hproc use)
  | delayed use' owns stored reads writes timer =>
      have hwrite := owns.register (isNone_of_reads reads) rfl .aeWritable .quicWriteable
      have hid := timer te hte hproc use hdata
      have hidle : Idle (aeDeleteTimeEvent ((p.writeRequest t fd).loops t) te.id) fd := by
        refine OnlyTimer.idle_of_deleted ?_
        intro te' hte'
        rw [QuicProcess.writeRequest, hwrite.timers] at hte'
        rw [hid]
        exact timer te' hte'
      refine h.changed (hwrite.changed.trans (changedAt_deleteTimeEvent ..)) (fun _ _ => rfl)
        owns.others (.serving use' (hwrite.owns.setTimers _ rfl rfl rfl) stored ?_ ?_ ?_)
      · rw [QuicProcess.deleteTimeEvent, setLoop_self]
        exact (congrArg FileEvent.rfileProc hwrite.slot).trans reads
      · rw [QuicProcess.deleteTimeEvent, setLoop_self]
        exact congrArg FileEvent.wfileProc hwrite.slot
      · rw [QuicProcess.deleteTimeEvent, setLoop_self]
        exact hidle

/-- A registered slot loses bits of its mask. -/
theorem Owns.deleted_events (h : Owns p t fd use)
    (hreg : ((p.loops t).events fd).isNone = false) (mask : Mask) :
    ((p.deleteFileEvent t fd mask).loops t).events fd
      = ((p.loops t).events fd).remove mask := by
  rw [QuicProcess.deleteFileEvent, setLoop_self]
  rcases aeDeleteFileEvent_events (p.loops t) fd fd mask with ⟨-, hnone⟩ | ⟨-, heq⟩
  · rcases hnone rfl with hout | hnone
    · exact absurd h.size (Nat.not_lt.mpr hout)
    · rw [hreg] at hnone
      cases hnone
  · exact heq

/-- A socket that waits for packets only stays in the interest list. -/
theorem Owns.deleteWritable (h : Owns p t fd use)
    (hreads : ((p.loops t).events fd).rfileProc = some proc) :
    Owns (p.deleteFileEvent t fd .aeWritable) t fd use := by
  have hdeleted := h.deleted_events (isNone_of_reads hreads) .aeWritable
  refine ⟨?_, ?_, h.isOpen, ?_, h.owner⟩
  · rw [QuicProcess.deleteFileEvent, setLoop_self,
      (aeDeleteFileEvent_timers (p.loops t) fd .aeWritable).2.2]
    exact h.size
  · have hreading : (((p.loops t).events fd).remove .aeWritable).isNone = false :=
      congrArg (fun o : Option QuicFileProc => o.isNone && true) hreads
    rw [QuicProcess.deleteFileEvent, setLoop_self, aeDeleteFileEvent,
      if_neg (Nat.not_le.mpr h.size), isNone_of_reads hreads]
    simp only [Bool.false_eq_true, if_false, hreading]
    exact h.listed
  · rw [hdeleted]
    exact h.connection

/-- `quic_writeable`; after an error its entry may be anything. -/
theorem SlotsOk.writeable (h : SlotsOk p cnx) (howns : Owns p t fd use)
    (hstored : StoredFor (cnx fd) use)
    (hreads : ((p.loops t).events fd).rfileProc = some .quicReadable)
    (hidle : Idle (p.loops t) fd) (answer : PacketAnswer)
    (hcnx : ∀ fd', fd' ≠ fd → cnx' fd' = cnx fd') (hsame : answer ≠ .error → cnx' = cnx) :
    SlotsOk (p.quicWriteable t fd (p.fdToCnx fd).c answer) cnx' := by
  have hreg := isNone_of_reads hreads
  have hidleDeleted : ∀ mask, Idle ((p.deleteFileEvent t fd mask).loops t) fd := by
    intro mask te hte
    rw [QuicProcess.deleteFileEvent, setLoop_self,
      (aeDeleteFileEvent_timers (p.loops t) fd mask).1] at hte
    exact hidle te hte
  cases answer with
  | packet =>
      rw [hsame (by decide)]
      exact h
  | error =>
      refine h.changed ((changedAt_deleteFileEvent p t fd .both).trans (changedAt_close _ t fd))
        hcnx howns.others (.unused ?_ (hidleDeleted .both))
      exact congrArg FileEvent.isNone (howns.deleted_events hreg .both)
  | wait =>
      rw [hsame (by decide)]
      have howns' := howns.deleteWritable hreads
      have hevents := howns.deleted_events hreg .aeWritable
      simp only [QuicProcess.quicWriteable, howns.owner, howns'.useOf]
      have howns'' : Owns ((p.deleteFileEvent t fd .aeWritable).createTimeEvent t .writeRequest
          (.socket fd use)) t fd use :=
        howns'.setTimers (aeCreateTimeEvent _ .writeRequest (.socket fd use)) rfl rfl rfl
      have hslot : (((p.deleteFileEvent t fd .aeWritable).createTimeEvent t .writeRequest
          (.socket fd use)).loops t).events fd
          = ((p.loops t).events fd).remove .aeWritable := by
        rw [QuicProcess.createTimeEvent, setLoop_self]
        exact hevents
      have harmed : ChangedAt p ((p.deleteFileEvent t fd .aeWritable).createTimeEvent t
          .writeRequest (.socket fd use)) t fd :=
        (changedAt_deleteFileEvent p t fd .aeWritable).trans
          (changedAt_createTimeEvent (fun _ => ⟨use, rfl⟩) _ t)
      refine h.changed (harmed.trans (changedAt_setWr ..)) (fun _ _ => rfl) howns.others
        (.delayed use (howns''.setWr _ rfl) hstored ?_ ?_ ?_)
      · exact (congrArg FileEvent.rfileProc hslot).trans hreads
      · exact congrArg FileEvent.wfileProc hslot
      · intro te hte hproc use' hdata
        rw [setWr_self]
        rcases List.mem_cons.mp ((congrArg (te ∈ EventLoop.timeEvents ·)
          (setLoop_self ..)).mp hte) with rfl | hte
        · rfl
        · exact absurd hdata (hidleDeleted .aeWritable te hte hproc use')
  | noWait =>
      rw [hsame (by decide)]
      have hwrite := howns.register hreg rfl .aeWritable .quicWriteable
      simp only [QuicProcess.quicWriteable, howns.owner]
      refine h.changed hwrite.changed (fun _ _ => rfl) howns.others
        (.serving use hwrite.owns hstored ?_ ?_ (hwrite.idle hidle))
      · rw [hwrite.slot]
        exact hreads
      · rw [hwrite.slot]
        rfl

end Slots

/-! ### One step -/

section Steps

variable {s s' : QuicHandlers} {t fd use : ℕ} {e : QuicProcessEvent} {answer : CnxAnswer}

/-- What `quic_connect` leaves in the table. -/
def CnxAnswer.entry (answer : CnxAnswer) (use : ℕ) : CnxEntry where
  cnx :=
    if answer.created then
      some { use := use, started := ¬answer.startClientCnx < 0, deleted := false }
    else none
  storedFor := some use

/-- The status is `OK`, so the other branches are never taken. -/
theorem quicSocketConnected_eq (s : QuicHandlers) (fd : ℕ) (c : Client) (answer : CnxAnswer) :
    s.quicSocketConnected fd c answer
      = { s.setCnx fd (answer.entry (s.process.useOf fd)) with
          process := s.process.quicSocketConnected fd c } := rfl

theorem CnxAnswer.entry_storedFor (answer : CnxAnswer) (use : ℕ) :
    StoredFor (answer.entry use) use := by
  refine ⟨rfl, ?_⟩
  intro cnx hcnx
  unfold CnxAnswer.entry at hcnx
  split at hcnx
  · obtain rfl := Option.some.inj hcnx
    exact ⟨rfl, rfl⟩
  · cases hcnx

/-- The state after `quic_socket_connected`. -/
theorem SlotsOk.connected (h : SlotsOk s.process s.cnx) (howns : Owns s.process t fd use)
    (hreads : ((s.process.loops t).events fd).rfileProc = some .quicSocketConnected)
    (hidle : Idle (s.process.loops t) fd) (answer : CnxAnswer) :
    SlotsOk (s.quicSocketConnected fd (s.process.fdToCnx fd).c answer).process
      (s.quicSocketConnected fd (s.process.fdToCnx fd).c answer).cnx := by
  rw [quicSocketConnected_eq]
  refine SlotsOk.socketConnected h howns hreads hidle
    (fun fd' hne => Function.update_of_ne hne ..) ?_
  rw [howns.useOf]
  simp only [setCnx, Function.update_self]
  exact answer.entry_storedFor use

theorem SlotsOk.handlerWriteable (h : SlotsOk s.process s.cnx) (howns : Owns s.process t fd use)
    (hstored : StoredFor (s.cnx fd) use)
    (hreads : ((s.process.loops t).events fd).rfileProc = some .quicReadable)
    (hidle : Idle (s.process.loops t) fd) (prepared : PacketAnswer) :
    SlotsOk (s.quicWriteable t fd (s.process.fdToCnx fd).c prepared).process
      (s.quicWriteable t fd (s.process.fdToCnx fd).c prepared).cnx := by
  cases prepared with
  | error =>
      exact SlotsOk.writeable h howns hstored hreads hidle .error
        (fun fd' hne => Function.update_of_ne hne ..) (fun hne => absurd rfl hne)
  | packet =>
      exact SlotsOk.writeable h howns hstored hreads hidle .packet (fun _ _ => rfl)
        (fun _ => rfl)
  | wait =>
      exact SlotsOk.writeable h howns hstored hreads hidle .wait (fun _ _ => rfl)
        (fun _ => rfl)
  | noWait =>
      exact SlotsOk.writeable h howns hstored hreads hidle .noWait (fun _ _ => rfl)
        (fun _ => rfl)

theorem quicConnectSocket_cnx (s : QuicHandlers) (c : Client) (socket : SocketAnswer) :
    (s.quicConnectSocket c socket).cnx = s.cnx := by
  unfold QuicHandlers.quicConnectSocket
  simp only
  split
  · rfl
  · rfl

theorem SlotsOk.handlerConnect (h : SlotsOk s.process s.cnx) (c : Client)
    (socket : SocketAnswer) : SlotsOk (s.quicConnectSocket c socket).process
      (s.quicConnectSocket c socket).cnx := by
  rw [quicConnectSocket_process, quicConnectSocket_cnx]
  exact h.connectSocket c socket

theorem SlotsOk.handlerTimer (h : SlotsOk s.process s.cnx)
    {te : TimeEvent QuicTimeProc Client} (hte : te ∈ (s.process.loops t).timeEvents)
    (calibrated : Bool) (socket : SocketAnswer) :
    SlotsOk (s.runTimeEvent t te calibrated socket).process
      (s.runTimeEvent t te calibrated socket).cnx := by
  unfold QuicHandlers.runTimeEvent
  split
  · exact (h.handlerConnect te.clientData socket).deleteTimeEvent t te.id
  · exact (h.handlerConnect te.clientData socket).deleteTimeEvent t te.id
  · unfold QuicProcess.runTimeEvent
    split
    · exact (h.connectSocket te.clientData socket).deleteTimeEvent t te.id
    · exact (h.connectSocket te.clientData socket).deleteTimeEvent t te.id
    · split
      · exact (h.createTimeEvent t (fun hproc => by cases hproc) _).deleteTimeEvent t te.id
      · exact h
    · exact h
    · exact h
    · rename_i hproc
      split
      · rename_i hdata
        exact h.writeRequest hte hproc hdata
      · exact h

/-- One step keeps the slots in their states, whatever picoquic answers. -/
theorem SlotsOk.step (h : SlotsOk s.process s.cnx)
    (hstep : quicHandlersStep s (e, answer) = some s') : SlotsOk s'.process s'.cnx := by
  cases e with
  | readable t fd prepared =>
      obtain ⟨proc, hproc, rfl⟩ := Option.map_eq_some_iff.mp hstep
      cases h t fd with
      | unused isNone _ =>
          rw [isNone_of_reads hproc] at isNone
          cases isNone
      | connecting use owns reads _ idle =>
          obtain rfl := Option.some.inj (hproc.symm.trans reads)
          rw [← owns.connection]
          exact h.connected owns reads idle answer
      | serving use owns stored reads _ idle =>
          obtain rfl := Option.some.inj (hproc.symm.trans reads)
          rw [← owns.connection]
          exact h.read owns stored reads (idle.onlyTimer _)
      | delayed use owns stored reads _ timer =>
          obtain rfl := Option.some.inj (hproc.symm.trans reads)
          rw [← owns.connection]
          exact h.read owns stored reads timer
  | writable t fd prepared =>
      obtain ⟨proc, hproc, rfl⟩ := Option.map_eq_some_iff.mp hstep
      cases h t fd with
      | unused isNone _ =>
          rw [FileEvent.isNone, hproc, Option.isNone_some, Bool.and_false] at isNone
          cases isNone
      | connecting use owns reads writes idle =>
          obtain rfl := Option.some.inj (hproc.symm.trans writes)
          rw [← owns.connection]
          exact h.connected owns reads idle answer
      | serving use owns stored reads writes idle =>
          obtain rfl := Option.some.inj (hproc.symm.trans writes)
          rw [← owns.connection]
          exact h.handlerWriteable owns stored reads idle prepared
      | delayed _ _ _ _ writes _ =>
          rw [hproc] at writes
          cases writes
  | timer t id calibrated socket =>
      obtain ⟨te, hfind, rfl⟩ := Option.map_eq_some_iff.mp hstep
      exact h.handlerTimer (List.mem_of_find?_eq_some hfind) calibrated socket
  | restart t index wait socket =>
      cases wait with
      | true =>
          obtain rfl := Option.some.inj hstep
          exact h.createTimeEvent t (fun hproc => by cases hproc) _
      | false =>
          obtain rfl := Option.some.inj hstep
          exact h.handlerConnect _ socket

end Steps

end WrkQuic
