import WrkQuic.QuicSlots

/-!
# Handlers with a live connection

When `quic_readable` or `quic_writeable` is registered for a socket, the
table has a connection for it (`Live`) in every run in which picoquic creates
and starts one whenever it is asked to, and the number of every socket is
below the size of the table (`Starts`); and after one call of
`quic_socket_connected` exactly then.
-/

namespace WrkQuic

open Runs QuicProcess QuicHandlers

/-! ## Runs -/

/-- `quic_readable` or `quic_writeable` is registered. -/
def Handled (fe : FileEvent QuicFileProc Client) : Prop :=
  ∃ proc, proc ≠ .quicSocketConnected ∧ (fe.rfileProc = some proc ∨ fe.wfileProc = some proc)

/-- The table has an entry for the descriptor, with the connection that the
handler gets and a started connection of picoquic, made for this socket. -/
structure Live (s : QuicHandlers) (t fd : ℕ) : Prop where
  below : fd < 65536
  connection : (s.process.fdToCnx fd).c = ((s.process.loops t).events fd).clientData
  cnx : ∃ use cnx, s.process.fds.get fd = some ⟨some t, use⟩ ∧ (s.cnx fd).cnx = some cnx ∧
    cnx.use = use ∧ cnx.started = true ∧ cnx.deleted = false

/-- The error path of `quic_socket_connected`: the error is counted, and
the socket is closed. -/
structure ErrorPath (s s' : QuicHandlers) (t fd : ℕ) : Prop where
  counted : s'.connectErrors t = s.connectErrors t + 1
  released : s'.process.fds.get fd ≠ s.process.fds.get fd

/-- The thread and the socket of a call of `quic_socket_connected`. -/
def connectedSocket (s : QuicProcess) : QuicProcessEvent → Option (ℕ × ℕ)
  | .readable t fd _ =>
      if ((s.loops t).events fd).rfileProc = some .quicSocketConnected then some (t, fd) else none
  | .writable t fd _ =>
      if ((s.loops t).events fd).wfileProc = some .quicSocketConnected then some (t, fd) else none
  | .timer .. | .restart .. => none

def QuicProcessEvent.socketAnswer : QuicProcessEvent → SocketAnswer
  | .timer _ _ _ answer | .restart _ _ _ answer => answer
  | .readable .. | .writable .. => .noSocket

/-- The number of the socket that `quic_connect_socket` gets. -/
def openedSocket (s : QuicProcess) (e : QuicProcessEvent) : Option ℕ :=
  if e.socketAnswer = .noSocket then none
  else (connecting s e).map fun _ => s.fds.lowest

/-- A new socket has a place in `fd_to_cnx`, and picoquic creates and
starts a connection for it. -/
def Starts (s : QuicHandlers) : QuicProcessEvent × CnxAnswer → Prop
  | (e, answer) =>
      (∀ fd ∈ openedSocket s.process e, fd < 65536) ∧
      ((connectedSocket s.process e).isSome → answer.created = true ∧ 0 ≤ answer.startClientCnx)

instance (s : QuicHandlers) (e : QuicProcessEvent × CnxAnswer) : Decidable (Starts s e) :=
  inferInstanceAs (Decidable ((∀ fd ∈ openedSocket s.process e.1, fd < 65536) ∧
    ((connectedSocket s.process e.1).isSome →
      e.2.created = true ∧ 0 ≤ e.2.startClientCnx)))

section Runs

variable {s s' : QuicHandlers} {p p' : QuicProcess} {t fd use : ℕ} {e : QuicProcessEvent}
  {answer : CnxAnswer}

/-! ### The tables -/

@[simp] theorem createFileEvent_fds (p : QuicProcess) (t fd : ℕ) (mask : Mask)
    (proc : QuicFileProc) (c : Client) : (p.createFileEvent t fd mask proc c).fds = p.fds := by
  unfold QuicProcess.createFileEvent
  split
  · rfl
  · rfl

theorem quicRead_fds (p : QuicProcess) (fd : ℕ) (c : Client) : (p.quicRead fd c).fds = p.fds := by
  unfold quicRead
  simp only
  split
  · exact createFileEvent_fds ..
  · rfl

/-- `close` opens nothing. -/
theorem close_sockets {socket : QuicSocket} {fd' : ℕ}
    (h : (p.close fd').fds.get fd = some socket) : p.fds.get fd = some socket := by
  simp only [QuicProcess.close, FdTable.close, FdTable.get_set] at h
  split at h
  · cases h
  · exact h

/-- A socket that is open after `quic_connect_socket` was open before, or is
the one it got. -/
theorem connectSocket_sockets {c : Client} {socket : SocketAnswer}
    (h : (p.quicConnectSocket c socket).fds.get fd = some ⟨some t, use⟩) :
    p.fds.get fd = some ⟨some t, use⟩ ∨ socket ≠ .noSocket ∧ fd = p.fds.lowest := by
  unfold QuicProcess.quicConnectSocket at h
  simp only at h
  split at h
  · exact Or.inl h
  · rename_i hsocket
    by_cases hfd : fd = p.fds.lowest
    · exact Or.inr ⟨hsocket, hfd⟩
    · left
      have hother : ∀ value, (p.fds.openLowest value).get fd = p.fds.get fd :=
        fun _ => FdTable.get_set_of_ne hfd
      split at h
      · exact (hother _).symm.trans h
      · split at h
        · exact (hother _).symm.trans (close_sockets h)
        · split at h
          · exact (hother _).symm.trans h
          · exact (hother _).symm.trans (close_sockets h)

theorem runFileProc_sockets {c : Client} {prepared : PacketAnswer} {fd' : ℕ}
    {proc : QuicFileProc} {socket : QuicSocket}
    (h : (p.runFileProc t fd' c prepared proc).fds.get fd = some socket) :
    p.fds.get fd = some socket := by
  cases proc with
  | quicSocketConnected =>
      simp only [QuicProcess.runFileProc, QuicProcess.quicSocketConnected,
        createFileEvent_fds] at h
      exact h
  | quicReadable =>
      rw [QuicProcess.runFileProc, quicRead_fds] at h
      exact h
  | quicWriteable =>
      cases prepared with
      | packet => exact h
      | error => exact close_sockets h
      | wait => exact h
      | noWait =>
          simp only [QuicProcess.runFileProc, QuicProcess.quicWriteable,
            createFileEvent_fds] at h
          exact h

theorem step_sockets (hstep : quicProcessStep p e = some p')
    (h : p'.fds.get fd = some ⟨some t, use⟩) :
    p.fds.get fd = some ⟨some t, use⟩ ∨ openedSocket p e = some fd := by
  cases e with
  | readable t' fd' prepared =>
      obtain ⟨proc, -, rfl⟩ := Option.map_eq_some_iff.mp hstep
      exact Or.inl (runFileProc_sockets h)
  | writable t' fd' prepared =>
      obtain ⟨proc, -, rfl⟩ := Option.map_eq_some_iff.mp hstep
      exact Or.inl (runFileProc_sockets h)
  | timer t' id calibrated socket =>
      obtain ⟨te, hfind, rfl⟩ := Option.map_eq_some_iff.mp hstep
      have hopened : te.timeProc = .delayedInitialConnect ∨ te.timeProc = .delayRecon →
          (p.quicConnectSocket te.clientData socket).fds.get fd = some ⟨some t, use⟩ →
          p.fds.get fd = some ⟨some t, use⟩ ∨
            openedSocket p (.timer t' id calibrated socket) = some fd := by
        intro hproc hget
        refine (connectSocket_sockets hget).imp_right ?_
        rintro ⟨hsocket, rfl⟩
        simp only [openedSocket, QuicProcessEvent.socketAnswer, if_neg hsocket, connecting,
          hfind, Option.bind_some, if_pos hproc, Option.map_some]
      unfold QuicProcess.runTimeEvent at h
      split at h
      · rename_i hproc
        exact hopened (Or.inl hproc) h
      · rename_i hproc
        exact hopened (Or.inr hproc) h
      · split at h
        · exact Or.inl h
        · exact Or.inl h
      · exact Or.inl h
      · exact Or.inl h
      · split at h
        · rw [QuicProcess.writeRequest, QuicProcess.deleteTimeEvent, QuicProcess.setLoop,
            createFileEvent_fds] at h
          exact Or.inl h
        · exact Or.inl h
  | restart t' index wait socket =>
      cases wait with
      | true =>
          obtain rfl := Option.some.inj hstep
          exact Or.inl h
      | false =>
          obtain rfl := Option.some.inj hstep
          refine (connectSocket_sockets h).imp_right ?_
          rintro ⟨hsocket, rfl⟩
          simp only [openedSocket, QuicProcessEvent.socketAnswer, connecting, Option.map_some]
          exact if_neg hsocket

/-- The three things a step can do to the entries: nothing, what
`quic_connect` does, and what `picoquic_delete_cnx` does. -/
theorem step_entries (hstep : quicHandlersStep s (e, answer) = some s') :
    s'.cnx = s.cnx ∨
    (∃ t fd, connectedSocket s.process e = some (t, fd) ∧
      s'.cnx = Function.update s.cnx fd (answer.entry (s.process.useOf fd))) ∨
    ∃ fd, s'.cnx = Function.update s.cnx fd { s.cnx fd with
      cnx := (s.cnx fd).cnx.map fun cnx => { cnx with deleted := true } } := by
  have hwriteable : ∀ t fd c prepared,
      (s.quicWriteable t fd c prepared).cnx = s.cnx ∨
        (s.quicWriteable t fd c prepared).cnx = Function.update s.cnx fd { s.cnx fd with
          cnx := (s.cnx fd).cnx.map fun cnx => { cnx with deleted := true } } := by
    intro t fd c prepared
    cases prepared with
    | error => exact Or.inr rfl
    | packet => exact Or.inl rfl
    | wait => exact Or.inl rfl
    | noWait => exact Or.inl rfl
  cases e with
  | readable t fd prepared =>
      obtain ⟨proc, hproc, rfl⟩ := Option.map_eq_some_iff.mp hstep
      cases proc with
      | quicSocketConnected => exact Or.inr (Or.inl ⟨t, fd, if_pos hproc, rfl⟩)
      | quicReadable => exact Or.inl rfl
      | quicWriteable =>
          exact (hwriteable t fd _ prepared).imp_right fun h => Or.inr ⟨fd, h⟩
  | writable t fd prepared =>
      obtain ⟨proc, hproc, rfl⟩ := Option.map_eq_some_iff.mp hstep
      cases proc with
      | quicSocketConnected => exact Or.inr (Or.inl ⟨t, fd, if_pos hproc, rfl⟩)
      | quicReadable => exact Or.inl rfl
      | quicWriteable =>
          exact (hwriteable t fd _ prepared).imp_right fun h => Or.inr ⟨fd, h⟩
  | timer t id calibrated socket =>
      obtain ⟨te, -, rfl⟩ := Option.map_eq_some_iff.mp hstep
      left
      unfold QuicHandlers.runTimeEvent
      split
      · exact quicConnectSocket_cnx ..
      · exact quicConnectSocket_cnx ..
      · rfl
  | restart t index wait socket =>
      cases wait with
      | true =>
          obtain rfl := Option.some.inj hstep
          exact Or.inl rfl
      | false =>
          obtain rfl := Option.some.inj hstep
          exact Or.inl (quicConnectSocket_cnx ..)

/-! ### The invariant -/

structure QuicHandlers.LiveOk (s : QuicHandlers) : Prop where
  slots : SlotsOk s.process s.cnx
  started : ∀ fd, (s.cnx fd).storedFor ≠ none →
    ∃ cnx, (s.cnx fd).cnx = some cnx ∧ cnx.started = true
  below : ∀ fd t use, s.process.fds.get fd = some ⟨some t, use⟩ → fd < 65536

theorem initial_slotsOk (setsize connections : ℕ) (reserved : FdTable Unit) :
    SlotsOk (QuicHandlers.initial setsize connections reserved).process
      (QuicHandlers.initial setsize connections reserved).cnx := by
  intro t fd
  obtain ⟨hevents, htimers⟩ := quicInitialLoop_fresh setsize connections t
  refine .unused ?_ fun te hte hproc => absurd hproc (htimers te hte)
  simp only [QuicHandlers.initial, QuicProcess.initial, hevents]
  rfl

theorem initial_liveOk (setsize connections : ℕ) (reserved : FdTable Unit) :
    (QuicHandlers.initial setsize connections reserved).LiveOk := by
  refine ⟨initial_slotsOk setsize connections reserved, fun _ h => absurd rfl h, ?_⟩
  intro fd t use hopen
  obtain ⟨-, -, hsocket⟩ := Option.map_eq_some_iff.mp hopen
  cases hsocket

theorem CnxAnswer.entry_started (hcreated : answer.created = true)
    (hstarted : 0 ≤ answer.startClientCnx) (use : ℕ) :
    ∃ cnx, (answer.entry use).cnx = some cnx ∧ cnx.started = true := by
  refine ⟨⟨use, true, false⟩, ?_, rfl⟩
  have hnot : (¬answer.startClientCnx < 0) = True := eq_true (Int.not_lt.mpr hstarted)
  simp only [CnxAnswer.entry, if_pos hcreated, hnot, decide_true]

theorem QuicHandlers.LiveOk.step (h : s.LiveOk)
    (hstep : quicHandlersStep s (e, answer) = some s') (hok : Starts s (e, answer)) :
    s'.LiveOk := by
  refine ⟨h.slots.step hstep, ?_, ?_⟩
  · intro fd hstored
    rcases step_entries hstep with heq | ⟨t, fd', hconnected, heq⟩ | ⟨fd', heq⟩
    · rw [heq] at hstored ⊢
      exact h.started fd hstored
    · rw [heq] at hstored ⊢
      by_cases hfd : fd = fd'
      · subst hfd
        obtain ⟨hcreated, hstarted⟩ := hok.2 (Option.isSome_of_eq_some hconnected)
        rw [Function.update_self]
        exact CnxAnswer.entry_started hcreated hstarted _
      · rw [Function.update_of_ne hfd] at hstored ⊢
        exact h.started fd hstored
    · rw [heq] at hstored ⊢
      by_cases hfd : fd = fd'
      · subst hfd
        rw [Function.update_self] at hstored ⊢
        obtain ⟨cnx, hcnx, hstarted⟩ := h.started fd hstored
        refine ⟨{ cnx with deleted := true }, ?_, hstarted⟩
        rw [hcnx, Option.map_some]
      · rw [Function.update_of_ne hfd] at hstored ⊢
        exact h.started fd hstored
  · intro fd t use hopen
    have hprocess := quicHandlersStep_process s e answer
    rw [hstep] at hprocess
    rcases step_sockets hprocess.symm hopen with hold | hopened
    · exact h.below fd t use hold
    · exact hok.1 fd hopened

/-- A registered handler has left `quic_socket_connected`. -/
theorem SlotState.handled {cnx : ℕ → CnxEntry} (h : SlotState p cnx t fd)
    (hhandled : Handled ((p.loops t).events fd)) :
    ∃ use, Owns p t fd use ∧ StoredFor (cnx fd) use := by
  obtain ⟨proc, hne, hproc⟩ := hhandled
  cases h with
  | unused isNone _ =>
      rw [FileEvent.isNone, Bool.and_eq_true, Option.isNone_iff_eq_none,
        Option.isNone_iff_eq_none] at isNone
      rw [isNone.1, isNone.2] at hproc
      rcases hproc with hproc | hproc
      · cases hproc
      · cases hproc
  | connecting use _ reads writes _ =>
      rw [reads, writes, or_self] at hproc
      exact absurd (Option.some.inj hproc).symm hne
  | serving use owns stored _ _ _ => exact ⟨use, owns, stored⟩
  | delayed use owns stored _ _ _ => exact ⟨use, owns, stored⟩

theorem QuicHandlers.LiveOk.live (h : s.LiveOk)
    (hhandled : Handled ((s.process.loops t).events fd)) : Live s t fd := by
  obtain ⟨use, howns, hstored⟩ := (h.slots t fd).handled hhandled
  refine ⟨h.below fd t use howns.isOpen, howns.connection, ?_⟩
  obtain ⟨cnx, hcnx, hstarted⟩ := h.started fd (by rw [hstored.stored]; exact nofun)
  obtain ⟨huse, hdeleted⟩ := hstored.cnx cnx hcnx
  exact ⟨use, cnx, howns.isOpen, hcnx, huse, hstarted, hdeleted⟩

/-! ### One call of `quic_socket_connected` -/

/-- The call is made for a socket that waits for it. -/
theorem SlotsOk.calls (h : SlotsOk s.process s.cnx)
    (he : connectedSocket s.process e = some (t, fd))
    (hstep : quicHandlersStep s (e, answer) = some s') :
    ∃ use, Owns s.process t fd use ∧
      ((s.process.loops t).events fd).rfileProc = some .quicSocketConnected ∧
      s' = s.quicSocketConnected fd (s.process.fdToCnx fd).c answer := by
  have hcalled : (((s.process.loops t).events fd).rfileProc = some .quicSocketConnected ∨
      ((s.process.loops t).events fd).wfileProc = some .quicSocketConnected) ∧
      s' = s.quicSocketConnected fd ((s.process.loops t).events fd).clientData answer := by
    cases e with
    | readable t' fd' prepared =>
        obtain ⟨hproc, heq⟩ := Option.ite_none_right_eq_some.mp he
        obtain ⟨rfl, rfl⟩ := Prod.mk.inj (Option.some.inj heq)
        simp only [quicHandlersStep, hproc, Option.map_some] at hstep
        exact ⟨Or.inl hproc, (Option.some.inj hstep).symm⟩
    | writable t' fd' prepared =>
        obtain ⟨hproc, heq⟩ := Option.ite_none_right_eq_some.mp he
        obtain ⟨rfl, rfl⟩ := Prod.mk.inj (Option.some.inj heq)
        simp only [quicHandlersStep, hproc, Option.map_some] at hstep
        exact ⟨Or.inr hproc, (Option.some.inj hstep).symm⟩
    | timer t' id calibrated socket => cases he
    | restart t' index wait socket => cases he
  obtain ⟨hproc, rfl⟩ := hcalled
  cases h t fd with
  | unused isNone _ =>
      rw [FileEvent.isNone, Bool.and_eq_true, Option.isNone_iff_eq_none,
        Option.isNone_iff_eq_none] at isNone
      rw [isNone.1, isNone.2, or_self] at hproc
      cases hproc
  | connecting use owns reads _ _ => exact ⟨use, owns, reads, by rw [owns.connection]⟩
  | serving _ _ _ reads writes _ =>
      rw [reads, writes] at hproc
      rcases hproc with hproc | hproc
      · cases hproc
      · cases hproc
  | delayed _ _ _ reads writes _ =>
      rw [reads, writes] at hproc
      rcases hproc with hproc | hproc
      · cases hproc
      · cases hproc

theorem SlotsOk.call_live_iff (h : SlotsOk s.process s.cnx)
    (he : connectedSocket s.process e = some (t, fd))
    (hstep : quicHandlersStep s (e, answer) = some s') :
    Handled ((s'.process.loops t).events fd) ∧ Live s' t fd ∨ ErrorPath s s' t fd ↔
      fd < 65536 ∧ answer.created = true ∧ 0 ≤ answer.startClientCnx := by
  obtain ⟨use, howns, hreads, rfl⟩ := h.calls he hstep
  obtain ⟨p₁, hread, hwrite⟩ := howns.socketConnected hreads
  have hentry : (s.quicSocketConnected fd (s.process.fdToCnx fd).c answer).cnx fd
      = answer.entry use := by
    rw [quicSocketConnected_eq, howns.useOf]
    exact Function.update_self ..
  constructor
  · rintro (⟨-, hbelow, -, use', cnx, -, hcnx, -, hstarted, -⟩ | herror)
    · refine ⟨hbelow, ?_⟩
      rw [hentry, CnxAnswer.entry] at hcnx
      simp only at hcnx
      split at hcnx
      · rename_i hcreated
        obtain rfl := Option.some.inj hcnx
        exact ⟨hcreated, Int.not_lt.mp (of_decide_eq_true hstarted)⟩
      · cases hcnx
    · exact absurd herror.counted.symm (Nat.succ_ne_self _)
  · rintro ⟨hbelow, hcreated, hstarted⟩
    left
    refine ⟨⟨.quicWriteable, nofun, Or.inr ?_⟩, hbelow, hwrite.owns.connection, ?_⟩
    · rw [quicSocketConnected_eq]
      simp only [hwrite.slot]
      rfl
    · obtain ⟨cnx, hcnx, hcnxStarted⟩ := CnxAnswer.entry_started hcreated hstarted use
      obtain ⟨huse, hdeleted⟩ := (answer.entry_storedFor use).cnx cnx hcnx
      rw [← hentry] at hcnx
      exact ⟨use, cnx, hwrite.owns.isOpen, hcnx, huse, hcnxStarted, hdeleted⟩

/-! ### Results -/

theorem liveOk_of_reachable {setsize connections : ℕ}
    (h : (quicHandlers setsize connections).ReachableWith Starts s) : s.LiveOk := by
  refine h.invariant ?_ ?_
  · rintro s ⟨reserved, rfl⟩
    exact initial_liveOk setsize connections reserved
  · rintro s ⟨e, answer⟩ s' hs hstep hok
    exact hs.step hstep hok

theorem slotsOk_of_reachable {setsize connections : ℕ}
    (h : (quicHandlers setsize connections).Reachable s) : SlotsOk s.process s.cnx := by
  refine h.invariant (P := fun s => SlotsOk s.process s.cnx) ?_ ?_
  · rintro s ⟨reserved, rfl⟩
    exact initial_slotsOk setsize connections reserved
  · rintro s ⟨e, answer⟩ s' hs hstep
    exact hs.step hstep

end Runs

/-- In every run whose sockets have a place in the table and in which
picoquic creates and starts every connection, the handlers of a socket have
a live connection. In any run, a call of `quic_socket_connected` leaves its
socket so, or takes the error path, only if picoquic does so for this
call. -/
theorem quic_handlers_live_iff (setsize connections : ℕ) :
    (∀ s, (quicHandlers setsize connections).ReachableWith Starts s → ∀ t fd,
      Handled ((s.process.loops t).events fd) → Live s t fd) ∧
    ∀ s, (quicHandlers setsize connections).Reachable s → ∀ e answer s' t fd,
      connectedSocket s.process e = some (t, fd) →
      quicHandlersStep s (e, answer) = some s' →
      (Handled ((s'.process.loops t).events fd) ∧ Live s' t fd ∨ ErrorPath s s' t fd ↔
        fd < 65536 ∧ answer.created = true ∧ 0 ≤ answer.startClientCnx) :=
  ⟨fun _ hs _ _ hhandled => (liveOk_of_reachable hs).live hhandled,
    fun _ hs _ _ _ _ _ he hstep => (slotsOk_of_reachable hs).call_live_iff he hstep⟩

/-- Connects of thread 0 with descriptor 4: the call, and what becomes of
the slot. -/
def connectFour (s : QuicHandlers) (answer : CnxAnswer) :
    Option (ℕ × ℕ) × Bool × Option (Option QuicFileProc) :=
  (connectedSocket s.process (.writable 0 4 .packet),
    decide (Starts s (.writable 0 4 .packet, answer)),
    (quicHandlersStep s (.writable 0 4 .packet, answer)).map fun s' =>
      ((s'.process.loops 0).events 4).wfileProc)

/-- The slot of descriptor 4, its connection and the errors of thread 0. -/
def slotFour (s : QuicHandlers) :
    Option QuicFileProc × Option Cnx × ℕ × Option QuicSocket :=
  (((s.process.loops 0).events 4).wfileProc, (s.cnx 4).cnx, s.connectErrors 0,
    s.process.fds.get 4)

def startedCnx : CnxAnswer := ⟨true, 0, 0, .bound⟩

/-- `picoquic_create_cnx` returns `NULL`. -/
def noCnx : CnxAnswer := ⟨false, 0, 0, .bound⟩

/-- Thread 0 opens descriptor 4. -/
def openFour : QuicProcessEvent × CnxAnswer := (.timer 0 0 false .bound, startedCnx)

theorem quicHandlers_initial : ∃ reserved,
    QuicHandlers.initial 16 1 (.firstOpen 4 ()) = .initial 16 1 reserved :=
  ⟨.firstOpen 4 (), rfl⟩

/-- Descriptor 4 becomes writable, and picoquic starts a connection. -/
theorem quic_handlers_live_iff_one : ∃ s s', (quicHandlers 16 1).ReachableWith Starts s ∧
    quicHandlersStep s (.writable 0 4 .packet, startedCnx) = some s' ∧
    Handled ((s'.process.loops 0).events 4) ∧ Live s' 0 4 ∧
    (Handled ((s'.process.loops 0).events 4) ∧ Live s' 0 4 ∨ ErrorPath s s' 0 4 ↔
      4 < 65536 ∧ startedCnx.created = true ∧ 0 ≤ startedCnx.startClientCnx) := by
  obtain ⟨s, hs, hf⟩ : ∃ s, (quicHandlers 16 1).ReachableWith Starts s ∧
      connectFour s startedCnx = (some (0, 4), true, some (some .quicWriteable)) :=
    exists_reachableWith_of_runEvents (connectFour · startedCnx) [openFour]
      quicHandlers_initial (by decide +kernel)
  simp only [connectFour, Prod.mk.injEq] at hf
  obtain ⟨hcall, hok, hstep⟩ := hf
  obtain ⟨s', hstep, hwrites⟩ := Option.map_eq_some_iff.mp hstep
  have hhandled : Handled ((s'.process.loops 0).events 4) :=
    ⟨.quicWriteable, nofun, Or.inr hwrites⟩
  have hs' : (quicHandlers 16 1).ReachableWith Starts s' :=
    hs.step hstep (of_decide_eq_true hok)
  exact ⟨s, s', hs, hstep, hhandled, (quic_handlers_live_iff 16 1).1 s' hs' 0 4 hhandled,
    (quic_handlers_live_iff 16 1).2 s (hs.mono fun _ _ _ => trivial) _ _ s' 0 4 hcall hstep⟩

/-- The handlers of descriptor 4 are registered with a null connection; no
error is counted, and the descriptor is open. -/
theorem quic_handlers_without_cnx : ∃ s, (quicHandlers 16 1).Reachable s ∧
    Handled ((s.process.loops 0).events 4) ∧ (s.cnx 4).cnx = none ∧ ¬Live s 0 4 ∧
    s.connectErrors 0 = 0 ∧ s.process.fds.get 4 = some ⟨some 0, 0⟩ := by
  obtain ⟨s, hs, hf⟩ : ∃ s, (quicHandlers 16 1).Reachable s ∧
      slotFour s = (some .quicWriteable, none, 0, some ⟨some 0, 0⟩) :=
    exists_reachable_of_runEvents slotFour [openFour, (.writable 0 4 .packet, noCnx)]
      quicHandlers_initial (by decide +kernel)
  simp only [slotFour, Prod.mk.injEq] at hf
  obtain ⟨hwrites, hcnx, herrors, hopen⟩ := hf
  refine ⟨s, hs, ⟨.quicWriteable, nofun, Or.inr hwrites⟩, hcnx, ?_, herrors, hopen⟩
  rintro ⟨-, -, use, cnx, -, hsome, -⟩
  rw [hcnx] at hsome
  cases hsome

end WrkQuic
