import WrkQuic.QuicHandlers
import WrkQuic.Wakeup

/-!
# Wake-up sources over QUIC

The threads of `QuicHandlers`, with what picoquic has reported of the
connections that it was given: `quic_callback` comes to its label `restart`
for a socket that is served, and some of these callbacks are the last of
their picoquic connection.

The old socket of a connection stays registered until `quic_writeable` is
told that its `cnx` is over. By then its callback has made a new one, or a
`delay_recon` timer, which `quic_read` does not delete as long as every
timer that it deletes is its own.
-/

namespace WrkQuic

open Runs QuicProcess

/-! ## State -/

structure QuicWakes where
  handlers : QuicHandlers
  /-- picoquic has reported the end of `fd_to_cnx[fd].cnx`. -/
  isOver : ℕ → Bool

/-- An event, with the answers of picoquic. If it is a `restart`, the
callback is for the connection of the socket `fd`, and `isOver` when it is the
last one. -/
structure QuicWakesEvent where
  event : QuicProcessEvent
  answer : CnxAnswer
  fd : ℕ
  isOver : Bool
deriving DecidableEq

/-- The socket whose `cnx` is over with the event. -/
def QuicWakesEvent.ended (e : QuicWakesEvent) : Option ℕ :=
  match e.event with
  | .restart .. => if e.isOver then some e.fd else none
  | _ => none

namespace QuicWakes

def process (s : QuicWakes) : QuicProcess := s.handlers.process

/-- `quic_callback` is called for a socket that is served, with the
connection that `quic_connect` set for it. -/
def CalledBack (s : QuicWakes) (e : QuicWakesEvent) : Prop :=
  match e.event with
  | .restart t index _ _ =>
      ((s.process.loops t).events e.fd).rfileProc = some .quicReadable ∧
        ((s.process.loops t).events e.fd).clientData = .connection t index
  | _ => True

instance (s : QuicWakes) (e : QuicWakesEvent) : Decidable (s.CalledBack e) :=
  match e with
  | ⟨.restart t index _ _, _, fd, _⟩ =>
      inferInstanceAs (Decidable (((s.process.loops t).events fd).rfileProc = some .quicReadable ∧
        ((s.process.loops t).events fd).clientData = .connection t index))
  | ⟨.readable .., _, _, _⟩ | ⟨.writable .., _, _, _⟩ | ⟨.timer .., _, _, _⟩ => .isTrue trivial

/-- `quic_connect` stores a new `cnx`, and the last callback of a `cnx`
ends it. -/
def overAfter (s : QuicWakes) (e : QuicWakesEvent) (fd : ℕ) : Bool :=
  if e.ended = some fd then true
  else if (connectedSocket s.process e.event).map Prod.snd = some fd then false
  else s.isOver fd

def step (s : QuicWakes) (e : QuicWakesEvent) : Option QuicWakes :=
  if s.CalledBack e then
    (quicHandlersStep s.handlers (e.event, e.answer)).map fun handlers =>
      ⟨handlers, s.overAfter e⟩
  else none

def initial (setsize connections : ℕ) (reserved : FdTable Unit) : QuicWakes where
  handlers := .initial setsize connections reserved
  isOver _ := false

end QuicWakes

def quicWakes (setsize connections : ℕ) : Machine QuicWakes QuicWakesEvent :=
  ofFun (fun s => ∃ reserved, s = .initial setsize connections reserved) QuicWakes.step

/-! ## What is claimed -/

/-- `delayed_initial_connect` or `delay_recon`. -/
def TimeEvent.Connects (te : TimeEvent QuicTimeProc Client) : Prop :=
  te.timeProc = .delayedInitialConnect ∨ te.timeProc = .delayRecon

namespace QuicWakes

/-- The timer of the first attempt of the connection has fired. -/
def Fired (s : QuicWakes) (t index : ℕ) : Prop :=
  ∀ te ∈ (s.process.loops t).timeEvents, te.timeProc = .delayedInitialConnect →
    te.clientData ≠ .connection t index

/-- A socket of the connection is registered, or a `delay_recon` timer of it
is pending. -/
def HasWakeUp (s : QuicWakes) (t index : ℕ) : Prop :=
  (∃ fd, ((s.process.loops t).events fd).isNone = false ∧
    ((s.process.loops t).events fd).clientData = .connection t index) ∨
  ∃ te ∈ (s.process.loops t).timeEvents,
    te.timeProc = .delayRecon ∧ te.clientData = .connection t index

end QuicWakes

/-- The connection that `quic_connect_socket` is called for. -/
def attempting (s : QuicProcess) : QuicProcessEvent → Option Client
  | .timer t id _ _ =>
      ((s.loops t).timeEvents.find? (·.id == id)).bind fun te =>
        if te.timeProc = .delayedInitialConnect ∨ te.timeProc = .delayRecon then
          some te.clientData
        else none
  | .restart t index false _ => some (.connection t index)
  | _ => none

/-- The socket that `quic_writeable` closes. -/
def closing (s : QuicProcess) : QuicProcessEvent → Option ℕ
  | .writable t fd .error =>
      if ((s.loops t).events fd).wfileProc = some .quicWriteable then some fd else none
  | _ => none

/-- No attempt to connect fails; no socket gets a number whose `ae` was left
there by another thread; and picoquic has reported the end of a `cnx` before
it refuses to prepare a packet for it. -/
structure QuicAttemptsSucceed (s : QuicWakes) (e : QuicWakesEvent) : Prop where
  connects : ∀ c ∈ attempting s.process e.event,
    QuicHandlers.connectFails s.process c e.event.socketAnswer = false
  number : OwnNumber s.process e.event
  closes : ∀ fd ∈ closing s.process e.event, s.isOver fd = true

instance (s : QuicWakes) (e : QuicWakesEvent) : Decidable (QuicAttemptsSucceed s e) :=
  decidable_of_iff ((∀ c ∈ attempting s.process e.event,
      QuicHandlers.connectFails s.process c e.event.socketAnswer = false) ∧
    OwnNumber s.process e.event ∧ ∀ fd ∈ closing s.process e.event, s.isOver fd = true)
    ⟨fun ⟨connects, number, closes⟩ => ⟨connects, number, closes⟩,
      fun h => ⟨h.connects, h.number, h.closes⟩⟩

/-! ## Timers that connect -/

variable {p p' p'' : QuicProcess} {t fd use : ℕ} {c : Client} {mask : Mask} {proc : QuicFileProc}

/-- No timer that connects is lost. -/
def KeepsConnects (p p' : QuicProcess) : Prop :=
  ∀ t, ∀ te ∈ (p.loops t).timeEvents, te.Connects → te ∈ (p'.loops t).timeEvents

theorem KeepsConnects.refl (p : QuicProcess) : KeepsConnects p p := fun _ _ hte _ => hte

theorem KeepsConnects.trans (h : KeepsConnects p p') (h' : KeepsConnects p' p'') :
    KeepsConnects p p'' := fun t te hte hconnects => h' t te (h t te hte hconnects) hconnects

/-- Only the loop of `t` is replaced. -/
theorem keepsConnects_setLoop {loop : QuicLoop}
    (h : ∀ te ∈ (p.loops t).timeEvents, te.Connects → te ∈ loop.timeEvents) :
    KeepsConnects p (p.setLoop t loop) := by
  intro t' te hte hconnects
  by_cases ht : t' = t
  · subst ht
    rw [setLoop_self]
    exact h te hte hconnects
  · simp only [QuicProcess.setLoop, Function.update_of_ne ht]
    exact hte

theorem keepsConnects_createFileEvent (p : QuicProcess) (t fd : ℕ) (mask : Mask)
    (proc : QuicFileProc) (c : Client) :
    KeepsConnects p (p.createFileEvent t fd mask proc c) := by
  unfold QuicProcess.createFileEvent
  split
  · rename_i loop hloop
    obtain ⟨-, -, rfl⟩ := aeCreateFileEvent_cases hloop
    exact keepsConnects_setLoop fun te hte _ => hte
  · exact .refl p

theorem keepsConnects_deleteFileEvent (p : QuicProcess) (t fd : ℕ) (mask : Mask) :
    KeepsConnects p (p.deleteFileEvent t fd mask) :=
  keepsConnects_setLoop fun te hte _ => by
    rw [(aeDeleteFileEvent_timers (p.loops t) fd mask).1]
    exact hte

theorem keepsConnects_createTimeEvent (p : QuicProcess) (t : ℕ) (timeProc : QuicTimeProc)
    (data : Client) : KeepsConnects p (p.createTimeEvent t timeProc data) :=
  keepsConnects_setLoop fun _ hte _ => List.mem_cons_of_mem _ hte

theorem mem_aeDeleteTimeEvent_of_ne {loop : QuicLoop} {id : ℕ}
    {te : TimeEvent QuicTimeProc Client} (hte : te ∈ loop.timeEvents) (hne : te.id ≠ id) :
    te ∈ (aeDeleteTimeEvent loop id).timeEvents :=
  (List.mem_eraseP_of_neg (by simpa using hne)).mpr hte

theorem keepsConnects_connectSocket (p : QuicProcess) (c : Client) (answer : SocketAnswer) :
    KeepsConnects p (p.quicConnectSocket c answer) := by
  unfold QuicProcess.quicConnectSocket
  simp only
  split
  · exact .refl p
  · split
    · exact fun _ _ hte _ => hte
    · split
      · exact fun _ _ hte _ => hte
      · split
        · rename_i loop hloop
          obtain ⟨-, -, rfl⟩ := aeCreateFileEvent_cases hloop
          exact KeepsConnects.trans (fun _ _ hte _ => hte)
            (keepsConnects_setLoop fun te hte _ => hte)
        · exact fun _ _ hte _ => hte

theorem keepsConnects_writeable (p : QuicProcess) (t fd : ℕ) (c : Client)
    (answer : PacketAnswer) : KeepsConnects p (p.quicWriteable t fd c answer) := by
  cases answer with
  | packet => exact .refl p
  | error =>
      exact (keepsConnects_deleteFileEvent p t fd .both).trans fun _ _ hte _ => hte
  | wait =>
      exact ((keepsConnects_deleteFileEvent p t fd .aeWritable).trans
        (keepsConnects_createTimeEvent _ _ _ _)).trans fun _ _ hte _ => hte
  | noWait => exact keepsConnects_createFileEvent _ _ _ _ _ _

/-- `quic_read` deletes no timer but a `write_request`. -/
theorem QuicProcess.TimersOk.read_keepsConnects (h : p.TimersOk) (hcall : Called p t fd use c) :
    KeepsConnects p (p.quicRead fd c) := by
  unfold quicRead
  simp only
  split
  · rename_i hae
    obtain ⟨-, hopen, rfl⟩ := hcall
    have hset := (h.owned fd c.owner use hopen).resolve_left hae
    have hdeleted : KeepsConnects p ((p.removeTimer c.owner fd (p.fdToCnx fd).ae).setWr fd
        { p.fdToCnx fd with ae := 0 }) := by
      show KeepsConnects p (p.deleteTimeEvent c.owner (p.fdToCnx fd).ae)
      refine keepsConnects_setLoop fun te hte hconnects => ?_
      refine mem_aeDeleteTimeEvent_of_ne hte fun hid => ?_
      have hproc := ((h.loops c.owner).named hset hae hte hid).1
      rcases hconnects with hinitial | hrecon
      · cases hproc.symm.trans hinitial
      · cases hproc.symm.trans hrecon
    exact hdeleted.trans (keepsConnects_createFileEvent _ _ _ _ _ _)
  · exact .refl p

/-- No procedure of a registered socket deletes a timer that connects. -/
theorem QuicProcess.TimersOk.keepsConnects_fileProc (h : p.TimersOk)
    (hreg : ((p.loops t).events fd).isNone = false) (proc : QuicFileProc) (answer : PacketAnswer) :
    KeepsConnects p
      (p.runFileProc t fd ((p.loops t).events fd).clientData answer proc) := by
  cases proc with
  | quicSocketConnected =>
      exact KeepsConnects.trans (keepsConnects_createFileEvent _ _ _ _ _ _)
        (keepsConnects_createFileEvent _ _ _ _ _ _)
  | quicReadable =>
      obtain ⟨use, hcall⟩ := h.called hreg
      exact h.read_keepsConnects hcall
  | quicWriteable => exact keepsConnects_writeable p t fd _ answer

/-- Of the timers that connect, a timer that fires deletes none but itself. -/
theorem QuicProcess.keepsConnects_timer {t' : ℕ} {te fired : TimeEvent QuicTimeProc Client}
    (hfired : fired ∈ (p.loops t').timeEvents) (calibrated : Bool) (answer : SocketAnswer)
    (hte : te ∈ (p.loops t).timeEvents) (hconnects : te.Connects) :
    te ∈ ((p.runTimeEvent t' fired calibrated answer).loops t).timeEvents ∨
      (t = t' ∧ te = fired ∧ p.runTimeEvent t' fired calibrated answer =
        (p.quicConnectSocket te.clientData answer).deleteTimeEvent t te.id) := by
  -- A timer other than the fired one, of this loop or of another.
  have hother (q : QuicProcess) (hkeeps : KeepsConnects p q) (hne : t ≠ t' ∨ te.id ≠ fired.id) :
      te ∈ ((q.deleteTimeEvent t' fired.id).loops t).timeEvents := by
    have hq := hkeeps t te hte hconnects
    by_cases ht : t = t'
    · subst ht
      rw [QuicProcess.deleteTimeEvent, setLoop_self]
      exact mem_aeDeleteTimeEvent_of_ne hq (hne.resolve_left fun h => h rfl)
    · simp only [QuicProcess.deleteTimeEvent, QuicProcess.setLoop, Function.update_of_ne ht]
      exact hq
  have hnot (hproc : ¬ fired.Connects) : t ≠ t' ∨ te.id ≠ fired.id := by
    by_contra hboth
    push Not at hboth
    obtain ⟨rfl, hsame⟩ := hboth
    exact hproc (timeEvent_unique hte hfired hsame ▸ hconnects)
  have hattempt (hfires : p.runTimeEvent t' fired calibrated answer =
      (p.quicConnectSocket fired.clientData answer).deleteTimeEvent t' fired.id) :
      te ∈ ((p.runTimeEvent t' fired calibrated answer).loops t).timeEvents ∨
        (t = t' ∧ te = fired ∧ p.runTimeEvent t' fired calibrated answer =
          (p.quicConnectSocket te.clientData answer).deleteTimeEvent t te.id) := by
    by_cases hsame : t = t' ∧ te.id = fired.id
    · obtain ⟨rfl, hsame⟩ := hsame
      obtain rfl := timeEvent_unique hte hfired hsame
      exact Or.inr ⟨rfl, rfl, hfires⟩
    · rw [hfires]
      exact Or.inl (hother _ (keepsConnects_connectSocket _ _ _) (by rwa [not_and_or] at hsame))
  cases hproc : fired.timeProc with
  | delayedInitialConnect => exact hattempt (by rw [runTimeEvent, hproc])
  | delayRecon => exact hattempt (by rw [runTimeEvent, hproc])
  | calibrate =>
      refine Or.inl ?_
      simp only [runTimeEvent, hproc]
      split
      · refine hother _ (keepsConnects_createTimeEvent _ _ _ _) (hnot ?_)
        rintro (heq | heq) <;> cases hproc.symm.trans heq
      · exact hte
  | checkTimeouts =>
      simp only [runTimeEvent, hproc]
      exact Or.inl hte
  | sampleRate =>
      simp only [runTimeEvent, hproc]
      exact Or.inl hte
  | writeRequest =>
      refine Or.inl ?_
      simp only [runTimeEvent, hproc]
      split
      · refine hother _ (keepsConnects_createFileEvent _ _ _ _ _ _) (hnot ?_)
        rintro (heq | heq) <;> cases hproc.symm.trans heq
      · exact hte

/-- A timer that connects stays pending until it fires. -/
theorem QuicProcess.TimersOk.keepsConnects_step {e : QuicProcessEvent} (h : p.TimersOk)
    (hstep : quicProcessStep p e = some p') {te : TimeEvent QuicTimeProc Client}
    (hte : te ∈ (p.loops t).timeEvents) (hconnects : te.Connects) :
    te ∈ (p'.loops t).timeEvents ∨ ∃ calibrated answer, e = .timer t te.id calibrated answer ∧
      p' = (p.quicConnectSocket te.clientData answer).deleteTimeEvent t te.id := by
  cases e with
  | readable t' fd answer =>
      obtain ⟨proc, hr, rfl⟩ := Option.map_eq_some_iff.mp hstep
      have hreg : ((p.loops t').events fd).isNone = false := by
        rw [FileEvent.isNone, hr]
        rfl
      exact Or.inl (h.keepsConnects_fileProc hreg proc answer t te hte hconnects)
  | writable t' fd answer =>
      obtain ⟨proc, hw, rfl⟩ := Option.map_eq_some_iff.mp hstep
      have hreg : ((p.loops t').events fd).isNone = false := by
        rw [FileEvent.isNone, hw]
        exact Bool.and_false _
      exact Or.inl (h.keepsConnects_fileProc hreg proc answer t te hte hconnects)
  | timer t' id calibrated answer =>
      obtain ⟨fired, hfind, rfl⟩ := Option.map_eq_some_iff.mp hstep
      have hid : fired.id = id := beq_iff_eq.mp (List.find?_some hfind :)
      refine (keepsConnects_timer (List.mem_of_find?_eq_some hfind) calibrated answer hte
        hconnects).imp_right ?_
      rintro ⟨rfl, rfl, hfires⟩
      exact ⟨calibrated, answer, by rw [hid], hfires⟩
  | restart t' index wait answer =>
      refine Or.inl ?_
      cases wait with
      | true =>
          obtain rfl := Option.some.inj hstep
          exact keepsConnects_createTimeEvent _ _ _ _ t te hte hconnects
      | false =>
          obtain rfl := Option.some.inj hstep
          exact keepsConnects_connectSocket p _ answer t te hte hconnects

/-! ## Sockets that are served -/

/-- A handler of the socket `fd` of thread `t` leaves it to `quic_readable`,
for the same connection. -/
structure Served (p p' : QuicProcess) (t fd : ℕ) : Prop where
  changed : ChangedAt p p' t fd
  client : ((p'.loops t).events fd).clientData = ((p.loops t).events fd).clientData
  reads : ((p'.loops t).events fd).rfileProc = some .quicReadable

theorem Registers.served (h : Registers p p' t fd use .aeWritable proc (p.fdToCnx fd).c)
    (howns : Owns p t fd use)
    (hreads : ((p.loops t).events fd).rfileProc = some .quicReadable) : Served p p' t fd where
  changed := h.changed
  client := by
    rw [h.slot]
    exact howns.connection
  reads := by
    rw [h.slot]
    exact hreads

theorem Owns.served_socketConnected (h : Owns p t fd use)
    (hreads : ((p.loops t).events fd).rfileProc = some .quicSocketConnected) :
    Served p (p.quicSocketConnected fd (p.fdToCnx fd).c) t fd := by
  obtain ⟨p₁, hread, hwrite⟩ := h.socketConnected hreads
  refine ⟨hread.changed.trans hwrite.changed, ?_, ?_⟩
  · rw [hwrite.slot]
    exact h.connection
  · rw [hwrite.slot, hread.slot]
    rfl

theorem Owns.served_read (h : Owns p t fd use)
    (hreads : ((p.loops t).events fd).rfileProc = some .quicReadable) :
    Served p (p.quicRead fd (p.fdToCnx fd).c) t fd := by
  unfold quicRead
  simp only
  split
  · rw [h.owner]
    have hcleared := (h.removeTimer (p.fdToCnx fd).ae).setWr { p.fdToCnx fd with ae := 0 } rfl
    have hloop : ((p.removeTimer t fd (p.fdToCnx fd).ae).setWr fd
        { p.fdToCnx fd with ae := 0 }).loops t
        = aeDeleteTimeEvent (p.loops t) (p.fdToCnx fd).ae := setLoop_self ..
    have hslot : (((p.removeTimer t fd (p.fdToCnx fd).ae).setWr fd
        { p.fdToCnx fd with ae := 0 }).loops t).events fd = (p.loops t).events fd := by
      rw [hloop]
      rfl
    have hreads' := hslot ▸ hreads
    have hwrite := hcleared.register (isNone_of_reads hreads')
      (congrArg Wr.c (setWr_self ..)).symm .aeWritable .quicWriteable
    refine ⟨((changedAt_removeTimer ..).trans (changedAt_setWr ..)).trans hwrite.changed, ?_, ?_⟩
    · rw [hwrite.slot]
      exact h.connection
    · rw [hwrite.slot, hslot]
      exact hreads
  · exact ⟨.refl p t fd, rfl, hreads⟩

/-- `quic_writeable`, unless it closes the socket. -/
theorem Owns.served_writeable (h : Owns p t fd use)
    (hreads : ((p.loops t).events fd).rfileProc = some .quicReadable) {answer : PacketAnswer}
    (hne : answer ≠ .error) :
    Served p (p.quicWriteable t fd (p.fdToCnx fd).c answer) t fd := by
  cases answer with
  | packet => exact ⟨.refl p t fd, rfl, hreads⟩
  | error => exact absurd rfl hne
  | wait =>
      have howns := h.deleteWritable hreads
      have hevents := h.deleted_events (isNone_of_reads hreads) .aeWritable
      simp only [QuicProcess.quicWriteable, h.owner, howns.useOf]
      have hslot : (((p.deleteFileEvent t fd .aeWritable).createTimeEvent t .writeRequest
          (.socket fd use)).loops t).events fd = ((p.loops t).events fd).remove .aeWritable := by
        rw [QuicProcess.createTimeEvent, setLoop_self]
        exact hevents
      refine ⟨((changedAt_deleteFileEvent p t fd .aeWritable).trans
        (changedAt_createTimeEvent (fun _ => ⟨use, rfl⟩) _ t)).trans (changedAt_setWr ..), ?_, ?_⟩
      · have hclient := congrArg FileEvent.clientData hslot
        exact hclient
      · exact (congrArg FileEvent.rfileProc hslot).trans hreads
  | noWait =>
      simp only [QuicProcess.quicWriteable, h.owner]
      exact (h.register (isNone_of_reads hreads) rfl .aeWritable .quicWriteable).served h hreads

theorem changedAt_writeable (howns : Owns p t fd use)
    (hreads : ((p.loops t).events fd).rfileProc = some .quicReadable) (answer : PacketAnswer) :
    ChangedAt p (p.quicWriteable t fd (p.fdToCnx fd).c answer) t fd := by
  by_cases hne : answer = .error
  · rw [hne]
    exact (changedAt_deleteFileEvent p t fd .both).trans (changedAt_close _ t fd)
  · exact (howns.served_writeable hreads hne).changed

/-- An attempt leaves the registered sockets alone. -/
theorem SlotsOk.connectSocket_events {cnx : ℕ → CnxEntry} (h : SlotsOk p cnx) (c : Client)
    (answer : SocketAnswer) (hreg : ((p.loops t).events fd).isNone = false) :
    ((p.quicConnectSocket c answer).loops t).events fd = (p.loops t).events fd := by
  have hne : fd ≠ p.fds.lowest := by
    rintro rfl
    have hnone := ((h t p.fds.lowest).unused_of_fds fun use hopen => by
      rw [FdTable.get_lowest] at hopen
      cases hopen).1
    rw [hreg] at hnone
    cases hnone
  unfold QuicProcess.quicConnectSocket
  simp only
  split
  · rfl
  · split
    · rfl
    · split
      · rfl
      · split
        · rename_i loop hloop
          obtain ⟨-, -, rfl⟩ := aeCreateFileEvent_cases hloop
          exact (changedAt_addSlot (p.setWr p.fds.lowest
            { p.fdToCnx p.fds.lowest with c := c }) c.owner p.fds.lowest .both
            .quicSocketConnected c).events t fd (Or.inr hne)
        · rfl

/-- The socket of a pending `write_request` waits for it. -/
theorem SlotsOk.waits {cnx : ℕ → CnxEntry} (h : SlotsOk p cnx)
    {te : TimeEvent QuicTimeProc Client} (hte : te ∈ (p.loops t).timeEvents)
    (hproc : te.timeProc = .writeRequest) (hdata : te.clientData = .socket fd use) :
    ∃ use', Owns p t fd use' ∧ ((p.loops t).events fd).rfileProc = some .quicReadable := by
  cases h t fd with
  | unused _ idle => exact absurd hdata (idle te hte hproc use)
  | connecting _ _ _ _ idle => exact absurd hdata (idle te hte hproc use)
  | serving _ _ _ _ _ idle => exact absurd hdata (idle te hte hproc use)
  | delayed use' owns _ reads _ _ => exact ⟨use', owns, reads⟩

theorem createTimeEvent_events (q : QuicProcess) (t' : ℕ) {timeProc : QuicTimeProc}
    (hproc : timeProc ≠ .writeRequest) (data : Client) :
    ((q.createTimeEvent t' timeProc data).loops t).events fd = (q.loops t).events fd :=
  have hchanged : ChangedAt q (q.createTimeEvent t' timeProc data) t' (fd + 1) :=
    changedAt_createTimeEvent (fun hwrite => absurd hwrite hproc) q t'
  hchanged.events t fd (Or.inr (Nat.ne_of_lt fd.lt_succ_self))

/-- The procedure of a socket that can be read leaves it to `quic_readable`;
it is `quic_readable` itself, or it connects the socket. -/
theorem SlotsOk.served_readable {cnx : ℕ → CnxEntry} (h : SlotsOk p cnx)
    (hproc : ((p.loops t).events fd).rfileProc = some proc) (answer : PacketAnswer) :
    Served p (p.runFileProc t fd ((p.loops t).events fd).clientData answer proc) t fd ∧
      (proc = .quicSocketConnected ∨
        ((p.loops t).events fd).rfileProc = some .quicReadable) := by
  cases h t fd with
  | unused isNone _ =>
      rw [isNone_of_reads hproc] at isNone
      cases isNone
  | connecting use owns reads _ _ =>
      obtain rfl := Option.some.inj (hproc.symm.trans reads)
      rw [← owns.connection]
      exact ⟨owns.served_socketConnected reads, Or.inl rfl⟩
  | serving use owns _ reads _ _ =>
      obtain rfl := Option.some.inj (hproc.symm.trans reads)
      rw [← owns.connection]
      exact ⟨owns.served_read reads, Or.inr reads⟩
  | delayed use owns _ reads _ _ =>
      obtain rfl := Option.some.inj (hproc.symm.trans reads)
      rw [← owns.connection]
      exact ⟨owns.served_read reads, Or.inr reads⟩

/-- No timer changes whose a registered socket is, or how it is read. -/
theorem SlotsOk.timer_slot {cnx : ℕ → CnxEntry} (h : SlotsOk p cnx) {t' : ℕ}
    {te : TimeEvent QuicTimeProc Client} (hte : te ∈ (p.loops t').timeEvents)
    (calibrated : Bool) (socket : SocketAnswer)
    (hreg : ((p.loops t).events fd).isNone = false) :
    (((p.runTimeEvent t' te calibrated socket).loops t).events fd).clientData =
        ((p.loops t).events fd).clientData ∧
      (((p.runTimeEvent t' te calibrated socket).loops t).events fd).rfileProc =
        ((p.loops t).events fd).rfileProc := by
  have hsame {fe : FileEvent QuicFileProc Client} (heq : fe = (p.loops t).events fd) :
      fe.clientData = ((p.loops t).events fd).clientData ∧
        fe.rfileProc = ((p.loops t).events fd).rfileProc := heq ▸ ⟨rfl, rfl⟩
  have hdeleted (q : QuicProcess) (id : ℕ) :
      ((q.deleteTimeEvent t' id).loops t).events fd = (q.loops t).events fd :=
    (changedAt_deleteTimeEvent q t' (fd + 1) id).events t fd
      (Or.inr (Nat.ne_of_lt fd.lt_succ_self))
  cases hproc : te.timeProc with
  | delayedInitialConnect =>
      simp only [QuicProcess.runTimeEvent, hproc, hdeleted]
      exact hsame (h.connectSocket_events te.clientData socket hreg)
  | delayRecon =>
      simp only [QuicProcess.runTimeEvent, hproc, hdeleted]
      exact hsame (h.connectSocket_events te.clientData socket hreg)
  | calibrate =>
      simp only [QuicProcess.runTimeEvent, hproc]
      split
      · rw [hdeleted]
        exact hsame (createTimeEvent_events p t' (by decide) te.clientData)
      · exact ⟨rfl, rfl⟩
  | checkTimeouts => simp only [QuicProcess.runTimeEvent, hproc, and_self]
  | sampleRate => simp only [QuicProcess.runTimeEvent, hproc, and_self]
  | writeRequest =>
      simp only [QuicProcess.runTimeEvent, hproc]
      split
      · rename_i fd' use hdata
        obtain ⟨use', owns, reads⟩ := h.waits hte hproc hdata
        have hserved := (owns.register (isNone_of_reads reads) rfl .aeWritable
          .quicWriteable).served owns reads
        rw [hdeleted]
        by_cases hhere : t = t' ∧ fd = fd'
        · obtain ⟨rfl, rfl⟩ := hhere
          exact ⟨hserved.client, hserved.reads.trans reads.symm⟩
        · exact hsame (hserved.changed.events t fd (not_and_or.mp hhere))
      · exact ⟨rfl, rfl⟩

/-- What becomes of a registered socket: it keeps its connection and its
procedure, or it is connected; or an error of `quic_writeable` closes it. -/
theorem SlotsOk.slot_step {s s' : QuicHandlers} {e : QuicProcessEvent} {answer : CnxAnswer}
    (h : SlotsOk s.process s.cnx) (hstep : quicHandlersStep s (e, answer) = some s')
    (hreg : ((s.process.loops t).events fd).isNone = false) :
    (((s'.process.loops t).events fd).clientData = ((s.process.loops t).events fd).clientData ∧
      (((s'.process.loops t).events fd).rfileProc = ((s.process.loops t).events fd).rfileProc ∨
        ((s'.process.loops t).events fd).rfileProc = some .quicReadable ∧
          connectedSocket s.process e = some (t, fd))) ∨
    (e = .writable t fd .error ∧
      ((s.process.loops t).events fd).wfileProc = some .quicWriteable) := by
  have hsame (heq : (s'.process.loops t).events fd = (s.process.loops t).events fd) :
      ((s'.process.loops t).events fd).clientData = ((s.process.loops t).events fd).clientData ∧
        (((s'.process.loops t).events fd).rfileProc =
            ((s.process.loops t).events fd).rfileProc ∨
          ((s'.process.loops t).events fd).rfileProc = some .quicReadable ∧
            connectedSocket s.process e = some (t, fd)) := by
    rw [heq]
    exact ⟨rfl, Or.inl rfl⟩
  have hprocess := quicHandlersStep_process s e answer
  rw [hstep, Option.map_some] at hprocess
  generalize s'.process = p' at hsame hprocess ⊢
  cases e with
  | readable t' fd' prepared =>
      obtain ⟨proc, hproc, rfl⟩ := Option.map_eq_some_iff.mp hprocess.symm
      obtain ⟨hserved, hwas⟩ := h.served_readable hproc prepared
      refine Or.inl ?_
      by_cases hhere : t = t' ∧ fd = fd'
      · obtain ⟨rfl, rfl⟩ := hhere
        refine ⟨hserved.client, ?_⟩
        rcases hwas with rfl | hreads
        · exact Or.inr ⟨hserved.reads, if_pos hproc⟩
        · exact Or.inl (hserved.reads.trans hreads.symm)
      · exact hsame (hserved.changed.events t fd (not_and_or.mp hhere))
  | writable t' fd' prepared =>
      obtain ⟨proc, hproc, rfl⟩ := Option.map_eq_some_iff.mp hprocess.symm
      cases h t' fd' with
      | unused isNone _ =>
          rw [FileEvent.isNone, hproc, Option.isNone_some, Bool.and_false] at isNone
          cases isNone
      | connecting use owns reads writes _ =>
          obtain rfl := Option.some.inj (hproc.symm.trans writes)
          have hserved := owns.served_socketConnected reads
          rw [← owns.connection] at hsame ⊢
          refine Or.inl ?_
          by_cases hhere : t = t' ∧ fd = fd'
          · obtain ⟨rfl, rfl⟩ := hhere
            exact ⟨hserved.client, Or.inr ⟨hserved.reads, if_pos hproc⟩⟩
          · exact hsame (hserved.changed.events t fd (not_and_or.mp hhere))
      | serving use owns _ reads writes _ =>
          obtain rfl := Option.some.inj (hproc.symm.trans writes)
          rw [← owns.connection] at hsame ⊢
          by_cases hhere : t = t' ∧ fd = fd'
          · obtain ⟨rfl, rfl⟩ := hhere
            by_cases hne : prepared = .error
            · exact Or.inr ⟨by rw [hne], writes⟩
            · have hserved := owns.served_writeable reads hne
              exact Or.inl ⟨hserved.client, Or.inl (hserved.reads.trans reads.symm)⟩
          · exact Or.inl (hsame ((changedAt_writeable owns reads prepared).events t fd
              (not_and_or.mp hhere)))
      | delayed _ _ _ _ writes _ =>
          rw [hproc] at writes
          cases writes
  | timer t' id calibrated socket =>
      obtain ⟨te, hfind, rfl⟩ := Option.map_eq_some_iff.mp hprocess.symm
      obtain ⟨hclient, hreads⟩ := h.timer_slot (List.mem_of_find?_eq_some hfind) calibrated socket
        hreg
      exact Or.inl ⟨hclient, Or.inl hreads⟩
  | restart t' index wait socket =>
      refine Or.inl (hsame ?_)
      cases wait with
      | true =>
          obtain rfl := Option.some.inj hprocess
          exact createTimeEvent_events s.process t' (by decide) _
      | false =>
          obtain rfl := Option.some.inj hprocess
          exact h.connectSocket_events _ socket hreg

/-! ## Connections that are awake -/

/-- An attempt that does not fail leaves a socket of the connection. -/
theorem connectSocket_registered {answer : SocketAnswer}
    (h : QuicHandlers.connectFails p c answer = false) :
    ∃ fd, (((p.quicConnectSocket c answer).loops c.owner).events fd).rfileProc
        = some .quicSocketConnected ∧
      (((p.quicConnectSocket c answer).loops c.owner).events fd).clientData = c := by
  simp only [QuicHandlers.connectFails, Bool.or_eq_false_iff, decide_eq_false_iff_not] at h
  obtain ⟨⟨⟨hsocket, hzero⟩, hbind⟩, hcreated⟩ := h
  obtain ⟨loop, hloop⟩ := Option.isSome_iff_exists.mp (Option.isNone_eq_false_iff.mp hcreated)
  obtain ⟨-, -, rfl⟩ := aeCreateFileEvent_cases hloop
  refine ⟨p.fds.lowest, ?_⟩
  have hslot : (((p.quicConnectSocket c answer).loops c.owner).events p.fds.lowest) =
      ((p.loops c.owner).events p.fds.lowest).add .both .quicSocketConnected c := by
    rw [QuicProcess.quicConnectSocket]
    simp only [if_neg hsocket, if_neg hzero, if_neg hbind]
    split
    · rename_i loop hcreate
      obtain rfl := Option.some.inj (hloop.symm.trans hcreate)
      rw [setLoop_self, addSlot_events_self]
    · rename_i hcreate
      cases hloop.symm.trans hcreate
  rw [hslot]
  exact ⟨rfl, rfl⟩

namespace QuicWakes

variable {s s' : QuicWakes} {e : QuicWakesEvent} {index : ℕ}

/-- The socket `fd` will get the events of a `cnx` that is not over. -/
structure Serves (s : QuicWakes) (t fd : ℕ) (c : Client) : Prop where
  client : ((s.process.loops t).events fd).clientData = c
  reads : ((s.process.loops t).events fd).rfileProc = some .quicSocketConnected ∨
    ((s.process.loops t).events fd).rfileProc = some .quicReadable ∧ s.isOver fd = false

def Awake (s : QuicWakes) (t index : ℕ) : Prop :=
  (∃ te ∈ (s.process.loops t).timeEvents,
    te.Connects ∧ te.clientData = .connection t index) ∨
  ∃ fd, s.Serves t fd (.connection t index)

theorem Awake.hasWakeUp (h : s.Awake t index) (hfired : s.Fired t index) :
    s.HasWakeUp t index := by
  rcases h with ⟨te, hte, hinitial | hrecon, hdata⟩ | ⟨fd, hclient, hreads⟩
  · exact absurd hdata (hfired te hte hinitial)
  · exact Or.inr ⟨te, hte, hrecon, hdata⟩
  · refine Or.inl ⟨fd, ?_, hclient⟩
    rcases hreads with hreads | ⟨hreads, -⟩
    · exact isNone_of_reads hreads
    · exact isNone_of_reads hreads

theorem overAfter_of_false {fd : ℕ} (h : s.isOver fd = false) (hended : e.ended ≠ some fd) :
    s.overAfter e fd = false := by
  rw [overAfter, if_neg hended]
  split
  · rfl
  · exact h

/-- A `cnx` that `quic_connect` has just stored is not over. -/
theorem overAfter_connected {fd : ℕ} (h : connectedSocket s.process e.event = some (t, fd)) :
    s.overAfter e fd = false := by
  have hended : e.ended = none := by
    unfold QuicWakesEvent.ended
    split
    · rename_i hevent
      rw [hevent] at h
      cases h
    · rfl
  rw [overAfter, hended, if_neg nofun, h]
  exact if_pos rfl

/-- A `cnx` ends in a callback of its own connection. -/
theorem ended_cases {fd : ℕ} (h : s.CalledBack e) (hended : e.ended = some fd) :
    ∃ t index wait answer, e.event = .restart t index wait answer ∧
      ((s.process.loops t).events fd).rfileProc = some .quicReadable ∧
      ((s.process.loops t).events fd).clientData = .connection t index := by
  unfold QuicWakesEvent.ended at hended
  split at hended
  · rename_i t index wait answer hevent
    obtain ⟨-, heq⟩ := Option.ite_none_right_eq_some.mp hended
    obtain rfl := Option.some.inj heq
    rw [CalledBack, hevent] at h
    exact ⟨t, index, wait, answer, hevent, h⟩
  · cases hended

theorem step_cases (h : s.step e = some s') : s.CalledBack e ∧ ∃ handlers,
    quicHandlersStep s.handlers (e.event, e.answer) = some handlers ∧
      s' = ⟨handlers, s.overAfter e⟩ := by
  obtain ⟨hcalled, hstep⟩ := Option.ite_none_right_eq_some.mp h
  obtain ⟨handlers, hhandlers, rfl⟩ := Option.map_eq_some_iff.mp hstep
  exact ⟨hcalled, handlers, hhandlers, rfl⟩

theorem step_process (h : s.step e = some s') :
    quicProcessStep s.process e.event = some s'.process := by
  obtain ⟨-, handlers, hhandlers, rfl⟩ := step_cases h
  have hprocess := quicHandlersStep_process s.handlers e.event e.answer
  rw [hhandlers] at hprocess
  exact hprocess.symm

/-- What `restart` leaves: a `delay_recon` timer or a new socket. -/
theorem restart_awake {wait : Bool} {answer : SocketAnswer} (h : s.step e = some s')
    (hevent : e.event = .restart t index wait answer) (hok : QuicAttemptsSucceed s e) :
    s'.Awake t index := by
  have hprocess := step_process h
  have hconnects := hok.connects
  rw [hevent] at hprocess hconnects
  cases wait with
  | true =>
      left
      obtain hloops := congrArg (fun p : QuicProcess => (p.loops t).timeEvents)
        (Option.some.inj hprocess)
      rw [← hloops, QuicProcess.createTimeEvent, setLoop_self]
      exact ⟨_, List.mem_cons_self .., Or.inr rfl, rfl⟩
  | false =>
      right
      obtain ⟨fd, hreads, hclient⟩ := connectSocket_registered (hconnects _ rfl)
      refine ⟨fd, ?_, Or.inl ?_⟩
      · rw [← Option.some.inj hprocess]
        exact hclient
      · rw [← Option.some.inj hprocess]
        exact hreads

/-- A socket that serves its connection is closed by nothing but the end of
its `cnx`, at which `restart` takes over. -/
theorem Serves.step {fd : ℕ} (hs : SlotsOk s.process s.handlers.cnx) (h : s.step e = some s')
    (hok : QuicAttemptsSucceed s e) (hserves : s.Serves t fd (.connection t index)) :
    s'.Awake t index := by
  have hreg : ((s.process.loops t).events fd).isNone = false := by
    rcases hserves.reads with hreads | ⟨hreads, -⟩
    · exact isNone_of_reads hreads
    · exact isNone_of_reads hreads
  obtain ⟨hcalled, handlers, hhandlers, rfl⟩ := step_cases h
  rcases hs.slot_step hhandlers hreg with
    ⟨hclient, hreads | ⟨hreads, hconnected⟩⟩ | ⟨herror, hwrites⟩
  · rcases hserves.reads with hconnecting | ⟨hserving, hover⟩
    · exact Or.inr ⟨fd, hclient.trans hserves.client, Or.inl (hreads.trans hconnecting)⟩
    · by_cases hended : e.ended = some fd
      · obtain ⟨t', index', wait, answer, hevent, hreads', hclient'⟩ :=
          ended_cases hcalled hended
        obtain rfl : t' = t := by
          by_contra hne
          obtain ⟨use, howns, -⟩ := (hs t fd).handled ⟨.quicReadable, nofun, Or.inl hserving⟩
          have hnone := ((hs t' fd).unused_of_fds (howns.others t' hne)).1
          rw [isNone_of_reads hreads'] at hnone
          cases hnone
        obtain ⟨-, rfl⟩ := Client.connection.inj (hclient'.symm.trans hserves.client)
        exact restart_awake h hevent hok
      · exact Or.inr ⟨fd, hclient.trans hserves.client,
          Or.inr ⟨hreads.trans hserving, overAfter_of_false hover hended⟩⟩
  · exact Or.inr ⟨fd, hclient.trans hserves.client,
      Or.inr ⟨hreads, overAfter_connected hconnected⟩⟩
  · have hover := hok.closes
    rw [herror] at hover
    have hover := hover fd (if_pos hwrites)
    rcases hserves.reads with hconnecting | ⟨-, hnot⟩
    · cases hs t fd with
      | unused isNone _ =>
          rw [hreg] at isNone
          cases isNone
      | connecting _ _ _ writes _ =>
          cases writes.symm.trans hwrites
      | serving _ _ _ reads _ _ =>
          rw [hconnecting] at reads
          cases reads
      | delayed _ _ _ reads _ _ =>
          rw [hconnecting] at reads
          cases reads
    · rw [hover] at hnot
      cases hnot

/-- A timer that connects its connection waits, or fires and leaves a
socket. -/
theorem timer_step {te : TimeEvent QuicTimeProc Client} (ht : s.process.TimersOk)
    (h : s.step e = some s') (hok : QuicAttemptsSucceed s e)
    (hte : te ∈ (s.process.loops t).timeEvents) (hconnects : te.Connects)
    (hdata : te.clientData = .connection t index) : s'.Awake t index := by
  have hprocess := step_process h
  rcases ht.keepsConnects_step hprocess hte hconnects with hkept | ⟨calibrated, answer, he, hp⟩
  · exact Or.inl ⟨te, hkept, hconnects, hdata⟩
  · have hattempts : QuicHandlers.connectFails s.process te.clientData answer = false := by
      have hconnects' := hok.connects te.clientData
      rw [he] at hprocess hconnects'
      obtain ⟨fired, hfind, -⟩ := Option.map_eq_some_iff.mp hprocess
      have hid : fired.id = te.id := beq_iff_eq.mp (List.find?_some hfind :)
      obtain rfl := timeEvent_unique (List.mem_of_find?_eq_some hfind) hte hid
      refine hconnects' ?_
      simp only [attempting, hfind, Option.bind_some]
      exact if_pos hconnects
    obtain ⟨fd, hreads, hclient⟩ := connectSocket_registered hattempts
    have hevents := congrArg (fun p : QuicProcess => (p.loops t).events fd) hp
    simp only [QuicProcess.deleteTimeEvent, setLoop_self] at hevents
    rw [hdata] at hreads hclient hevents
    refine Or.inr ⟨fd, ?_, Or.inl ?_⟩
    · rw [hevents]
      exact hclient
    · rw [hevents]
      exact hreads

/-- The connections of the threads are awake, each in its own loop. -/
structure AwakeOk (connections : ℕ) (s : QuicWakes) : Prop where
  timers : s.process.TimersOk
  slots : SlotsOk s.process s.handlers.cnx
  awake : ∀ t, ∀ index < connections, s.Awake t index

theorem AwakeOk.step {connections : ℕ} (h : s.AwakeOk connections) (hstep : s.step e = some s')
    (hok : QuicAttemptsSucceed s e) : s'.AwakeOk connections := by
  refine ⟨h.timers.step (step_process hstep) hok.number, ?_, ?_⟩
  · obtain ⟨-, handlers, hhandlers, rfl⟩ := step_cases hstep
    exact h.slots.step hhandlers
  · intro t index hindex
    rcases h.awake t index hindex with ⟨te, hte, hconnects, hdata⟩ | ⟨fd, hserves⟩
    · exact timer_step h.timers hstep hok hte hconnects hdata
    · exact hserves.step h.slots hstep hok

end QuicWakes

/-- Every connection starts with a timer of its own. -/
theorem quicInitialLoop_connects (setsize : ℕ) {connections t index : ℕ}
    (h : index < connections) : ∃ te ∈ (quicInitialLoop setsize connections t).timeEvents,
      te.timeProc = .delayedInitialConnect ∧ te.clientData = .connection t index := by
  have hloop : ∀ n, index < n → ∃ te ∈ ((List.range n).foldl
      (fun loop i => aeCreateTimeEvent loop .delayedInitialConnect (.connection t i))
      (aeCreateEventLoop setsize : QuicLoop)).timeEvents,
      te.timeProc = .delayedInitialConnect ∧ te.clientData = .connection t index := by
    intro n hn
    induction n with
    | zero => exact absurd hn (Nat.not_lt_zero _)
    | succ n ih =>
        rw [List.range_succ, List.foldl_append, List.foldl_cons, List.foldl_nil]
        rcases Nat.lt_succ_iff_lt_or_eq.mp hn with hlt | rfl
        · obtain ⟨te, hte, hproc, hdata⟩ := ih hlt
          exact ⟨te, List.mem_cons_of_mem _ hte, hproc, hdata⟩
        · exact ⟨_, List.mem_cons_self .., rfl, rfl⟩
  obtain ⟨te, hte, hproc, hdata⟩ := hloop connections h
  exact ⟨te, List.mem_cons_of_mem _ (List.mem_cons_of_mem _ hte), hproc, hdata⟩

theorem initial_awakeOk (setsize connections : ℕ) (reserved : FdTable Unit) :
    (QuicWakes.initial setsize connections reserved).AwakeOk connections := by
  refine ⟨initial_timersOk setsize connections reserved,
    initial_slotsOk setsize connections reserved, fun t index hindex => Or.inl ?_⟩
  obtain ⟨te, hte, hproc, hdata⟩ := quicInitialLoop_connects setsize (t := t) hindex
  exact ⟨te, hte, Or.inl hproc, hdata⟩

theorem quic_wakes {setsize connections index : ℕ} {s : QuicWakes}
    (hs : (quicWakes setsize connections).ReachableWith QuicAttemptsSucceed s)
    (hindex : index < connections) (hfired : s.Fired t index) : s.HasWakeUp t index := by
  have hawake : s.AwakeOk connections := by
    refine hs.invariant ?_ ?_
    · rintro s ⟨reserved, rfl⟩
      exact initial_awakeOk setsize connections reserved
    · intro s e s' h hstep hok
      exact h.step hstep hok
  exact (hawake.awake t index hindex).hasWakeUp hfired

/-! ## Both transports -/

/-- In every run in which every attempt to connect succeeds, a connection
whose `delayed_initial_connect` has fired has a registered socket or a
pending timer, over TCP and, in every thread, over QUIC. -/
theorem connection_has_wake_up {π : Type*} (cfg : Config) (P : ResponseParser π)
    (setsize connections : ℕ) :
    (∀ s, (tcpThread cfg P).ReachableWith AttemptsSucceed s → ∀ c < cfg.connections,
      s.hasTimer c .delayedInitialConnect = false → HasWakeUp s c) ∧
    ∀ s, (quicWakes setsize connections).ReachableWith QuicAttemptsSucceed s →
      ∀ t, ∀ index < connections, s.Fired t index → s.HasWakeUp t index :=
  ⟨fun _ hs _ hc hfired => tcp_wakes hs hc hfired,
    fun _ hs _ _ hindex hfired => quic_wakes hs hindex hfired⟩

/-- The procedures of the pending timers of thread `t`. -/
def QuicWakes.timeProcs (s : QuicWakes) (t : ℕ) : List QuicTimeProc :=
  (s.process.loops t).timeEvents.map (·.timeProc)

theorem fired_of_timeProcs {s : QuicWakes} (h : .delayedInitialConnect ∉ s.timeProcs t)
    (index : ℕ) : s.Fired t index :=
  fun _ hte hproc => absurd (hproc ▸ List.mem_map_of_mem hte) h

def quicWakesStart : QuicWakes := .initial 16 1 (.firstOpen 4 ())

theorem quicWakesStart_initial : ∃ reserved, quicWakesStart = .initial 16 1 reserved :=
  ⟨.firstOpen 4 (), rfl⟩

/-- Thread 0 connects with descriptor 4; the server closes, and the new
socket gets descriptor 5. -/
def closedCnx : List QuicWakesEvent :=
  let answer : CnxAnswer := ⟨true, 0, 0, .noSocket⟩
  [⟨.timer 0 0 false .bound, answer, 0, false⟩, ⟨.writable 0 4 .packet, answer, 0, false⟩,
    ⟨.restart 0 0 false .bound, answer, 4, true⟩, ⟨.writable 0 4 .error, answer, 0, false⟩]

/-- After one request connection 0 is registered, and so is the new socket
of a QUIC connection that the server has closed. -/
theorem connection_has_wake_up_one :
    (∃ s, (tcpThread twoConnections httpParser).ReachableWith AttemptsSucceed s ∧
      s.hasTimer 0 .delayedInitialConnect = false ∧ HasWakeUp s 0) ∧
    ∃ s, (quicWakes 16 1).ReachableWith QuicAttemptsSucceed s ∧ s.isOver 4 = true ∧
      s.Fired 0 0 ∧ s.HasWakeUp 0 0 := by
  obtain ⟨s, hs, hfired⟩ : ∃ s, (tcpThread twoConnections httpParser).ReachableWith
      AttemptsSucceed s ∧ s.hasTimer 0 .delayedInitialConnect = false :=
    exists_reachableWith_of_runEvents (fun s : TcpThread HttpParser =>
      s.hasTimer 0 .delayedInitialConnect) oneRequest twoConnectionsStart_initial
      (by decide +kernel)
  obtain ⟨q, hq, hobserved⟩ : ∃ q, (quicWakes 16 1).ReachableWith QuicAttemptsSucceed q ∧
      (q.isOver 4, q.timeProcs 0) = (true, [.checkTimeouts, .calibrate]) :=
    exists_reachableWith_of_runEvents (fun q : QuicWakes => (q.isOver 4, q.timeProcs 0)) closedCnx
      quicWakesStart_initial (by decide +kernel)
  obtain ⟨hover, htimers⟩ := Prod.mk.inj hobserved
  have hfired' : q.Fired 0 0 := fired_of_timeProcs (by rw [htimers]; decide) 0
  exact ⟨⟨s, hs, hfired, (connection_has_wake_up _ _ 16 1).1 s hs 0 (by decide) hfired⟩,
    q, hq, hover, hfired', (connection_has_wake_up twoConnections httpParser 16 1).2 q hq 0 0
      (by decide) hfired'⟩

/-- When `bind` fails in the initial attempt, nothing refers to the
connection any more. -/
theorem failed_connect_drops_connection :
    (∃ s, (tcpThread twoConnections httpParser).Reachable s ∧
      s.hasTimer 0 .delayedInitialConnect = false ∧ ¬ HasWakeUp s 0) ∧
    ∃ s, (quicWakes 16 1).Reachable s ∧ s.Fired 0 0 ∧ ¬ s.HasWakeUp 0 0 := by
  have htcp : tcpStep twoConnections httpParser twoConnectionsStart
      (.timer 0 { connect := .failed }) = some (twoConnectionsStart.runTimeEvent
        ⟨0, .delayedInitialConnect, 0⟩ { connect := .failed }) := rfl
  refine ⟨⟨_, .step (.init twoConnectionsStart_initial) htcp trivial, rfl, ?_⟩, ?_⟩
  · rintro (⟨fd, hfd, -⟩ | htimer)
    · exact absurd (hfd.symm.trans (initialLoop_events twoConnections fd).1) (by decide)
    · exact absurd htimer (by decide)
  have hquic : quicWakesStart.step
      ⟨.timer 0 0 false .bindFails, ⟨true, 0, 0, .noSocket⟩, 0, false⟩ = some
        ⟨quicWakesStart.handlers.runTimeEvent 0
          ⟨0, .delayedInitialConnect, .connection 0 0⟩ false .bindFails, fun _ => false⟩ := rfl
  refine ⟨_, .step (.init quicWakesStart_initial) hquic trivial,
    fired_of_timeProcs (by decide +kernel) 0, ?_⟩
  rintro (⟨fd, hreg, -⟩ | ⟨te, hte, hproc, -⟩)
  · exact absurd (hreg.symm.trans
      (congrArg FileEvent.isNone ((quicInitialLoop_fresh 16 1 0).1 fd))) (by decide)
  · have hmem := List.mem_map_of_mem (f := TimeEvent.timeProc) hte
    rw [hproc] at hmem
    revert hmem
    decide +kernel

end WrkQuic
