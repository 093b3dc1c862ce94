import WrkQuic.TcpConn

/-!
# What a thread holds of a connection

The state of connection `c` in the state of its thread (`TcpThread.seen`): the
record, its socket with what is registered for it, its timers and its part of
the trace. What the functions that change the event loop do to it is what the
connection machine does in one step.
-/

namespace WrkQuic

open Runs

/-- What the last repetition of a call returns. -/
def Status.last {α : Type} : Status α → Status α
  | .again next => next.last
  | status => status

namespace TcpThread

variable {π : Type*}

/-- The descriptor `c->fd`, if it is open and `c` opened it. -/
def socketOf (s : TcpThread π) (c : ℕ) : Option Descriptor :=
  (s.current c).filter (·.owner == some c)

def hasTimer (s : TcpThread π) (c : ℕ) (proc : TimeProc) : Bool :=
  s.loop.timeEvents.any fun te => te.timeProc = proc ∧ te.clientData = c

/-- What the thread holds of connection `c`. -/
def seen (s : TcpThread π) (c : ℕ) (phase : Phase) : TcpConn π where
  conn := s.conns c
  socket := s.socketOf c
  reader := (s.socketOf c).bind fun _ => (s.loop.events (s.conns c).fd).rfileProc
  writer := (s.socketOf c).bind fun _ => (s.loop.events (s.conns c).fd).wfileProc
  waits := s.hasTimer c .delayRequest
  unborn := s.hasTimer c .delayedInitialConnect
  phase := phase
  trace := s.trace.filter (·.conn = c)

variable {cfg : Config} {P : ResponseParser π} {c c' fd n : ℕ} {s s' s₁ s₂ : TcpThread π}
  {k : Connection π} {mask : Mask} {proc : FileProc} {o : TcpObservation} {a : Answers}
  {phase phase' : Phase} {te : TimeEvent TimeProc ℕ} {d : Descriptor}

/-! ## Frames -/

theorem socketOf_eq_some : s.socketOf c = some d ↔ s.current c = some d ∧ d.owner = some c := by
  rw [socketOf, Option.filter_eq_some_iff, beq_iff_eq]

theorem Own.socketOf (ho : s.Own c) : s.socketOf c = s.current c := by
  cases hd : s.current c with
  | none =>
      rw [TcpThread.socketOf, hd]
      rfl
  | some d => exact socketOf_eq_some.mpr ⟨hd, ho d hd⟩

theorem hasTimer_iff {proc : TimeProc} : s.hasTimer c proc = true ↔
    ∃ te ∈ s.loop.timeEvents, te.timeProc = proc ∧ te.clientData = c := by
  rw [hasTimer, List.any_eq_true]
  simp

/-- Work on `c` does not change what is seen of another connection. -/
theorem seen_of_ne (hc : c' ≠ c) (he : s.Effect c s') (hl : s.Local c s') :
    s'.seen c' phase = s.seen c' phase := by
  have hsocket : s'.socketOf c' = s.socketOf c' := by
    refine Option.ext fun d => ?_
    rw [socketOf_eq_some, socketOf_eq_some, current, current, he.conns c' hc]
    refine and_congr_left fun hown => hl.fds _ d ?_
    rw [hown]
    exact fun h => hc (Option.some.inj h)
  have hslot (d : Descriptor) (hd : s.socketOf c' = some d) :
      s'.loop.events (s.conns c').fd = s.loop.events (s.conns c').fd := by
    obtain ⟨hcur, hown⟩ := socketOf_eq_some.mp hd
    refine hl.slots _ d hcur ?_
    rw [hown]
    exact fun h => hc (Option.some.inj h)
  have htimer (proc : TimeProc) : s'.hasTimer c' proc = s.hasTimer c' proc := by
    rw [Bool.eq_iff_iff, hasTimer_iff, hasTimer_iff]
    constructor
    · rintro ⟨te, hte, hproc, hdata⟩
      rcases he.timers te hte with hold | ⟨-, hnew⟩
      · exact ⟨te, hold, hproc, hdata⟩
      · exact absurd (hdata.symm.trans hnew) hc
    · rintro ⟨te, hte, hproc, hdata⟩
      exact ⟨te, he.kept te hte (hdata.symm ▸ hc), hproc, hdata⟩
  have htrace : s'.trace.filter (·.conn = c') = s.trace.filter (·.conn = c') := by
    obtain ⟨new, htrace, hnew⟩ := he.appends
    rw [htrace, List.filter_append, List.filter_eq_nil_iff.mpr, List.nil_append]
    intro o ho
    rw [hnew o ho]
    simpa using Ne.symm hc
  unfold seen
  rw [hsocket, he.conns c' hc, htimer, htimer, htrace]
  cases hd : s.socketOf c' with
  | none => rfl
  | some d => simp only [Option.bind_some, hslot d hd]

/-! ## Single steps -/

theorem seen_setConn (hfd : k.fd = (s.conns c).fd) :
    (s.setConn c k).seen c phase = { s.seen c phase with conn := k } := by
  unfold seen socketOf current
  rw [setConn_self, hfd]
  rfl

theorem seen_observe (ho : o.conn = c) :
    (s.observe o).seen c phase = (s.seen c phase).observe o := by
  unfold seen TcpConn.observe
  congr 1
  exact List.filter_cons_of_pos (by simpa using ho)

theorem seen_tick (dt : ℕ) : (s.tick dt).seen c phase = s.seen c phase := rfl

theorem seen_access (kind : Access) (ho : s.Own c) :
    (s.access kind c (s.conns c).fd).seen c phase = (s.seen c phase).access kind c := by
  rw [access, seen_observe (c := c) rfl, TcpConn.access]
  show _ = (s.seen c phase).observe (.access kind c (s.conns c).fd (s.socketOf c))
  rw [ho.socketOf]
  rfl

/-- A registered socket lies within the table of the event loop. -/
theorem Owned.fd_lt (h : s.Owned) (hslot : (s.loop.events fd).isNone = false) :
    fd < s.loop.setsize := by
  by_contra hle
  rw [h.size fd (Nat.not_lt.mp hle)] at hslot
  cases hslot

theorem not_isNone_of_reader (h : (s.seen c phase).reader.isSome = true) :
    (s.loop.events (s.conns c).fd).isNone = false := by
  have hr : ((s.socketOf c).bind fun _ => (s.loop.events (s.conns c).fd).rfileProc).isSome =
      true := h
  cases hd : s.socketOf c with
  | none =>
      rw [hd] at hr
      cases hr
  | some d =>
      rw [hd, Option.bind_some] at hr
      rw [FileEvent.isNone, Bool.and_eq_false_iff]
      left
      cases hreader : (s.loop.events (s.conns c).fd).rfileProc with
      | none =>
          rw [hreader] at hr
          cases hr
      | some proc => rfl

/-- A registered socket is registered for more. -/
theorem seen_register (phase : Phase) (h : s.Owned) (ho : s.Own c) (hd : s.socketOf c = some d)
    (hslot : (s.loop.events (s.conns c).fd).isNone = false) (mask : Mask) (proc : FileProc) :
    (s.createFileEvent c (s.conns c).fd mask proc).seen c phase =
      { (s.seen c phase).access .register c with
        reader := if mask.readable then some proc else (s.seen c phase).reader
        writer := if mask.writable then some proc else (s.seen c phase).writer } := by
  rw [createFileEvent_registered h hslot, ← seen_access .register ho]
  have hsocket : ((s.access .register c (s.conns c).fd).setLoop
      (s.loop.addSlot (s.conns c).fd mask proc c)).socketOf c = some d := hd
  have hadd : ((s.access .register c (s.conns c).fd).setLoop
      (s.loop.addSlot (s.conns c).fd mask proc c)).loop.events (s.conns c).fd =
      (s.loop.events (s.conns c).fd).add mask proc c := addSlot_events_self
  unfold seen
  rw [hsocket]
  congr 1
  · exact hd.symm
  · refine (congrArg FileEvent.rfileProc hadd).trans ?_
    show _ = if mask.readable then some proc else (s.socketOf c).bind _
    rw [hd]
    rfl
  · refine (congrArg FileEvent.wfileProc hadd).trans ?_
    show _ = if mask.writable then some proc else (s.socketOf c).bind _
    rw [hd]
    rfl

theorem seen_watch (phase : Phase) (h : s.Owned) (ho : s.Own c)
    (hslot : (s.socketOf c).isSome = true → (s.loop.events (s.conns c).fd).isNone = false) :
    (s.createFileEvent c (s.conns c).fd .aeWritable .socketWriteable).seen c phase =
      (s.seen c phase).watch c := by
  unfold TcpConn.watch
  cases hd : s.socketOf c with
  | none =>
      have hclosed : s.fds.get (s.conns c).fd = none := ho.socketOf.symm.trans hd
      have hcreate : s.createFileEvent c (s.conns c).fd .aeWritable .socketWriteable =
          s.access .register c (s.conns c).fd := by
        rcases s.createFileEvent_cases c (s.conns c).fd .aeWritable .socketWriteable with
          heq | ⟨-, ⟨d, hopen⟩, -⟩
        · exact heq
        · rw [hclosed] at hopen
          cases hopen
      rw [hcreate, seen_access .register ho]
      unfold seen
      rw [hd]
      rfl
  | some d =>
      rw [seen_register _ h ho hd (hslot (by rw [hd]; rfl))]
      show _ = { (s.seen c phase).access .register c with
        writer := (s.socketOf c).bind fun _ => some FileProc.socketWriteable }
      rw [hd]
      rfl

theorem seen_unwatch (phase : Phase) (h : s.Owned) (ho : s.Own c) :
    (s.deleteFileEvent c (s.conns c).fd .aeWritable).seen c phase =
      (s.seen c phase).unwatch c := by
  obtain ⟨hr, hw⟩ := aeDeleteFileEvent_writable (s.conns c).fd h.size
  rw [deleteFileEvent, TcpConn.unwatch, ← seen_access .unregister ho]
  have hsocket (loop) : ((s.access .unregister c (s.conns c).fd).setLoop loop).socketOf c =
      s.socketOf c := rfl
  unfold seen
  simp only [hsocket]
  congr 1
  · exact congrArg (Option.bind _) (funext fun _ => hr)
  · cases s.socketOf c with
    | none => rfl
    | some d => exact hw
  · unfold hasTimer setLoop
    rw [aeDeleteFileEvent_timeEvents]
    rfl
  · unfold hasTimer setLoop
    rw [aeDeleteFileEvent_timeEvents]
    rfl

theorem seen_modify (phase : Phase) {f : Descriptor → Descriptor} (hf : ∀ d, (f d).owner = d.owner)
    (h : s.Owned) (ho : s.Own c) :
    (s.setFds (s.fds.modify (s.conns c).fd f)).seen c phase =
      { s.seen c phase with socket := (s.seen c phase).socket.map f } := by
  have hsocket : (s.setFds (s.fds.modify (s.conns c).fd f)).socketOf c =
      (s.socketOf c).map f := by
    rw [(modify_handled hf h ho).own.socketOf, ho.socketOf]
    exact FdTable.get_modify_self
  unfold seen
  rw [hsocket]
  cases s.socketOf c with
  | none => rfl
  | some d => rfl

theorem seen_arm : (s.createTimeEvent c .delayRequest).seen c phase =
    { s.seen c phase with waits := true } := by
  unfold seen
  congr 1
  rw [hasTimer_iff]
  exact ⟨_, List.mem_cons_self .., rfl, rfl⟩

/-! ## Connecting -/

theorem seen_closeSocket (h : s.Owned) (ho : s.Own c) :
    ((s.deleteFileEvent c (s.conns c).fd .both).close c (s.conns c).fd).seen c phase =
      (s.seen c phase).closeSocket c := by
  obtain ⟨hclosed, -, hnone⟩ := closeSocket_handled h ho
  have hsocket : ((s.deleteFileEvent c (s.conns c).fd .both).close c (s.conns c).fd).socketOf c =
      none := hclosed.own.socketOf.trans hnone
  have hsame : (s.seen c phase).closeSocket c =
      { ((s.access .unregister c (s.conns c).fd).access .close c (s.conns c).fd).seen c phase with
        socket := none, reader := none, writer := none } := by
    rw [TcpConn.closeSocket, ← seen_access .unregister ho]
    exact congrArg (fun v : TcpConn π => { v with socket := none, reader := none, writer := none })
      (seen_access (s := s.access .unregister c (s.conns c).fd) .close ho).symm
  rw [hsame]
  unfold seen
  rw [hsocket]
  congr 1
  · show (aeDeleteFileEvent s.loop _ _).timeEvents.any _ = _
    rw [aeDeleteFileEvent_timeEvents]
    rfl
  · show (aeDeleteFileEvent s.loop _ _).timeEvents.any _ = _
    rw [aeDeleteFileEvent_timeEvents]
    rfl

/-- Nothing is seen of a connection without a descriptor but what it has in
memory. -/
theorem Closed.socketOf (hc : s.Closed c) : s.socketOf c = none := by
  cases hd : s.socketOf c with
  | none => rfl
  | some d =>
      obtain ⟨hcur, hown⟩ := socketOf_eq_some.mp hd
      exact absurd hown (hc _ d hcur)

/-- An attempt that fails. -/
theorem seen_failed (hc : s.Closed c) (hfds : ∀ fd, s'.fds.get fd = s.fds.get fd)
    (hconns : s'.conns = s.conns) (htimers : s'.loop.timeEvents = s.loop.timeEvents)
    {log : List TcpObservation} (htrace : s'.trace = log ++ s.trace)
    (hlog : ∀ o ∈ log, o.conn = c) : s'.seen c phase = (s.seen c phase).attempt c ⟨none, log⟩ := by
  have hsocket : s'.socketOf c = none := by
    refine Closed.socketOf fun fd d hd => hc fd d ?_
    rw [← hfds]
    exact hd
  have hfilter : log.filter (·.conn = c) = log :=
    List.filter_eq_self.mpr fun o ho => by simpa using hlog o ho
  unfold seen hasTimer TcpConn.attempt
  simp only [hsocket, hc.socketOf, hconns, htimers, htrace, List.filter_append, hfilter,
    Option.bind_none]

theorem tcpConnectSocket_seen (h : s.Owned) (hc : s.Closed c) (connect : ConnectOutcome) :
    ∃ r : Attempt, r.Silent c ∧
      (connect = .started → s.fds.lowest < s.loop.setsize → r.fd.isSome = true) ∧
      ∀ phase, (s.tcpConnectSocket c connect).seen c phase = (s.seen c phase).attempt c r := by
  cases connect with
  | noSocket =>
      exact ⟨⟨none, []⟩, fun o ho => (by cases ho), fun h => (by cases h), fun phase => rfl⟩
  | failed =>
      refine ⟨⟨none, [.access .close c s.fds.lowest ((s.openSocket c).fds.get s.fds.lowest)]⟩,
        ?_, fun h => (by cases h), fun phase => seen_failed hc
          (close_opened_get (t := (s.openSocket c).connectError) rfl) rfl rfl rfl ?_⟩
      · intro o ho
        exact ⟨_, _, _, List.mem_singleton.mp ho, Or.inr rfl⟩
      · intro o ho
        rw [List.mem_singleton.mp ho]
        rfl
  | started =>
      simp only [tcpConnectSocket]
      split
      · rename_i loop hloop
        obtain ⟨hsize, -, rfl⟩ := aeCreateFileEvent_cases hloop
        refine ⟨⟨some s.fds.lowest, [.access .register c s.fds.lowest
          ((s.openSocket c).fds.get s.fds.lowest)]⟩, ?_, fun _ _ => rfl, ?_⟩
        · intro o ho
          exact ⟨_, _, _, List.mem_singleton.mp ho, Or.inl rfl⟩
        · intro phase
          show (s.startedSocket c).seen c phase = _
          have hsocket : (s.startedSocket c).socketOf c = some ⟨some c, false, 0, 0, []⟩ :=
            socketOf_eq_some.mpr ⟨startedSocket_current s c, rfl⟩
          have hfd : ((s.startedSocket c).conns c) = { s.conns c with fd := s.fds.lowest } :=
            setConn_self
          have hslot : (s.startedSocket c).loop.events s.fds.lowest =
              (s.loop.events s.fds.lowest).add .both .socketConnected c := addSlot_events_self
          unfold seen TcpConn.attempt
          simp only [hsocket, hfd, hslot]
          congr 1
          exact List.filter_cons_of_pos (by simp [TcpObservation.conn])
      · rename_i hnone
        refine ⟨⟨none, [.access .close c s.fds.lowest ((s.openSocket c).fds.get s.fds.lowest),
          .access .register c s.fds.lowest ((s.openSocket c).fds.get s.fds.lowest)]⟩, ?_, ?_,
          fun phase => seen_failed hc (close_opened_get
            (t := ((s.openSocket c).access .register c s.fds.lowest).connectError) rfl) rfl rfl
            rfl ?_⟩
        · intro o ho
          rcases List.mem_cons.mp ho with rfl | ho
          · exact ⟨_, _, _, rfl, Or.inr rfl⟩
          · exact ⟨_, _, _, List.mem_singleton.mp ho, Or.inl rfl⟩
        · intro _ hsize
          have hpolled := h.polled s.fds.lowest
          have hadd : aeApiAddEvent true s.loop s.fds.lowest = true := by
            rw [aeApiAddEvent, hpolled, Bool.true_and]
            exact beq_self_eq_true _
          have hcreate : aeCreateFileEvent true s.loop s.fds.lowest .both .socketConnected c =
              some (s.loop.addSlot s.fds.lowest .both .socketConnected c) := by
            rw [aeCreateFileEvent, if_neg (Nat.not_le.mpr hsize), if_pos hadd]
          rw [show aeCreateFileEvent true ((s.openSocket c).access .register c s.fds.lowest).loop
            s.fds.lowest .both .socketConnected c = _ from hcreate] at hnone
          cases hnone
        · intro o ho
          rcases List.mem_cons.mp ho with rfl | ho
          · rfl
          · rw [List.mem_singleton.mp ho]
            rfl

/-- The number of a socket that is replaced is free for the next one. -/
theorem tcpReconnectSocket_seen (h : s.Owned) (ho : s.Own c) (connect : ConnectOutcome) :
    ∃ r : Attempt, r.Silent c ∧ (connect = .started →
        (s.conns c).fd < s.loop.setsize → r.fd.isSome = true) ∧
      ∀ phase, (s.tcpReconnectSocket c connect).seen c phase = (s.seen c phase).reconnect c r := by
  obtain ⟨hclosed, hnofd, hnone⟩ := closeSocket_handled h ho
  obtain ⟨r, hsilent, hopen, hseen⟩ := tcpConnectSocket_seen hclosed.owned hnofd connect
  refine ⟨r, hsilent, ?_, ?_⟩
  · intro hconnect hsize
    refine hopen hconnect ?_
    have hle := FdTable.lowest_le (t := ((s.deleteFileEvent c (s.conns c).fd .both).close c
      (s.conns c).fd).fds) hnone
    have hsetsize : ((s.deleteFileEvent c (s.conns c).fd .both).close c
        (s.conns c).fd).loop.setsize = s.loop.setsize := aeDeleteFileEvent_setsize
    rw [hsetsize]
    exact Nat.lt_of_le_of_lt hle hsize
  · intro phase
    rw [TcpConn.reconnect, ← seen_closeSocket h ho]
    exact hseen phase

end TcpThread

end WrkQuic
