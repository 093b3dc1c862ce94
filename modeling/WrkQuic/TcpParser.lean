import WrkQuic.ParserSafety
import WrkQuic.TcpLatency

/-!
# The parsers of a thread

`http_parser_execute` asserts that its parser is not the zeroed memory of
`struct connection`: `http_parser_init` comes first. No handler checks it.
It holds as every way to a handler that reads goes through
`socket_connected`: what is registered beyond it is registered for a
connection that has been set up once (`Primed`), also where a
`delay_request` timer registers a descriptor that another connection has
opened since. So no assertion fails in a thread, whatever its servers send.
-/

namespace WrkQuic

open Runs

/-- What keeps the property `U` of a parser: it holds once the parser is set
up. -/
structure ResponseParser.Maintains {π : Type*} (P : ResponseParser π) (U : π → Prop) : Prop where
  init : U P.init
  execute : ∀ p chunk, U p → U (P.execute p chunk).parser

/-- Something is registered that runs after `socket_connected`. -/
def FileEvent.Beyond (fe : FileEvent FileProc ℕ) : Prop :=
  ∃ proc, proc ≠ .socketConnected ∧ (fe.rfileProc = some proc ∨ fe.wfileProc = some proc)

theorem FileEvent.Beyond.of_remove {fe : FileEvent FileProc ℕ} {mask : Mask}
    (h : (fe.remove mask).Beyond) : fe.Beyond := by
  obtain ⟨proc, hproc, hr | hw⟩ := h
  · refine ⟨proc, hproc, Or.inl ?_⟩
    simp only [FileEvent.remove] at hr
    split at hr
    · cases hr
    · exact hr
  · refine ⟨proc, hproc, Or.inr ?_⟩
    simp only [FileEvent.remove] at hw
    split at hw
    · cases hw
    · exact hw

/-- `tcp_connect_socket` registers both directions. -/
theorem FileEvent.not_beyond_connect {fe : FileEvent FileProc ℕ} {c : ℕ} :
    ¬ (fe.add .both .socketConnected c).Beyond := by
  rintro ⟨proc, hproc, h | h⟩ <;> exact hproc (Option.some.inj h).symm

namespace TcpThread

variable {π : Type*} {cfg : Config} {P : ResponseParser π} {U : π → Prop} {s s' : TcpThread π}
  {c fd : ℕ} {mask : Mask} {proc : FileProc} {k : Connection π} {a : Answers}

/-- What runs after `socket_connected` runs for connections that are set up. -/
structure Primed (U : π → Prop) (s : TcpThread π) : Prop where
  slots : ∀ fd, (s.loop.events fd).Beyond → U (s.conns (s.loop.events fd).clientData).parser
  timers : ∀ te ∈ s.loop.timeEvents, te.timeProc = .delayRequest →
    U (s.conns te.clientData).parser

/-- While a handler runs for `c`, which is set up. -/
structure Serving (U : π → Prop) (c : ℕ) (s : TcpThread π) : Prop extends s.Primed U where
  set : U (s.conns c).parser

/-- The same parsers, and nothing else is registered. -/
theorem Primed.congr (h : s.Primed U) (hconns : ∀ c, (s'.conns c).parser = (s.conns c).parser)
    (hevents : s'.loop.events = s.loop.events)
    (htimers : s'.loop.timeEvents = s.loop.timeEvents) : s'.Primed U where
  slots fd hfd := by
    rw [hconns, hevents]
    exact h.slots fd (hevents ▸ hfd)
  timers te hte hproc := by
    rw [hconns]
    exact h.timers te (htimers ▸ hte) hproc

theorem Serving.congr (h : s.Serving U c) (hconns : ∀ c, (s'.conns c).parser = (s.conns c).parser)
    (hevents : s'.loop.events = s.loop.events)
    (htimers : s'.loop.timeEvents = s.loop.timeEvents) : s'.Serving U c :=
  ⟨h.toPrimed.congr hconns hevents htimers, hconns c ▸ h.set⟩

/-- A connection whose parser stays as good. -/
theorem Primed.setConn (h : s.Primed U) (hk : U (s.conns c).parser → U k.parser) :
    (s.setConn c k).Primed U := by
  have hkept : ∀ c', U (s.conns c').parser → U ((s.setConn c k).conns c').parser := by
    intro c' hc'
    by_cases heq : c' = c
    · subst heq
      rw [setConn_self]
      exact hk hc'
    · rw [setConn_of_ne heq]
      exact hc'
  exact
    { slots := fun fd hfd => hkept _ (h.slots fd hfd)
      timers := fun te hte hproc => hkept _ (h.timers te hte hproc) }

theorem Serving.setConn (h : s.Serving U c) (hk : U k.parser) : (s.setConn c k).Serving U c := by
  refine ⟨h.toPrimed.setConn fun _ => hk, ?_⟩
  rw [setConn_self]
  exact hk

/-- Slots that are registered as before, or for a connection that is set up,
or only for `socket_connected`. -/
theorem Primed.slot (h : s.Primed U) (hconns : s'.conns = s.conns)
    (htimers : s'.loop.timeEvents = s.loop.timeEvents)
    (hslots : ∀ fd, (s'.loop.events fd).Beyond →
      U (s.conns (s'.loop.events fd).clientData).parser ∨ (s.loop.events fd).Beyond ∧
        (s'.loop.events fd).clientData = (s.loop.events fd).clientData) : s'.Primed U where
  slots fd hfd := by
    rw [hconns]
    rcases hslots fd hfd with hset | ⟨hbeyond, hsame⟩
    · exact hset
    · rw [hsame]
      exact h.slots fd hbeyond
  timers te hte hproc := by
    rw [hconns]
    exact h.timers te (htimers ▸ hte) hproc

theorem addSlot_slot (loop : EventLoop FileProc TimeProc ℕ) (fd fd' c : ℕ) (mask : Mask)
    (proc : FileProc) :
    fd' = fd ∧ (loop.addSlot fd mask proc c).events fd' = (loop.events fd).add mask proc c ∨
      (loop.addSlot fd mask proc c).events fd' = loop.events fd' := by
  by_cases heq : fd' = fd
  · subst heq
    exact Or.inl ⟨rfl, addSlot_events_self⟩
  · exact Or.inr (Function.update_of_ne heq ..)

theorem Serving.createFileEvent (h : s.Serving U c) (fd : ℕ) (mask : Mask) (proc : FileProc) :
    (s.createFileEvent c fd mask proc).Serving U c := by
  refine ⟨?_, by rw [createFileEvent_conns]; exact h.set⟩
  rcases s.createFileEvent_cases c fd mask proc with hnone | ⟨-, -, hadded⟩
  · rw [hnone]
    exact h.toPrimed.congr (fun _ => rfl) rfl rfl
  · rw [hadded]
    refine h.toPrimed.slot rfl rfl ?_
    intro fd' hfd'
    simp only [setLoop] at hfd' ⊢
    rcases addSlot_slot s.loop fd fd' c mask proc with ⟨-, hslot⟩ | hslot <;>
      rw [hslot] at hfd' ⊢
    · exact Or.inl h.set
    · exact Or.inr ⟨hfd', rfl⟩

theorem deleteFileEvent_slot (loop : EventLoop FileProc TimeProc ℕ) (fd fd' : ℕ) (mask : Mask) :
    (aeDeleteFileEvent loop fd mask).events fd' = loop.events fd' ∨
      (aeDeleteFileEvent loop fd mask).events fd' = (loop.events fd').remove mask := by
  unfold aeDeleteFileEvent
  split
  · exact Or.inl rfl
  · split
    · exact Or.inl rfl
    · by_cases heq : fd' = fd
      · subst heq
        exact Or.inr (Function.update_self ..)
      · exact Or.inl (Function.update_of_ne heq ..)

theorem Primed.deleteFileEvent (h : s.Primed U) (c fd : ℕ) (mask : Mask) :
    (s.deleteFileEvent c fd mask).Primed U := by
  refine h.slot rfl (aeDeleteFileEvent_timeEvents s.loop fd) ?_
  intro fd' hfd'
  right
  simp only [TcpThread.deleteFileEvent, setLoop] at hfd' ⊢
  rcases deleteFileEvent_slot s.loop fd fd' mask with hslot | hslot <;> rw [hslot] at hfd' ⊢
  · exact ⟨hfd', rfl⟩
  · exact ⟨hfd'.of_remove, rfl⟩

theorem Serving.deleteFileEvent (h : s.Serving U c) : (s.deleteFileEvent c fd mask).Serving U c :=
  ⟨h.toPrimed.deleteFileEvent c fd mask, h.set⟩

theorem Serving.createTimeEvent (h : s.Serving U c) :
    (s.createTimeEvent c .delayRequest).Serving U c := by
  refine ⟨⟨h.slots, ?_⟩, h.set⟩
  intro te hte hproc
  rcases List.mem_cons.mp hte with rfl | hte
  · exact h.set
  · exact h.timers te hte hproc

/-! ## Handlers -/

theorem Primed.tcpConnectSocket (h : s.Primed U) (c : ℕ) (connect : ConnectOutcome) :
    (s.tcpConnectSocket c connect).Primed U := by
  cases connect with
  | noSocket => exact h.congr (fun _ => rfl) rfl rfl
  | failed => exact h.congr (fun _ => rfl) rfl rfl
  | started =>
      simp only [TcpThread.tcpConnectSocket]
      split
      · rename_i loop hloop
        obtain ⟨-, -, rfl⟩ := aeCreateFileEvent_cases hloop
        refine Primed.setConn ?_ id
        refine h.slot rfl rfl ?_
        intro fd' hfd'
        right
        simp only [setLoop] at hfd' ⊢
        rcases addSlot_slot ((s.openSocket c).access .register c s.fds.lowest).loop s.fds.lowest
          fd' c .both .socketConnected with ⟨-, hslot⟩ | hslot <;> rw [hslot] at hfd' ⊢
        · exact absurd hfd' FileEvent.not_beyond_connect
        · exact ⟨hfd', rfl⟩
      · exact h.congr (fun _ => rfl) rfl rfl

theorem tcpConnectSocket_sameParser (s : TcpThread π) (c : ℕ) (connect : ConnectOutcome) (c' : ℕ) :
    ((s.tcpConnectSocket c connect).conns c').parser = (s.conns c').parser := by
  cases connect with
  | noSocket => rfl
  | failed => rfl
  | started =>
      simp only [TcpThread.tcpConnectSocket]
      split
      · by_cases heq : c' = c
        · subst heq
          rw [setConn_self]
          rfl
        · rw [setConn_of_ne heq]
          rfl
      · rfl

theorem Serving.same (h : s.Serving U c) (hconns : s'.conns = s.conns) (hloop : s'.loop = s.loop) :
    s'.Serving U c :=
  h.congr (fun _ => by rw [hconns]) (by rw [hloop]) (by rw [hloop])

theorem Primed.tcpReconnectSocket (h : s.Primed U) (c : ℕ) (connect : ConnectOutcome) :
    (s.tcpReconnectSocket c connect).Primed U := by
  have hclosed : ((s.deleteFileEvent c (s.conns c).fd .both).close c (s.conns c).fd).Primed U :=
    (h.deleteFileEvent c (s.conns c).fd .both).congr (fun _ => rfl) rfl rfl
  exact hclosed.tcpConnectSocket c connect

theorem Serving.tcpReconnectSocket (h : s.Serving U c) (connect : ConnectOutcome) :
    (s.tcpReconnectSocket c connect).Serving U c := by
  refine ⟨h.toPrimed.tcpReconnectSocket c connect, ?_⟩
  rw [TcpThread.tcpReconnectSocket, tcpConnectSocket_sameParser]
  exact h.set

theorem Serving.usecToNextSend (h : s.Serving U c) : (s.usecToNextSend c).2.Serving U c :=
  h.setConn h.set

theorem Serving.tick (h : s.Serving U c) (dt : ℕ) : (s.tick dt).Serving U c := h.same rfl rfl

theorem Serving.access (h : s.Serving U c) (kind : Access) (c' fd : ℕ) :
    (s.access kind c' fd).Serving U c := h.same rfl rfl

theorem Serving.advanceWritten (h : s.Serving U c) (n : ℕ) :
    (s.advanceWritten c n).Serving U c := by
  unfold TcpThread.advanceWritten
  simp only
  split
  · exact (h.setConn (k := { s.conns c with written := 0 }) h.set).deleteFileEvent
  · exact h.setConn h.set

theorem Serving.sockWrite (cfg : Config) (connect : ConnectOutcome) : ∀ (status : Status ℕ)
    {s : TcpThread π}, s.Serving U c → (sockWrite cfg s c connect status).Serving U c
  | .ok n, s, h => by
      have haccess := h.access .write c (s.conns c).fd
      simp only [TcpThread.sockWrite]
      split
      · have haccept : (accept cfg (s.access .write c (s.conns c).fd) c
            (acceptedBytes (s.conns c) n)).Serving U c := haccess.same rfl rfl
        exact haccept.advanceWritten _
      · have herror : (s.access .write c (s.conns c).fd).writeError.Serving U c :=
          haccess.same rfl rfl
        exact herror.tcpReconnectSocket connect
  | .error, s, h => by
      have herror : (s.access .write c (s.conns c).fd).writeError.Serving U c :=
        (h.access .write c (s.conns c).fd).same rfl rfl
      exact herror.tcpReconnectSocket connect
  | .retry, s, h => h.access .write c (s.conns c).fd
  | .again next, s, h => Serving.sockWrite cfg connect next (h.access .write c (s.conns c).fd)

theorem startBatch_sameParser (k : Connection π) (pipeline now : ℕ) :
    (k.startBatch pipeline now).parser = k.parser := by
  unfold Connection.startBatch
  split <;> rfl

theorem Serving.startBatch (h : s.Serving U c) (pipeline now : ℕ) :
    (s.setConn c ((s.conns c).startBatch pipeline now)).Serving U c :=
  h.setConn (by rw [startBatch_sameParser]; exact h.set)

theorem Serving.prepareBatch (h : s.Serving U c) (cfg : Config) (a : Answers) :
    (prepareBatch cfg s c a).Serving U c := by
  unfold TcpThread.prepareBatch
  simp only
  split
  · have hscript : (s.setConn c { s.conns c with request := a.script }).Serving U c :=
      h.setConn h.set
    have hticked : (((s.setConn c { s.conns c with request := a.script }).observe
        (.request c a.script)).tick a.startDt).Serving U c := hscript.same rfl rfl
    exact hticked.startBatch _ _
  · exact (h.tick a.startDt).startBatch _ _

theorem Serving.sockWriteable (h : s.Serving U c) (cfg : Config) (a : Answers) :
    (sockWriteable cfg s c a).Serving U c := by
  have hpaced := (h.tick a.dt).usecToNextSend
  unfold TcpThread.sockWriteable
  simp only
  split
  · split
    · exact hpaced.deleteFileEvent.createTimeEvent
    · exact (hpaced.prepareBatch cfg a).sockWrite cfg a.connect a.write
  · exact h.sockWrite cfg a.connect a.write

theorem Serving.decrementPending (h : s.Serving U c) : (s.decrementPending c).Serving U c := by
  unfold TcpThread.decrementPending
  simp only
  split
  · refine Serving.createFileEvent ?_ _ _ _
    exact h.setConn h.set
  · exact h.setConn h.set

theorem Serving.statsRequestCompleted (h : s.Serving U c) (cfg : Config)
    (target : Option Descriptor) : (statsRequestCompleted cfg s c target).Serving U c := by
  unfold TcpThread.statsRequestCompleted
  split
  · exact h.congr (fun _ => rfl) rfl rfl
  · have hcount : { s with complete := s.complete + 1, requests := s.requests + 1 }.Serving U c :=
      h.same rfl rfl
    exact (hcount.setConn (k := (s.conns c).requestCompleted) h.set).same rfl rfl

theorem Serving.responseComplete (h : s.Serving U c) (cfg : Config) (m : Completion)
    (a : ResponseAnswers) : (responseComplete cfg s c m a).Serving U c := by
  have hanswered : ((if 399 < m.status then s.statusError else s).responseAnswered c).Serving
      U c := by
    split <;> exact h.same rfl rfl
  have hcounted := (hanswered.decrementPending.tick a.dt).statsRequestCompleted cfg (s.current c)
  simp only [TcpThread.responseComplete]
  split
  · exact hcounted
  · exact hcounted.tcpReconnectSocket a.connect

theorem Serving.responsesComplete (cfg : Config) : ∀ (ms : List Completion)
    (as : List ResponseAnswers) {s : TcpThread π}, s.Serving U c →
    (responsesComplete cfg c s ms as).Serving U c
  | [], _, _, h => h
  | m :: ms, as, _, h =>
      Serving.responsesComplete cfg ms as.tail (h.responseComplete cfg m (as.headD {}))

theorem Serving.parseChunk (h : s.Serving U c) (hP : P.Maintains U) (cfg : Config) (chunk : Bytes)
    (answers : List ResponseAnswers) : (parseChunk cfg P s c chunk answers).2.Serving U c := by
  have hdelivered : (s.deliver c chunk).Serving U c := h.same rfl rfl
  exact Serving.responsesComplete cfg _ answers
    (hdelivered.setConn (hP.execute _ chunk hdelivered.set))

theorem Serving.readFailed (h : s.Serving U c) (connect : ConnectOutcome) :
    (s.readFailed c connect).Serving U c := by
  have herror : s.readError.Serving U c := h.same rfl rfl
  exact herror.tcpReconnectSocket connect

theorem Serving.received (h : s.Serving U c) (n : ℕ) : (s.received n).Serving U c := h.same rfl rfl

theorem Serving.socketReadable (hP : P.Maintains U) (cfg : Config) (connect : ConnectOutcome) :
    ∀ (reads : List Read) {s : TcpThread π}, s.Serving U c →
      (socketReadable cfg P c connect s reads).Serving U c
  | [], _, h => h
  | .error :: _, s, h => (h.access .read c (s.conns c).fd).readFailed connect
  | .retry :: _, s, h => h.access .read c (s.conns c).fd
  | .again :: reads, s, h =>
      Serving.socketReadable hP cfg connect reads (h.access .read c (s.conns c).fd)
  | .data chunk answers :: reads, s, h => by
      have hread := h.access .read c (s.conns c).fd
      rw [TcpThread.socketReadable]
      split
      · have hparsed := hread.parseChunk hP cfg (chunk.take cfg.recvbuf) answers
        simp only
        split
        · exact hparsed.readFailed connect
        · have hreceived := hparsed.received (chunk.take cfg.recvbuf).length
          split
          · exact Serving.socketReadable hP cfg connect reads hreceived
          · exact hreceived
      · exact hread.readFailed connect

theorem Primed.socketConnected (hP : P.Maintains U) (connect : ConnectOutcome) :
    ∀ (status : Status Unit) {s : TcpThread π}, s.Primed U →
      (socketConnected P s fd c connect status).Primed U
  | .ok _, s, h => by
      have hset : (s.setConn c { s.conns c with parser := P.init, written := 0 }).Serving U c := by
        refine ⟨h.setConn fun _ => hP.init, ?_⟩
        rw [setConn_self]
        exact hP.init
      have hreadable := hset.createFileEvent fd .aeReadable .socketReadable
      have hwritable := hreadable.createFileEvent fd .aeWritable .socketWriteable
      exact hwritable.toPrimed.congr (fun _ => rfl) rfl rfl
  | .error, s, h => by
      have herror : s.connectError.Primed U := h.congr (fun _ => rfl) rfl rfl
      exact herror.tcpReconnectSocket c connect
  | .retry, _, h => h
  | .again next, _, h => Primed.socketConnected hP connect next h

theorem Primed.runFileProc (hP : P.Maintains U) (h : s.Primed U)
    (hproc : (s.loop.events fd).rfileProc = some proc ∨ (s.loop.events fd).wfileProc = some proc)
    (hrun : s.runFileProc cfg P fd (s.loop.events fd).clientData a proc = some s') :
    s'.Primed U := by
  cases proc with
  | socketConnected =>
      obtain rfl := Option.some.inj hrun
      exact Primed.socketConnected hP a.connect a.connected h
  | socketReadable =>
      obtain rfl := Option.some.inj hrun
      have hserving : s.Serving U (s.loop.events fd).clientData :=
        ⟨h, h.slots fd ⟨.socketReadable, nofun, hproc⟩⟩
      exact (Serving.socketReadable hP cfg a.connect a.reads hserving).toPrimed
  | socketWriteable =>
      have hserving : s.Serving U (s.loop.events fd).clientData :=
        ⟨h, h.slots fd ⟨.socketWriteable, nofun, hproc⟩⟩
      rw [TcpThread.runFileProc] at hrun
      split at hrun
      · obtain rfl := Option.some.inj hrun
        exact (hserving.sockWriteable cfg a).toPrimed
      · cases hrun

theorem Primed.deleteTimeEvent (h : s.Primed U) (id : ℕ) : (s.deleteTimeEvent id).Primed U :=
  ⟨h.slots, fun te hte => h.timers te (mem_aeDeleteTimeEvent hte).1⟩

theorem Primed.runTimeEvent (h : s.Primed U) {te : TimeEvent TimeProc ℕ}
    (hte : te ∈ s.loop.timeEvents) (a : Answers) : (s.runTimeEvent te a).Primed U := by
  unfold TcpThread.runTimeEvent
  split
  · refine Primed.deleteTimeEvent ?_ te.id
    have hticked : (s.tick a.dt).Primed U := h.congr (fun _ => rfl) rfl rfl
    have hstarted : ((s.tick a.dt).setConn te.clientData { s.conns te.clientData with
        pacer := { (s.conns te.clientData).pacer with
          threadStart := (s.tick a.dt).clock } }).Primed U := hticked.setConn id
    exact hstarted.tcpConnectSocket te.clientData a.connect
  · rename_i hproc
    have hserving : s.Serving U te.clientData := ⟨h, h.timers te hte hproc⟩
    have hdelay : (s.delayRequest te.clientData a).2.Primed U := by
      have hpaced := (hserving.tick a.dt).usecToNextSend
      unfold delayRequest
      simp only
      split
      · exact hpaced.toPrimed
      · exact (hpaced.createFileEvent _ _ _).toPrimed
    simp only
    split
    · exact hdelay.deleteTimeEvent te.id
    · exact hdelay

theorem initial_primed (cfg : Config) (P : ResponseParser π) (clock : ℕ) (reserved : FdTable Unit) :
    (TcpThread.initial cfg P clock reserved).Primed U where
  slots fd hfd := by
    obtain ⟨proc, -, hproc⟩ := hfd
    have hnone : ((initialLoop cfg).events fd).isNone = false := not_isNone_of_slot hproc
    rw [(initialLoop_events cfg fd).1] at hnone
    cases hnone
  timers te hte hproc := by
    rw [(initialLoop_timeEvents cfg te hte).1] at hproc
    cases hproc

end TcpThread

theorem tcp_primed {π : Type*} {cfg : Config} {P : ResponseParser π} {U : π → Prop}
    (hP : P.Maintains U) {s : TcpThread π} (hs : (tcpThread cfg P).Reachable s) : s.Primed U := by
  refine hs.invariant (P := fun s => s.Primed U) ?_ ?_
  · rintro s ⟨clock, reserved, rfl⟩
    exact TcpThread.initial_primed cfg P clock reserved
  · intro s e s' h hstep
    have hstep : tcpStep cfg P s e = some s' := hstep
    cases e with
    | readable fd a =>
        obtain ⟨proc, hproc, hrun⟩ := Option.bind_eq_some_iff.mp hstep
        exact h.runFileProc hP (Or.inl hproc) hrun
    | writable fd a =>
        obtain ⟨proc, hproc, hrun⟩ := Option.bind_eq_some_iff.mp hstep
        exact h.runFileProc hP (Or.inr hproc) hrun
    | timer id a =>
        obtain ⟨te, hfind, rfl⟩ := Option.map_eq_some_iff.mp hstep
        exact h.runTimeEvent (List.mem_of_find?_eq_some hfind) a

theorem httpParser_maintains : httpParser.Maintains HttpParser.Usable where
  init := Or.inr HttpParser.init_prepared
  execute _ chunk h := (h.execute chunk).1

/-- In every state that a thread can reach, a connection for which
`socket_readable` is registered parses whatever its server sends, in whatever
reads: no assertion of `http_parser_execute` fails, no number overflows its
field, and so the parser does what it does without the checks. -/
theorem tcp_parser_never_aborts (cfg : Config) {s : TcpThread HttpParser}
    (hs : (tcpThread cfg httpParser).Reachable s) {fd : ℕ}
    (hproc : (s.loop.events fd).rfileProc = some .socketReadable) {chunks : List Bytes}
    (hsizes : ∀ chunk ∈ chunks, chunk.length ≤ recvbuf) :
    (s.conns (s.loop.events fd).clientData).parser.readChecked chunks =
      some (chunks.foldl (fun p chunk => (httpParser.execute p chunk).parser)
        (s.conns (s.loop.events fd).clientData).parser) := by
  have hprimed := tcp_primed httpParser_maintains hs
  have husable := hprimed.slots fd ⟨.socketReadable, nofun, Or.inl hproc⟩
  exact husable.readChecked hsizes

/-- The first response of connection 0, in two reads. -/
theorem tcp_parser_never_aborts_one : ∃ s,
    (tcpThread twoConnections httpParser).Reachable s ∧
    (s.loop.events 4).rfileProc = some .socketReadable ∧
    ((s.conns (s.loop.events 4).clientData).parser.readChecked
      [emptyResponse.take 20, emptyResponse.drop 20]).isSome = true := by
  obtain ⟨s, hs, hproc⟩ : ∃ s, (tcpThread twoConnections httpParser).Reachable s ∧
      (s.loop.events 4).rfileProc = some .socketReadable :=
    exists_reachable_of_runEvents (fun s : TcpThread HttpParser => (s.loop.events 4).rfileProc)
      (oneRequest.take 2) twoConnectionsStart_initial (by decide +kernel)
  refine ⟨s, hs, hproc, ?_⟩
  rw [tcp_parser_never_aborts twoConnections hs hproc (by decide +kernel)]
  rfl

end WrkQuic
