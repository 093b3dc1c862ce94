import WrkQuic.TcpOwnership

/-!
# One batch at a time

A `delay_request` timer belongs to a connection and survives its sockets.
As long as no such timer finds its time to send on a socket that is still
connecting or that has a batch under way (`SendsWhenIdle`), a new batch is
started only when all requests of the socket have been answered.

The server is assumed to answer requests only: a response is completed on
a socket that has an unanswered request (`TcpObservation.Answers`).
-/

namespace WrkQuic

open Runs

/-- A response answers a request that was sent on its socket. -/
def TcpObservation.Answers : TcpObservation → Prop
  | .response _ target _ _ => ∃ d, target = some d ∧ d.answered < d.sent
  | _ => True

instance (o : TcpObservation) : Decidable o.Answers :=
  match o with
  | .response _ (some d) _ _ =>
      decidable_of_iff (d.answered < d.sent)
        ⟨fun h => ⟨d, rfl, h⟩, fun ⟨_, hd, h⟩ => Option.some.inj hd ▸ h⟩
  | .response _ none _ _ => isFalse fun ⟨_, hd, _⟩ => nomatch hd
  | .access .. | .request .. | .accepted .. | .delivered .. => isTrue trivial

/-- A batch starts on a socket whose requests have all been answered, and
`c->pending` is what is left of it. -/
def TcpObservation.OneBatch : TcpObservation → Prop
  | .accepted _ target first _ => first = true → ∃ d, target = some d ∧ d.sent = d.answered
  | .response _ target pending _ => ∀ d ∈ target, pending = d.sent - (d.answered + 1)
  | _ => True

/-- The socket `d` of connection `k`, with its slot `fe`. -/
structure SocketOk {π : Type*} (cfg : Config) (k : Connection π) (fe : FileEvent FileProc ℕ)
    (d : Descriptor) : Prop where
  connecting : d.connected = false → d.sent = 0 ∧
    ∀ proc, fe.rfileProc = some proc ∨ fe.wfileProc = some proc → proc = .socketConnected
  rfileProc : d.connected = true → ∀ proc, fe.rfileProc = some proc → proc = .socketReadable
  wfileProc : d.connected = true → ∀ proc, fe.wfileProc = some proc → proc = .socketWriteable
  answered : d.answered ≤ d.sent
  pending : d.answered < d.sent → k.pending = d.sent - d.answered
  idle : d.connected = true → k.written = 0 → fe.wfileProc ≠ none → d.sent = d.answered
  bound : d.sent - d.answered ≤ cfg.pipeline

section

variable {π : Type*} {cfg : Config} {k k' : Connection π} {fe fe' : FileEvent FileProc ℕ}
  {d : Descriptor} {first : Bool}

theorem SocketOk.conn (h : SocketOk cfg k fe d) (hwritten : k'.written = k.written)
    (hpending : k'.pending = k.pending) : SocketOk cfg k' fe d :=
  { h with
    pending := fun hlt => hpending.trans (h.pending hlt)
    idle := fun hc hw => h.idle hc (hwritten ▸ hw) }

/-- A socket that has sent something is connected. -/
theorem SocketOk.connected (h : SocketOk cfg k fe d) (hsent : 0 < d.sent) :
    d.connected = true := by
  by_contra hc
  have := (h.connecting (Bool.eq_false_iff.mpr hc)).1
  omega

/-- The event `AE_WRITABLE` is dropped. -/
theorem SocketOk.unwatch (h : SocketOk cfg k fe d) (hr : fe'.rfileProc = fe.rfileProc)
    (hw : fe'.wfileProc = none) : SocketOk cfg k fe' d :=
  { h with
    connecting := by
      intro hc
      obtain ⟨hsent, hprocs⟩ := h.connecting hc
      refine ⟨hsent, ?_⟩
      rintro proc (hproc | hproc)
      · exact hprocs proc (Or.inl (hr ▸ hproc))
      · rw [hw] at hproc
        cases hproc
    rfileProc := fun hc proc hproc => h.rfileProc hc proc (hr ▸ hproc)
    wfileProc := by
      intro _ proc hproc
      rw [hw] at hproc
      cases hproc
    idle := fun _ _ hwatched => absurd hw hwatched }

/-- `socket_writeable` is registered on a connected socket, which is idle or
in the middle of a batch. -/
theorem SocketOk.watch (h : SocketOk cfg k fe d) (hc : d.connected = true)
    (hr : fe'.rfileProc = fe.rfileProc) (hw : fe'.wfileProc = some .socketWriteable)
    (hidle : k.written = 0 → d.sent = d.answered) : SocketOk cfg k fe' d :=
  { h with
    connecting := by
      intro hc'
      rw [hc] at hc'
      cases hc'
    rfileProc := fun hc proc hproc => h.rfileProc hc proc (hr ▸ hproc)
    wfileProc := by
      intro _ proc hproc
      rw [hw] at hproc
      exact (Option.some.inj hproc).symm
    idle := fun _ hwritten _ => hidle hwritten }

/-- Bytes are accepted: a first batch on an idle socket, or more of a batch
that was counted before. -/
theorem SocketOk.accept (h : SocketOk cfg k fe d) (hc : d.connected = true)
    (hfirst : first = true → d.sent = d.answered ∧ k.pending = cfg.pipeline)
    (hpending : k'.pending = k.pending)
    (hidle : k'.written = 0 → fe.wfileProc ≠ none → first = false ∧ d.sent = d.answered) :
    SocketOk cfg k' fe (d.accepted cfg.pipeline first) := by
  have hnotConnecting : d.connected ≠ false := by
    rw [hc]
    decide
  cases first with
  | false =>
      exact
        { h with
          pending := fun hlt => hpending.trans (h.pending hlt)
          idle := fun _ hwritten hwatched => (hidle hwritten hwatched).2 }
  | true =>
      obtain ⟨hsent, hbatch⟩ := hfirst rfl
      exact
        { connecting := fun hc' => absurd hc' hnotConnecting
          rfileProc := h.rfileProc
          wfileProc := h.wfileProc
          answered := by
            show d.answered ≤ d.sent + cfg.pipeline
            omega
          pending := by
            intro _
            show k'.pending = d.sent + cfg.pipeline - d.answered
            omega
          idle := fun _ hwritten hwatched => by cases (hidle hwritten hwatched).1
          bound := by
            show d.sent + cfg.pipeline - d.answered ≤ cfg.pipeline
            omega }

/-- A response is counted. -/
theorem SocketOk.answer (h : SocketOk cfg k fe d) (hlt : d.answered < d.sent)
    (hpending : k'.pending = k.pending - 1) (hwritten : k'.written = k.written) :
    SocketOk cfg k' fe d.answer :=
  { connecting := by
      intro hc
      have := (h.connecting hc).1
      omega
    rfileProc := h.rfileProc
    wfileProc := h.wfileProc
    answered := hlt
    pending := by
      intro _
      have := h.pending hlt
      show k'.pending = d.sent - (d.answered + 1)
      omega
    idle := by
      intro hc hw hwatched
      have := h.idle hc (hwritten ▸ hw) hwatched
      omega
    bound := by
      have := h.bound
      show d.sent - (d.answered + 1) ≤ cfg.pipeline
      omega }

/-- A socket on which nothing was sent, once `socket_connected` has run. -/
theorem SocketOk.connect (h : SocketOk cfg k fe d) (hconnecting : d.connected = false)
    (hr : fe'.rfileProc = some .socketReadable) (hw : fe'.wfileProc = some .socketWriteable) :
    SocketOk cfg k' fe' d.connect := by
  have hsent := (h.connecting hconnecting).1
  have hanswered := h.answered
  exact
    { connecting := fun hc => by cases hc
      rfileProc := by
        intro _ proc hproc
        rw [hr] at hproc
        exact (Option.some.inj hproc).symm
      wfileProc := by
        intro _ proc hproc
        rw [hw] at hproc
        exact (Option.some.inj hproc).symm
      answered := hanswered
      pending := by
        intro hlt
        replace hlt : d.answered < d.sent := hlt
        omega
      idle := by
        intro _ _ _
        show d.sent = d.answered
        omega
      bound := h.bound }

end

namespace TcpThread

variable {π : Type*}

/-- The current socket of `c`. -/
def Sound (cfg : Config) (c : ℕ) (s : TcpThread π) : Prop :=
  ∀ d ∈ s.current c, d.owner = some c →
    SocketOk cfg (s.conns c) (s.loop.events (s.conns c).fd) d

/-- What holds of `c` if the server has answered requests only. -/
def Good (cfg : Config) (c : ℕ) (s : TcpThread π) : Prop :=
  (∀ o ∈ s.trace, o.Answers) → s.Sound cfg c ∧ ∀ o ∈ s.trace, o.OneBatch

variable {cfg : Config} {P : ResponseParser π} {c c' fd n : ℕ} {s s' s₁ s₂ : TcpThread π}
  {k : Connection π} {mask : Mask} {proc : FileProc} {o : TcpObservation} {a : Answers}
  {te : TimeEvent TimeProc ℕ}

theorem Good.step (h : s.Good cfg c) (he : s.Effect c s')
    (hnew : ∀ o ∈ s'.trace, o ∈ s.trace ∨ o.OneBatch) (hsound : s.Sound cfg c → s'.Sound cfg c) :
    s'.Good cfg c := by
  intro ha
  obtain ⟨hs, hidle⟩ := h fun o ho => ha o (he.grows o ho)
  refine ⟨hsound hs, ?_⟩
  intro o ho
  rcases hnew o ho with hold | hnew
  · exact hidle o hold
  · exact hnew

/-- A step that adds nothing to the trace but accesses. -/
def OnlyAccesses (s s' : TcpThread π) : Prop :=
  ∀ o ∈ s'.trace, o ∈ s.trace ∨ o.OneBatch

theorem OnlyAccesses.trans (h : s.OnlyAccesses s₁) (h' : s₁.OnlyAccesses s₂) :
    s.OnlyAccesses s₂ := by
  intro o ho
  rcases h' o ho with ho | hidle
  · exact h o ho
  · exact Or.inr hidle

theorem onlyAccesses_of_cons {kind : Access} {target : Option Descriptor}
    (h : s'.trace = .access kind c fd target :: s.trace) : s.OnlyAccesses s' := by
  intro o ho
  rw [h] at ho
  rcases List.mem_cons.mp ho with rfl | ho
  · exact Or.inr trivial
  · exact Or.inl ho

theorem createFileEvent_onlyAccesses : s.OnlyAccesses (s.createFileEvent c fd mask proc) := by
  rcases s.createFileEvent_cases c fd mask proc with h | ⟨-, -, h⟩
  · rw [h]
    exact onlyAccesses_of_cons rfl
  · rw [h]
    exact onlyAccesses_of_cons rfl

theorem tcpConnectSocket_onlyAccesses (connect : ConnectOutcome) :
    s.OnlyAccesses (s.tcpConnectSocket c connect) := by
  cases connect with
  | noSocket => exact fun o ho => Or.inl ho
  | failed => exact onlyAccesses_of_cons rfl
  | started =>
      have hregister : s.OnlyAccesses ((s.openSocket c).access .register c s.fds.lowest) :=
        onlyAccesses_of_cons rfl
      simp only [tcpConnectSocket]
      split
      · exact hregister
      · exact hregister.trans (onlyAccesses_of_cons rfl)

theorem tcpReconnectSocket_onlyAccesses (connect : ConnectOutcome) :
    s.OnlyAccesses (s.tcpReconnectSocket c connect) := by
  have hdelete : s.OnlyAccesses (s.deleteFileEvent c (s.conns c).fd .both) :=
    onlyAccesses_of_cons rfl
  exact (hdelete.trans (onlyAccesses_of_cons rfl)).trans (tcpConnectSocket_onlyAccesses connect)

/-! ## Connecting -/

/-- A new socket has nothing sent and waits for `socket_connected`. -/
theorem tcpConnectSocket_sound (h : s.Owned) (hc : s.Closed c) (connect : ConnectOutcome) :
    (s.tcpConnectSocket c connect).Sound cfg c := by
  intro d hd hown
  rcases s.tcpConnectSocket_cases c connect with ⟨-, heq⟩ | ⟨hconns, hget, -⟩
  · have hslot := h.slot_of_closed (FdTable.get_lowest s.fds)
    rw [FileEvent.isNone, Bool.and_eq_true] at hslot
    rw [heq] at hd ⊢
    rw [startedSocket_current] at hd
    obtain rfl := Option.some.inj hd
    exact
      { connecting := by
          intro _
          refine ⟨rfl, ?_⟩
          intro proc hproc
          rw [startedSocket, setConn_self] at hproc
          simp only [setConn, setLoop, EventLoop.addSlot, Function.update_self] at hproc
          rcases hproc with hproc | hproc
          · exact (Option.some.inj hproc).symm
          · exact (Option.some.inj hproc).symm
        rfileProc := fun hconnected => by cases hconnected
        wfileProc := fun hconnected => by cases hconnected
        answered := Nat.le_refl 0
        pending := fun hlt => absurd hlt (Nat.lt_irrefl 0)
        idle := fun hconnected => by cases hconnected
        bound := Nat.zero_le _ }
  · rw [current, hget] at hd
    exact absurd hown (hc _ d hd)

theorem tcpReconnectSocket_sound (h : s.Owned) (ho : s.Own c) (connect : ConnectOutcome) :
    (s.tcpReconnectSocket c connect).Sound cfg c := by
  obtain ⟨hclosed, hnofd, -⟩ := closeSocket_handled h ho
  exact tcpConnectSocket_sound hclosed.owned hnofd connect

/-- After a reconnection nothing is left of what was not sound before. -/
theorem tcpReconnectSocket_good (h : s.Owned) (ho : s.Own c) (connect : ConnectOutcome)
    (hidle : (∀ o ∈ s.trace, o.Answers) → ∀ o ∈ s.trace, o.OneBatch) :
    (s.tcpReconnectSocket c connect).Good cfg c := by
  intro ha
  refine ⟨tcpReconnectSocket_sound h ho connect, ?_⟩
  intro o hobs
  rcases tcpReconnectSocket_onlyAccesses connect o hobs with hold | hnew
  · exact hidle (fun o ho => ha o ((tcpReconnectSocket_effect s c connect).grows o ho)) o hold
  · exact hnew

/-! ## Sending -/

theorem Sound.setConn (h : s.Sound cfg c) (hfd : k.fd = (s.conns c).fd)
    (hwritten : k.written = (s.conns c).written) (hpending : k.pending = (s.conns c).pending) :
    (s.setConn c k).Sound cfg c := by
  intro d hd hown
  rw [current, setConn_self, hfd] at hd
  rw [setConn_self, hfd]
  exact (h d hd hown).conn hwritten hpending

theorem Sound.deleteFileEvent (h : s.Sound cfg c) (howned : s.Owned) :
    (s.deleteFileEvent c (s.conns c).fd .aeWritable).Sound cfg c := by
  intro d hd hown
  obtain ⟨hr, hw⟩ := aeDeleteFileEvent_writable (s.conns c).fd howned.size
  exact (h d hd hown).unwatch hr hw

/-- `sock_writeable` is about to write: the socket is connected, and if this
starts a batch the earlier requests are answered. -/
def Ready (cfg : Config) (c : ℕ) (s : TcpThread π) : Prop :=
  ∃ d, s.current c = some d ∧ d.connected = true ∧
    ((s.conns c).written = 0 → d.sent = d.answered ∧ (s.conns c).pending = cfg.pipeline)

theorem Sound.of_conn {d : Descriptor} (hconn : s.conns c = k)
    (hfds : s.fds.get k.fd = some d) (hok : SocketOk cfg k (s.loop.events k.fd) d) :
    s.Sound cfg c := by
  subst hconn
  intro d' hd' _
  rw [Option.mem_def, current, hfds] at hd'
  obtain rfl := Option.some.inj hd'
  exact hok

theorem accept_current (cfg : Config) {d : Descriptor} (hd : s.current c = some d) (bytes : Bytes) :
    (accept cfg s c bytes).fds.get (s.conns c).fd = some (d.accepted cfg.pipeline
      (decide ((s.conns c).written = 0 ∧ bytes ≠ []))) :=
  FdTable.get_modify_self.trans (congrArg _ hd)

/-- Bytes are written, and the event is dropped after the last of them. -/
theorem advanceWritten_sound (howned : s.Owned) (ho : s.Own c) (hs : s.Sound cfg c)
    (hr : s.Ready cfg c) (bytes : Bytes) :
    ((accept cfg s c bytes).advanceWritten c bytes.length).Sound cfg c := by
  obtain ⟨d, hd, hconnected, hbatch⟩ := hr
  have hok := hs d hd (ho d hd)
  have hfds := accept_current cfg hd bytes
  generalize hfirst : decide ((s.conns c).written = 0 ∧ bytes ≠ []) = first at hfds
  have hstart : first = true → d.sent = d.answered ∧ (s.conns c).pending = cfg.pipeline := by
    intro h
    rw [← hfirst] at h
    exact hbatch (of_decide_eq_true h).1
  unfold advanceWritten
  simp only
  split
  · obtain ⟨hr, hw⟩ := aeDeleteFileEvent_writable (s.conns c).fd howned.size
    have hok' : SocketOk cfg { s.conns c with written := 0 } _ d :=
      { hok.unwatch hr hw with idle := fun _ _ hwatched => absurd hw hwatched }
    refine Sound.of_conn (k := { s.conns c with written := 0 }) setConn_self hfds ?_
    exact hok'.accept hconnected hstart rfl fun _ hwatched => absurd hw hwatched
  · refine Sound.of_conn (k := { s.conns c with
      written := (s.conns c).written + bytes.length }) setConn_self hfds ?_
    refine hok.accept hconnected hstart rfl ?_
    intro hzero _
    obtain ⟨hwritten, hlength⟩ : (s.conns c).written = 0 ∧ bytes.length = 0 :=
      Nat.add_eq_zero_iff.mp hzero
    refine ⟨?_, (hbatch hwritten).1⟩
    rw [← hfirst, List.length_eq_zero_iff.mp hlength]
    exact decide_eq_false fun h => h.2 rfl

theorem accept_trace (cfg : Config) (s : TcpThread π) (c : ℕ) (bytes : Bytes) :
    ∀ o ∈ ((accept cfg s c bytes).advanceWritten c bytes.length).trace, o ∈ s.trace ∨ o.OneBatch ∨
      o = .accepted c (s.current c) (decide ((s.conns c).written = 0 ∧ bytes ≠ [])) bytes := by
  intro o ho
  unfold advanceWritten at ho
  simp only at ho
  split at ho
  · rcases List.mem_cons.mp ho with rfl | ho
    · exact Or.inr (Or.inl trivial)
    · rcases List.mem_cons.mp ho with rfl | ho
      · exact Or.inr (Or.inr rfl)
      · exact Or.inl ho
  · rcases List.mem_cons.mp ho with rfl | ho
    · exact Or.inr (Or.inr rfl)
    · exact Or.inl ho

/-- What `sock_writeable` writes starts a batch on an idle socket only. -/
theorem advanceWritten_good (howned : s.Owned) (ho : s.Own c)
    (h : (∀ o ∈ s.trace, o.Answers) →
      s.Sound cfg c ∧ s.Ready cfg c ∧ ∀ o ∈ s.trace, o.OneBatch) (bytes : Bytes) :
    ((accept cfg s c bytes).advanceWritten c bytes.length).Good cfg c := by
  intro ha
  have he := (accept_effect cfg s c bytes).trans (advanceWritten_effect _ c bytes.length)
  obtain ⟨hs, hr, hidle⟩ := h fun o ho => ha o (he.grows o ho)
  refine ⟨advanceWritten_sound howned ho hs hr bytes, ?_⟩
  intro o hobs
  rcases accept_trace cfg s c bytes o hobs with hold | hnew | rfl
  · exact hidle o hold
  · exact hnew
  · intro hfirst
    obtain ⟨d, hd, -, hbatch⟩ := hr
    exact ⟨d, hd, (hbatch (of_decide_eq_true hfirst).1).1⟩

theorem sockWrite_good (connect : ConnectOutcome) :
    ∀ (write : Status ℕ) {s : TcpThread π}, s.Owned → s.Own c →
      ((∀ o ∈ s.trace, o.Answers) →
        s.Sound cfg c ∧ s.Ready cfg c ∧ ∀ o ∈ s.trace, o.OneBatch) →
      (sockWrite cfg s c connect write).Good cfg c := by
  have haccess {s : TcpThread π} (h : (∀ o ∈ s.trace, o.Answers) →
      s.Sound cfg c ∧ s.Ready cfg c ∧ ∀ o ∈ s.trace, o.OneBatch) :
      (∀ o ∈ (s.access .write c (s.conns c).fd).trace, o.Answers) →
        (s.access .write c (s.conns c).fd).Sound cfg c ∧
          (s.access .write c (s.conns c).fd).Ready cfg c ∧
          ∀ o ∈ (s.access .write c (s.conns c).fd).trace, o.OneBatch := by
    intro ha
    obtain ⟨hs, hr, hidle⟩ := h fun o ho => ha o (List.mem_cons_of_mem _ ho)
    refine ⟨hs, hr, ?_⟩
    intro o ho
    rcases List.mem_cons.mp ho with rfl | ho
    · trivial
    · exact hidle o ho
  intro write
  induction write with
  | ok n =>
      intro s howned ho h
      have hlocal := access_handled .write howned ho
      unfold sockWrite
      simp only
      split
      · exact advanceWritten_good hlocal.owned hlocal.own (haccess h) _
      · have herror := writeError_handled hlocal.owned hlocal.own
        exact tcpReconnectSocket_good herror.owned herror.own connect
          fun ha => (haccess h ha).2.2
  | error =>
      intro s howned ho h
      have hlocal := (access_handled .write howned ho).andThen writeError_handled
      exact tcpReconnectSocket_good hlocal.owned hlocal.own connect
        fun ha => (haccess h ha).2.2
  | retry =>
      intro s howned ho h ha
      obtain ⟨hs, -, hidle⟩ := haccess h ha
      exact ⟨hs, hidle⟩
  | again next ih =>
      intro s howned ho h
      have hlocal := access_handled .write howned ho
      exact ih hlocal.owned hlocal.own (haccess h)

theorem prepareBatch_conn (cfg : Config) (s : TcpThread π) (c : ℕ) (a : Answers) :
    ((prepareBatch cfg s c a).conns c).fd = (s.conns c).fd ∧
      ((prepareBatch cfg s c a).conns c).written = (s.conns c).written ∧
      ((prepareBatch cfg s c a).conns c).pending = cfg.pipeline ∧
      (prepareBatch cfg s c a).fds = s.fds ∧ (prepareBatch cfg s c a).loop = s.loop := by
  unfold prepareBatch
  simp only [setConn_self, Connection.startBatch_fd, Connection.startBatch_written,
    Connection.startBatch_pending]
  split
  · simp only [tick, observe, setConn_self]
    exact ⟨trivial, trivial, trivial, rfl, rfl⟩
  · exact ⟨rfl, rfl, trivial, rfl, rfl⟩

theorem prepareBatch_trace (cfg : Config) (s : TcpThread π) (c : ℕ) (a : Answers) :
    (prepareBatch cfg s c a).trace = s.trace ∨
      (prepareBatch cfg s c a).trace = .request c a.script :: s.trace := by
  unfold prepareBatch
  simp only [setConn, tick]
  split
  · exact Or.inr rfl
  · exact Or.inl rfl

/-- `c->fd` is a connected socket that is idle, or in the middle of writing
a batch. -/
def Writeable (c : ℕ) (s : TcpThread π) : Prop :=
  ∃ d, s.current c = some d ∧ d.connected = true ∧
    ((s.conns c).written = 0 → d.sent = d.answered)

theorem Writeable.setConn (h : s.Writeable c) (hfd : k.fd = (s.conns c).fd)
    (hwritten : k.written = (s.conns c).written) : (s.setConn c k).Writeable c := by
  obtain ⟨d, hd, hconnected, hidle⟩ := h
  refine ⟨d, ?_, hconnected, ?_⟩
  · rw [current, setConn_self, hfd]
    exact hd
  · rw [setConn_self, hwritten]
    exact hidle

/-- An idle socket is ready for the batch that is prepared. -/
theorem prepareBatch_ready (hs : s.Sound cfg c) (hw : s.Writeable c) (ho : s.Own c)
    (hwritten : (s.conns c).written = 0) (a : Answers) :
    (prepareBatch cfg s c a).Sound cfg c ∧ (prepareBatch cfg s c a).Ready cfg c := by
  obtain ⟨hfd, hsame, hpending, hfds, hloop⟩ := prepareBatch_conn cfg s c a
  obtain ⟨d, hd, hconnected, hidle⟩ := hw
  have hd' : (prepareBatch cfg s c a).fds.get ((prepareBatch cfg s c a).conns c).fd = some d := by
    rw [hfds, hfd]
    exact hd
  have hanswered := hidle hwritten
  refine ⟨Sound.of_conn rfl hd' ?_, d, hd', hconnected, fun _ => ⟨hanswered, hpending⟩⟩
  rw [hloop, hfd]
  have hok := hs d hd (ho d hd)
  exact
    { hok with
      pending := fun hlt => by omega
      idle := fun _ _ _ => hanswered }

theorem sockWriteable_good (a : Answers) (howned : s.Owned) (ho : s.Own c)
    (h : (∀ o ∈ s.trace, o.Answers) →
      s.Sound cfg c ∧ s.Writeable c ∧ ∀ o ∈ s.trace, o.OneBatch) :
    (sockWriteable cfg s c a).Good cfg c := by
  unfold sockWriteable
  split
  · rename_i hwritten
    have hasked := (tick_handled a.dt howned ho).andThen usecToNextSend_handled
    simp only
    split
    · have hdeleted := hasked.andThen (deleteFileEvent_handled .aeWritable)
      intro ha
      obtain ⟨hs, -, hidle⟩ := h fun o ho => ha o (List.mem_cons_of_mem _ ho)
      have hs' : ((s.tick a.dt).usecToNextSend c).2.Sound cfg c :=
        Sound.setConn (s := s.tick a.dt) hs rfl rfl rfl
      refine ⟨hs'.deleteFileEvent hasked.owned, ?_⟩
      intro o hobs
      rcases List.mem_cons.mp hobs with rfl | hobs
      · trivial
      · exact hidle o hobs
    · have hprepared := hasked.andThen (prepareBatch_handled cfg a)
      refine sockWrite_good a.connect a.write hprepared.owned hprepared.own ?_
      have hready (ha : ∀ o ∈ s.trace, o.Answers) := by
        obtain ⟨hs, hw, hidle⟩ := h ha
        have hs' : ((s.tick a.dt).usecToNextSend c).2.Sound cfg c :=
          Sound.setConn (s := s.tick a.dt) hs rfl rfl rfl
        have hw' : ((s.tick a.dt).usecToNextSend c).2.Writeable c :=
          Writeable.setConn (s := s.tick a.dt) hw rfl rfl
        have hzero : (((s.tick a.dt).usecToNextSend c).2.conns c).written = 0 := by
          rw [usecToNextSend, setConn_self]
          exact hwritten
        obtain ⟨hsound, hready⟩ := prepareBatch_ready hs' hw' hasked.own hzero a
        exact And.intro hsound (And.intro hready hidle)
      rcases prepareBatch_trace cfg ((s.tick a.dt).usecToNextSend c).2 c a with htrace | htrace
      · rw [htrace]
        exact hready
      · rw [htrace]
        intro ha
        obtain ⟨hsound, hready, hidle⟩ := hready fun o ho => ha o (List.mem_cons_of_mem _ ho)
        refine ⟨hsound, hready, ?_⟩
        intro o hobs
        rcases List.mem_cons.mp hobs with rfl | hobs
        · trivial
        · exact hidle o hobs
  · rename_i hwritten
    refine sockWrite_good a.connect a.write howned ho ?_
    intro ha
    obtain ⟨hs, ⟨d, hd, hconnected, -⟩, hidle⟩ := h ha
    exact ⟨hs, ⟨d, hd, hconnected, fun hzero => absurd hzero hwritten⟩, hidle⟩

/-! ## Receiving -/

theorem responseAnswered_current {d : Descriptor} (hd : s.current c = some d) :
    (s.responseAnswered c).fds.get (s.conns c).fd = some d.answer :=
  FdTable.get_modify_self.trans (congrArg _ hd)

/-- `c` registers `socket_writeable` for its socket. -/
theorem Sound.watch (h : s.Sound cfg c) (hw : ∀ d ∈ s.current c, d.owner = some c →
      d.connected = true ∧ ((s.conns c).written = 0 → d.sent = d.answered)) :
    (s.createFileEvent c (s.conns c).fd .aeWritable .socketWriteable).Sound cfg c := by
  rcases s.createFileEvent_cases c (s.conns c).fd .aeWritable .socketWriteable with
    heq | ⟨-, -, heq⟩
  · rw [heq]
    exact h
  · rw [heq]
    intro d hd hown
    obtain ⟨hconnected, hidle⟩ := hw d hd hown
    refine (h d hd hown).watch hconnected ?_ ?_ hidle
    · exact (congrArg FileEvent.rfileProc addSlot_events_self).trans rfl
    · exact (congrArg FileEvent.wfileProc addSlot_events_self).trans rfl

/-- A response is counted. After the last one of its batch the connection
waits for `AE_WRITABLE` again. -/
theorem decrementPending_sound {d : Descriptor} (hs : s.Sound cfg c) (ho : s.Own c)
    (hd : s.current c = some d) (hlt : d.answered < d.sent) :
    ((s.responseAnswered c).decrementPending c).Sound cfg c := by
  have hok := hs d hd (ho d hd)
  have hpending := hok.pending hlt
  have hsub : u64Sub (s.conns c).pending 1 = (s.conns c).pending - 1 :=
    u64Sub_of_le (by omega)
  have hfds := responseAnswered_current hd
  unfold decrementPending
  simp only
  rw [show (s.responseAnswered c).conns = s.conns from rfl]
  split
  · rename_i hzero
    have hanswered : ((s.responseAnswered c).setConn c { s.conns c with
        pending := u64Sub (s.conns c).pending 1, hasPending := false }).Sound cfg c :=
      Sound.of_conn setConn_self hfds (hok.answer hlt hsub rfl)
    have hwatched := hanswered.watch ?_
    · rw [setConn_self] at hwatched
      exact hwatched
    · intro d' hd' _
      rw [current, setConn_self] at hd'
      obtain rfl := Option.some.inj (hfds.symm.trans hd')
      refine ⟨hok.connected (by omega), ?_⟩
      intro _
      show d.sent = d.answered + 1
      omega
  · exact Sound.of_conn setConn_self hfds (hok.answer hlt hsub rfl)

theorem decrementPending_pending :
    ((s.decrementPending c).conns c).pending = u64Sub (s.conns c).pending 1 := by
  unfold decrementPending
  simp only
  split
  · rw [createFileEvent_conns, setConn_self]
  · rw [setConn_self]

theorem decrementPending_onlyAccesses : s.OnlyAccesses (s.decrementPending c) := by
  unfold decrementPending
  simp only
  split
  · exact createFileEvent_onlyAccesses (s := s.setConn c _)
  · exact fun o ho => Or.inl ho

theorem statsRequestCompleted_trace (cfg : Config) (s : TcpThread π) (c : ℕ)
    (target : Option Descriptor) : ∃ timing, (statsRequestCompleted cfg s c target).trace =
      .response c target (s.conns c).pending timing :: s.trace := by
  unfold statsRequestCompleted
  split
  · exact ⟨none, rfl⟩
  · exact ⟨some _, rfl⟩

theorem statsRequestCompleted_sound (h : s.Sound cfg c) (target : Option Descriptor) :
    (statsRequestCompleted cfg s c target).Sound cfg c := by
  unfold statsRequestCompleted
  split
  · exact h
  · exact Sound.setConn (k := (s.conns c).requestCompleted) h rfl rfl rfl

theorem responseCounted_good (status dt : ℕ) (ho : s.Own c) (h : s.Good cfg c) :
    (statsRequestCompleted cfg ((((if 399 < status then s.statusError else
      s).responseAnswered c).decrementPending c).tick dt) c (s.current c)).Good cfg c := by
  intro ha
  have hanswered := fun o hobs => ha o ((responseCounted_effect cfg s c status dt).grows o hobs)
  obtain ⟨hs, hidle⟩ := h hanswered
  generalize hstatus : (if 399 < status then s.statusError else s) = s₀ at ha ⊢
  obtain ⟨hfds, hsound, htrace⟩ : s₀.current c = s.current c ∧ s₀.Sound cfg c ∧
      s₀.trace = s.trace := by
    rw [← hstatus]
    split
    · exact ⟨rfl, hs, rfl⟩
    · exact ⟨rfl, hs, rfl⟩
  have ho₀ : s₀.Own c := by
    intro d hd
    rw [hfds] at hd
    exact ho d hd
  obtain ⟨timing, hnew⟩ := statsRequestCompleted_trace cfg
    (((s₀.responseAnswered c).decrementPending c).tick dt) c (s.current c)
  rw [hnew] at ha ⊢
  obtain ⟨d, hd, hlt⟩ := ha _ (List.mem_cons_self ..)
  rw [← hfds] at hd
  have hcounted : (((s₀.responseAnswered c).decrementPending c).tick dt).Sound cfg c :=
    decrementPending_sound hsound ho₀ hd hlt
  refine ⟨statsRequestCompleted_sound hcounted _, ?_⟩
  intro o hobs
  rcases List.mem_cons.mp hobs with rfl | hobs
  · intro d' hd'
    have hpending := (hsound d hd (ho₀ d hd)).pending hlt
    obtain rfl : d = d' := Option.some.inj (hd.symm.trans (hfds.trans hd'))
    refine decrementPending_pending.trans ?_
    refine (u64Sub_of_le (b := 1) ?_).trans ?_
    · show 1 ≤ (s₀.conns c).pending
      omega
    · show (s₀.conns c).pending - 1 = d.sent - (d.answered + 1)
      omega
  · rcases decrementPending_onlyAccesses o hobs with hold | hnew
    · exact hidle o (htrace ▸ hold)
    · exact hnew

theorem responseComplete_good (m : Completion) (a : ResponseAnswers) (howned : s.Owned)
    (ho : s.Own c) (h : s.Good cfg c) : (responseComplete cfg s c m a).Good cfg c := by
  have hcounted := responseCounted_handled cfg m.status a.dt howned ho
  have hgood := responseCounted_good m.status a.dt ho h
  unfold responseComplete
  simp only
  split
  · exact hgood
  · exact tcpReconnectSocket_good hcounted.owned hcounted.own a.connect fun ha => (hgood ha).2

theorem responsesComplete_good :
    ∀ (ms : List Completion) (as : List ResponseAnswers) {s : TcpThread π}, s.Owned →
      s.Own c → s.Good cfg c → (responsesComplete cfg c s ms as).Good cfg c
  | [], _, _, _, _, h => h
  | m :: ms, as, _, howned, ho, h => by
      have hcomplete := responseComplete_handled cfg m (as.headD {}) howned ho
      exact responsesComplete_good ms as.tail hcomplete.owned hcomplete.own
        (responseComplete_good m (as.headD {}) howned ho h)

theorem deliver_good (chunk : Bytes) (ho : s.Own c) (h : s.Good cfg c) :
    (s.deliver c chunk).Good cfg c := by
  intro ha
  obtain ⟨hs, hbatch⟩ := h fun o hobs => ha o (List.mem_cons_of_mem _ hobs)
  refine ⟨?_, ?_⟩
  · intro d' hd' _
    obtain ⟨d, hd, rfl⟩ := Option.map_eq_some_iff.mp (FdTable.get_modify_self.symm.trans hd')
    exact { hs d hd (ho d hd) with }
  · intro o hobs
    rcases List.mem_cons.mp hobs with rfl | hobs
    · trivial
    · exact hbatch o hobs

theorem parseChunk_good (chunk : Bytes) (answers : List ResponseAnswers) (howned : s.Owned)
    (ho : s.Own c) (h : s.Good cfg c) : (parseChunk cfg P s c chunk answers).2.Good cfg c := by
  have hdeliver := deliver_handled chunk howned ho
  have hparser := setConn_handled (k := { (s.deliver c chunk).conns c with
    parser := (P.execute (s.conns c).parser chunk).parser }) hdeliver.owned hdeliver.own rfl
  refine responsesComplete_good _ answers hparser.owned hparser.own ?_
  intro ha
  obtain ⟨hs, hbatch⟩ := deliver_good chunk ho h ha
  exact ⟨hs.setConn rfl rfl rfl, hbatch⟩

theorem readFailed_good (connect : ConnectOutcome) (howned : s.Owned) (ho : s.Own c)
    (h : s.Good cfg c) : (s.readFailed c connect).Good cfg c := by
  have herror := readError_handled howned ho
  exact tcpReconnectSocket_good herror.owned herror.own connect fun ha => (h ha).2

theorem access_good (kind : Access) (h : s.Good cfg c) : (s.access kind c fd).Good cfg c :=
  h.step (access_effect kind c fd) (onlyAccesses_of_cons rfl) fun hs => hs

theorem socketReadable_good (connect : ConnectOutcome) :
    ∀ (reads : List Read) {s : TcpThread π}, s.Owned → s.Own c → s.Good cfg c →
      (socketReadable cfg P c connect s reads).Good cfg c
  | [], _, _, _, h => h
  | .error :: _, _, howned, ho, h => by
      have haccess := access_handled .read howned ho
      exact readFailed_good connect haccess.owned haccess.own (access_good .read h)
  | .retry :: _, _, _, _, h => access_good .read h
  | .again :: reads, _, howned, ho, h => by
      have haccess := access_handled .read howned ho
      exact socketReadable_good connect reads haccess.owned haccess.own (access_good .read h)
  | .data chunk answers :: reads, s, howned, ho, h => by
      have haccess := access_handled .read howned ho
      have hgood : (s.access .read c (s.conns c).fd).Good cfg c := access_good .read h
      unfold socketReadable
      simp only
      split
      · have hparsed := parseChunk_handled cfg P (chunk.take cfg.recvbuf) answers
          haccess.owned haccess.own
        have hanswered := parseChunk_good (P := P) (chunk.take cfg.recvbuf) answers
          haccess.owned haccess.own hgood
        split
        · exact readFailed_good connect hparsed.owned hparsed.own hanswered
        · have hreceived := received_handled (n := (chunk.take cfg.recvbuf).length)
            hparsed.owned hparsed.own
          split
          · exact socketReadable_good connect reads hreceived.owned hreceived.own hanswered
          · exact hanswered
      · exact readFailed_good connect haccess.owned haccess.own hgood

/-! ## The connection of a socket -/

/-- `socket_connected` on a socket that connects: the two events are
registered, and nothing was sent before. -/
theorem socketConnected_sound (howned : s.Owned) (ho : s.Own c)
    (hfd : (s.loop.events (s.conns c).fd).isNone = false) (hs : s.Sound cfg c) {d : Descriptor}
    (hd : s.current c = some d) (hconnecting : d.connected = false)
    (connect : ConnectOutcome) (u : Unit) :
    (socketConnected P s (s.conns c).fd c connect (.ok u)).Sound cfg c := by
  have hset := setConn_handled (k := { s.conns c with parser := P.init, written := 0 }) howned
    ho rfl
  have hreadable := createFileEvent_handled .aeReadable .socketReadable (Or.inl rfl)
    hset.owned hset.own
  simp only [setConn_self] at hreadable
  have hfirst := createFileEvent_registered (c := c) hset.owned hfd .aeReadable .socketReadable
  have hslot : (((s.setConn c { s.conns c with parser := P.init, written := 0 }).createFileEvent
      c (s.conns c).fd .aeReadable .socketReadable).loop.events (s.conns c).fd) =
        (s.loop.events (s.conns c).fd).add .aeReadable .socketReadable c := by
    rw [hfirst]
    exact addSlot_events_self
  have hsecond := createFileEvent_registered (c := c) hreadable.owned
    (by rw [hslot]; exact add_not_isNone (Or.inl rfl)) .aeWritable .socketWriteable
  have hok := hs d hd (ho d hd)
  unfold socketConnected
  simp only
  rw [hsecond, hfirst]
  rw [hfirst] at hslot
  refine Sound.of_conn (k := { s.conns c with parser := P.init, written := 0 }) (d := d.connect)
    setConn_self ?_ ?_
  · exact FdTable.get_modify_self.trans (congrArg _ hd)
  · refine hok.connect hconnecting ?_ ?_
    · refine (congrArg FileEvent.rfileProc addSlot_events_self).trans ?_
      rw [hslot]
      rfl
    · exact (congrArg FileEvent.wfileProc addSlot_events_self).trans rfl

theorem socketConnected_good (connect : ConnectOutcome) :
    ∀ (status : Status Unit) {s : TcpThread π}, s.Owned → s.Own c →
      (s.loop.events (s.conns c).fd).isNone = false →
      ((∀ o ∈ s.trace, o.Answers) → (s.Sound cfg c ∧
        ∃ d, s.current c = some d ∧ d.connected = false) ∧ ∀ o ∈ s.trace, o.OneBatch) →
      (socketConnected P s (s.conns c).fd c connect status).Good cfg c
  | .ok u, s, howned, ho, hfd, h => by
      have heffect := socketConnected_effect P (s.conns c).fd c connect (.ok u) s
      have haccesses : s.OnlyAccesses (socketConnected P s (s.conns c).fd c connect (.ok u)) :=
        (createFileEvent_onlyAccesses (s := s.setConn c { s.conns c with
          parser := P.init, written := 0 })).trans createFileEvent_onlyAccesses
      intro ha
      obtain ⟨⟨hs, d, hd, hconnecting⟩, hidle⟩ := h fun o hobs => ha o (heffect.grows o hobs)
      refine ⟨socketConnected_sound howned ho hfd hs hd hconnecting connect u, ?_⟩
      intro o hobs
      rcases haccesses o hobs with hold | hnew
      · exact hidle o hold
      · exact hnew
  | .error, _, howned, ho, _, h => by
      have herror := connectError_handled howned ho
      exact tcpReconnectSocket_good herror.owned herror.own connect fun ha => (h ha).2
  | .retry, _, _, _, _, h => fun ha => ⟨(h ha).1.1, (h ha).2⟩
  | .again next, _, howned, ho, hfd, h => socketConnected_good connect next howned ho hfd h

/-! ## Events -/

/-- When a `delay_request` timer of `c` finds that it is time to send, the
socket `c->fd` is connected, and it is idle unless a batch is being
written. -/
def SendsWhenIdle (s : TcpThread π) : TcpEvent → Prop
  | .timer id a => ∀ te ∈ s.loop.timeEvents.find? (·.id == id), te.timeProc = .delayRequest →
      ((s.tick a.dt).usecToNextSend te.clientData).1 = 0 →
        ∀ d ∈ s.current te.clientData, d.owner = some te.clientData ∧ d.connected = true ∧
          ((s.conns te.clientData).written = 0 → d.sent = d.answered)
  | _ => True

instance (s : TcpThread π) (e : TcpEvent) : Decidable (SendsWhenIdle s e) :=
  match e with
  | .timer id a => inferInstanceAs (Decidable (∀ te ∈ s.loop.timeEvents.find? (·.id == id),
      te.timeProc = .delayRequest →
        ((s.tick a.dt).usecToNextSend te.clientData).1 = 0 →
          ∀ d ∈ s.current te.clientData, d.owner = some te.clientData ∧ d.connected = true ∧
            ((s.conns te.clientData).written = 0 → d.sent = d.answered)))
  | .readable _ _ | .writable _ _ => isTrue trivial

theorem SendsWhenIdle.own {e : TcpEvent} (h : SendsWhenIdle s e) : SendsOnOwn s e := by
  cases e with
  | readable => trivial
  | writable => trivial
  | timer id a => exact fun te hte hproc hsend d hd => (h te hte hproc hsend d hd).1

theorem runFileProc_good (howned : s.Owned)
    (hproc : (s.loop.events fd).rfileProc = some proc ∨
      (s.loop.events fd).wfileProc = some proc)
    (hrun : s.runFileProc cfg P fd (s.loop.events fd).clientData a proc = some s')
    (h : s.Good cfg (s.loop.events fd).clientData) :
    s'.Good cfg (s.loop.events fd).clientData := by
  have hslot := not_isNone_of_slot hproc
  have ho := howned.own_of_slot hslot
  have hname := howned.fd_of_slot hslot
  obtain ⟨d, hd, -⟩ := howned.slot fd hslot
  generalize (s.loop.events fd).clientData = c at *
  subst hname
  cases proc with
  | socketConnected =>
      obtain rfl := Option.some.inj hrun
      refine socketConnected_good a.connect a.connected howned ho hslot ?_
      intro ha
      obtain ⟨hs, hidle⟩ := h ha
      refine ⟨⟨hs, d, hd, ?_⟩, hidle⟩
      have hok := hs d hd (ho d hd)
      by_contra hconnected
      rcases hproc with hr | hw
      · cases hok.rfileProc (Bool.eq_true_of_not_eq_false hconnected) _ hr
      · cases hok.wfileProc (Bool.eq_true_of_not_eq_false hconnected) _ hw
  | socketReadable =>
      obtain rfl := Option.some.inj hrun
      exact socketReadable_good a.connect a.reads howned ho h
  | socketWriteable =>
      rw [runFileProc, if_pos rfl] at hrun
      obtain rfl := Option.some.inj hrun
      refine sockWriteable_good a howned ho ?_
      intro ha
      obtain ⟨hs, hidle⟩ := h ha
      have hok := hs d hd (ho d hd)
      have hconnected : d.connected = true := by
        by_contra hc
        cases (hok.connecting (Bool.eq_false_iff.mpr hc)).2 _ hproc
      refine ⟨hs, ⟨d, hd, hconnected, ?_⟩, hidle⟩
      intro hwritten
      rcases hproc with hr | hw
      · cases hok.rfileProc hconnected _ hr
      · refine hok.idle hconnected hwritten ?_
        rw [hw]
        exact fun hnone => by cases hnone

theorem delayRequest_good
    (hok : ((s.tick a.dt).usecToNextSend c).1 = 0 → ∀ d ∈ s.current c,
      d.owner = some c ∧ d.connected = true ∧ ((s.conns c).written = 0 → d.sent = d.answered))
    (h : s.Good cfg c) : (s.delayRequest c a).2.Good cfg c := by
  have hasked : ((s.tick a.dt).usecToNextSend c).2.Good cfg c := by
    intro ha
    obtain ⟨hs, hidle⟩ := h ha
    exact ⟨Sound.setConn (s := s.tick a.dt) hs rfl rfl rfl, hidle⟩
  unfold delayRequest
  simp only
  split
  · exact hasked
  · rename_i hsend
    refine hasked.step (createFileEvent_effect _ _) createFileEvent_onlyAccesses ?_
    intro hs
    refine hs.watch ?_
    intro d hd _
    rw [usecToNextSend, current, setConn_self] at hd
    obtain ⟨-, hconnected, hidle⟩ := hok (not_not.mp hsend) d hd
    refine ⟨hconnected, ?_⟩
    rw [usecToNextSend, setConn_self]
    exact hidle

theorem runTimeEvent_good (hsetup : s.Setup) (howned : s.Owned) (hte : te ∈ s.loop.timeEvents)
    (hok : te.timeProc = .delayRequest →
      ((s.tick a.dt).usecToNextSend te.clientData).1 = 0 → ∀ d ∈ s.current te.clientData,
        d.owner = some te.clientData ∧ d.connected = true ∧
          ((s.conns te.clientData).written = 0 → d.sent = d.answered))
    (h : s.Good cfg te.clientData) : (s.runTimeEvent te a).Good cfg te.clientData := by
  unfold runTimeEvent
  split
  · rename_i hproc
    have hscheduled := (tick_local te.clientData a.dt howned).trans
      (setConn_local (c := te.clientData)
        (k := { s.conns te.clientData with
          pacer := { (s.conns te.clientData).pacer with threadStart := s.clock + a.dt } })
        (tick_local te.clientData a.dt howned).owned rfl)
    have hclosed := (hsetup.fresh te hte hproc).owners
    intro ha
    refine ⟨tcpConnectSocket_sound hscheduled.owned hclosed a.connect, ?_⟩
    have hidle := (h fun o ho =>
      ha o ((delayedInitialConnect_effect s a (hsetup.fresh te hte hproc).started).grows o ho)).2
    intro o hobs
    rcases tcpConnectSocket_onlyAccesses a.connect o hobs with hold | hnew
    · exact hidle o hold
    · exact hnew
  · rename_i hproc
    have hrequest := delayRequest_good (hok hproc) h
    simp only
    split
    · exact hrequest
    · exact hrequest

/-- The sockets of the other connections are not touched. -/
theorem Good.other (h : s.Good cfg c') (hc : c' ≠ c) (he : s.Effect c s') (hl : s.Local c s')
    (hgood : s'.Good cfg c) : s'.Good cfg c' := by
  intro ha
  obtain ⟨hs, -⟩ := h fun o ho => ha o (he.grows o ho)
  refine ⟨?_, (hgood ha).2⟩
  intro d hd hown
  have hne : d.owner ≠ some c := by
    rw [hown]
    exact fun h => hc (Option.some.inj h)
  rw [Option.mem_def, current, he.conns c' hc, hl.fds _ d hne] at hd
  rw [he.conns c' hc, hl.slots _ d hd hne]
  exact hs d hd hown

theorem Good.all (h : ∀ c, s.Good cfg c) (he : s.Effect c s') (hl : s.Local c s')
    (hgood : s'.Good cfg c) (c' : ℕ) : s'.Good cfg c' := by
  by_cases hc : c' = c
  · rw [hc]
    exact hgood
  · exact (h c').other hc he hl hgood

theorem tcpStep_good {e : TcpEvent} (hsetup : s.Setup) (howned : s.Owned)
    (h : ∀ c, s.Good cfg c) (hstep : tcpStep cfg P s e = some s') (hok : SendsWhenIdle s e) :
    ∀ c, s'.Good cfg c := by
  cases e with
  | readable fd a =>
      obtain ⟨proc, hproc, hrun⟩ := Option.bind_eq_some_iff.mp hstep
      have hlocal := runFileProc_handled howned (not_isNone_of_slot (Or.inl hproc)) hrun
      exact Good.all h (runFileProc_effect hrun) hlocal.toLocal
        (runFileProc_good howned (Or.inl hproc) hrun (h _))
  | writable fd a =>
      obtain ⟨proc, hproc, hrun⟩ := Option.bind_eq_some_iff.mp hstep
      have hlocal := runFileProc_handled howned (not_isNone_of_slot (Or.inr hproc)) hrun
      exact Good.all h (runFileProc_effect hrun) hlocal.toLocal
        (runFileProc_good howned (Or.inr hproc) hrun (h _))
  | timer id a =>
      obtain ⟨te, hfind, rfl⟩ := Option.map_eq_some_iff.mp hstep
      have hte := List.mem_of_find?_eq_some hfind
      exact Good.all h (runTimeEvent_effect hsetup hte a)
        (runTimeEvent_local hsetup howned hte (hok.own te hfind))
        (runTimeEvent_good hsetup howned hte (hok te hfind) (h _))

end TcpThread

open TcpThread

variable {π : Type*}

theorem tcp_good {cfg : Config} {P : ResponseParser π} {s : TcpThread π}
    (hs : (tcpThread cfg P).ReachableWith SendsWhenIdle s) :
    s.Setup ∧ s.Owned ∧ ∀ c, s.Good cfg c := by
  refine hs.invariant (P := fun s => s.Setup ∧ s.Owned ∧ ∀ c, s.Good cfg c) ?_ ?_
  · rintro s ⟨clock, reserved, rfl⟩
    refine ⟨initial_setup cfg P clock reserved, initial_owned cfg P clock reserved, ?_⟩
    intro c _
    refine ⟨?_, fun o ho => by cases ho⟩
    intro d hd hown
    rw [initial_owner cfg P clock reserved hd] at hown
    cases hown
  · rintro s e s' ⟨hsetup, howned, hgood⟩ hstep hok
    obtain ⟨c, hlocal⟩ := tcpStep_local hsetup howned hstep hok.own
    exact ⟨(tcpStep_effect hsetup hstep).1, hlocal.owned,
      tcpStep_good hsetup howned hgood hstep hok⟩

/-- In every run whose `delay_request` timers never find it time to send on
a socket that is not connected yet or has a batch under way, and whose
server answers requests only: `sock_writeable` starts a batch only on a
socket whose requests have all been answered, and a socket never has more
than `cfg.pipeline` requests unanswered. -/
theorem tcp_one_batch (cfg : Config) (P : ResponseParser π) {s : TcpThread π}
    (hs : (tcpThread cfg P).ReachableWith SendsWhenIdle s)
    (hserver : ∀ o ∈ s.trace, o.Answers) :
    (∀ c target bytes, .accepted c target true bytes ∈ s.trace →
        ∃ d, target = some d ∧ d.sent = d.answered) ∧
      ∀ c fd d, s.fds.get fd = some d → d.owner = some c →
        d.answered ≤ d.sent ∧ d.sent - d.answered ≤ cfg.pipeline := by
  obtain ⟨-, howned, hgood⟩ := tcp_good hs
  refine ⟨?_, ?_⟩
  · intro c target bytes ho
    exact (hgood c hserver).2 _ ho rfl
  · intro c fd d hd hown
    have hname := howned.name fd d c hd hown
    subst hname
    have hok := (hgood c hserver).1 d hd hown
    exact ⟨hok.answered, hok.bound⟩

/-- In the run of one request all responses answer a request, and the batch
was started on an idle socket. -/
theorem tcp_one_batch_one :
    ∃ s, (tcpThread twoConnections httpParser).ReachableWith SendsWhenIdle s ∧
      (∀ o ∈ s.trace, o.Answers) ∧
      (∃ target bytes, .accepted 0 target true bytes ∈ s.trace ∧
        ∃ d, target = some d ∧ d.sent = d.answered) ∧
      ∃ d, s.fds.get 4 = some d ∧ d.sent - d.answered ≤ 1 := by
  obtain ⟨s, hs, hview⟩ : ∃ s,
      (tcpThread twoConnections httpParser).ReachableWith SendsWhenIdle s ∧
      (decide (∀ o ∈ s.trace, o.Answers), s.fds.get 4, s.trace[5]?) =
        (true, some ⟨some 0, true, 1, 1, [emptyResponse]⟩, some (TcpObservation.accepted 0
          (some ⟨some 0, true, 0, 0, []⟩) true twoConnections.request)) :=
    exists_reachableWith_of_runEvents (fun s : TcpThread HttpParser =>
      (decide (∀ o ∈ s.trace, o.Answers), s.fds.get 4, s.trace[5]?)) oneRequest
      twoConnectionsStart_initial (by decide +kernel)
  obtain ⟨hanswers, hfd, haccepted⟩ : _ ∧ _ ∧ _ := by
    simpa only [Prod.mk.injEq] using hview
  obtain ⟨hidle, hbound⟩ :=
    tcp_one_batch twoConnections httpParser hs (of_decide_eq_true hanswers)
  have hmem := List.mem_of_getElem? haccepted
  exact ⟨s, hs, of_decide_eq_true hanswers, ⟨_, _, hmem, hidle _ _ _ hmem⟩,
    _, hfd, (hbound 0 4 _ hfd rfl).2⟩

/-- Connection 0 waits for its `delay_request` timer when its socket fails.
The new socket makes a timer of its own at time 3000, sends when the old
one fires at time 10100, and is still waiting for the response when its
own fires at time 11000. -/
def twoTimers : List TcpEvent :=
  [.timer 0 { dt := 5 }, .writable 4 { dt := 10 },
    .writable 4 { dt := 10, startDt := 5, write := .ok 18 },
    .readable 4 { reads := [.data emptyResponse [{ dt := 100 }]] },
    .writable 4 { dt := 10 },
    .readable 4 { reads := [.error] }, .writable 4 { }, .writable 4 { dt := 2870 },
    .timer 2 { dt := 7100 }, .writable 4 { write := .ok 18 },
    .timer 3 { dt := 900 }, .writable 4 { write := .ok 18 }]

/-- A second batch is then started on the socket, which has two requests
unanswered at a pipeline of one. -/
theorem delay_request_starts_second_batch :
    ∃ s, (tcpThread twoConnections httpParser).Reachable s ∧ (∀ o ∈ s.trace, o.Answers) ∧
      (∃ d bytes, .accepted 0 (some d) true bytes ∈ s.trace ∧ d.answered < d.sent) ∧
      ∃ d, s.fds.get 4 = some d ∧ twoConnections.pipeline < d.sent - d.answered := by
  obtain ⟨s, hs, hview⟩ : ∃ s, (tcpThread twoConnections httpParser).Reachable s ∧
      (decide (∀ o ∈ s.trace, o.Answers), s.fds.get 4, s.trace[1]?) =
        (true, some ⟨some 0, true, 2, 0, []⟩, some (TcpObservation.accepted 0
          (some ⟨some 0, true, 1, 0, []⟩) true twoConnections.request)) :=
    exists_reachable_of_runEvents (fun s : TcpThread HttpParser =>
      (decide (∀ o ∈ s.trace, o.Answers), s.fds.get 4, s.trace[1]?)) twoTimers
      twoConnectionsStart_initial (by decide +kernel)
  obtain ⟨hanswers, hfd, haccepted⟩ : _ ∧ _ ∧ _ := by
    simpa only [Prod.mk.injEq] using hview
  exact ⟨s, hs, of_decide_eq_true hanswers,
    ⟨_, _, List.mem_of_getElem? haccepted, by decide⟩, _, hfd, by decide⟩

end WrkQuic
