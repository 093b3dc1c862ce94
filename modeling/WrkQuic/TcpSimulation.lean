import WrkQuic.TcpSeen

/-!
# A thread runs its connections

What a thread holds of connection `c` (`TcpThread.seen`) changes only in
handlers of `c`, and every handler is a sequence of the steps of the
connection machine. So each connection of a thread that is reached by a run
is in a state that its machine can reach (`tcp_conn_reachable`).
-/

namespace WrkQuic

open Runs

namespace TcpThread

variable {π : Type*}

variable {cfg : Config} {P : ResponseParser π} {c c' fd n : ℕ} {s s' s₁ s₂ : TcpThread π}
  {k : Connection π} {mask : Mask} {proc : FileProc} {o : TcpObservation} {a : Answers}
  {phase phase' : Phase} {te : TimeEvent TimeProc ℕ} {d : Descriptor}

/-! ## Handlers -/

/-- The machine of `c` has come as far as the thread, which works on `c`. -/
structure Sim (cfg : Config) (P : ResponseParser π) (c : ℕ) (p : Policy π) (phase : Phase)
    (s : TcpThread π) : Prop where
  owned : s.Owned
  own : s.Own c
  runs : (tcpConn cfg P c).ReachableWith p.Meets (s.seen c phase)

variable {p : Policy π}

theorem Sim.act (h : s.Sim cfg P c p phase) (hs : s.Handled c s') (act : TcpAct)
    (hallowed : act.Allowed P c (s.seen c phase)) (hp : p.Meets (s.seen c phase) act)
    (heq : s'.seen c phase' = act.apply cfg P c (s.seen c phase)) : s'.Sim cfg P c p phase' where
  owned := hs.owned
  own := hs.own
  runs := .step h.runs ⟨hallowed, heq⟩ hp

/-- A step that `c` does not see. -/
theorem Sim.skip (h : s.Sim cfg P c p phase) (hs : s.Handled c s')
    (heq : s'.seen c phase = s.seen c phase) : s'.Sim cfg P c p phase where
  owned := hs.owned
  own := hs.own
  runs := heq ▸ h.runs

/-- An open socket is registered. -/
theorem Sim.slot (h : s.Sim cfg P c p phase) (hopen : (s.socketOf c).isSome = true) :
    (s.loop.events (s.conns c).fd).isNone = false :=
  not_isNone_of_reader ((tcpConn_wired h.runs).reader.trans hopen)

/-- How `tcp_connect_socket` ends for a connection whose socket is
registered. -/
def Fits (v : TcpConn π) (connect : ConnectOutcome) (r : Attempt) : Prop :=
  v.reader.isSome = true → connect = .started → r.fd.isSome = true

theorem reconnect_seen (h : s.Owned) (ho : s.Own c) (connect : ConnectOutcome) :
    ∃ r : Attempt, r.Silent c ∧ (∀ phase, Fits (s.seen c phase) connect r) ∧
      ∀ phase, (s.tcpReconnectSocket c connect).seen c phase = (s.seen c phase).reconnect c r := by
  obtain ⟨r, hsilent, hopen, hseen⟩ := tcpReconnectSocket_seen h ho connect
  refine ⟨r, hsilent, ?_, hseen⟩
  intro phase hreader hconnect
  exact hopen hconnect (h.fd_lt (not_isNone_of_reader hreader))

theorem Sim.reconnect (h : s.Sim cfg P c p phase) (connect : ConnectOutcome)
    (hphase : ∀ replaced m ms, phase ≠ .reading replaced (m :: ms))
    (hcalled : phase ≠ .idle ∨ ∃ proc, (s.seen c phase).Dispatched proc)
    (hp : ∀ v r, Fits v connect r → p.reconnect v r) :
    (s.tcpReconnectSocket c connect).Sim cfg P c p .idle := by
  obtain ⟨r, hsilent, hfits, hseen⟩ := reconnect_seen h.owned h.own connect
  exact h.act (tcpReconnectSocket_handled h.owned h.own connect) (.reconnect r)
    ⟨hphase, hcalled, hsilent⟩
    (hp _ _ (hfits phase))
    (congrArg (fun v : TcpConn π => { v with phase := Phase.idle }) (hseen phase))

/-! ## Sending -/

theorem Sim.pace (h : s.Sim cfg P c p .idle) : (s.usecToNextSend c).2.Sim cfg P c p .idle :=
  h.act (usecToNextSend_handled h.owned h.own) (.pace _) ⟨rfl, s.clock, rfl⟩ trivial
    (seen_setConn rfl)

theorem Sim.tick (h : s.Sim cfg P c p phase) (dt : ℕ) : (s.tick dt).Sim cfg P c p phase :=
  h.skip (tick_handled dt h.owned h.own) rfl

theorem Sim.write (h : s.Sim cfg P c p phase)
    (hcalled : (s.seen c phase).Dispatched .socketWriteable) :
    (s.access .write c (s.conns c).fd).Sim cfg P c p phase :=
  h.act (access_handled .write h.owned h.own) (.call .write) hcalled trivial
    (seen_access .write h.own)

theorem seen_accept (phase : Phase) (h : s.Owned) (ho : s.Own c) (bytes : Bytes) :
    ((TcpThread.accept cfg s c bytes).advanceWritten c bytes.length).seen c phase =
      (s.seen c phase).accept cfg c bytes := by
  have haccept := accept_handled cfg bytes h ho
  have hobserve (first : Bool) := observe_handled (o := .accepted c (s.current c) first bytes) h ho
    trivial
  have hseen : (TcpThread.accept cfg s c bytes).seen c phase =
      { (s.seen c phase).observe (.accepted c (s.seen c phase).socket
          (decide ((s.conns c).written = 0 ∧ bytes ≠ [])) bytes) with
        socket := (s.seen c phase).socket.map (Descriptor.accepted · cfg.pipeline
          (decide ((s.conns c).written = 0 ∧ bytes ≠ []))) } := by
    have hmodify := seen_modify phase
      (f := (·.accepted cfg.pipeline (decide ((s.conns c).written = 0 ∧ bytes ≠ []))))
      (fun _ => rfl) (hobserve (decide ((s.conns c).written = 0 ∧ bytes ≠ []))).owned ho
    rw [seen_observe (c := c) rfl, ← ho.socketOf] at hmodify
    rw [TcpThread.accept, ← ho.socketOf]
    exact hmodify
  have hset (k : Connection π) (hfd : k.fd = (s.conns c).fd) :
      ((TcpThread.accept cfg s c bytes).setConn c k).seen c phase =
        { (TcpThread.accept cfg s c bytes).seen c phase with conn := k } := seen_setConn hfd
  unfold advanceWritten TcpConn.accept
  simp only
  split
  · rename_i hend
    have hstart := haccept.andThen fun h ho => setConn_handled
      (k := { (TcpThread.accept cfg s c bytes).conns c with written := 0 }) h ho rfl
    have hdelete := seen_unwatch phase hstart.owned hstart.own
    rw [setConn_self] at hdelete
    rw [if_pos (by exact hend)]
    refine hdelete.trans ((congrArg (·.unwatch c)
      (hset { s.conns c with written := 0 } rfl)).trans ?_)
    rw [hseen]
    rfl
  · rename_i hmore
    rw [if_neg (by exact hmore)]
    refine (hset { s.conns c with written := (s.conns c).written + bytes.length } rfl).trans ?_
    rw [hseen]
    rfl

theorem Sim.sockWrite {connect : ConnectOutcome}
    (hconnect : ∀ v r, Fits v connect r → p.reconnect v r) :
    ∀ (write : Status ℕ) {s : TcpThread π}, s.Sim cfg P c p phase →
      (phase = .writing ∨ phase = .idle ∧ (s.conns c).written ≠ 0) →
      (s.seen c phase).Dispatched .socketWriteable →
      (∀ v : TcpConn π, v.conn.written = (s.conns c).written → write.last = .retry →
        p.blocked v) →
      (TcpThread.sockWrite cfg s c connect write).Sim cfg P c p .idle
  | .ok n, s, h, hphase, hcalled, _ => by
      have hwrite := h.write hcalled
      unfold TcpThread.sockWrite
      simp only
      split
      · rename_i hopen
        rw [← h.own.socketOf] at hopen
        exact hwrite.act ((accept_handled cfg _ hwrite.owned hwrite.own).andThen
          fun h ho => advanceWritten_handled _ h ho) (.accept _)
          ⟨hphase, hcalled, hopen, n, rfl⟩ trivial
          (congrArg (fun v : TcpConn π => { v with phase := Phase.idle })
            (seen_accept phase hwrite.owned hwrite.own _))
      · have herror := hwrite.skip (writeError_handled hwrite.owned hwrite.own) rfl
        refine herror.reconnect connect ?_ (Or.inr ⟨_, hcalled⟩) hconnect
        rintro replaced m ms rfl
        rcases hphase with h | ⟨h, -⟩ <;> cases h
  | .error, s, h, hphase, hcalled, _ => by
      have hwrite := h.write hcalled
      have herror := hwrite.skip (writeError_handled hwrite.owned hwrite.own) rfl
      refine herror.reconnect connect ?_ (Or.inr ⟨_, hcalled⟩) hconnect
      rintro replaced m ms rfl
      rcases hphase with h | ⟨h, -⟩ <;> cases h
  | .retry, s, h, hphase, hcalled, hblocked => by
      have hwrite := h.write hcalled
      exact hwrite.act (Handled.refl hwrite.owned hwrite.own) .blocked ⟨hphase, hcalled⟩
        (hblocked _ rfl rfl) rfl
  | .again next, s, h, hphase, hcalled, hblocked =>
      Sim.sockWrite hconnect next (h.write hcalled) hphase hcalled hblocked

theorem seen_prepareBatch (phase : Phase) (a : Answers) :
    (prepareBatch cfg s c a).seen c phase =
      (s.seen c phase).prepare cfg c a.script (s.clock + a.startDt) := by
  unfold prepareBatch TcpConn.prepare
  simp only
  split
  · have hset : (s.setConn c { s.conns c with request := a.script }).seen c phase =
        { s.seen c phase with conn := { s.conns c with request := a.script } } :=
      seen_setConn rfl
    have hrequest : (((s.setConn c { s.conns c with request := a.script }).observe
        (.request c a.script)).tick a.startDt).seen c phase =
        { s.seen c phase with conn := { s.conns c with request := a.script } }.observe
          (.request c a.script) := by
      rw [seen_tick, ← hset]
      exact seen_observe (c := c) (o := .request c a.script) rfl
    have hconn : (((s.setConn c { s.conns c with request := a.script }).observe
        (.request c a.script)).tick a.startDt).conns c =
        { s.conns c with request := a.script } := setConn_self
    refine (seen_setConn (Connection.startBatch_fd ..)).trans ?_
    rw [hrequest, hconn]
    rfl
  · exact seen_setConn (s := s.tick a.startDt) (Connection.startBatch_fd ..)

theorem usecToNextSend_conns : (s.usecToNextSend c).2.conns c =
    { s.conns c with pacer := ((s.conns c).pacer.usecToNextSend s.clock).2 } := setConn_self

theorem seen_usecToNextSend : (s.usecToNextSend c).2.seen c phase =
    { s.seen c phase with
      conn := { s.conns c with pacer := ((s.conns c).pacer.usecToNextSend s.clock).2 } } :=
  seen_setConn rfl

/-- `sock_writeable` starts a batch: none is half written, and it is time to
send. -/
def Sends (s : TcpThread π) (c : ℕ) (a : Answers) : Prop :=
  (s.conns c).written = 0 ∧ ((s.tick a.dt).usecToNextSend c).1 = 0

instance (s : TcpThread π) (c : ℕ) (a : Answers) : Decidable (s.Sends c a) :=
  inferInstanceAs (Decidable (_ ∧ _))

theorem Sim.sockWriteable {a : Answers} (hscript : s.Sends c a → p.script a.script)
    (hconnect : ∀ v r, Fits v a.connect r → p.reconnect v r)
    (hblocked : ∀ v : TcpConn π, (v.conn.written = 0 → s.Sends c a) →
      a.write.last = .retry → p.blocked v)
    (h : s.Sim cfg P c p .idle) (hcalled : (s.seen c .idle).Dispatched .socketWriteable) :
    (TcpThread.sockWriteable cfg s c a).Sim cfg P c p .idle := by
  unfold TcpThread.sockWriteable
  split
  · rename_i hwritten
    have hasked := (h.tick a.dt).pace
    have hconn : ((s.tick a.dt).usecToNextSend c).2.conns c = { s.conns c with
        pacer := ((s.conns c).pacer.usecToNextSend (s.clock + a.dt)).2 } := usecToNextSend_conns
    have hwritten' : (((s.tick a.dt).usecToNextSend c).2.conns c).written = 0 := by
      rw [hconn]
      exact hwritten
    have hcalled' : (((s.tick a.dt).usecToNextSend c).2.seen c .idle).Dispatched
        .socketWriteable := by
      rw [seen_usecToNextSend]
      exact hcalled
    simp only
    split
    · refine hasked.act (((deleteFileEvent_handled .aeWritable hasked.owned hasked.own)).andThen
        (createTimeEvent_handled .delayRequest)) .postpone ⟨rfl, hcalled', hwritten'⟩ trivial ?_
      rw [seen_arm, seen_unwatch _ hasked.owned hasked.own]
      rfl
    · rename_i htime
      have hsends : s.Sends c a := ⟨hwritten, not_not.mp htime⟩
      have hprepared : (prepareBatch cfg ((s.tick a.dt).usecToNextSend c).2 c a).Sim cfg P c p
          .writing :=
        hasked.act (prepareBatch_handled cfg a hasked.owned hasked.own) (.prepare a.script _)
          ⟨rfl, hcalled', hwritten'⟩ (hscript hsends)
          (congrArg (fun v : TcpConn π => { v with phase := Phase.writing })
            (seen_prepareBatch .idle a))
      refine Sim.sockWrite hconnect a.write hprepared (Or.inl rfl) ?_
        fun v _ => hblocked v fun _ => hsends
      rw [seen_prepareBatch]
      unfold TcpConn.prepare
      simp only
      split
      · exact hcalled'
      · exact hcalled'
  · rename_i hwritten
    exact Sim.sockWrite hconnect a.write h (Or.inr ⟨rfl, hwritten⟩) hcalled
      fun v hv => hblocked v fun hzero => absurd (hv.symm.trans hzero) hwritten

/-! ## Receiving -/

theorem seen_decrementPending (h : s.Owned) (ho : s.Own c)
    (hslot : (s.socketOf c).isSome = true → (s.loop.events (s.conns c).fd).isNone = false) :
    (s.decrementPending c).seen c phase = (s.seen c phase).decrementPending c := by
  unfold TcpThread.decrementPending TcpConn.decrementPending
  simp only
  split
  · rename_i hlast
    generalize hk : ({ s.conns c with
      pending := u64Sub (s.conns c).pending 1, hasPending := false } : Connection π) = k
    have hfd : k.fd = (s.conns c).fd := by rw [← hk]
    have hset := setConn_handled h ho hfd
    have hself : (s.setConn c k).conns c = k := setConn_self
    have hsocket : (s.setConn c k).socketOf c = s.socketOf c := by
      rw [hset.own.socketOf, ho.socketOf, current, hself, hfd]
      rfl
    have hwatch := seen_watch phase hset.owned hset.own (by
      rw [hsocket, hself, hfd]
      exact hslot)
    rw [hself, hfd, seen_setConn hfd] at hwatch
    rw [if_pos (by exact hlast), hwatch, ← hk]
    rfl
  · rename_i hmore
    rw [if_neg (by exact hmore)]
    exact seen_setConn rfl

theorem seen_statsRequestCompleted (target : Option Descriptor) :
    (statsRequestCompleted cfg s c target).seen c phase =
      if decide (s.clock < cfg.stopAt) then
        { s.seen c phase with conn := (s.conns c).requestCompleted }.observe (.response c target
          (s.conns c).requestCompleted.pending
          (some ((s.conns c).requestCompleted.timing cfg s.clock)))
      else (s.seen c phase).observe (.response c target (s.conns c).pending none) := by
  unfold statsRequestCompleted
  by_cases hstop : cfg.stopAt ≤ s.clock
  · rw [if_pos hstop, decide_eq_false (Nat.not_lt.mpr hstop)]
    exact seen_observe (c := c) (o := .response c target _ none) rfl
  · rw [if_neg hstop, decide_eq_true (Nat.not_le.mp hstop)]
    have hset : ({ s with complete := s.complete + 1, requests := s.requests + 1 }.setConn c
        (s.conns c).requestCompleted).seen c phase =
        { s.seen c phase with conn := (s.conns c).requestCompleted } := seen_setConn rfl
    rw [if_pos rfl, ← hset]
    exact seen_observe (c := c) (o := .response c target _ (some _)) rfl

theorem seen_responseCounted (h : s.Owned) (ho : s.Own c)
    (hslot : (s.socketOf c).isSome = true → (s.loop.events (s.conns c).fd).isNone = false)
    (status dt : ℕ) : ∃ now counted, ∀ phase,
      (statsRequestCompleted cfg ((((if 399 < status then s.statusError else
        s).responseAnswered c).decrementPending c).tick dt) c (s.current c)).seen c phase =
        (s.seen c phase).respond cfg c now counted := by
  generalize hs₁ : (if 399 < status then s.statusError else s) = s₁
  have hstatus : s.Handled c s₁ := by
    rw [← hs₁]
    split
    · exact statusError_handled h ho
    · exact Handled.refl h ho
  have hsame : s₁.conns = s.conns ∧ s₁.loop = s.loop ∧ s₁.fds = s.fds ∧
      ∀ phase, s₁.seen c phase = s.seen c phase := by
    rw [← hs₁]
    split
    · exact ⟨rfl, rfl, rfl, fun _ => rfl⟩
    · exact ⟨rfl, rfl, rfl, fun _ => rfl⟩
  obtain ⟨hconns, hloop, hfds, hseen⟩ := hsame
  have hanswered := responseAnswered_handled hstatus.owned hstatus.own
  have hmodify (phase : Phase) : (s₁.responseAnswered c).seen c phase =
      { s.seen c phase with socket := (s.seen c phase).socket.map Descriptor.answer } := by
    rw [← hseen]
    exact seen_modify _ (fun _ => rfl) hstatus.owned hstatus.own
  have hdecrement (phase : Phase) : ((s₁.responseAnswered c).decrementPending c).seen c phase =
      { s.seen c phase with
        socket := (s.seen c phase).socket.map Descriptor.answer }.decrementPending c := by
    rw [← hmodify]
    refine seen_decrementPending hanswered.owned hanswered.own ?_
    intro hopen
    have hmap : (s₁.responseAnswered c).socketOf c = (s.socketOf c).map Descriptor.answer :=
      congrArg TcpConn.socket (hmodify .idle)
    rw [hmap, Option.isSome_map] at hopen
    show (s₁.loop.events (s₁.conns c).fd).isNone = false
    rw [hconns, hloop]
    exact hslot hopen
  generalize hs₂ : ((s₁.responseAnswered c).decrementPending c).tick dt = s₂
  have hseen₂ (phase : Phase) : s₂.seen c phase = { s.seen c phase with
      socket := (s.seen c phase).socket.map Descriptor.answer }.decrementPending c := by
    rw [← hs₂, seen_tick]
    exact hdecrement phase
  refine ⟨s₂.clock, decide (s₂.clock < cfg.stopAt), ?_⟩
  intro phase
  rw [seen_statsRequestCompleted, hseen₂ phase, ← ho.socketOf,
    show s₂.conns c = (s₂.seen c phase).conn from rfl, hseen₂ phase]
  rfl

/-- What is known while `socket_readable` runs, with the answers to the
responses that are still to be counted and the reads to come. -/
structure ReadRule (cfg : Config) (P : ResponseParser π) (c : ℕ) (p : Policy π)
    (K : TcpConn π → List ResponseAnswers → List Read → Prop) : Prop where
  read : ∀ {v as r reads}, K v as (r :: reads) → p.read v
  again : ∀ {v reads}, K v [] (.again :: reads) → K (v.access .read c) [] reads
  deliver : ∀ {v replaced chunk answers reads}, K v [] (.data chunk answers :: reads) →
    v.phase = .reading replaced [] →
    p.read (v.access .read c) ∧
    K ((v.access .read c).deliver P c replaced (chunk.take cfg.recvbuf)) answers
      (if (P.execute v.conn.parser (chunk.take cfg.recvbuf)).consumed =
          (chunk.take cfg.recvbuf).length ∧
        (chunk.take cfg.recvbuf).length = cfg.recvbuf then reads else [])
  answer : ∀ {v replaced m ms as reads}, K v as reads → v.phase = .reading replaced (m :: ms) →
    p.answer v ∧
    (m.keepAlive = false → ∀ r, Fits v (as.headD {}).connect r → p.reconnect v r) ∧
    ∀ now counted r, (m.keepAlive = false → Fits v (as.headD {}).connect r) →
      K ((TcpAct.answer m now counted r).apply cfg P c v) as.tail reads
  rest : ∀ {v as reads}, K v as reads → v.phase = .reading (TcpAct.replaced v.phase) [] →
    K v [] reads

/-- The machine of `c` is at a response of a chunk. -/
theorem Sim.responseComplete {K : TcpConn π → List ResponseAnswers → List Read → Prop}
    (hrule : ReadRule cfg P c p K) {replaced : Bool} {m : Completion} {ms : List Completion}
    {as : List ResponseAnswers} {reads : List Read}
    (h : s.Sim cfg P c p (.reading replaced (m :: ms)))
    (hK : K (s.seen c (.reading replaced (m :: ms))) as reads)
    (hlast : m.keepAlive = false → ms = []) :
    (TcpThread.responseComplete cfg s c m (as.headD {})).Sim cfg P c p
        (.reading (replaced || !m.keepAlive) ms) ∧
      K ((TcpThread.responseComplete cfg s c m (as.headD {})).seen c
        (.reading (replaced || !m.keepAlive) ms)) as.tail reads := by
  obtain ⟨t, hcomplete, hcounted, now, counted, hseen⟩ : ∃ t : TcpThread π,
      TcpThread.responseComplete cfg s c m (as.headD {}) =
        (if m.keepAlive then t else t.tcpReconnectSocket c (as.headD {}).connect) ∧
      s.Handled c t ∧ ∃ now counted, ∀ phase,
        t.seen c phase = (s.seen c phase).respond cfg c now counted :=
    ⟨_, rfl, responseCounted_handled cfg m.status _ h.owned h.own,
      seen_responseCounted h.owned h.own h.slot m.status _⟩
  obtain ⟨hanswer, hreconnect, hnext⟩ := hrule.answer hK rfl
  have hhandled := responseComplete_handled cfg m (as.headD {}) h.owned h.own
  cases halive : m.keepAlive with
  | true =>
      have hsilent : Attempt.Silent c ⟨none, []⟩ := fun o ho => by cases ho
      have hclosing : ¬ m.keepAlive = false := by rw [halive]; decide
      have heq : (TcpThread.responseComplete cfg s c m (as.headD {})).seen c
          (.reading (replaced || !true) ms) =
          (TcpAct.answer m now counted ⟨none, []⟩).apply cfg P c
            (s.seen c (.reading replaced (m :: ms))) := by
        rw [hcomplete, if_pos halive]
        simp only [TcpAct.apply]
        rw [if_pos halive, halive, ← hseen]
        rfl
      refine ⟨h.act hhandled (.answer m now counted ⟨none, []⟩)
        ⟨hsilent, replaced, ms, rfl, hlast⟩ ⟨hanswer, fun h => absurd h hclosing⟩ heq, ?_⟩
      rw [heq]
      exact hnext now counted _ fun h => absurd h hclosing
  | false =>
      have hclosing : ¬ m.keepAlive = true := by rw [halive]; decide
      obtain ⟨r, hsilent, hfits, hreplaced⟩ :=
        reconnect_seen hcounted.owned hcounted.own (as.headD {}).connect
      have hfits' : Fits (s.seen c (.reading replaced (m :: ms))) (as.headD {}).connect r := by
        have hfit := hfits (.reading replaced (m :: ms))
        rw [hseen] at hfit
        unfold Fits at hfit
        rw [TcpConn.respond_reader] at hfit
        exact hfit
      have heq : (TcpThread.responseComplete cfg s c m (as.headD {})).seen c
          (.reading (replaced || !false) ms) =
          (TcpAct.answer m now counted r).apply cfg P c
            (s.seen c (.reading replaced (m :: ms))) := by
        rw [hcomplete, if_neg hclosing, hreplaced]
        simp only [TcpAct.apply]
        rw [if_neg hclosing, halive, ← hseen]
        rfl
      refine ⟨h.act hhandled (.answer m now counted r) ⟨hsilent, replaced, ms, rfl, hlast⟩
        ⟨hanswer, fun hclosing => hreconnect hclosing r hfits'⟩ heq, ?_⟩
      rw [heq]
      exact hnext now counted r fun _ => hfits'

theorem Sim.responsesComplete {K : TcpConn π → List ResponseAnswers → List Read → Prop}
    (hrule : ReadRule cfg P c p K) {reads : List Read} :
    ∀ (ms : List Completion) (as : List ResponseAnswers) {replaced : Bool} {s : TcpThread π},
      s.Sim cfg P c p (.reading replaced ms) → K (s.seen c (.reading replaced ms)) as reads →
      (∀ m ∈ ms.dropLast, m.keepAlive = true) →
      ∃ replaced', (TcpThread.responsesComplete cfg c s ms as).Sim cfg P c p
          (.reading replaced' []) ∧
        K ((TcpThread.responsesComplete cfg c s ms as).seen c (.reading replaced' [])) [] reads
  | [], _, replaced, _, h, hK, _ => ⟨replaced, h, hrule.rest hK rfl⟩
  | m :: ms, as, replaced, s, h, hK, hlast => by
      have hclosing : m.keepAlive = false → ms = [] := by
        intro hclosing
        cases ms with
        | nil => rfl
        | cons m' ms =>
            rw [hlast m (by rw [List.dropLast_cons_cons]; exact List.mem_cons_self ..)] at hclosing
            cases hclosing
      obtain ⟨hnext, hKnext⟩ := h.responseComplete hrule hK hclosing
      refine Sim.responsesComplete hrule ms as.tail hnext hKnext ?_
      intro m' hm'
      cases ms with
      | nil => cases hm'
      | cons m'' ms =>
          refine hlast m' ?_
          rw [List.dropLast_cons_cons]
          exact List.mem_cons_of_mem _ hm'

theorem seen_deliver (P : ResponseParser π) (phase : Phase) (h : s.Owned) (ho : s.Own c)
    (chunk : Bytes) (replaced : Bool) :
    ((s.deliver c chunk).setConn c { (s.deliver c chunk).conns c with
        parser := (P.execute (s.conns c).parser chunk).parser }).seen c
        (.reading replaced (P.execute (s.conns c).parser chunk).completions) =
      (s.seen c phase).deliver P c replaced chunk := by
  have hobserve := observe_handled (o := .delivered c (s.current c) chunk) h ho trivial
  have hmodify := seen_modify phase (f := (·.deliver chunk)) (fun _ => rfl)
    hobserve.owned ho
  rw [seen_observe (c := c) rfl, ← ho.socketOf] at hmodify
  have hdeliver : (s.deliver c chunk).seen c phase =
      { (s.seen c phase).observe (.delivered c (s.socketOf c) chunk) with
        socket := (s.socketOf c).map (·.deliver chunk) } := by
    rw [TcpThread.deliver, ← ho.socketOf]
    exact hmodify
  have hset : ((s.deliver c chunk).setConn c { (s.deliver c chunk).conns c with
        parser := (P.execute (s.conns c).parser chunk).parser }).seen c phase =
      { (s.deliver c chunk).seen c phase with conn := { (s.deliver c chunk).conns c with
        parser := (P.execute (s.conns c).parser chunk).parser } } := seen_setConn rfl
  rw [hdeliver] at hset
  exact congrArg (fun v : TcpConn π => { v with
    phase := Phase.reading replaced (P.execute (s.conns c).parser chunk).completions }) hset

theorem Sim.parseChunk {K : TcpConn π → List ResponseAnswers → List Read → Prop}
    (hrule : ReadRule cfg P c p K) {replaced : Bool} {chunk : Bytes}
    {answers : List ResponseAnswers} {reads : List Read}
    (h : s.Sim cfg P c p (.reading replaced [])) (hopen : (s.current c).isSome = true)
    (hp : p.read (s.seen c (.reading replaced [])))
    (hK : K ((s.seen c (.reading replaced [])).deliver P c replaced chunk) answers reads) :
    ∃ replaced', (TcpThread.parseChunk cfg P s c chunk answers).2.Sim cfg P c p
        (.reading replaced' []) ∧
      K ((TcpThread.parseChunk cfg P s c chunk answers).2.seen c (.reading replaced' [])) []
        reads := by
  have hdelivered := (deliver_handled chunk h.owned h.own).andThen fun h ho => setConn_handled
    (k := { (s.deliver c chunk).conns c with
      parser := (P.execute (s.conns c).parser chunk).parser }) h ho rfl
  have hseen := seen_deliver P (.reading replaced []) h.owned h.own chunk replaced
  rw [← h.own.socketOf] at hopen
  have hlast := P.closing_last (s.conns c).parser chunk
  have hsim := h.act hdelivered (.deliver chunk) ⟨hopen, ⟨replaced, rfl⟩, hlast⟩ hp hseen
  rw [← hseen] at hK
  exact hsim.responsesComplete hrule _ answers hK hlast

theorem Sim.readFailed {connect : ConnectOutcome} {replaced : Bool}
    (hconnect : ∀ v r, Fits v connect r → p.reconnect v r)
    (h : s.Sim cfg P c p (.reading replaced [])) :
    (s.readFailed c connect).Sim cfg P c p .idle := by
  have herror := h.skip (readError_handled h.owned h.own) rfl
  exact herror.reconnect connect (fun _ _ _ heq => by cases heq)
    (Or.inl fun heq => by cases heq) hconnect

theorem Sim.leave {replaced : Bool} (h : s.Sim cfg P c p (.reading replaced [])) :
    s.Sim cfg P c p .idle :=
  h.act (Handled.refl h.owned h.own) .leave ⟨replaced, rfl⟩ trivial rfl

theorem Sim.read {replaced : Bool} (h : s.Sim cfg P c p (.reading replaced []))
    (hp : p.read (s.seen c (.reading replaced []))) :
    (s.access .read c (s.conns c).fd).Sim cfg P c p (.reading replaced []) :=
  h.act (access_handled .read h.owned h.own) (.call .read) ⟨replaced, rfl⟩ hp
    (seen_access .read h.own)

theorem Sim.socketReadable {K : TcpConn π → List ResponseAnswers → List Read → Prop}
    (hrule : ReadRule cfg P c p K) {connect : ConnectOutcome}
    (hconnect : ∀ v r, Fits v connect r → p.reconnect v r) :
    ∀ (reads : List Read) {replaced : Bool} {s : TcpThread π},
      s.Sim cfg P c p (.reading replaced []) → K (s.seen c (.reading replaced [])) [] reads →
      (TcpThread.socketReadable cfg P c connect s reads).Sim cfg P c p .idle
  | [], _, _, h, _ => h.leave
  | .error :: _, _, _, h, hK => (h.read (hrule.read hK)).readFailed hconnect
  | .retry :: _, _, _, h, hK => (h.read (hrule.read hK)).leave
  | .again :: reads, _, s, h, hK => by
      refine Sim.socketReadable hrule hconnect reads (h.read (hrule.read hK)) ?_
      rw [seen_access .read h.own]
      exact hrule.again hK
  | .data chunk answers :: reads, replaced, s, h, hK => by
      have hread := h.read (hrule.read hK)
      unfold TcpThread.socketReadable
      simp only
      split
      · rename_i hopen
        have hdeliver := hrule.deliver hK rfl
        rw [← seen_access .read h.own] at hdeliver
        obtain ⟨replaced', hparsed, hKnext⟩ := hread.parseChunk hrule hopen hdeliver.1 hdeliver.2
        have hconsumed : (P.execute (s.seen c (.reading replaced [])).conn.parser
            (chunk.take cfg.recvbuf)).consumed = (TcpThread.parseChunk cfg P
              (s.access .read c (s.conns c).fd) c (chunk.take cfg.recvbuf) answers).1 := rfl
        rw [hconsumed] at hKnext
        split
        · exact hparsed.readFailed hconnect
        · rename_i hall
          have hreceived := hparsed.skip
            (received_handled (n := (chunk.take cfg.recvbuf).length) hparsed.owned hparsed.own)
            rfl
          split
          · rename_i hfull
            rw [if_pos ⟨not_not.mp hall, hfull.1⟩] at hKnext
            exact Sim.socketReadable hrule hconnect reads hreceived hKnext
          · exact hreceived.leave
      · exact hread.readFailed hconnect

/-! ## The other handlers -/

theorem seen_setUp (h : s.Owned) (ho : s.Own c) (hd : s.socketOf c = some d)
    (hslot : (s.loop.events (s.conns c).fd).isNone = false) (connect : ConnectOutcome) :
    (socketConnected P s (s.conns c).fd c connect (.ok ())).seen c phase =
      (s.seen c phase).setUp P c := by
  generalize hk : ({ s.conns c with parser := P.init, written := 0 } : Connection π) = k
  have hfd : k.fd = (s.conns c).fd := by rw [← hk]
  have hset := setConn_handled h ho hfd
  generalize hs₁ : s.setConn c k = s₁
  rw [hs₁] at hset
  have hfd₁ : (s₁.conns c).fd = (s.conns c).fd := by rw [← hs₁, setConn_self, hfd]
  have hslot₁ : (s₁.loop.events (s₁.conns c).fd).isNone = false := by
    rw [hfd₁, ← hs₁]
    exact hslot
  have hd₁ : s₁.socketOf c = some d := by
    rw [hset.own.socketOf, current, hfd₁, ← hs₁]
    exact ho.socketOf.symm.trans hd
  have hreadable := createFileEvent_handled .aeReadable .socketReadable (Or.inl rfl) hset.owned
    hset.own
  have hseen₂ := seen_register phase hset.owned hset.own hd₁ hslot₁ .aeReadable
    .socketReadable
  have hslot₂ : ((s₁.createFileEvent c (s₁.conns c).fd .aeReadable .socketReadable).loop.events
      (s₁.conns c).fd).isNone = false := by
    rw [createFileEvent_registered hset.owned hslot₁]
    show ((s₁.loop.addSlot (s₁.conns c).fd .aeReadable .socketReadable c).events _).isNone = false
    rw [addSlot_events_self]
    exact add_not_isNone (Or.inl rfl)
  generalize hs₂ : s₁.createFileEvent c (s₁.conns c).fd .aeReadable .socketReadable = s₂
  rw [hs₂] at hreadable hseen₂ hslot₂
  have hfd₂ : (s₂.conns c).fd = (s₁.conns c).fd := congrArg (·.conn.fd) hseen₂
  have hd₂ : s₂.socketOf c = some d := (congrArg TcpConn.socket hseen₂).trans hd₁
  rw [← hfd₂] at hslot₂
  have hwriteable := createFileEvent_handled .aeWritable .socketWriteable (Or.inr rfl)
    hreadable.owned hreadable.own
  have hseen₃ := seen_register phase hreadable.owned hreadable.own hd₂ hslot₂
    .aeWritable .socketWriteable
  generalize hs₃ : s₂.createFileEvent c (s₂.conns c).fd .aeWritable .socketWriteable = s₃
  rw [hs₃] at hwriteable hseen₃
  have hfd₃ : (s₃.conns c).fd = (s₂.conns c).fd := congrArg (·.conn.fd) hseen₃
  have hconnect := seen_modify phase (f := Descriptor.connect) (fun _ => rfl)
    hwriteable.owned hwriteable.own
  have hrun : socketConnected P s (s.conns c).fd c connect (.ok ()) =
      s₃.setFds (s₃.fds.modify (s₃.conns c).fd Descriptor.connect) := by
    have hall : (s₃.conns c).fd = (s.conns c).fd := hfd₃.trans (hfd₂.trans hfd₁)
    rw [hall, ← hs₃, hfd₂, ← hs₂, hfd₁, ← hs₁, ← hk]
    rfl
  rw [hrun, hconnect, hseen₃, hseen₂, ← hs₁, seen_setConn hfd, ← hk]
  rfl

theorem Sim.socketConnected {connect : ConnectOutcome}
    (hconnect : ∀ v r, Fits v connect r → p.reconnect v r) :
    ∀ (status : Status Unit) {s : TcpThread π}, s.Sim cfg P c p .idle →
      (s.socketOf c).isSome = true → (s.seen c .idle).Dispatched .socketConnected →
      (status.last = .ok () → p.setUp (s.seen c .idle)) →
      (TcpThread.socketConnected P s (s.conns c).fd c connect status).Sim cfg P c p .idle
  | .ok _, s, h, hopen, hcalled, hsetUp => by
      obtain ⟨d, hd⟩ := Option.isSome_iff_exists.mp hopen
      exact h.act (socketConnected_handled P connect (.ok ()) h.owned h.own) .setUp
        ⟨rfl, hcalled, hopen⟩ (hsetUp rfl)
        (seen_setUp h.owned h.own hd (h.slot hopen) connect)
  | .error, s, h, _, hcalled, _ => by
      have herror := h.skip (connectError_handled h.owned h.own) rfl
      exact herror.reconnect connect (fun _ _ _ heq => by cases heq) (Or.inr ⟨_, hcalled⟩)
        hconnect
  | .retry, _, h, _, _, _ => h
  | .again next, _, h, hopen, hcalled, hsetUp =>
      Sim.socketConnected hconnect next h hopen hcalled hsetUp

/-- A procedure that is registered for `fd` is registered for the socket of
its connection. -/
theorem seen_slot (phase : Phase) (h : s.Owned) (hfd : (s.loop.events fd).isNone = false) :
    (s.conns (s.loop.events fd).clientData).fd = fd ∧
      (s.socketOf (s.loop.events fd).clientData).isSome = true ∧
      (s.seen (s.loop.events fd).clientData phase).reader = (s.loop.events fd).rfileProc ∧
      (s.seen (s.loop.events fd).clientData phase).writer = (s.loop.events fd).wfileProc := by
  have hname := h.fd_of_slot hfd
  obtain ⟨d, hd, -⟩ := h.slot fd hfd
  have hsocket : s.socketOf (s.loop.events fd).clientData = some d := by
    rw [(h.own_of_slot hfd).socketOf, current, hname]
    exact hd
  refine ⟨hname, by rw [hsocket]; rfl, ?_, ?_⟩
  · show (s.socketOf _).bind _ = _
    rw [hsocket, Option.bind_some, hname]
  · show (s.socketOf _).bind _ = _
    rw [hsocket, Option.bind_some, hname]

/-- What `sock_writeable` is told is what the policy allows. -/
def WriteAdmitted (p : Policy π) (s : TcpThread π) (c : ℕ) (a : Answers) : Prop :=
  (s.Sends c a → p.script a.script) ∧
    ∀ v : TcpConn π, (v.conn.written = 0 → s.Sends c a) → a.write.last = .retry → p.blocked v

theorem runFileProc_runs {K : TcpConn π → List ResponseAnswers → List Read → Prop}
    (hrule : ∀ c, ReadRule cfg P c p K) (h : s.Owned)
    (hruns : (tcpConn cfg P (s.loop.events fd).clientData).ReachableWith p.Meets
      (s.seen (s.loop.events fd).clientData .idle))
    (hcalled : (s.loop.events fd).rfileProc = some proc ∨ (s.loop.events fd).wfileProc = some proc)
    (hconnect : ∀ v r, Fits v a.connect r → p.reconnect v r)
    (hsetUp : proc = .socketConnected → a.connected.last = .ok () →
      p.setUp (s.seen (s.loop.events fd).clientData .idle))
    (hwrite : proc = .socketWriteable → s.WriteAdmitted p (s.loop.events fd).clientData a)
    (hread : proc = .socketReadable →
      K (s.seen (s.loop.events fd).clientData (.reading false [])) [] a.reads)
    (hrun : s.runFileProc cfg P fd (s.loop.events fd).clientData a proc = some s') :
    (tcpConn cfg P (s.loop.events fd).clientData).ReachableWith p.Meets
      (s'.seen (s.loop.events fd).clientData .idle) := by
  have hfd := not_isNone_of_slot hcalled
  obtain ⟨hname, hopen, hreader, hwriter⟩ := seen_slot .idle h hfd
  have ho := h.own_of_slot hfd
  generalize (s.loop.events fd).clientData = c at *
  have hsim : s.Sim cfg P c p .idle := ⟨h, ho, hruns⟩
  rw [← hreader, ← hwriter] at hcalled
  cases proc with
  | socketConnected =>
      obtain rfl := Option.some.inj hrun
      have hconnected := hsim.socketConnected hconnect a.connected hopen hcalled (hsetUp rfl)
      rw [hname] at hconnected
      exact hconnected.runs
  | socketReadable =>
      obtain rfl := Option.some.inj hrun
      have hentered : s.Sim cfg P c p (.reading false []) :=
        hsim.act (Handled.refl h ho) .enter ⟨rfl, hcalled⟩ trivial rfl
      exact (hentered.socketReadable (hrule c) hconnect a.reads (hread rfl)).runs
  | socketWriteable =>
      rw [runFileProc, if_pos hname.symm] at hrun
      obtain rfl := Option.some.inj hrun
      obtain ⟨hscript, hblocked⟩ := hwrite rfl
      exact (hsim.sockWriteable hscript hconnect hblocked hcalled).runs

/-! ## Timers -/

theorem hasTimer_of_deleted {id : ℕ} {proc : TimeProc}
    (h : (s.deleteTimeEvent id).hasTimer c proc = true) : s.hasTimer c proc = true := by
  rw [hasTimer_iff] at h ⊢
  obtain ⟨te', hte', hsame⟩ := h
  exact ⟨te', (mem_aeDeleteTimeEvent hte').1, hsame⟩

/-- Only the timer itself is deleted. -/
theorem hasTimer_deleted (hte : te ∈ s.loop.timeEvents) {proc : TimeProc}
    (hproc : te.timeProc ≠ proc) :
    (s.deleteTimeEvent te.id).hasTimer c proc = s.hasTimer c proc := by
  rw [Bool.eq_iff_iff]
  constructor
  · exact hasTimer_of_deleted
  · rw [hasTimer_iff, hasTimer_iff]
    rintro ⟨te', hte', hsame, hdata⟩
    refine ⟨te', ?_, hsame, hdata⟩
    refine (List.mem_eraseP_of_neg ?_).mpr hte'
    rw [beq_iff_eq]
    intro hid
    rw [timeEvent_unique hte' hte hid] at hsame
    exact hproc hsame

theorem createFileEvent_timeEvents :
    (s.createFileEvent c fd mask proc).loop.timeEvents = s.loop.timeEvents := by
  rcases s.createFileEvent_cases c fd mask proc with heq | ⟨-, -, heq⟩
  · rw [heq]
    rfl
  · rw [heq]
    rfl

theorem seen_deleteTimeEvent {id : ℕ} : (s.deleteTimeEvent id).seen c phase =
    { s.seen c phase with
      waits := (s.deleteTimeEvent id).hasTimer c .delayRequest
      unborn := (s.deleteTimeEvent id).hasTimer c .delayedInitialConnect } := rfl

theorem delayRequest_runs (h : s.Owned)
    (hruns : (tcpConn cfg P te.clientData).ReachableWith p.Meets (s.seen te.clientData .idle))
    (hte : te ∈ s.loop.timeEvents) (hproc : te.timeProc = .delayRequest)
    (hfire : ((s.tick a.dt).usecToNextSend te.clientData).1 = 0 → s.Own te.clientData ∧
      p.fire (((s.tick a.dt).usecToNextSend te.clientData).2.seen te.clientData .idle)) :
    (tcpConn cfg P te.clientData).ReachableWith p.Meets
      ((s.runTimeEvent te a).seen te.clientData .idle) := by
  have hpaced : (tcpConn cfg P te.clientData).ReachableWith p.Meets
      (((s.tick a.dt).usecToNextSend te.clientData).2.seen te.clientData .idle) := by
    rw [seen_usecToNextSend]
    have hallowed : (TcpAct.pace ((s.conns te.clientData).pacer.usecToNextSend
        (s.clock + a.dt)).2).Allowed P te.clientData (s.seen te.clientData .idle) :=
      ⟨rfl, s.clock + a.dt, rfl⟩
    exact .step hruns ⟨hallowed, rfl⟩ trivial
  unfold runTimeEvent delayRequest
  rw [hproc]
  simp only
  by_cases hsend : ((s.tick a.dt).usecToNextSend te.clientData).1 = 0
  · obtain ⟨ho, hp⟩ := hfire hsend
    have hasked := (tick_handled a.dt h ho).andThen usecToNextSend_handled
    have hsim : Sim cfg P te.clientData p .idle ((s.tick a.dt).usecToNextSend te.clientData).2 :=
      ⟨hasked.owned, hasked.own, hpaced⟩
    have hte₁ : te ∈ ((s.tick a.dt).usecToNextSend te.clientData).2.loop.timeEvents := hte
    rw [if_neg (not_not.mpr hsend), if_pos rfl]
    generalize ((s.tick a.dt).usecToNextSend te.clientData).2 = s₁ at hp hsim hte₁ ⊢
    have hwatch := seen_watch .idle hsim.owned hsim.own hsim.slot
    generalize hs₂ : s₁.createFileEvent te.clientData (s₁.conns te.clientData).fd .aeWritable
      .socketWriteable = s₂ at hwatch ⊢
    have htimers : s₂.loop.timeEvents = s₁.loop.timeEvents := by
      rw [← hs₂]
      exact createFileEvent_timeEvents
    have hunborn : (s₂.deleteTimeEvent te.id).hasTimer te.clientData .delayedInitialConnect =
        s₂.hasTimer te.clientData .delayedInitialConnect := by
      refine hasTimer_deleted (by rw [htimers]; exact hte₁) ?_
      rw [hproc]
      decide
    have hseen : (s₂.deleteTimeEvent te.id).seen te.clientData .idle =
        (TcpAct.fire ((s₂.deleteTimeEvent te.id).hasTimer te.clientData .delayRequest)).apply
          cfg P te.clientData (s₁.seen te.clientData .idle) := by
      rw [seen_deleteTimeEvent, hunborn]
      generalize (s₂.deleteTimeEvent te.id).hasTimer te.clientData .delayRequest = waits
      exact congrArg (fun v : TcpConn π => { v with waits := waits }) hwatch
    have hallowed : (TcpAct.fire ((s₂.deleteTimeEvent te.id).hasTimer te.clientData
        .delayRequest)).Allowed P te.clientData (s₁.seen te.clientData .idle) := by
      exact ⟨rfl, hasTimer_iff.mpr ⟨te, hte₁, hproc, rfl⟩⟩
    exact .step hsim.runs ⟨hallowed, hseen⟩ hp
  · rw [if_pos hsend, if_neg Bool.false_ne_true]
    exact hpaced

theorem tcpConnectSocket_timeEvents {connect : ConnectOutcome} :
    (s.tcpConnectSocket c connect).loop.timeEvents = s.loop.timeEvents := by
  cases connect with
  | noSocket => rfl
  | failed => rfl
  | started =>
      simp only [tcpConnectSocket]
      split
      · rename_i loop hloop
        obtain ⟨-, -, rfl⟩ := aeCreateFileEvent_cases hloop
        rfl
      · rfl

theorem delayedInitialConnect_runs (hsetup : s.Setup) (h : s.Owned)
    (hruns : (tcpConn cfg P te.clientData).ReachableWith p.Meets (s.seen te.clientData .idle))
    (hte : te ∈ s.loop.timeEvents) (hproc : te.timeProc = .delayedInitialConnect)
    (hconnect : ∀ r : Attempt,
      (a.connect = .started → s.fds.lowest < s.loop.setsize → r.fd.isSome = true) → p.connect r) :
    (tcpConn cfg P te.clientData).ReachableWith p.Meets
      ((s.runTimeEvent te a).seen te.clientData .idle) := by
  have hclosed : s.Closed te.clientData := (hsetup.fresh te hte hproc).owners
  have hnone := hclosed.socketOf
  unfold runTimeEvent delayedInitialConnect
  rw [hproc]
  simp only
  generalize hk : ({ s.conns te.clientData with pacer :=
    { (s.conns te.clientData).pacer with threadStart := s.clock + a.dt } } : Connection π) = k
  have hfd : k.fd = (s.conns te.clientData).fd := by rw [← hk]
  have htick := tick_local te.clientData a.dt h
  have hset := setConn_local (k := k) htick.owned hfd
  generalize hs₁ : (s.tick a.dt).setConn te.clientData k = s₁ at hset
  have hscheduled : (s.tick a.dt).setConn te.clientData { (s.tick a.dt).conns te.clientData with
      pacer := { ((s.tick a.dt).conns te.clientData).pacer with
        threadStart := (s.tick a.dt).clock } } = s₁ := by
    rw [← hs₁, ← hk]
    rfl
  rw [hscheduled]
  have hclosed₁ : s₁.Closed te.clientData := by
    rw [← hs₁]
    exact hclosed
  obtain ⟨r, hsilent, hopen, hseen⟩ := tcpConnectSocket_seen hset.owned hclosed₁ a.connect
  have hseen₁ : s₁.seen te.clientData .idle = { s.seen te.clientData .idle with conn := k } := by
    rw [← hs₁]
    exact seen_setConn hfd
  have htimers : (s₁.tcpConnectSocket te.clientData a.connect).loop.timeEvents =
      s.loop.timeEvents := by
    rw [tcpConnectSocket_timeEvents, ← hs₁]
    rfl
  generalize s₁.tcpConnectSocket te.clientData a.connect = s₂ at hseen htimers ⊢
  have hwaits : (s₂.deleteTimeEvent te.id).hasTimer te.clientData .delayRequest =
      s₂.hasTimer te.clientData .delayRequest := by
    refine hasTimer_deleted (by rw [htimers]; exact hte) ?_
    rw [hproc]
    decide
  have heq : (s₂.deleteTimeEvent te.id).seen te.clientData .idle =
      (TcpAct.connect k.pacer r
        ((s₂.deleteTimeEvent te.id).hasTimer te.clientData .delayedInitialConnect)).apply
          cfg P te.clientData (s.seen te.clientData .idle) := by
    rw [seen_deleteTimeEvent, hwaits]
    have hattempt := hseen .idle
    rw [hseen₁, ← hk] at hattempt
    rw [← hk]
    generalize (s₂.deleteTimeEvent te.id).hasTimer te.clientData .delayedInitialConnect = unborn
    exact congrArg (fun v : TcpConn π => { v with unborn := unborn }) hattempt
  have hallowed : (TcpAct.connect k.pacer r ((s₂.deleteTimeEvent te.id).hasTimer te.clientData
      .delayedInitialConnect)).Allowed P te.clientData (s.seen te.clientData .idle) :=
    ⟨rfl, hnone, hasTimer_iff.mpr ⟨te, hte, hproc, rfl⟩, hsilent⟩
  refine .step hruns ⟨hallowed, heq⟩ (hconnect r fun hstarted hsize => hopen hstarted ?_)
  rw [← hs₁]
  exact hsize

/-! ## Runs -/

/-- The answers during an event are those of the policy, and a
`delay_request` timer that sends uses the connection's own socket. -/
def Admitted (p : Policy π) (K : TcpConn π → List ResponseAnswers → List Read → Prop)
    (s : TcpThread π) : TcpEvent → Prop
  | .readable fd a => (∀ v r, Fits v a.connect r → p.reconnect v r) ∧
      ((s.loop.events fd).rfileProc = some .socketConnected → a.connected.last = .ok () →
        p.setUp (s.seen (s.loop.events fd).clientData .idle)) ∧
      ((s.loop.events fd).rfileProc = some .socketReadable →
        K (s.seen (s.loop.events fd).clientData (.reading false [])) [] a.reads)
  | .writable fd a => (∀ v r, Fits v a.connect r → p.reconnect v r) ∧
      ((s.loop.events fd).wfileProc = some .socketConnected → a.connected.last = .ok () →
        p.setUp (s.seen (s.loop.events fd).clientData .idle)) ∧
      ((s.loop.events fd).wfileProc = some .socketWriteable →
        s.WriteAdmitted p (s.loop.events fd).clientData a)
  | .timer id a => ∀ te ∈ s.loop.timeEvents.find? (·.id == id),
      (te.timeProc = .delayedInitialConnect → ∀ r : Attempt, (a.connect = .started →
        s.fds.lowest < s.loop.setsize → r.fd.isSome = true) → p.connect r) ∧
      (te.timeProc = .delayRequest → ((s.tick a.dt).usecToNextSend te.clientData).1 = 0 →
        s.Own te.clientData ∧
        p.fire (((s.tick a.dt).usecToNextSend te.clientData).2.seen te.clientData .idle))

/-- Every step runs the machine of the connection it works on. -/
theorem tcpStep_runs {K : TcpConn π → List ResponseAnswers → List Read → Prop}
    (hrule : ∀ c, ReadRule cfg P c p K) {e : TcpEvent} (hsetup : s.Setup) (h : s.Owned)
    (hruns : ∀ c, (tcpConn cfg P c).ReachableWith p.Meets (s.seen c .idle))
    (he : s.Admitted p K e) (hstep : tcpStep cfg P s e = some s') :
    ∃ c, s.Effect c s' ∧ s.Local c s' ∧
      (tcpConn cfg P c).ReachableWith p.Meets (s'.seen c .idle) := by
  cases e with
  | readable fd a =>
      obtain ⟨proc, hproc, hrun⟩ := Option.bind_eq_some_iff.mp hstep
      have hfd := not_isNone_of_slot (Or.inl hproc)
      obtain ⟨-, -, hreader, -⟩ := seen_slot .idle h hfd
      have hwired := tcpConn_wired (hruns (s.loop.events fd).clientData)
      refine ⟨_, runFileProc_effect hrun, (runFileProc_handled h hfd hrun).toLocal,
        runFileProc_runs hrule h (hruns _) (Or.inl hproc) he.1 ?_ ?_ ?_ hrun⟩
      · rintro rfl
        exact he.2.1 hproc
      · rintro rfl
        rcases hwired.readers _ (hreader.trans hproc) with h | h <;> cases h
      · rintro rfl
        exact he.2.2 hproc
  | writable fd a =>
      obtain ⟨proc, hproc, hrun⟩ := Option.bind_eq_some_iff.mp hstep
      have hfd := not_isNone_of_slot (Or.inr hproc)
      obtain ⟨-, -, -, hwriter⟩ := seen_slot .idle h hfd
      have hwired := tcpConn_wired (hruns (s.loop.events fd).clientData)
      refine ⟨_, runFileProc_effect hrun, (runFileProc_handled h hfd hrun).toLocal,
        runFileProc_runs hrule h (hruns _) (Or.inr hproc) he.1 ?_ ?_ ?_ hrun⟩
      · rintro rfl
        exact he.2.1 hproc
      · rintro rfl
        exact he.2.2 hproc
      · rintro rfl
        rcases hwired.writers _ (hwriter.trans hproc) with h | h <;> cases h
  | timer id a =>
      obtain ⟨te, hfind, rfl⟩ := Option.map_eq_some_iff.mp hstep
      have hte := List.mem_of_find?_eq_some hfind
      obtain ⟨hconnect, hfire⟩ := he te hfind
      refine ⟨te.clientData, runTimeEvent_effect hsetup hte a,
        runTimeEvent_local hsetup h hte fun hproc hsend => (hfire hproc hsend).1, ?_⟩
      cases hproc : te.timeProc with
      | delayedInitialConnect =>
          exact delayedInitialConnect_runs hsetup h (hruns _) hte hproc (hconnect hproc)
      | delayRequest => exact delayRequest_runs h (hruns _) hte hproc (hfire hproc)

end TcpThread

open TcpThread

variable {π : Type*}

theorem initialLoop_hasTimer (cfg : Config) (c : ℕ) :
    (∃ te ∈ (initialLoop cfg).timeEvents, te.clientData = c) ↔ c < cfg.connections := by
  have hloop : ∀ n, (∃ te ∈ ((List.range n).foldl
      (fun loop i => aeCreateTimeEvent loop .delayedInitialConnect i)
      (aeCreateEventLoop cfg.setsize : EventLoop FileProc TimeProc ℕ)).timeEvents,
        te.clientData = c) ↔ c < n := by
    intro n
    induction n with
    | zero =>
        constructor
        · rintro ⟨te, hte, -⟩
          cases hte
        · intro h
          cases h
    | succ n ih =>
        rw [List.range_succ, List.foldl_append, List.foldl_cons, List.foldl_nil,
          Nat.lt_succ_iff_lt_or_eq, ← ih]
        constructor
        · rintro ⟨te, hte, hdata⟩
          rcases List.mem_cons.mp hte with rfl | hold
          · exact Or.inr hdata.symm
          · exact Or.inl ⟨te, hold, hdata⟩
        · rintro (⟨te, hte, hdata⟩ | rfl)
          · exact ⟨te, List.mem_cons_of_mem _ hte, hdata⟩
          · exact ⟨_, List.mem_cons_self .., rfl⟩
  exact hloop cfg.connections

theorem initial_seen (cfg : Config) (P : ResponseParser π) (clock : ℕ)
    (reserved : FdTable Unit) (c : ℕ) :
    (TcpThread.initial cfg P clock reserved).seen c .idle = .initial cfg P c := by
  have hclosed : (TcpThread.initial cfg P clock reserved).Closed c := by
    intro fd d hd hown
    rw [initial_owner cfg P clock reserved hd] at hown
    cases hown
  have hwaits : (TcpThread.initial cfg P clock reserved).hasTimer c .delayRequest = false := by
    refine Bool.eq_false_iff.mpr fun h => ?_
    obtain ⟨te, hte, hproc, -⟩ := hasTimer_iff.mp h
    rw [(initialLoop_timeEvents cfg te hte).1] at hproc
    cases hproc
  have hunborn : (TcpThread.initial cfg P clock reserved).hasTimer c .delayedInitialConnect =
      decide (c < cfg.connections) := by
    rw [Bool.eq_iff_iff, decide_eq_true_iff, ← initialLoop_hasTimer, hasTimer_iff]
    constructor
    · rintro ⟨te, hte, -, hdata⟩
      exact ⟨te, hte, hdata⟩
    · rintro ⟨te, hte, hdata⟩
      exact ⟨te, hte, (initialLoop_timeEvents cfg te hte).1, hdata⟩
  unfold seen
  rw [hclosed.socketOf, hwaits, hunborn]
  rfl

/-- Whatever the rest of a step's condition says: if it admits only what the
policy allows, then the connections of a thread run the connection machine
under the policy. -/
theorem tcp_conn_reachable {cfg : Config} {P : ResponseParser π} {p : Policy π}
    {K : TcpConn π → List ResponseAnswers → List Read → Prop}
    (hrule : ∀ c, ReadRule cfg P c p K) {ok : TcpThread π → TcpEvent → Prop}
    (hok : ∀ s e, s.Setup → s.Owned →
      (∀ c, (tcpConn cfg P c).ReachableWith p.Meets (s.seen c .idle)) → ok s e →
      s.Admitted p K e) {s : TcpThread π} (hs : (tcpThread cfg P).ReachableWith ok s) :
    s.Setup ∧ s.Owned ∧ ∀ c, (tcpConn cfg P c).ReachableWith p.Meets (s.seen c .idle) := by
  refine hs.invariant (P := fun s => s.Setup ∧ s.Owned ∧
    ∀ c, (tcpConn cfg P c).ReachableWith p.Meets (s.seen c .idle)) ?_ ?_
  · rintro s ⟨clock, reserved, rfl⟩
    refine ⟨initial_setup cfg P clock reserved, initial_owned cfg P clock reserved, ?_⟩
    intro c
    exact .init (initial_seen cfg P clock reserved c)
  · rintro s e s' ⟨hsetup, howned, hruns⟩ hstep he
    obtain ⟨c, heffect, hlocal, hrun⟩ :=
      tcpStep_runs hrule hsetup howned hruns (hok s e hsetup howned hruns he) hstep
    refine ⟨(tcpStep_effect hsetup hstep).1, hlocal.owned, ?_⟩
    intro c'
    by_cases hc : c' = c
    · exact hc ▸ hrun
    · rw [seen_of_ne hc heffect hlocal]
      exact hruns c'

end WrkQuic
