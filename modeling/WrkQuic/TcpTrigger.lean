import WrkQuic.TcpSimulation
import WrkQuic.TcpBatch

/-!
# What starts the next batch

`AE_WRITABLE` is switched off when the last byte of a batch is written, and
on when its last response arrives. When the responses come before the last
byte is written, it stays off. In every run without that, a socket with
nothing left to write and nothing left to answer has `socket_writeable`
registered, or its connection waits for a `delay_request` timer.
-/

namespace WrkQuic

open Runs TcpThread

/-! ## One connection -/

namespace TcpConn

variable {π : Type*} {cfg : Config} {P : ResponseParser π} {c : ℕ} {v v' : TcpConn π} {a : TcpAct}
  {r : Attempt}

/-- `socket_connected` has run for the socket. -/
def Connected (v : TcpConn π) (d : Descriptor) : Prop := v.socket = some d ∧ d.connected = true

/-- Scripts return requests, and while a request is half written, responses
that keep the connection alive leave some of the batch to be answered. -/
def answersLast (cfg : Config) : Policy π where
  script text := cfg.dynamic = true → text ≠ []
  answer v := ∀ replaced m ms, v.phase = .reading replaced (m :: ms) → m.keepAlive = true →
    (∃ d, v.Connected d) → v.conn.written ≠ 0 → 1 < v.conn.pending

/-- There is a response to come, and the server owes it. -/
def Awaits (v : TcpConn π) (d : Descriptor) : Prop :=
  1 ≤ v.conn.pending ∧ v.conn.pending + d.answered ≤ d.sent

/-- Something will start the next batch. -/
def WillSend (v : TcpConn π) : Prop := v.writer = some .socketWriteable ∨ v.waits = true

structure Triggered (cfg : Config) (v : TcpConn π) : Prop where
  request : cfg.dynamic = false → v.conn.request = cfg.request
  writing : v.phase = .writing →
    v.conn.pending = cfg.pipeline ∧ v.conn.request ≠ [] ∧ v.conn.written = 0
  partway : ∀ d, v.Connected d → v.conn.written ≠ 0 → v.Awaits d
  trigger : ∀ d, v.Connected d → v.conn.written = 0 → v.WillSend ∨ v.Awaits d
  answered : ∀ d, v.socket = some d → d.answered ≤ d.sent

theorem Triggered.congr (h : v.Triggered cfg) (hrequest : v'.conn.request = v.conn.request)
    (hwritten : v'.conn.written = v.conn.written) (hpending : v'.conn.pending = v.conn.pending)
    (hsocket : v'.socket = v.socket) (hwriter : v'.writer = v.writer) (hwaits : v'.waits = v.waits)
    (hphase : v'.phase = .writing → v.phase = .writing) : v'.Triggered cfg := by
  obtain ⟨request, writing, partway, trigger, answered⟩ := h
  refine ⟨?_, ?_, ?_, ?_, ?_⟩
  · rwa [hrequest]
  · intro h
    rw [hpending, hrequest, hwritten]
    exact writing (hphase h)
  · intro d hd
    rw [Connected, hsocket] at hd
    rw [Awaits, hwritten, hpending]
    exact partway d hd
  · intro d hd
    rw [Connected, hsocket] at hd
    rw [WillSend, Awaits, hwriter, hwaits, hwritten, hpending]
    exact trigger d hd
  · rwa [hsocket]

/-- `socket_writeable` is registered for the socket. -/
theorem watch_triggered (hrequest : cfg.dynamic = false → v.conn.request = cfg.request)
    (hphase : v.phase ≠ .writing)
    (hpartway : ∀ d, v.Connected d → v.conn.written ≠ 0 → v.Awaits d)
    (hanswered : ∀ d, v.socket = some d → d.answered ≤ d.sent) :
    (v.watch c).Triggered cfg where
  request := hrequest
  writing hwriting := absurd hwriting hphase
  partway := hpartway
  trigger := by
    rintro d ⟨hd, -⟩ -
    have hsocket : v.socket = some d := hd
    exact Or.inl (Or.inl (Option.bind_eq_some_iff.mpr ⟨d, hsocket, rfl⟩))
  answered := hanswered

theorem attempt_triggered (hrequest : cfg.dynamic = false → v.conn.request = cfg.request)
    (hphase : v.phase ≠ .writing) (hclosed : v.socket = none) :
    (v.attempt c r).Triggered cfg := by
  have hnone (d : Descriptor) : v.socket ≠ some d := by
    rw [hclosed]
    exact fun h => by cases h
  unfold TcpConn.attempt
  split
  · exact
      { request := hrequest
        writing := fun hwriting => absurd hwriting hphase
        partway := by
          rintro d ⟨hd, hconnected⟩
          cases hd
          cases hconnected
        trigger := by
          rintro d ⟨hd, hconnected⟩
          cases hd
          cases hconnected
        answered := by
          rintro d hd
          cases hd
          exact Nat.le_refl 0 }
  · exact
      { request := hrequest
        writing := fun hwriting => absurd hwriting hphase
        partway := fun d hd => absurd hd.1 (hnone d)
        trigger := fun d hd => absurd hd.1 (hnone d)
        answered := fun d hd => absurd hd (hnone d) }

/-- Nothing is asked of a socket that is closed. -/
theorem reconnect_triggered (hrequest : cfg.dynamic = false → v.conn.request = cfg.request)
    (hphase : v.phase ≠ .writing) : (v.reconnect c r).Triggered cfg :=
  attempt_triggered (v := v.closeSocket c) hrequest hphase rfl

theorem Triggered.prepare (h : v.Triggered cfg) {script : Bytes}
    (hscript : cfg.dynamic = true → script ≠ []) (hstatic : cfg.dynamic = false → cfg.request ≠ [])
    (hwritten : v.conn.written = 0) (hwriter : v.writer = some .socketWriteable) (now : ℕ) :
    { v.prepare cfg c script now with phase := .writing }.Triggered cfg := by
  have hprepared : ∃ k : Connection π, (cfg.dynamic = false → k.request = cfg.request) ∧
      k.request ≠ [] ∧ k.written = 0 ∧ (v.prepare cfg c script now).conn =
        k.startBatch cfg.pipeline now ∧ (v.prepare cfg c script now).writer = v.writer ∧
      (v.prepare cfg c script now).socket = v.socket := by
    unfold TcpConn.prepare
    simp only
    split
    · rename_i hdynamic
      refine ⟨{ v.conn with request := script }, ?_, hscript hdynamic, hwritten, rfl, rfl, rfl⟩
      intro hfalse
      rw [hdynamic] at hfalse
      cases hfalse
    · rename_i hdynamic
      have hdynamic := Bool.not_eq_true _ ▸ hdynamic
      refine ⟨v.conn, h.request, ?_, hwritten, rfl, rfl, rfl⟩
      rw [h.request hdynamic]
      exact hstatic hdynamic
  obtain ⟨k, hrequest, hne, hzero, hconn, hwriter', hsocket⟩ := hprepared
  have hstart : (k.startBatch cfg.pipeline now).request = k.request := by
    unfold Connection.startBatch
    split <;> rfl
  have hwritten' : (v.prepare cfg c script now).conn.written = 0 := by
    rw [hconn, Connection.startBatch_written]
    exact hzero
  refine
    { request := ?_
      writing := ?_
      partway := fun d _ hpart => absurd hwritten' hpart
      trigger := fun d _ _ => Or.inl (Or.inl (hwriter'.trans hwriter))
      answered := ?_ }
  · intro hdynamic
    show (v.prepare cfg c script now).conn.request = cfg.request
    rw [hconn, hstart]
    exact hrequest hdynamic
  · intro _
    refine ⟨?_, ?_, hwritten'⟩
    · show (v.prepare cfg c script now).conn.pending = cfg.pipeline
      rw [hconn, Connection.startBatch_pending]
    · show (v.prepare cfg c script now).conn.request ≠ []
      rw [hconn, hstart]
      exact hne
  · intro d hd
    exact h.answered d (hsocket.symm.trans hd)

theorem Triggered.accept (h : v.Triggered cfg) (hpipeline : 1 ≤ cfg.pipeline)
    (hphase : v.phase = .writing ∨ v.phase = .idle ∧ v.conn.written ≠ 0) (n : ℕ) :
    { v.accept cfg c ((v.conn.request.drop v.conn.written).take (max n 1)) with
      phase := .idle }.Triggered cfg := by
  have hbytes : v.phase = .writing →
      (v.conn.request.drop v.conn.written).take (max n 1) ≠ [] := by
    intro hwriting
    obtain ⟨-, hne, hwritten⟩ := h.writing hwriting
    rw [hwritten, List.drop_zero]
    intro hempty
    rcases List.take_eq_nil_iff.mp hempty with hzero | hnil
    · omega
    · exact hne hnil
  generalize (v.conn.request.drop v.conn.written).take (max n 1) = bytes at *
  have hsent (d : Descriptor) (hd : v.socket = some d) (hconnected : d.connected = true) :
      1 ≤ v.conn.pending ∧ v.conn.pending + d.answered ≤
        (d.accepted cfg.pipeline (decide (v.conn.written = 0 ∧ bytes ≠ []))).sent := by
    rcases hphase with hwriting | ⟨-, hne⟩
    · obtain ⟨hpending, -, hwritten⟩ := h.writing hwriting
      have hle := h.answered d hd
      rw [decide_eq_true ⟨hwritten, hbytes hwriting⟩, hpending]
      refine ⟨hpipeline, ?_⟩
      show cfg.pipeline + d.answered ≤ d.sent + cfg.pipeline
      omega
    · rw [decide_eq_false fun h => hne h.1]
      exact h.partway d ⟨hd, hconnected⟩ hne
  have hanswered (d' : Descriptor) (hd' : v.socket.map (Descriptor.accepted · cfg.pipeline
      (decide (v.conn.written = 0 ∧ bytes ≠ []))) = some d') : d'.answered ≤ d'.sent := by
    obtain ⟨d, hd, rfl⟩ := Option.map_eq_some_iff.mp hd'
    have hle := h.answered d hd
    unfold Descriptor.accepted
    simp only
    split <;> omega
  unfold TcpConn.accept
  simp only
  have hawaits (d' : Descriptor) (hd' : v.socket.map (Descriptor.accepted · cfg.pipeline
      (decide (v.conn.written = 0 ∧ bytes ≠ []))) = some d') (hconnected : d'.connected = true) :
      1 ≤ v.conn.pending ∧ v.conn.pending + d'.answered ≤ d'.sent := by
    obtain ⟨d, hd, rfl⟩ := Option.map_eq_some_iff.mp hd'
    exact hsent d hd hconnected
  split
  · exact
      { request := h.request
        writing := fun h => by cases h
        partway := fun d _ hne => absurd rfl hne
        trigger := fun d hd _ => Or.inr (hawaits d hd.1 hd.2)
        answered := hanswered }
  · exact
      { request := h.request
        writing := fun h => by cases h
        partway := fun d hd _ => hawaits d hd.1 hd.2
        trigger := fun d hd _ => Or.inr (hawaits d hd.1 hd.2)
        answered := hanswered }

theorem reconnect_unconnected {d : Descriptor} : ¬ (v.reconnect c r).Connected d := by
  unfold TcpConn.reconnect TcpConn.attempt
  split
  · rintro ⟨hd, hconnected⟩
    cases hd
    cases hconnected
  · rintro ⟨hd, -⟩
    cases hd

theorem answer_connected {m : Completion} {now : ℕ} {counted : Bool} {d : Descriptor}
    (halive : m.keepAlive = true)
    (hd : ((TcpAct.answer m now counted r).apply cfg P c v).Connected d) :
    (∃ d, v.Connected d) ∧
      ((TcpAct.answer m now counted r).apply cfg P c v).conn.written = v.conn.written ∧
      ((TcpAct.answer m now counted r).apply cfg P c v).conn.pending =
        u64Sub v.conn.pending 1 := by
  obtain ⟨hwritten, hpending, hsocket⟩ := respond_conn cfg v (c := c) now counted
  simp only [TcpAct.apply, if_pos halive] at hd ⊢
  refine ⟨?_, hwritten, hpending⟩
  obtain ⟨hd, hconnected⟩ := hd
  obtain ⟨d', hd', rfl⟩ := Option.map_eq_some_iff.mp (hsocket.symm.trans hd)
  exact ⟨d', hd', hconnected⟩

theorem answer_disconnects {m : Completion} {now : ℕ} {counted : Bool} {d : Descriptor}
    (hclosing : m.keepAlive = false) :
    ¬ ((TcpAct.answer m now counted r).apply cfg P c v).Connected d := by
  simp only [TcpAct.apply, hclosing, Bool.false_eq_true, if_false]
  exact reconnect_unconnected

theorem Triggered.respond (h : v.Triggered cfg) (hphase : v.phase ≠ .writing)
    (hanswers : ∃ d, v.socket = some d ∧ d.answered < d.sent)
    (hlast : (∃ d, v.Connected d) → v.conn.written ≠ 0 → 1 < v.conn.pending)
    (now : ℕ) (counted : Bool) : (v.respond cfg c now counted).Triggered cfg := by
  obtain ⟨d, hd, hlt⟩ := hanswers
  have hanswered (d' : Descriptor) (hd' : v.socket.map Descriptor.answer = some d') :
      d'.answered ≤ d'.sent := by
    rw [hd] at hd'
    cases hd'
    exact hlt
  have hconnected (d' : Descriptor) (hd' : v.socket.map Descriptor.answer = some d')
      (hc : d'.connected = true) :
      d'.answered = d.answered + 1 ∧ d'.sent = d.sent ∧ v.Connected d := by
    rw [hd] at hd'
    cases hd'
    exact ⟨rfl, rfl, hd, hc⟩
  have hleft : 1 ≤ v.conn.pending → u64Sub v.conn.pending 1 = v.conn.pending - 1 := u64Sub_of_le
  have hdecremented :
      ({ v with socket := v.socket.map Descriptor.answer }.decrementPending c).Triggered cfg := by
    unfold TcpConn.decrementPending
    simp only
    split
    · rename_i hzero
      refine watch_triggered h.request hphase ?_ hanswered
      rintro d' ⟨hd', hc⟩ hne
      obtain ⟨-, -, hold⟩ := hconnected d' hd' hc
      have hmore := hlast ⟨d, hold⟩ hne
      rw [hleft (by omega)] at hzero
      omega
    · rename_i hrest
      refine
        { request := h.request
          writing := fun hwriting => absurd hwriting hphase
          partway := ?_
          trigger := ?_
          answered := hanswered }
      · rintro d' ⟨hd', hc⟩ hne
        obtain ⟨hmore, hsame, hold⟩ := hconnected d' hd' hc
        have hnext := hlast ⟨d, hold⟩ hne
        obtain ⟨hone, hle⟩ := h.partway d hold hne
        refine ⟨?_, ?_⟩
        · exact Nat.one_le_iff_ne_zero.mpr hrest
        · show u64Sub v.conn.pending 1 + d'.answered ≤ d'.sent
          rw [hleft hone, hmore, hsame]
          omega
      · rintro d' ⟨hd', hc⟩ hwritten
        obtain ⟨hmore, hsame, hold⟩ := hconnected d' hd' hc
        rcases h.trigger d hold hwritten with hsend | ⟨hone, hle⟩
        · exact Or.inl hsend
        · refine Or.inr ⟨Nat.one_le_iff_ne_zero.mpr hrest, ?_⟩
          show u64Sub v.conn.pending 1 + d'.answered ≤ d'.sent
          rw [hleft hone, hmore, hsame]
          omega
  unfold TcpConn.respond
  simp only
  split
  · exact hdecremented.congr rfl rfl rfl rfl rfl rfl id
  · exact hdecremented.congr rfl rfl rfl rfl rfl rfl id

theorem Triggered.deliver (h : v.Triggered cfg) (replaced : Bool) (chunk : Bytes) :
    (v.deliver P c replaced chunk).Triggered cfg := by
  have hold (d : Descriptor) (hd : v.socket.map (Descriptor.deliver · chunk) = some d) :
      ∃ d', v.socket = some d' ∧ d'.connected = d.connected ∧ d'.answered = d.answered ∧
        d'.sent = d.sent := by
    obtain ⟨d', hd', rfl⟩ := Option.map_eq_some_iff.mp hd
    exact ⟨d', hd', rfl, rfl, rfl⟩
  exact
    { request := h.request
      writing := fun hwriting => by cases hwriting
      partway := by
        rintro d ⟨hd, hc⟩ hne
        obtain ⟨d', hd', hc', ha', hs'⟩ := hold d hd
        have := h.partway d' ⟨hd', hc'.trans hc⟩ hne
        rw [Awaits, ha', hs'] at this
        exact this
      trigger := by
        rintro d ⟨hd, hc⟩ hwritten
        obtain ⟨d', hd', hc', ha', hs'⟩ := hold d hd
        have := h.trigger d' ⟨hd', hc'.trans hc⟩ hwritten
        rw [Awaits, ha', hs'] at this
        exact this
      answered := by
        intro d hd
        obtain ⟨d', hd', -, ha', hs'⟩ := hold d hd
        rw [← ha', ← hs']
        exact h.answered d' hd' }

theorem Triggered.apply (h : v.Triggered cfg) (hpipeline : 1 ≤ cfg.pipeline)
    (hstatic : cfg.dynamic = false → cfg.request ≠ []) (hw : v.Wired) (ha : a.Allowed P c v)
    (hp : (answersLast cfg).Meets v a)
    (hanswers : ∀ o ∈ (a.apply cfg P c v).trace, o.Answers) :
    (a.apply cfg P c v).Triggered cfg := by
  have hwriter (hcalled : v.Dispatched .socketWriteable) : v.writer = some .socketWriteable :=
    hcalled.resolve_left fun hr => by rcases hw.readers _ hr with h | h <;> cases h
  cases a with
  | call kind => exact h.congr rfl rfl rfl rfl rfl rfl id
  | pace pacer => exact h.congr rfl rfl rfl rfl rfl rfl id
  | postpone =>
      exact
        { h with
          trigger := fun d _ _ => Or.inl (Or.inr rfl) }
  | prepare script now =>
      obtain ⟨-, hcalled, hwritten⟩ := ha
      exact h.prepare hp hstatic hwritten (hwriter hcalled) now
  | accept bytes =>
      obtain ⟨hphase, -, -, n, rfl⟩ := ha
      exact h.accept hpipeline hphase n
  | blocked => exact h.congr rfl rfl rfl rfl rfl rfl fun h => by cases h
  | connect pacer r unborn =>
      obtain ⟨hidle, hclosed, -⟩ := ha
      have hphase : v.phase ≠ .writing := by rw [hidle]; exact nofun
      have hattempt : ({ v with conn := { v.conn with pacer := pacer } }.attempt c r).Triggered
          cfg := attempt_triggered h.request hphase hclosed
      exact hattempt.congr rfl rfl rfl rfl rfl rfl id
  | reconnect r =>
      have hreconnect : ({ v with phase := .idle }.reconnect c r).Triggered cfg :=
        reconnect_triggered h.request nofun
      rw [← reconnect_phase] at hreconnect
      exact hreconnect
  | setUp =>
      obtain ⟨hidle, -, hopen⟩ := ha
      exact
        { request := h.request
          writing := fun hwriting => by cases hidle.symm.trans hwriting
          partway := fun d _ hne => absurd rfl hne
          trigger := fun d _ _ => Or.inl (Or.inl rfl)
          answered := by
            intro d hd
            obtain ⟨d', hd', rfl⟩ := Option.map_eq_some_iff.mp hd
            exact h.answered d' hd' }
  | enter => exact h.congr rfl rfl rfl rfl rfl rfl fun h => by cases h
  | leave => exact h.congr rfl rfl rfl rfl rfl rfl fun h => by cases h
  | deliver chunk => exact h.deliver _ chunk
  | answer m now counted r =>
      obtain ⟨pending, timing, hmem⟩ := answer_observed cfg ha
      obtain ⟨hr, replaced, ms, hphase, -⟩ := ha
      have hnot : v.phase ≠ .writing := by rw [hphase]; exact nofun
      have hsocket : ∃ d, v.socket = some d ∧ d.answered < d.sent := hanswers _ hmem
      simp only [TcpAct.apply]
      split
      · rename_i halive
        have hlast : (∃ d, v.Connected d) → v.conn.written ≠ 0 → 1 < v.conn.pending :=
          hp.1 replaced m ms hphase halive
        exact (h.respond (c := c) hnot hsocket hlast now counted).congr rfl rfl rfl rfl rfl rfl
          fun hwriting => by cases hwriting
      · refine reconnect_triggered ?_ fun h => by cases h
        intro hdynamic
        exact (respond_request now counted).trans (h.request hdynamic)
  | fire waits =>
      obtain ⟨hidle, -⟩ := ha
      have hphase : v.phase ≠ .writing := by rw [hidle]; exact nofun
      have hwatch := watch_triggered (c := c) h.request hphase h.partway h.answered
      exact
        { hwatch with
          trigger := by
            rintro d ⟨hd, -⟩ -
            have hsocket : v.socket = some d := hd
            exact Or.inl (Or.inl (Option.bind_eq_some_iff.mpr ⟨d, hsocket, rfl⟩)) }

end TcpConn

theorem tcpConn_triggered {π : Type*} {cfg : Config} {P : ResponseParser π} {c : ℕ}
    {v : TcpConn π} (hpipeline : 1 ≤ cfg.pipeline)
    (hstatic : cfg.dynamic = false → cfg.request ≠ [])
    (hv : (tcpConn cfg P c).ReachableWith (TcpConn.answersLast cfg).Meets v) :
    (∀ o ∈ v.trace, o.Answers) → v.Triggered cfg := by
  refine tcpConn_invariant (I := fun v => (∀ o ∈ v.trace, o.Answers) → v.Triggered cfg) ?_ ?_ hv
  · intro _
    exact
      { request := fun _ => rfl
        writing := fun h => by cases h
        partway := fun d hd => by cases hd.1
        trigger := fun d hd => by cases hd.1
        answered := fun d hd => by cases hd }
  · intro v a hw h ha hp hanswers
    refine (h ?_).apply hpipeline hstatic hw ha hp hanswers
    obtain ⟨new, htrace, -⟩ := TcpConn.apply_adds cfg ha
    intro o ho
    exact hanswers o (htrace ▸ List.mem_append_right new ho)

/-! ## A thread -/

section Thread

variable {π : Type*} {cfg : Config} {P : ResponseParser π} {c : ℕ}

/-- The responses that a call of `socket_readable` completes, less those that
close the connection. -/
def keptAnswers (cfg : Config) (P : ResponseParser π) : π → List Read → ℕ
  | _, [] | _, .error :: _ | _, .retry :: _ => 0
  | parser, .again :: reads => keptAnswers cfg P parser reads
  | parser, .data chunk _ :: reads =>
      let chunk := chunk.take cfg.recvbuf
      let r := P.execute parser chunk
      r.completions.countP (·.keepAlive) +
        if r.consumed = chunk.length ∧ chunk.length = cfg.recvbuf then
          keptAnswers cfg P r.parser reads
        else 0

/-- No call of `socket_readable` that finds a batch half written completes
its last response, unless that closes the connection. Dynamic requests are not
empty, and a `delay_request` timer that finds it is time to send finds the
connection's own socket. -/
def WritesFirst (cfg : Config) (P : ResponseParser π) (s : TcpThread π) : TcpEvent → Prop
  | .readable fd a => (s.loop.events fd).rfileProc = some .socketReadable →
      (s.conns (s.loop.events fd).clientData).written ≠ 0 →
        keptAnswers cfg P (s.conns (s.loop.events fd).clientData).parser a.reads <
          (s.conns (s.loop.events fd).clientData).pending
  | .writable fd a => (s.loop.events fd).wfileProc = some .socketWriteable →
      s.Sends (s.loop.events fd).clientData a → cfg.dynamic = true → a.script ≠ []
  | .timer id a => SendsOnOwn s (.timer id a)

instance (cfg : Config) (P : ResponseParser π) (s : TcpThread π) (e : TcpEvent) :
    Decidable (WritesFirst cfg P s e) :=
  match e with
  | .readable _ _ => inferInstanceAs (Decidable (_ → _ → _))
  | .writable _ _ => inferInstanceAs (Decidable (_ → _ → _ → _))
  | .timer id a => inferInstanceAs (Decidable (SendsOnOwn s (.timer id a)))

/-- The responses still to be counted that keep the connection alive. -/
def keptTodo : Phase → ℕ
  | .reading _ todo => todo.countP (·.keepAlive)
  | _ => 0

/-- What is known in `socket_readable`: the batch stays unanswered while it
is half written. -/
def StaysPending (cfg : Config) (P : ResponseParser π) (v : TcpConn π) (_ : List ResponseAnswers)
    (reads : List Read) : Prop :=
  ∀ d, v.Connected d → v.conn.written ≠ 0 →
    keptTodo v.phase + keptAnswers cfg P v.conn.parser reads < v.conn.pending

theorem staysPending_rule :
    ReadRule cfg P c (TcpConn.answersLast cfg) (StaysPending cfg P) where
  read _ := trivial
  again h := h
  deliver := by
    intro v replaced chunk answers reads h hphase
    refine ⟨trivial, ?_⟩
    rintro d ⟨hd, hc⟩ hne
    obtain ⟨d', hd', rfl⟩ := Option.map_eq_some_iff.mp hd
    have hless := h d' ⟨hd', hc⟩ hne
    rw [hphase, keptTodo, List.countP_nil, Nat.zero_add, keptAnswers] at hless
    refine Nat.lt_of_le_of_lt (Nat.add_le_add_left ?_ _) hless
    split
    · exact Nat.le_refl _
    · exact Nat.le_refl _
  answer := by
    intro v replaced m ms as reads h hphase
    refine ⟨?_, fun _ _ _ => trivial, ?_⟩
    · rintro replaced' m' ms' hphase' halive ⟨d, hd⟩ hne
      have hless := h d hd hne
      rw [hphase', keptTodo, List.countP_cons_of_pos halive] at hless
      omega
    · rintro now counted r - d hd hne
      rw [TcpConn.answer_phase, TcpConn.answer_keepsParser, hphase]
      cases halive : m.keepAlive with
      | true =>
          obtain ⟨hold, hwritten, hpending⟩ := TcpConn.answer_connected halive hd
          rw [hwritten] at hne
          have hless := h _ hold.choose_spec hne
          rw [hphase, keptTodo, List.countP_cons_of_pos halive] at hless
          rw [hpending, u64Sub_of_le (by omega)]
          have hrest : keptTodo (.reading replaced ms) + keptAnswers cfg P v.conn.parser reads + 1 <
              v.conn.pending := by
            rw [Nat.add_right_comm]
            exact hless
          exact Nat.lt_sub_of_add_lt hrest
      | false => exact absurd hd (TcpConn.answer_disconnects halive)
  rest h _ := h

theorem WritesFirst.admitted {s : TcpThread π} {e : TcpEvent} (h : WritesFirst cfg P s e) :
    s.Admitted (TcpConn.answersLast cfg) (StaysPending cfg P) e := by
  cases e with
  | readable fd a =>
      refine ⟨fun _ _ _ => trivial, fun _ _ => trivial, ?_⟩
      intro hreader d _ hne
      rw [show keptTodo _ = 0 from rfl, Nat.zero_add]
      exact h hreader hne
  | writable fd a =>
      refine ⟨fun _ _ _ => trivial, fun _ _ => trivial, ?_⟩
      intro hwriter
      exact ⟨fun hsends => h hwriter hsends, fun _ _ _ => trivial⟩
  | timer id a =>
      intro te hte
      exact ⟨fun _ _ _ => trivial, fun hproc hsend => ⟨h te hte hproc hsend, trivial⟩⟩

/-- In every run in which batches are written before they are answered: when a
connected socket has nothing left to write and every request sent on it is
answered, `socket_writeable` is registered for it or a `delay_request` timer
of its connection is pending. -/
theorem tcp_next_batch_triggered (cfg : Config) (P : ResponseParser π)
    (hpipeline : 1 ≤ cfg.pipeline) (hstatic : cfg.dynamic = false → cfg.request ≠ [])
    {s : TcpThread π} (hs : (tcpThread cfg P).ReachableWith (WritesFirst cfg P) s)
    (hanswers : ∀ o ∈ s.trace, o.Answers) {c : ℕ} {d : Descriptor}
    (hd : s.socketOf c = some d) (hconnected : d.connected = true)
    (hwritten : (s.conns c).written = 0) (hanswered : d.sent ≤ d.answered) :
    (s.loop.events (s.conns c).fd).wfileProc = some .socketWriteable ∨
      s.hasTimer c .delayRequest = true := by
  obtain ⟨-, -, hruns⟩ := tcp_conn_reachable (fun _ => staysPending_rule)
    (fun _ _ _ _ _ h => WritesFirst.admitted h) hs
  have htriggered := tcpConn_triggered hpipeline hstatic (hruns c) fun o ho =>
    hanswers o (List.mem_of_mem_filter ho)
  rcases htriggered.trigger d ⟨hd, hconnected⟩ hwritten with hsend | ⟨hone, hle⟩
  · rcases hsend with hwriter | hwaits
    · obtain ⟨-, -, hwriter⟩ := Option.bind_eq_some_iff.mp hwriter
      exact Or.inl hwriter
    · exact Or.inr hwaits
  · omega

theorem tcp_next_batch_triggered_one : ∃ (s : TcpThread HttpParser) (d : Descriptor),
    (tcpThread twoConnections httpParser).ReachableWith (WritesFirst twoConnections httpParser) s ∧
    s.socketOf 0 = some d ∧ (s.conns 0).written = 0 ∧ d.sent = 1 ∧ d.answered = 1 ∧
    ((s.loop.events (s.conns 0).fd).wfileProc = some .socketWriteable ∨
      s.hasTimer 0 .delayRequest = true) := by
  obtain ⟨s, hs, hview⟩ : ∃ s, (tcpThread twoConnections httpParser).ReachableWith
      (WritesFirst twoConnections httpParser) s ∧
      (s.socketOf 0, (s.conns 0).written, decide (∀ o ∈ s.trace, o.Answers)) =
        (some ⟨some 0, true, 1, 1, [emptyResponse]⟩, 0, true) :=
    exists_reachableWith_of_runEvents (fun s : TcpThread HttpParser =>
      (s.socketOf 0, (s.conns 0).written, decide (∀ o ∈ s.trace, o.Answers)))
      oneRequest twoConnectionsStart_initial (by decide +kernel)
  simp only [Prod.mk.injEq, decide_eq_true_iff] at hview
  obtain ⟨hd, hwritten, hanswers⟩ := hview
  exact ⟨s, _, hs, hd, hwritten, rfl, rfl,
    tcp_next_batch_triggered twoConnections httpParser (by decide) (fun _ => by decide +kernel)
      hs hanswers hd rfl hwritten (by decide)⟩

/-- Five bytes of the request are sent when the server answers it. -/
def answeredEarly : List TcpEvent :=
  [.timer 0 { dt := 5 }, .writable 4 { dt := 10 },
    .writable 4 { dt := 10, startDt := 5, write := .ok 5 },
    .readable 4 { reads := [.data emptyResponse [{ dt := 100 }]] },
    .writable 4 { write := .ok 13 }]

/-- When the rest is sent, nothing is left to start another. -/
theorem trigger_lost : ∃ (s : TcpThread HttpParser) (d : Descriptor),
    (tcpThread twoConnections httpParser).Reachable s ∧ (∀ o ∈ s.trace, o.Answers) ∧
    s.socketOf 0 = some d ∧ d.connected = true ∧ (s.conns 0).written = 0 ∧
    d.sent = d.answered ∧ (s.loop.events (s.conns 0).fd).wfileProc = none ∧
    s.hasTimer 0 .delayRequest = false := by
  obtain ⟨s, hs, hview⟩ : ∃ s, (tcpThread twoConnections httpParser).Reachable s ∧
      (s.socketOf 0, (s.conns 0).written, (s.loop.events (s.conns 0).fd).wfileProc,
        s.hasTimer 0 .delayRequest, decide (∀ o ∈ s.trace, o.Answers)) =
        (some ⟨some 0, true, 1, 1, [emptyResponse]⟩, 0, none, false, true) :=
    exists_reachable_of_runEvents (fun s : TcpThread HttpParser =>
      (s.socketOf 0, (s.conns 0).written, (s.loop.events (s.conns 0).fd).wfileProc,
        s.hasTimer 0 .delayRequest, decide (∀ o ∈ s.trace, o.Answers)))
      answeredEarly twoConnectionsStart_initial (by decide +kernel)
  simp only [Prod.mk.injEq, decide_eq_true_iff] at hview
  obtain ⟨hd, hwritten, hwriter, htimer, hanswers⟩ := hview
  exact ⟨s, _, hs, hanswers, hd, rfl, hwritten, rfl, hwriter, htimer⟩

end Thread

end WrkQuic
