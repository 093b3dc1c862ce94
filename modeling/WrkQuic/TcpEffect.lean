import WrkQuic.Tcp

/-!
# What a handler can change

In whatever state it runs, a handler called for connection `c` changes no
other connection, makes no timer but `delay_request` timers of `c`, and
registers and opens descriptors for `c` only. The clock does not go back,
and the latency anchors of `c` stay in order (`Effect`).

The lemmas go from the single steps to the handlers, which are sequences
of them.
-/

namespace WrkQuic

/-- Latencies measured after a first batch are in order. -/
def TcpObservation.Measured : TcpObservation → Prop
  | .response _ _ _ (some t) => t.started = true → t.Ordered
  | _ => True

/-- The connection that is seen to act. -/
def TcpObservation.conn : TcpObservation → ℕ
  | .access _ c _ _ | .request c _ | .accepted c _ _ _ | .delivered c _ _ | .response c _ _ _ => c

/-- `stats_request_completed` counted the response. -/
def TcpObservation.counted : TcpObservation → Bool
  | .response _ _ _ timing => timing.isSome
  | _ => false

namespace TcpThread

variable {π : Type*}

/-- `s'` is reached from `s` by work on connection `c`. -/
structure Effect (c : ℕ) (s s' : TcpThread π) : Prop where
  clock : s.clock ≤ s'.clock
  conns : ∀ c', c' ≠ c → s'.conns c' = s.conns c'
  timers : ∀ te ∈ s'.loop.timeEvents,
    te ∈ s.loop.timeEvents ∨ te.timeProc = .delayRequest ∧ te.clientData = c
  slots : ∀ fd, (s'.loop.events fd).isNone = false →
    (s'.loop.events fd).clientData = c ∨ (s.loop.events fd).isNone = false ∧
      (s'.loop.events fd).clientData = (s.loop.events fd).clientData
  owners : ∀ fd d', s'.fds.get fd = some d' →
    d'.owner = some c ∨ ∃ d, s.fds.get fd = some d ∧ d.owner = d'.owner
  timed : (s.conns c).Timed s.clock → (s'.conns c).Timed s'.clock
  trace : (s.conns c).Timed s.clock → ∀ o ∈ s'.trace, o ∈ s.trace ∨ o.Measured
  appends : ∃ new, s'.trace = new ++ s.trace ∧ ∀ o ∈ new, o.conn = c
  /-- The timers of the other connections stay. -/
  kept : ∀ te ∈ s.loop.timeEvents, te.clientData ≠ c → te ∈ s'.loop.timeEvents
  complete : s'.complete + s.trace.countP (·.counted) = s.complete + s'.trace.countP (·.counted)

variable {c fd n : ℕ} {s s₁ s₂ s₃ : TcpThread π} {k : Connection π} {mask : Mask}
  {proc : FileProc} {o : TcpObservation}

theorem Effect.refl (c : ℕ) (s : TcpThread π) : s.Effect c s where
  clock := Nat.le_refl _
  conns _ _ := rfl
  timers _ h := Or.inl h
  slots _ h := Or.inr ⟨h, rfl⟩
  owners _ d h := Or.inr ⟨d, h, rfl⟩
  timed h := h
  trace _ _ h := Or.inl h
  appends := ⟨[], rfl, fun o ho => by cases ho⟩
  kept _ h _ := h
  complete := rfl

theorem Effect.trans (h : s₁.Effect c s₂) (h' : s₂.Effect c s₃) : s₁.Effect c s₃ where
  clock := h.clock.trans h'.clock
  conns c' hc := (h'.conns c' hc).trans (h.conns c' hc)
  timers te hte := by
    rcases h'.timers te hte with hte | hnew
    · exact h.timers te hte
    · exact Or.inr hnew
  slots fd hfd := by
    rcases h'.slots fd hfd with hc | ⟨hfd, hsame⟩
    · exact Or.inl hc
    · rw [hsame]
      exact h.slots fd hfd
  owners fd d' hd := by
    rcases h'.owners fd d' hd with hc | ⟨d, hd, hsame⟩
    · exact Or.inl hc
    · rw [← hsame]
      exact h.owners fd d hd
  timed ht := h'.timed (h.timed ht)
  trace ht o ho := by
    rcases h'.trace (h.timed ht) o ho with ho | hnew
    · exact h.trace ht o ho
    · exact Or.inr hnew
  appends := by
    obtain ⟨new, htrace, hnew⟩ := h.appends
    obtain ⟨new', htrace', hnew'⟩ := h'.appends
    refine ⟨new' ++ new, by rw [htrace', htrace, List.append_assoc], ?_⟩
    intro o ho
    exact (List.mem_append.mp ho).elim (hnew' o) (hnew o)
  kept te hte hc := h'.kept te (h.kept te hte hc) hc
  complete := by
    have := h.complete
    have := h'.complete
    omega

/-- The trace only grows. -/
theorem Effect.grows (h : s₁.Effect c s₂) : ∀ o ∈ s₁.trace, o ∈ s₂.trace := by
  obtain ⟨new, htrace, -⟩ := h.appends
  intro o ho
  rw [htrace]
  exact List.mem_append_right new ho

/-! ## Single steps -/

@[simp] theorem setConn_self : (s.setConn c k).conns c = k := Function.update_self ..

theorem setConn_of_ne {c' : ℕ} (h : c' ≠ c) : (s.setConn c k).conns c' = s.conns c' :=
  Function.update_of_ne h ..

theorem setConn_effect (h : (s.conns c).Timed s.clock → k.Timed s.clock) :
    s.Effect c (s.setConn c k) :=
  { Effect.refl c s with
    conns := fun _ hc => setConn_of_ne hc
    timed := by
      intro ht
      rw [setConn_self]
      exact h ht }

/-- A change of `c` that the latency anchors do not see. -/
theorem setConn_effect_congr (hpending : k.hasPending = true → (s.conns c).hasPending = true)
    (hstarted : k.started = (s.conns c).started)
    (hexpected : k.expectedLatencyStart = (s.conns c).expectedLatencyStart)
    (hactual : k.actualLatencyStart = (s.conns c).actualLatencyStart) :
    s.Effect c (s.setConn c k) :=
  setConn_effect fun ht => ht.congr hpending hstarted hexpected hactual

theorem observe_effect (hc : o.conn = c) (hcounted : o.counted = false)
    (h : (s.conns c).Timed s.clock → o.Measured) : s.Effect c (s.observe o) :=
  { Effect.refl c s with
    trace := by
      intro ht o' ho'
      rcases List.mem_cons.mp ho' with rfl | ho'
      · exact Or.inr (h ht)
      · exact Or.inl ho'
    appends := ⟨[o], rfl, fun o' ho' => List.mem_singleton.mp ho' ▸ hc⟩
    complete := by
      show s.complete + _ = s.complete + (o :: s.trace).countP (·.counted)
      rw [List.countP_cons_of_neg (by rw [hcounted]; exact Bool.false_ne_true)] }

theorem access_effect (kind : Access) (c fd : ℕ) : s.Effect c (s.access kind c fd) :=
  observe_effect rfl rfl fun _ => trivial

theorem tick_effect (c : ℕ) (s : TcpThread π) (dt : ℕ) : s.Effect c (s.tick dt) :=
  { Effect.refl c s with
    clock := Nat.le_add_right _ _
    timed := fun ht => ht.later (Nat.le_add_right _ _) }

/-- `aeCreateFileEvent` registers for `c`, or fails and changes nothing. -/
theorem createFileEvent_cases (s : TcpThread π) (c fd : ℕ) (mask : Mask) (proc : FileProc) :
    s.createFileEvent c fd mask proc = s.access .register c fd ∨
      fd < s.loop.setsize ∧ (∃ d, s.fds.get fd = some d) ∧
      s.createFileEvent c fd mask proc =
        (s.access .register c fd).setLoop (s.loop.addSlot fd mask proc c) := by
  unfold createFileEvent
  simp only
  split
  · rename_i loop hloop
    obtain ⟨hsize, hopen, rfl⟩ := aeCreateFileEvent_cases hloop
    exact Or.inr ⟨hsize, Option.isSome_iff_exists.mp hopen, rfl⟩
  · exact Or.inl rfl

@[simp] theorem createFileEvent_conns :
    (s.createFileEvent c fd mask proc).conns = s.conns := by
  rcases s.createFileEvent_cases c fd mask proc with h | ⟨-, -, h⟩
  · rw [h]
    rfl
  · rw [h]
    rfl

/-- A slot overwritten for `c`. -/
theorem addSlot_effect (c fd : ℕ) (mask : Mask) (proc : FileProc) :
    s.Effect c (s.setLoop (s.loop.addSlot fd mask proc c)) :=
  { Effect.refl c s with
    slots := by
      intro fd' hfd'
      simp only [setLoop, EventLoop.addSlot] at hfd' ⊢
      by_cases hfd : fd' = fd
      · subst hfd
        rw [Function.update_self]
        exact Or.inl rfl
      · rw [Function.update_of_ne hfd] at hfd' ⊢
        exact Or.inr ⟨hfd', rfl⟩ }

theorem createFileEvent_effect (mask : Mask) (proc : FileProc) :
    s.Effect c (s.createFileEvent c fd mask proc) := by
  rcases s.createFileEvent_cases c fd mask proc with h | ⟨-, -, h⟩
  · rw [h]
    exact access_effect _ _ _
  · rw [h]
    exact (access_effect .register c _).trans (addSlot_effect c fd mask proc)

theorem aeDeleteFileEvent_slot (loop : EventLoop FileProc TimeProc ℕ) (fd fd' : ℕ)
    (h : ((aeDeleteFileEvent loop fd mask).events fd').isNone = false) :
    (loop.events fd').isNone = false ∧
      ((aeDeleteFileEvent loop fd mask).events fd').clientData =
        (loop.events fd').clientData := by
  unfold aeDeleteFileEvent at h ⊢
  split at h
  · rename_i hsize
    rw [if_pos hsize]
    exact ⟨h, rfl⟩
  · rename_i hsize
    rw [if_neg hsize]
    split at h
    · rename_i hnone
      rw [if_pos hnone]
      exact ⟨h, rfl⟩
    · rename_i hnone
      rw [if_neg hnone]
      simp only at h ⊢
      by_cases hfd : fd' = fd
      · subst hfd
        rw [Function.update_self] at h ⊢
        exact ⟨Bool.eq_false_iff.mpr hnone, rfl⟩
      · rw [Function.update_of_ne hfd] at h ⊢
        exact ⟨h, rfl⟩

@[simp] theorem aeDeleteFileEvent_timeEvents (loop : EventLoop FileProc TimeProc ℕ) (fd : ℕ) :
    (aeDeleteFileEvent loop fd mask).timeEvents = loop.timeEvents := by
  unfold aeDeleteFileEvent
  split
  · rfl
  · split <;> rfl

theorem deleteFileEvent_effect (mask : Mask) :
    s.Effect c (s.deleteFileEvent c fd mask) := by
  refine (access_effect .unregister c fd).trans ?_
  exact
    { Effect.refl c _ with
      timers := by
        intro te hte
        rw [deleteFileEvent, setLoop, aeDeleteFileEvent_timeEvents] at hte
        exact Or.inl hte
      kept := by
        intro te hte _
        rw [deleteFileEvent, setLoop, aeDeleteFileEvent_timeEvents]
        exact hte
      slots := fun fd' h => Or.inr (aeDeleteFileEvent_slot s.loop fd fd' h) }

theorem createTimeEvent_effect : s.Effect c (s.createTimeEvent c .delayRequest) :=
  { Effect.refl c s with
    timers := by
      intro te hte
      rcases List.mem_cons.mp hte with rfl | hte
      · exact Or.inr ⟨rfl, rfl⟩
      · exact Or.inl hte
    kept := fun _ hte _ => List.mem_cons_of_mem _ hte }

/-- A timer of `c` is deleted. -/
theorem deleteTimeEvent_effect (id : ℕ)
    (h : ∀ te ∈ s.loop.timeEvents, te.id = id → te.clientData = c) :
    s.Effect c (s.deleteTimeEvent id) :=
  { Effect.refl c s with
    timers := fun _ hte => Or.inl (mem_aeDeleteTimeEvent hte).1
    kept := by
      intro te hte hc
      have hid : te.id ≠ id := fun hid => hc (h te hte hid)
      exact (List.mem_eraseP_of_neg (by simpa using hid)).mpr hte }

/-- A descriptor closed, opened for `c`, or with new counts. -/
theorem setFd_effect {value : Option Descriptor}
    (h : ∀ d', value = some d' → d'.owner = some c ∨
      ∃ d, s.fds.get fd = some d ∧ d.owner = d'.owner) :
    s.Effect c (s.setFds (s.fds.set fd value)) :=
  { Effect.refl c s with
    owners := by
      intro fd' d' hd'
      rw [setFds] at hd'
      by_cases hfd : fd' = fd
      · subst hfd
        rw [FdTable.get_set_self] at hd'
        exact h d' hd'
      · rw [FdTable.get_set_of_ne hfd] at hd'
        exact Or.inr ⟨d', hd', rfl⟩ }

theorem openSocket_effect : s.Effect c (s.openSocket c) :=
  setFd_effect fun d' h => Or.inl (by rw [← Option.some.inj h])

/-- New counts for a descriptor. -/
theorem modify_effect {f : Descriptor → Descriptor} (hf : ∀ d, (f d).owner = d.owner) :
    s.Effect c (s.setFds (s.fds.modify fd f)) := by
  refine setFd_effect ?_
  intro d' hd'
  obtain ⟨d, hd, rfl⟩ := Option.map_eq_some_iff.mp hd'
  exact Or.inr ⟨d, hd, (hf d).symm⟩

theorem close_effect : s.Effect c (s.close c fd) := by
  have hclosed : (s.access .close c fd).Effect c
      ((s.access .close c fd).setFds (s.fds.close fd)) :=
    setFd_effect fun d' h => by cases h
  exact (access_effect .close c fd).trans { hclosed with }

theorem connectError_effect : s.Effect c s.connectError := { Effect.refl c s with }

theorem readError_effect : s.Effect c s.readError := { Effect.refl c s with }

theorem writeError_effect : s.Effect c s.writeError := { Effect.refl c s with }

theorem statusError_effect : s.Effect c s.statusError := { Effect.refl c s with }

theorem received_effect : s.Effect c (s.received n) := { Effect.refl c s with }

/-! ## Connecting -/

theorem tcpConnectSocket_effect (s : TcpThread π) (c : ℕ) (connect : ConnectOutcome) :
    s.Effect c (s.tcpConnectSocket c connect) := by
  cases connect with
  | noSocket => exact connectError_effect
  | failed => exact (openSocket_effect.trans connectError_effect).trans close_effect
  | started =>
      have hopened : s.Effect c ((s.openSocket c).access .register c s.fds.lowest) :=
        openSocket_effect.trans (access_effect _ _ _)
      simp only [tcpConnectSocket]
      split
      · rename_i loop hloop
        obtain ⟨-, -, rfl⟩ := aeCreateFileEvent_cases hloop
        refine (hopened.trans (addSlot_effect c s.fds.lowest .both .socketConnected)).trans ?_
        exact setConn_effect_congr (fun h => h) rfl rfl rfl
      · exact (hopened.trans connectError_effect).trans close_effect

theorem tcpReconnectSocket_effect (s : TcpThread π) (c : ℕ) (connect : ConnectOutcome) :
    s.Effect c (s.tcpReconnectSocket c connect) :=
  ((deleteFileEvent_effect .both).trans close_effect).trans (tcpConnectSocket_effect _ c connect)

/-! ## Sending -/

theorem usecToNextSend_effect (s : TcpThread π) (c : ℕ) : s.Effect c (s.usecToNextSend c).2 :=
  setConn_effect fun ht => ht.usecToNextSend s.clock

theorem delayRequest_effect (s : TcpThread π) (c : ℕ) (a : Answers) :
    s.Effect c (s.delayRequest c a).2 := by
  have hasked := (tick_effect c s a.dt).trans (usecToNextSend_effect _ c)
  unfold delayRequest
  simp only
  split
  · exact hasked
  · exact hasked.trans (createFileEvent_effect _ _)

theorem accept_effect (cfg : Config) (s : TcpThread π) (c : ℕ) (bytes : Bytes) :
    s.Effect c (accept cfg s c bytes) :=
  (observe_effect (o := .accepted c (s.current c) _ bytes) rfl rfl fun _ => trivial).trans
    (modify_effect (f := (·.accepted cfg.pipeline _)) fun _ => rfl)

theorem advanceWritten_effect (s : TcpThread π) (c n : ℕ) :
    s.Effect c (s.advanceWritten c n) := by
  unfold advanceWritten
  simp only
  split
  · exact (setConn_effect_congr (k := { s.conns c with written := 0 }) (fun h => h) rfl rfl
      rfl).trans (deleteFileEvent_effect _)
  · exact setConn_effect_congr (fun h => h) rfl rfl rfl

theorem sockWrite_effect (cfg : Config) (c : ℕ) (connect : ConnectOutcome) :
    ∀ (write : Status ℕ) (s : TcpThread π), s.Effect c (sockWrite cfg s c connect write)
  | .ok n, s => by
      unfold sockWrite
      simp only
      refine (access_effect .write c (s.conns c).fd).trans ?_
      split
      · exact (accept_effect cfg _ c _).trans (advanceWritten_effect _ c _)
      · exact writeError_effect.trans (tcpReconnectSocket_effect _ c connect)
  | .error, s =>
      ((access_effect .write c _).trans writeError_effect).trans
        (tcpReconnectSocket_effect _ c connect)
  | .retry, s => access_effect .write c _
  | .again next, s => (access_effect .write c _).trans (sockWrite_effect cfg c connect next _)

/-- Before a batch is started the schedule was asked, at the time of `s`. -/
theorem prepareBatch_effect (cfg : Config) (s : TcpThread π) (c : ℕ) (a : Answers)
    (hschedule : (s.conns c).pacer.scheduledStart ≤ s.clock) :
    s.Effect c (prepareBatch cfg s c a) := by
  have hscript : ∃ s₁ : TcpThread π, s.Effect c s₁ ∧ s₁.clock = s.clock ∧
      (s₁.conns c).pacer = (s.conns c).pacer ∧ prepareBatch cfg s c a =
        (s₁.tick a.startDt).setConn c
          (((s₁.tick a.startDt).conns c).startBatch cfg.pipeline (s₁.clock + a.startDt)) := by
    by_cases hdyn : cfg.dynamic = true
    · refine ⟨(s.setConn c { s.conns c with request := a.script }).observe
        (.request c a.script), ?_, rfl, ?_, ?_⟩
      · exact (setConn_effect_congr (k := { s.conns c with request := a.script })
          (fun h => h) rfl rfl rfl).trans
          (observe_effect (o := .request c a.script) rfl rfl fun _ => trivial)
      · simp only [observe, setConn_self]
      · simp only [prepareBatch, if_pos hdyn]
        rfl
    · refine ⟨s, Effect.refl c s, rfl, rfl, ?_⟩
      simp only [prepareBatch, if_neg hdyn]
      rfl
  obtain ⟨s₁, heffect, hclock, hpacer, hs₁⟩ := hscript
  rw [hs₁]
  refine heffect.trans ((tick_effect c s₁ a.startDt).trans (setConn_effect ?_))
  intro ht
  refine ht.startBatch (Nat.le_refl _) cfg.pipeline ?_
  show (s₁.conns c).pacer.scheduledStart ≤ s₁.clock + a.startDt
  rw [hpacer, hclock]
  exact hschedule.trans (Nat.le_add_right _ _)

/-- When `usec_to_next_send` says to send, the schedule has been reached. -/
theorem usecToNextSend_scheduled (s : TcpThread π) (c : ℕ)
    (h : ¬ (s.usecToNextSend c).1 ≠ 0) :
    ((s.usecToNextSend c).2.conns c).pacer.scheduledStart ≤ (s.usecToNextSend c).2.clock := by
  have hnow := (s.conns c).pacer.scheduledStart_le_of_send (not_not.mp h)
  obtain ⟨hline, hrate, -, hstart, hcomplete⟩ := (s.conns c).pacer.usecToNextSend_schedule s.clock
  rw [show (s.usecToNextSend c).2.clock = s.clock from rfl, usecToNextSend, setConn_self]
  rw [Pacer.scheduledStart, hline, hrate, hstart, hcomplete]
  exact hnow

theorem sockWriteable_effect (cfg : Config) (s : TcpThread π) (c : ℕ) (a : Answers) :
    s.Effect c (sockWriteable cfg s c a) := by
  unfold sockWriteable
  split
  · have hasked := (tick_effect c s a.dt).trans (usecToNextSend_effect _ c)
    simp only
    split
    · exact (hasked.trans (deleteFileEvent_effect _)).trans createTimeEvent_effect
    · rename_i hsend
      have hprepared := prepareBatch_effect cfg _ c a (usecToNextSend_scheduled _ c hsend)
      exact (hasked.trans hprepared).trans (sockWrite_effect cfg c a.connect a.write _)
  · exact sockWrite_effect cfg c a.connect a.write s

/-! ## Receiving -/

theorem decrementPending_effect (s : TcpThread π) (c : ℕ) :
    s.Effect c (s.decrementPending c) := by
  unfold decrementPending
  simp only
  split
  · refine (setConn_effect_congr (k := { s.conns c with
      pending := u64Sub (s.conns c).pending 1, hasPending := false }) ?_ rfl rfl rfl).trans
        (createFileEvent_effect _ _)
    intro h
    cases h
  · exact setConn_effect_congr (fun h => h) rfl rfl rfl

theorem statsRequestCompleted_effect (cfg : Config) (s : TcpThread π) (c : ℕ)
    (target : Option Descriptor) : s.Effect c (statsRequestCompleted cfg s c target) := by
  unfold statsRequestCompleted
  split
  · have hstop : s.Effect c (s.setLoop (aeStop s.loop)) := { Effect.refl c s with }
    exact hstop.trans
      (observe_effect (o := .response c target _ none) rfl rfl fun _ => trivial)
  · have htimed := fun ht : (s.conns c).Timed s.clock => ht.requestCompleted
    have hset := setConn_effect (s := s) (k := (s.conns c).requestCompleted) htimed
    exact
      { hset with
        trace := by
          intro ht o ho
          rcases List.mem_cons.mp ho with rfl | ho
          · exact Or.inr fun hs => (htimed ht).timing_ordered cfg (Nat.le_refl _) hs
          · exact Or.inl ho
        appends := ⟨[_], rfl, fun o ho => List.mem_singleton.mp ho ▸ rfl⟩
        complete := by
          show s.complete + 1 + s.trace.countP (·.counted) =
            s.complete + (_ :: s.trace).countP (·.counted)
          rw [List.countP_cons_of_pos rfl]
          omega }

theorem responseAnswered_effect (s : TcpThread π) (c : ℕ) :
    s.Effect c (s.responseAnswered c) :=
  modify_effect fun _ => rfl

/-- A response is counted, before `response_complete` looks at the keep-alive
flag. -/
theorem responseCounted_effect (cfg : Config) (s : TcpThread π) (c status dt : ℕ) :
    s.Effect c (statsRequestCompleted cfg ((((if 399 < status then s.statusError else
      s).responseAnswered c).decrementPending c).tick dt) c (s.current c)) := by
  have hstatus : s.Effect c (if 399 < status then s.statusError else s) := by
    split
    · exact statusError_effect
    · exact Effect.refl c s
  exact (((hstatus.trans (responseAnswered_effect _ c)).trans
    (decrementPending_effect _ c)).trans (tick_effect c _ dt)).trans
      (statsRequestCompleted_effect cfg _ c (s.current c))

theorem responseComplete_effect (cfg : Config) (s : TcpThread π) (c : ℕ) (m : Completion)
    (a : ResponseAnswers) : s.Effect c (responseComplete cfg s c m a) := by
  have hcounted := responseCounted_effect cfg s c m.status a.dt
  unfold responseComplete
  simp only
  split
  · exact hcounted
  · exact hcounted.trans (tcpReconnectSocket_effect _ c a.connect)

theorem responsesComplete_effect (cfg : Config) (c : ℕ) :
    ∀ (ms : List Completion) (as : List ResponseAnswers) (s : TcpThread π),
      s.Effect c (responsesComplete cfg c s ms as)
  | [], _, s => Effect.refl c s
  | m :: ms, as, s =>
      (responseComplete_effect cfg s c m (as.headD {})).trans
        (responsesComplete_effect cfg c ms as.tail _)

theorem deliver_effect (s : TcpThread π) (c : ℕ) (chunk : Bytes) :
    s.Effect c (s.deliver c chunk) :=
  (observe_effect (o := .delivered c (s.current c) chunk) rfl rfl fun _ => trivial).trans
    (modify_effect (f := (·.deliver chunk)) fun _ => rfl)

theorem parseChunk_effect (cfg : Config) (P : ResponseParser π) (s : TcpThread π) (c : ℕ)
    (chunk : Bytes) (answers : List ResponseAnswers) :
    s.Effect c (parseChunk cfg P s c chunk answers).2 :=
  ((deliver_effect s c chunk).trans (setConn_effect_congr (k := { (s.deliver c chunk).conns c with
    parser := (P.execute (s.conns c).parser chunk).parser }) (fun h => h) rfl rfl rfl)).trans
      (responsesComplete_effect cfg c (P.execute (s.conns c).parser chunk).completions answers _)

theorem readFailed_effect (s : TcpThread π) (c : ℕ) (connect : ConnectOutcome) :
    s.Effect c (s.readFailed c connect) :=
  readError_effect.trans (tcpReconnectSocket_effect _ c connect)

theorem socketReadable_effect (cfg : Config) (P : ResponseParser π) (c : ℕ)
    (connect : ConnectOutcome) : ∀ (reads : List Read) (s : TcpThread π),
      s.Effect c (socketReadable cfg P c connect s reads)
  | [], s => Effect.refl c s
  | .error :: _, s => (access_effect .read c _).trans (readFailed_effect _ c connect)
  | .retry :: _, s => access_effect .read c _
  | .again :: reads, s =>
      (access_effect .read c _).trans (socketReadable_effect cfg P c connect reads _)
  | .data chunk answers :: reads, s => by
      unfold socketReadable
      simp only
      refine (access_effect .read c (s.conns c).fd).trans ?_
      split
      · have hparsed := parseChunk_effect cfg P (s.access .read c (s.conns c).fd) c
          (chunk.take cfg.recvbuf) answers
        split
        · exact hparsed.trans (readFailed_effect _ c connect)
        · split
          · exact (hparsed.trans received_effect).trans
              (socketReadable_effect cfg P c connect reads _)
          · exact hparsed.trans received_effect
      · exact readFailed_effect _ c connect

theorem socketConnected_effect (P : ResponseParser π) (fd c : ℕ) (connect : ConnectOutcome) :
    ∀ (status : Status Unit) (s : TcpThread π),
      s.Effect c (socketConnected P s fd c connect status)
  | .ok _, s =>
      (((setConn_effect_congr (k := { s.conns c with parser := P.init, written := 0 })
        (fun h => h) rfl rfl rfl).trans (createFileEvent_effect _ _)).trans
          (createFileEvent_effect _ _)).trans
            (modify_effect (f := Descriptor.connect) fun _ => rfl)
  | .error, _ => connectError_effect.trans (tcpReconnectSocket_effect _ c connect)
  | .retry, _ => Effect.refl c _
  | .again next, s => socketConnected_effect P fd c connect next s

/-! ## Events -/

/-- A file procedure works on the connection it was registered for. -/
theorem runFileProc_effect {cfg : Config} {P : ResponseParser π} {s s' : TcpThread π}
    {fd c : ℕ} {a : Answers} {proc : FileProc}
    (h : s.runFileProc cfg P fd c a proc = some s') : s.Effect c s' := by
  cases proc with
  | socketConnected =>
      obtain rfl := Option.some.inj h
      exact socketConnected_effect P fd c a.connect a.connected s
  | socketReadable =>
      obtain rfl := Option.some.inj h
      exact socketReadable_effect cfg P c a.connect a.reads s
  | socketWriteable =>
      rw [runFileProc] at h
      split at h
      · obtain rfl := Option.some.inj h
        exact sockWriteable_effect cfg s c a
      · cases h

end TcpThread

end WrkQuic
