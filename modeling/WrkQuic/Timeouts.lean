import WrkQuic.TcpLatency

/-!
# Timeouts

`check_timeouts` counts a timeout for each connection whose `c->start` is
more than `cfg.timeout` milliseconds ago. `c->start` is 0 before the first
batch, and stays where it is when a batch is answered, so that connections
without an unanswered batch are counted as well; and while the clock reads
less than the timeout, the subtraction wraps.

The counted timeouts are compared with what the thread was seen to send and
to receive.
-/

namespace WrkQuic

open Runs

/-- In a log, the last observation first, connection `c` sent a batch, and no
response since then left nothing of it to be answered. -/
def awaits (c : ℕ) : List TcpObservation → Bool
  | [] => false
  | .accepted c' _ first _ :: log => (first && c' = c) || awaits c log
  | .response c' _ pending _ :: log => !(pending = 0 && c' = c) && awaits c log
  | _ :: log => awaits c log

theorem awaits_other {c : ℕ} {o : TcpObservation} {log : List TcpObservation} (h : o.conn ≠ c) :
    awaits c (o :: log) = awaits c log := by
  cases o with
  | access kind c' fd target => rfl
  | request c' text => rfl
  | accepted c' target first bytes =>
      have h : ¬ c' = c := h
      rw [awaits, decide_eq_false h, Bool.and_false, Bool.false_or]
  | delivered c' target chunk => rfl
  | response c' target pending timing =>
      have h : ¬ c' = c := h
      rw [awaits, decide_eq_false h, Bool.and_false, Bool.not_false, Bool.true_and]

/-! ## `check_timeouts` -/

/-- What a call of `check_timeouts` computes: the connections it counts, and
those that have waited longer than the timeout for the rest of a batch. -/
structure TimeoutCheck where
  now : ℕ
  maxAge : ℕ
  counted : List ℕ
  overdue : List ℕ
deriving DecidableEq

/-- A thread with its `check_timeouts` timer, and the calls made so far. -/
structure TimeoutThread (π : Type*) where
  thread : TcpThread π
  /-- The timeouts counted so far; the `uint32_t` `errors.timeout` is their
  number modulo 2^32. -/
  timeouts : ℕ
  checks : List TimeoutCheck

inductive TimeoutEvent where
  | handler (e : TcpEvent)
  /-- The `check_timeouts` timer fires at a clock reading `dt` after the last
  one; `interrupted` is `stop`. -/
  | checkTimeouts (dt : ℕ) (interrupted : Bool)
deriving DecidableEq

variable {π : Type*}

/-- The loop of `check_timeouts` at clock reading `now`, for a timeout in
milliseconds. -/
def TcpThread.timeoutCheck (cfg : Config) (timeout : ℕ) (s : TcpThread π) (now : ℕ) :
    TimeoutCheck where
  now := now
  maxAge := u64Sub now (timeout * 1000 % 2 ^ 64)
  counted := (List.range cfg.connections).filter fun c =>
    u64Sub now (timeout * 1000 % 2 ^ 64) > (s.conns c).start
  overdue := (List.range cfg.connections).filter fun c =>
    awaits c s.trace ∧ (s.conns c).start + timeout * 1000 < now

/-- `check_timeouts`. -/
def checkTimeouts (cfg : Config) (timeout : ℕ) (s : TimeoutThread π) (dt : ℕ)
    (interrupted : Bool) : TimeoutThread π :=
  let thread := s.thread.tick dt
  let check := thread.timeoutCheck cfg timeout thread.clock
  { thread :=
      if interrupted ∨ cfg.stopAt ≤ thread.clock then thread.setLoop (aeStop thread.loop)
      else thread
    timeouts := s.timeouts + check.counted.length
    checks := check :: s.checks }

/-- The clock readings are values of a `uint64_t`. -/
def timeoutStep (cfg : Config) (P : ResponseParser π) (timeout : ℕ) (s : TimeoutThread π) :
    TimeoutEvent → Option (TimeoutThread π)
  | .handler e => (tcpStep cfg P s.thread e).map fun thread => { s with thread := thread }
  | .checkTimeouts dt interrupted =>
      if s.thread.clock + dt < 2 ^ 64 then some (checkTimeouts cfg timeout s dt interrupted)
      else none

def TimeoutThread.initial (thread : TcpThread π) : TimeoutThread π := ⟨thread, 0, []⟩

def timeoutThread (cfg : Config) (P : ResponseParser π) (timeout : ℕ) :
    Machine (TimeoutThread π) TimeoutEvent :=
  ofFun (fun s => ∃ clock reserved, s = .initial (.initial cfg P clock reserved))
    (timeoutStep cfg P timeout)

/-! ## One call -/

/-- `now - cfg.timeout * 1000` does not wrap, and exactly the connections
that are overdue are counted. -/
structure TimeoutCheck.Exact (timeout : ℕ) (k : TimeoutCheck) : Prop where
  unwrapped : (k.maxAge : ℤ) = (k.now : ℤ) - timeout * 1000
  counted : k.counted = k.overdue

/-- The clock reads at least the timeout, and a connection whose `c->start`
is longer ago than that waits for the rest of a batch. -/
def TcpThread.OnlyWaiting (cfg : Config) (timeout : ℕ) (s : TcpThread π) (now : ℕ) : Prop :=
  timeout * 1000 ≤ now ∧ ∀ c, c < cfg.connections → (s.conns c).start + timeout * 1000 < now →
    awaits c s.trace = true

section Call

variable {cfg : Config} {timeout now c : ℕ} {s : TcpThread π}

theorem maxAge_of_le (h : timeout * 1000 ≤ now) (hnow : now < 2 ^ 64) :
    u64Sub now (timeout * 1000 % 2 ^ 64) = now - timeout * 1000 := by
  rw [Nat.mod_eq_of_lt (Nat.lt_of_le_of_lt h hnow)]
  exact u64Sub_of_le h

theorem mem_counted (h : timeout * 1000 ≤ now) (hnow : now < 2 ^ 64) :
    c ∈ (s.timeoutCheck cfg timeout now).counted ↔
      c < cfg.connections ∧ (s.conns c).start + timeout * 1000 < now := by
  simp only [TcpThread.timeoutCheck, List.mem_filter, List.mem_range, decide_eq_true_eq,
    maxAge_of_le h hnow, and_congr_right_iff]
  omega

theorem mem_overdue : c ∈ (s.timeoutCheck cfg timeout now).overdue ↔
    c < cfg.connections ∧ awaits c s.trace = true ∧
      (s.conns c).start + timeout * 1000 < now := by
  simp only [TcpThread.timeoutCheck, List.mem_filter, List.mem_range, decide_eq_true_eq]

/-- The exact circumstance under which a call counts what it should. -/
theorem timeoutCheck_exact_iff (hnow : now < 2 ^ 64) :
    (s.timeoutCheck cfg timeout now).Exact timeout ↔ s.OnlyWaiting cfg timeout now := by
  constructor
  · rintro ⟨hunwrapped, hcounted⟩
    have hle : timeout * 1000 ≤ now := by
      have hmaxAge : (0 : ℤ) ≤ (s.timeoutCheck cfg timeout now).maxAge := Int.natCast_nonneg _
      rw [hunwrapped] at hmaxAge
      simp only [TcpThread.timeoutCheck] at hmaxAge
      omega
    refine ⟨hle, fun c hc hstart => ?_⟩
    have hmem := (mem_counted (s := s) hle hnow).mpr ⟨hc, hstart⟩
    rw [hcounted] at hmem
    exact (mem_overdue.mp hmem).2.1
  · rintro ⟨hle, hwaiting⟩
    refine ⟨?_, ?_⟩
    · show ((u64Sub now (timeout * 1000 % 2 ^ 64) : ℕ) : ℤ) = (now : ℤ) - timeout * 1000
      rw [maxAge_of_le hle hnow]
      omega
    · refine List.filter_congr fun c hc => ?_
      have hmem : c ∈ (s.timeoutCheck cfg timeout now).counted ↔
          c < cfg.connections ∧ (s.conns c).start + timeout * 1000 < now := mem_counted hle hnow
      have hlt := List.mem_range.mp hc
      rw [decide_eq_decide, maxAge_of_le hle hnow]
      constructor
      · intro hstart
        have hlate : (s.conns c).start + timeout * 1000 < now := by omega
        exact ⟨hwaiting c hlt hlate, hlate⟩
      · rintro ⟨-, hlate⟩
        omega

end Call

/-! ## What a connection waits for -/

namespace TcpThread

variable {cfg : Config} {P : ResponseParser π} {c c' fd : ℕ} {s s' t : TcpThread π} {mask : Mask}
  {proc : FileProc} {a : Answers}

/-- `c->start` is 0 before the first batch, and `has_pending` is set while an
answer is awaited. -/
structure Batched (c : ℕ) (s : TcpThread π) : Prop where
  unstarted : (s.conns c).started = false → (s.conns c).start = 0
  pending : (s.conns c).hasPending = true → (s.conns c).started = true
  waiting : awaits c s.trace = true → (s.conns c).hasPending = true

/-- Nothing changes that `Batched` looks at. -/
structure KeepsBatch (c : ℕ) (s s' : TcpThread π) : Prop where
  started : (s'.conns c).started = (s.conns c).started
  start : (s'.conns c).start = (s.conns c).start
  pending : (s'.conns c).hasPending = (s.conns c).hasPending
  waiting : awaits c s'.trace = awaits c s.trace

theorem Batched.kept (h : s.Batched c) (hq : s.KeepsBatch c s') : s'.Batched c where
  unstarted hs := by
    rw [hq.start]
    exact h.unstarted (hq.started.symm.trans hs)
  pending hp := by
    rw [hq.started]
    exact h.pending (hq.pending.symm.trans hp)
  waiting hw := by
    rw [hq.pending]
    exact h.waiting (hq.waiting.symm.trans hw)

theorem KeepsBatch.trans (h : s.KeepsBatch c t) (h' : t.KeepsBatch c s') : s.KeepsBatch c s' where
  started := h'.started.trans h.started
  start := h'.start.trans h.start
  pending := h'.pending.trans h.pending
  waiting := h'.waiting.trans h.waiting

theorem KeepsBatch.refl (c : ℕ) (s : TcpThread π) : s.KeepsBatch c s := ⟨rfl, rfl, rfl, rfl⟩

/-- A change of `c` that leaves its batch alone. -/
theorem setConn_keepsBatch {k : Connection π} (hstarted : k.started = (s.conns c).started)
    (hstart : k.start = (s.conns c).start) (hpending : k.hasPending = (s.conns c).hasPending) :
    s.KeepsBatch c (s.setConn c k) where
  started := by rwa [setConn_self]
  start := by rwa [setConn_self]
  pending := by rwa [setConn_self]
  waiting := rfl

theorem createFileEvent_keepsBatch : s.KeepsBatch c (s.createFileEvent c' fd mask proc) := by
  rcases s.createFileEvent_cases c' fd mask proc with h | ⟨-, -, h⟩
  · rw [h]
    exact ⟨rfl, rfl, rfl, rfl⟩
  · rw [h]
    exact ⟨rfl, rfl, rfl, rfl⟩

theorem tcpConnectSocket_keepsBatch (connect : ConnectOutcome) :
    s.KeepsBatch c (s.tcpConnectSocket c connect) := by
  cases connect with
  | noSocket => exact ⟨rfl, rfl, rfl, rfl⟩
  | failed => exact ⟨rfl, rfl, rfl, rfl⟩
  | started =>
      simp only [tcpConnectSocket]
      split
      · rename_i loop _
        have hset : s.KeepsBatch c
            (((s.openSocket c).access .register c s.fds.lowest).setLoop loop) :=
          ⟨rfl, rfl, rfl, rfl⟩
        exact hset.trans (setConn_keepsBatch rfl rfl rfl)
      · exact ⟨rfl, rfl, rfl, rfl⟩

theorem tcpReconnectSocket_keepsBatch (connect : ConnectOutcome) :
    s.KeepsBatch c (s.tcpReconnectSocket c connect) := by
  have hclosed : s.KeepsBatch c
      ((s.deleteFileEvent c (s.conns c).fd .both).close c (s.conns c).fd) :=
    ⟨rfl, rfl, rfl, rfl⟩
  exact hclosed.trans (tcpConnectSocket_keepsBatch connect)

theorem usecToNextSend_keepsBatch : s.KeepsBatch c (s.usecToNextSend c).2 :=
  setConn_keepsBatch rfl rfl rfl

theorem delayRequest_keepsBatch (a : Answers) : s.KeepsBatch c (s.delayRequest c a).2 := by
  have hasked : s.KeepsBatch c ((s.tick a.dt).usecToNextSend c).2 :=
    KeepsBatch.trans (t := s.tick a.dt) ⟨rfl, rfl, rfl, rfl⟩ usecToNextSend_keepsBatch
  unfold delayRequest
  simp only
  split
  · exact hasked
  · exact hasked.trans createFileEvent_keepsBatch

theorem delayedInitialConnect_keepsBatch (a : Answers) :
    s.KeepsBatch c (s.delayedInitialConnect c a) := by
  have hscheduled : s.KeepsBatch c ((s.tick a.dt).setConn c { s.conns c with
      pacer := { (s.conns c).pacer with threadStart := s.clock + a.dt } }) :=
    KeepsBatch.trans (t := s.tick a.dt) ⟨rfl, rfl, rfl, rfl⟩ (setConn_keepsBatch rfl rfl rfl)
  exact hscheduled.trans (tcpConnectSocket_keepsBatch a.connect)

/-! ## Sending -/

theorem advanceWritten_keepsBatch (n : ℕ) : s.KeepsBatch c (s.advanceWritten c n) := by
  unfold advanceWritten
  simp only
  split
  · exact (setConn_keepsBatch (k := { s.conns c with written := 0 }) rfl rfl rfl).trans
      ⟨rfl, rfl, rfl, rfl⟩
  · exact setConn_keepsBatch rfl rfl rfl

/-- The first bytes of a batch are sent while `has_pending` is set. -/
theorem accept_batched (h : s.Batched c) (cfg : Config) (bytes : Bytes)
    (hfirst : (s.conns c).written = 0 → (s.conns c).hasPending = true) :
    (accept cfg s c bytes).Batched c where
  unstarted := h.unstarted
  pending := h.pending
  waiting hw := by
    have hw : (decide ((s.conns c).written = 0 ∧ bytes ≠ []) && decide (c = c) ||
        awaits c s.trace) = true := hw
    rcases Bool.or_eq_true_iff.mp hw with hsent | hold
    · exact hfirst (of_decide_eq_true (Bool.and_eq_true_iff.mp hsent).1).1
    · exact h.waiting hold

theorem writeError_keepsBatch : s.KeepsBatch c s.writeError := ⟨rfl, rfl, rfl, rfl⟩

theorem sockWrite_batched (cfg : Config) (connect : ConnectOutcome) :
    ∀ (write : Status ℕ) {s : TcpThread π}, s.Batched c →
      ((s.conns c).written = 0 → (s.conns c).hasPending = true) →
      (sockWrite cfg s c connect write).Batched c
  | .ok n, s, h, hfirst => by
      unfold sockWrite
      simp only
      have haccess : (s.access .write c (s.conns c).fd).Batched c :=
        h.kept ⟨rfl, rfl, rfl, rfl⟩
      split
      · exact (accept_batched haccess cfg _ hfirst).kept (advanceWritten_keepsBatch _)
      · exact (haccess.kept writeError_keepsBatch).kept (tcpReconnectSocket_keepsBatch connect)
  | .error, s, h, _ =>
      have haccess : (s.access .write c (s.conns c).fd).Batched c :=
        h.kept ⟨rfl, rfl, rfl, rfl⟩
      (haccess.kept writeError_keepsBatch).kept (tcpReconnectSocket_keepsBatch connect)
  | .retry, _, h, _ => h.kept ⟨rfl, rfl, rfl, rfl⟩
  | .again next, s, h, hfirst =>
      sockWrite_batched cfg connect next (s := s.access .write c (s.conns c).fd)
        (h.kept ⟨rfl, rfl, rfl, rfl⟩) hfirst

theorem startBatch_batched (h : s.Batched c) (pipeline now : ℕ) :
    (s.setConn c ((s.conns c).startBatch pipeline now)).Batched c ∧
      ((s.setConn c ((s.conns c).startBatch pipeline now)).conns c).hasPending = true := by
  have hstarted : ((s.conns c).startBatch pipeline now).started = true ∧
      ((s.conns c).startBatch pipeline now).hasPending = true := by
    unfold Connection.startBatch
    split
    · rename_i hpending
      exact ⟨h.pending hpending, hpending⟩
    · exact ⟨rfl, rfl⟩
  refine ⟨?_, by rw [setConn_self]; exact hstarted.2⟩
  exact
    { unstarted := by
        rw [setConn_self, hstarted.1]
        exact fun hs => by cases hs
      pending := by
        rw [setConn_self]
        exact fun _ => hstarted.1
      waiting := by
        rw [setConn_self]
        exact fun _ => hstarted.2 }

/-- A batch that is prepared sets `has_pending`. -/
theorem prepareBatch_batched (h : s.Batched c) (cfg : Config) (a : Answers) :
    (prepareBatch cfg s c a).Batched c ∧
      ((prepareBatch cfg s c a).conns c).hasPending = true := by
  unfold prepareBatch
  simp only
  split
  · have hscript : s.KeepsBatch c (s.setConn c { s.conns c with request := a.script }) :=
      setConn_keepsBatch rfl rfl rfl
    refine startBatch_batched (s := TcpThread.tick _ a.startDt) (h.kept (hscript.trans ?_)) _ _
    exact ⟨rfl, rfl, rfl, rfl⟩
  · have htick : (s.tick a.startDt).Batched c := h.kept ⟨rfl, rfl, rfl, rfl⟩
    exact startBatch_batched htick _ _

theorem sockWriteable_batched (h : s.Batched c) (cfg : Config) (a : Answers) :
    (sockWriteable cfg s c a).Batched c := by
  unfold sockWriteable
  split
  · have hasked : s.KeepsBatch c ((s.tick a.dt).usecToNextSend c).2 :=
      KeepsBatch.trans (t := s.tick a.dt) ⟨rfl, rfl, rfl, rfl⟩ usecToNextSend_keepsBatch
    simp only
    split
    · exact h.kept (hasked.trans ⟨rfl, rfl, rfl, rfl⟩)
    · obtain ⟨hprepared, hpending⟩ := prepareBatch_batched (h.kept hasked) cfg a
      exact sockWrite_batched cfg a.connect a.write hprepared fun _ => hpending
  · rename_i hwritten
    exact sockWrite_batched cfg a.connect a.write h fun hzero => absurd hzero hwritten

/-! ## Receiving -/

/-- `has_pending` is cleared when `c->pending` gets to 0. -/
theorem decrementPending_cases :
    s.KeepsBatch c (s.decrementPending c) ∨
      ((s.decrementPending c).conns c).pending = 0 ∧
        ((s.decrementPending c).conns c).hasPending = false ∧
        ((s.decrementPending c).conns c).started = (s.conns c).started ∧
        ((s.decrementPending c).conns c).start = (s.conns c).start := by
  unfold decrementPending
  simp only
  split
  · rename_i hzero
    refine Or.inr ?_
    rw [createFileEvent_conns, setConn_self]
    exact ⟨hzero, rfl, rfl, rfl⟩
  · exact Or.inl (setConn_keepsBatch rfl rfl rfl)

/-- What is observed of a response that is counted. -/
theorem statsRequestCompleted_seen (target : Option Descriptor) :
    (statsRequestCompleted cfg s c target).KeepsBatch c
        (s.observe (.response c target (s.conns c).pending none)) := by
  unfold statsRequestCompleted
  split
  · exact ⟨rfl, rfl, rfl, rfl⟩
  · refine ⟨?_, ?_, ?_, rfl⟩
    · simp only [observe, setConn_self]
      rfl
    · simp only [observe, setConn_self]
      rfl
    · simp only [observe, setConn_self]
      rfl

theorem KeepsBatch.symm (h : s.KeepsBatch c s') : s'.KeepsBatch c s :=
  ⟨h.started.symm, h.start.symm, h.pending.symm, h.waiting.symm⟩

/-- The last response of a batch ends the waiting. -/
theorem responseCounted_batched (h : s.Batched c) (cfg : Config) (m : Completion) (dt : ℕ)
    (target : Option Descriptor) :
    (statsRequestCompleted cfg ((((if 399 < m.status then s.statusError else
      s).responseAnswered c).decrementPending c).tick dt) c target).Batched c := by
  have hanswered :
      ((if 399 < m.status then s.statusError else s).responseAnswered c).Batched c := by
    split
    · exact h.kept ⟨rfl, rfl, rfl, rfl⟩
    · exact h.kept ⟨rfl, rfl, rfl, rfl⟩
  generalize (if 399 < m.status then s.statusError else s).responseAnswered c = s at hanswered ⊢
  refine Batched.kept ?_ (statsRequestCompleted_seen target).symm
  rcases decrementPending_cases (s := s) (c := c) with hkeeps | ⟨hzero, hpending, hstarted, hstart⟩
  · have hb := hanswered.kept hkeeps
    exact
      { unstarted := hb.unstarted
        pending := hb.pending
        waiting := fun hw => hb.waiting (Bool.and_eq_true_iff.mp hw).2 }
  · exact
      { unstarted := by
          show ((s.decrementPending c).conns c).started = false →
            ((s.decrementPending c).conns c).start = 0
          rw [hstarted, hstart]
          exact hanswered.unstarted
        pending := by
          intro hp
          exact absurd (hpending.symm.trans hp) Bool.false_ne_true
        waiting := by
          intro hw
          have hw : (!(decide (((s.decrementPending c).conns c).pending = 0) && decide (c = c)) &&
              awaits c (s.decrementPending c).trace) = true := hw
          rw [hzero, decide_eq_true rfl, decide_eq_true rfl] at hw
          cases hw }

theorem responseComplete_batched (h : s.Batched c) (cfg : Config) (m : Completion)
    (a : ResponseAnswers) : (responseComplete cfg s c m a).Batched c := by
  have hcounted := responseCounted_batched h cfg m a.dt (s.current c)
  unfold responseComplete
  simp only
  split
  · exact hcounted
  · exact hcounted.kept (tcpReconnectSocket_keepsBatch a.connect)

theorem responsesComplete_batched (cfg : Config) :
    ∀ (ms : List Completion) (as : List ResponseAnswers) {s : TcpThread π}, s.Batched c →
      (responsesComplete cfg c s ms as).Batched c
  | [], _, _, h => h
  | m :: ms, as, _, h =>
      responsesComplete_batched cfg ms as.tail (responseComplete_batched h cfg m _)

theorem parseChunk_batched (h : s.Batched c) (cfg : Config) (P : ResponseParser π) (chunk : Bytes)
    (answers : List ResponseAnswers) : (parseChunk cfg P s c chunk answers).2.Batched c := by
  have hdelivered : s.KeepsBatch c (s.deliver c chunk) := ⟨rfl, rfl, rfl, rfl⟩
  exact responsesComplete_batched cfg _ answers
    (h.kept (hdelivered.trans (setConn_keepsBatch rfl rfl rfl)))

theorem readFailed_keepsBatch (connect : ConnectOutcome) :
    s.KeepsBatch c (s.readFailed c connect) :=
  KeepsBatch.trans (t := s.readError) ⟨rfl, rfl, rfl, rfl⟩ (tcpReconnectSocket_keepsBatch connect)

theorem socketReadable_batched (cfg : Config) (P : ResponseParser π) (connect : ConnectOutcome) :
    ∀ (reads : List Read) {s : TcpThread π}, s.Batched c →
      (socketReadable cfg P c connect s reads).Batched c
  | [], _, h => h
  | .error :: _, s, h => by
      have haccess : s.KeepsBatch c (s.access .read c (s.conns c).fd) := ⟨rfl, rfl, rfl, rfl⟩
      exact h.kept (haccess.trans (readFailed_keepsBatch connect))
  | .retry :: _, _, h => h.kept ⟨rfl, rfl, rfl, rfl⟩
  | .again :: reads, s, h =>
      socketReadable_batched cfg P connect reads (s := s.access .read c (s.conns c).fd)
        (h.kept ⟨rfl, rfl, rfl, rfl⟩)
  | .data chunk answers :: reads, s, h => by
      have haccess : (s.access .read c (s.conns c).fd).Batched c := h.kept ⟨rfl, rfl, rfl, rfl⟩
      unfold socketReadable
      simp only
      split
      · have hparsed := parseChunk_batched haccess cfg P (chunk.take cfg.recvbuf) answers
        split
        · exact hparsed.kept (readFailed_keepsBatch connect)
        · have hreceived : ((parseChunk cfg P (s.access .read c (s.conns c).fd) c
              (chunk.take cfg.recvbuf) answers).2.received
                (chunk.take cfg.recvbuf).length).Batched c :=
            hparsed.kept ⟨rfl, rfl, rfl, rfl⟩
          split
          · exact socketReadable_batched cfg P connect reads hreceived
          · exact hreceived
      · exact haccess.kept (readFailed_keepsBatch connect)

theorem socketConnected_keepsBatch (P : ResponseParser π) (connect : ConnectOutcome) :
    ∀ (status : Status Unit) {s : TcpThread π},
      s.KeepsBatch c (socketConnected P s fd c connect status)
  | .ok _, s => by
      have hset : s.KeepsBatch c (s.setConn c { s.conns c with parser := P.init, written := 0 }) :=
        setConn_keepsBatch rfl rfl rfl
      exact ((hset.trans createFileEvent_keepsBatch).trans createFileEvent_keepsBatch).trans
        ⟨rfl, rfl, rfl, rfl⟩
  | .error, s =>
      KeepsBatch.trans (t := s.connectError) ⟨rfl, rfl, rfl, rfl⟩
        (tcpReconnectSocket_keepsBatch connect)
  | .retry, s => .refl c s
  | .again next, _ => socketConnected_keepsBatch P connect next

/-! ## Events -/

/-- A handler of another connection. -/
theorem Batched.effect (h : s.Batched c') (hc : c' ≠ c) (he : s.Effect c s') : s'.Batched c' := by
  refine h.kept ?_
  have hconn := he.conns c' hc
  refine ⟨by rw [hconn], by rw [hconn], by rw [hconn], ?_⟩
  obtain ⟨new, htrace, hnew⟩ := he.appends
  rw [htrace]
  clear htrace
  induction new with
  | nil => rfl
  | cons o new ih =>
      have ih := ih fun o' ho' => hnew o' (List.mem_cons_of_mem o ho')
      have ho : o.conn ≠ c' := by
        rw [hnew o (List.mem_cons_self ..)]
        exact Ne.symm hc
      rw [List.cons_append, ← ih]
      exact awaits_other ho

theorem runFileProc_batched (h : s.Batched c) (hrun : s.runFileProc cfg P fd c a proc = some s') :
    s'.Batched c := by
  cases proc with
  | socketConnected =>
      obtain rfl := Option.some.inj hrun
      exact h.kept (socketConnected_keepsBatch P a.connect a.connected)
  | socketReadable =>
      obtain rfl := Option.some.inj hrun
      exact socketReadable_batched cfg P a.connect a.reads h
  | socketWriteable =>
      rw [runFileProc] at hrun
      split at hrun
      · obtain rfl := Option.some.inj hrun
        exact sockWriteable_batched h cfg a
      · cases hrun

theorem runTimeEvent_keepsBatch (te : TimeEvent TimeProc ℕ) (a : Answers) :
    s.KeepsBatch te.clientData (s.runTimeEvent te a) := by
  unfold runTimeEvent
  split
  · exact (delayedInitialConnect_keepsBatch a).trans ⟨rfl, rfl, rfl, rfl⟩
  · simp only
    split
    · exact (delayRequest_keepsBatch a).trans ⟨rfl, rfl, rfl, rfl⟩
    · exact delayRequest_keepsBatch a

/-- Every step keeps every connection's batch in order. -/
theorem tcpStep_batched {e : TcpEvent} (hsetup : s.Setup) (h : ∀ c, s.Batched c)
    (hstep : tcpStep cfg P s e = some s') : ∀ c, s'.Batched c := by
  have hother {c₀ : ℕ} (he : s.Effect c₀ s') (hown : s'.Batched c₀) (c : ℕ) : s'.Batched c := by
    by_cases hc : c = c₀
    · rwa [hc]
    · exact (h c).effect hc he
  cases e with
  | readable fd a =>
      obtain ⟨proc, hproc, hrun⟩ := Option.bind_eq_some_iff.mp hstep
      exact hother (runFileProc_effect hrun) (runFileProc_batched (h _) hrun)
  | writable fd a =>
      obtain ⟨proc, hproc, hrun⟩ := Option.bind_eq_some_iff.mp hstep
      exact hother (runFileProc_effect hrun) (runFileProc_batched (h _) hrun)
  | timer id a =>
      obtain ⟨te, hfind, rfl⟩ := Option.map_eq_some_iff.mp hstep
      have hte := List.mem_of_find?_eq_some hfind
      exact hother (runTimeEvent_effect hsetup hte a) ((h _).kept (runTimeEvent_keepsBatch te a))

end TcpThread

open TcpThread

/-! ## Runs -/

section Runs

variable {cfg : Config} {P : ResponseParser π} {timeout : ℕ} {s : TimeoutThread π}

/-- The steps that call `check_timeouts` do so when no idle connection is old
enough to be counted, and the clock reads at least the timeout. -/
def ChecksWaiting (cfg : Config) (timeout : ℕ) (s : TimeoutThread π) : TimeoutEvent → Prop
  | .handler _ => True
  | .checkTimeouts dt _ => s.thread.OnlyWaiting cfg timeout (s.thread.clock + dt)

/-- `check_timeouts` reads the clock, and may stop the event loop. -/
theorem checkTimeouts_thread (cfg : Config) (timeout : ℕ) (s : TimeoutThread π) (dt : ℕ)
    (interrupted : Bool) :
    (checkTimeouts cfg timeout s dt interrupted).thread.conns = s.thread.conns ∧
      (checkTimeouts cfg timeout s dt interrupted).thread.fds = s.thread.fds ∧
      (checkTimeouts cfg timeout s dt interrupted).thread.loop.timeEvents =
        s.thread.loop.timeEvents ∧
      (checkTimeouts cfg timeout s dt interrupted).thread.loop.events = s.thread.loop.events ∧
      (checkTimeouts cfg timeout s dt interrupted).thread.trace = s.thread.trace := by
  unfold checkTimeouts
  simp only
  split
  · exact ⟨rfl, rfl, rfl, rfl, rfl⟩
  · exact ⟨rfl, rfl, rfl, rfl, rfl⟩

theorem TcpThread.Setup.congr {s s' : TcpThread π} (h : s.Setup) (hconns : s'.conns = s.conns)
    (hfds : s'.fds = s.fds) (htimers : s'.loop.timeEvents = s.loop.timeEvents)
    (hevents : s'.loop.events = s.loop.events) : s'.Setup where
  ids te hte hproc := h.ids te (htimers ▸ hte) hproc
  fresh te hte hproc := by
    obtain ⟨started, timers, slots, owners⟩ := h.fresh te (htimers ▸ hte) hproc
    refine ⟨?_, ?_, ?_, ?_⟩
    · rwa [hconns]
    · rwa [htimers]
    · rwa [hevents]
    · rwa [hfds]

theorem timeouts_batched (hs : (timeoutThread cfg P timeout).Reachable s) :
    s.thread.Setup ∧ ∀ c, s.thread.Batched c := by
  refine hs.invariant (P := fun s => s.thread.Setup ∧ ∀ c, s.thread.Batched c) ?_ ?_
  · rintro s ⟨clock, reserved, rfl⟩
    exact ⟨initial_setup cfg P clock reserved, fun c =>
      ⟨fun _ => rfl, fun h => absurd h Bool.false_ne_true, fun h => absurd h Bool.false_ne_true⟩⟩
  · rintro s e s' ⟨hsetup, hbatched⟩ hstep
    have hstep : timeoutStep cfg P timeout s e = some s' := hstep
    cases e with
    | handler e =>
        obtain ⟨thread, hthread, rfl⟩ := Option.map_eq_some_iff.mp hstep
        exact ⟨(tcpStep_effect hsetup hthread).1, tcpStep_batched hsetup hbatched hthread⟩
    | checkTimeouts dt interrupted =>
        rw [timeoutStep] at hstep
        split at hstep
        · obtain rfl := Option.some.inj hstep
          obtain ⟨hconns, hfds, htimers, hevents, htrace⟩ :=
            checkTimeouts_thread cfg timeout s dt interrupted
          refine ⟨hsetup.congr hconns hfds htimers hevents, fun c => (hbatched c).kept ?_⟩
          exact ⟨by rw [hconns], by rw [hconns], by rw [hconns], by rw [htrace]⟩
        · cases hstep

/-- Every call counted exactly the connections that were overdue, and
`errors.timeout` is their number. -/
structure TimeoutsExact (timeout : ℕ) (s : TimeoutThread π) : Prop where
  exact : ∀ k ∈ s.checks, k.Exact timeout
  total : s.timeouts = (s.checks.map (·.overdue.length)).sum

theorem timeouts_exact
    (hs : (timeoutThread cfg P timeout).ReachableWith (ChecksWaiting cfg timeout) s) :
    TimeoutsExact timeout s := by
  refine hs.invariant (P := TimeoutsExact timeout) ?_ ?_
  · rintro s ⟨clock, reserved, rfl⟩
    exact ⟨nofun, rfl⟩
  · intro s e s' h hstep hok
    have hstep : timeoutStep cfg P timeout s e = some s' := hstep
    cases e with
    | handler e =>
        obtain ⟨thread, -, rfl⟩ := Option.map_eq_some_iff.mp hstep
        exact ⟨h.exact, h.total⟩
    | checkTimeouts dt interrupted =>
        rw [timeoutStep] at hstep
        split at hstep
        · rename_i hnow
          obtain rfl := Option.some.inj hstep
          have hexact := (timeoutCheck_exact_iff hnow).mpr hok
          refine ⟨?_, ?_⟩
          · intro k hk
            rcases List.mem_cons.mp hk with rfl | hk
            · exact hexact
            · exact h.exact k hk
          · show s.timeouts + List.length _ = (List.map _ (_ :: s.checks)).sum
            rw [List.map_cons, List.sum_cons, h.total, Nat.add_comm]
            exact congrArg (List.length · + _) hexact.counted
        · cases hstep

end Runs

/-- In runs that call `check_timeouts` only when the clock reads at least the
timeout and each connection whose `c->start` is longer ago waits for the rest
of a batch, `errors.timeout` is the number of connections that were overdue.
In any reachable state a call counts what it should exactly then. Where
`has_pending` is not set nothing is waited for, and such a connection is
counted as soon as its `c->start` is old enough; before the first batch,
`c->start` is 0. -/
theorem timeouts_waiting_iff (cfg : Config) (P : ResponseParser π) (timeout : ℕ) :
    (∀ s, (timeoutThread cfg P timeout).ReachableWith (ChecksWaiting cfg timeout) s →
      TimeoutsExact timeout s) ∧
    ∀ s, (timeoutThread cfg P timeout).Reachable s →
      (∀ now, s.thread.clock ≤ now → now < 2 ^ 64 →
        ((s.thread.timeoutCheck cfg timeout now).Exact timeout ↔
          s.thread.OnlyWaiting cfg timeout now)) ∧
      ∀ c, c < cfg.connections →
        ((s.thread.conns c).started = false →
          (s.thread.conns c).start = 0 ∧ (s.thread.conns c).hasPending = false) ∧
        ((s.thread.conns c).hasPending = false → ∀ now, now < 2 ^ 64 → timeout * 1000 ≤ now →
          (s.thread.conns c).start + timeout * 1000 < now →
          c ∈ (s.thread.timeoutCheck cfg timeout now).counted ∧
            c ∉ (s.thread.timeoutCheck cfg timeout now).overdue) := by
  refine ⟨fun s hs => timeouts_exact hs, fun s hs => ⟨?_, ?_⟩⟩
  · intro now _ hnow
    exact timeoutCheck_exact_iff hnow
  · intro c hc
    have hbatched := (timeouts_batched hs).2 c
    refine ⟨fun hstarted => ⟨hbatched.unstarted hstarted, ?_⟩, ?_⟩
    · refine Bool.eq_false_iff.mpr fun hpending => ?_
      exact absurd (hstarted.symm.trans (hbatched.pending hpending)) Bool.false_ne_true
    · intro hidle now hnow hle hlate
      refine ⟨(mem_counted hle hnow).mpr ⟨hc, hlate⟩, fun hoverdue => ?_⟩
      have hpending := hbatched.waiting (mem_overdue.mp hoverdue).2.1
      exact absurd (hidle.symm.trans hpending) Bool.false_ne_true

instance {cfg : Config} {timeout now : ℕ} {s : TcpThread π} :
    Decidable (s.OnlyWaiting cfg timeout now) :=
  inferInstanceAs (Decidable (_ ∧ ∀ c, c < _ → _ → _))

instance {cfg : Config} {timeout : ℕ} {s : TimeoutThread π} :
    ∀ e, Decidable (ChecksWaiting cfg timeout s e)
  | .handler _ => inferInstanceAs (Decidable True)
  | .checkTimeouts _ _ => inferInstanceAs (Decidable (TcpThread.OnlyWaiting ..))

/-- One connection, in a run of ten seconds that starts at a time of day. -/
def tenSeconds : Config := { twoConnections with
  connections := 1
  stopAt := 1700000010000000 }

def tenSecondsStart : TimeoutThread HttpParser :=
  .initial (.initial tenSeconds httpParser 1700000000000000 (.firstOpen 4 ()))

theorem tenSecondsStart_initial : ∃ clock reserved,
    tenSecondsStart = .initial (.initial tenSeconds httpParser clock reserved) :=
  ⟨1700000000000000, .firstOpen 4 (), rfl⟩

/-- A request is sent at once, and has no answer 2.1 seconds later. -/
def unanswered : List TimeoutEvent :=
  [.handler (.timer 0 {}), .handler (.writable 4 {}), .handler (.writable 4 { write := .ok 18 }),
    .checkTimeouts 2100000 false]

theorem timeouts_waiting_iff_one : ∃ s : TimeoutThread HttpParser,
    (timeoutThread tenSeconds httpParser 2000).ReachableWith (ChecksWaiting tenSeconds 2000) s ∧
    s.timeouts = 1 ∧ TimeoutsExact 2000 s := by
  obtain ⟨s, hs, htimeouts⟩ : ∃ s, (timeoutThread tenSeconds httpParser 2000).ReachableWith
      (ChecksWaiting tenSeconds 2000) s ∧ s.timeouts = 1 :=
    exists_reachableWith_of_runEvents (fun s : TimeoutThread HttpParser => s.timeouts) unanswered
      tenSecondsStart_initial (by decide +kernel)
  exact ⟨s, hs, htimeouts, (timeouts_waiting_iff tenSeconds httpParser 2000).1 s hs⟩

/-- The server does not accept the connection: nothing is sent, and the first
call of `check_timeouts`, after 2.005 seconds, counts a timeout. -/
theorem timeout_before_first_batch : ∃ (s : TimeoutThread HttpParser) (k : TimeoutCheck),
    (timeoutThread tenSeconds httpParser 2000).Reachable s ∧ k ∈ s.checks ∧ s.timeouts = 1 ∧
    awaits 0 s.thread.trace = false ∧ 0 ∈ k.counted ∧ ¬ k.Exact 2000 := by
  obtain ⟨s, hs, hlast⟩ : ∃ s, (timeoutThread tenSeconds httpParser 2000).Reachable s ∧
      (s.checks, s.timeouts, awaits 0 s.thread.trace) =
        ([⟨1700000002005000, 1700000000005000, [0], []⟩], 1, false) :=
    exists_reachable_of_runEvents
      (fun s : TimeoutThread HttpParser => (s.checks, s.timeouts, awaits 0 s.thread.trace))
      [.handler (.timer 0 {}), .checkTimeouts 2005000 false] tenSecondsStart_initial
      (by decide +kernel)
  obtain ⟨hchecks, htotal, hsent⟩ := Prod.mk.inj hlast |>.imp id Prod.mk.inj
  refine ⟨s, _, hs, hchecks ▸ List.mem_singleton_self _, htotal, hsent,
    List.mem_singleton_self 0, ?_⟩
  intro hexact
  cases hexact.counted

end WrkQuic
