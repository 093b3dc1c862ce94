import WrkQuic.TcpOwnership

/-!
# One connection

What a thread holds of one connection: its `struct connection`, its open
socket with the procedures that are registered for it, its timers, and what
it was seen to do. The handlers move it in small steps (`TcpAct`), and a
step is possible only where the source can take it (`Allowed`).

`Policy` says what the environment does; the connection machine is the same
under every policy. `TcpSimulation` shows that each connection of a thread
runs this machine.
-/

namespace WrkQuic

open Runs

/-- The handler that is running for the connection. -/
inductive Phase where
  | idle
  /-- `sock_writeable` has prepared a batch and nothing of it is accepted. -/
  | writing
  /-- `socket_readable`. The responses `todo` of the last chunk are still to
  be counted; `replaced` once one of them has replaced the socket. -/
  | reading (replaced : Bool) (todo : List Completion)

structure TcpConn (π : Type*) where
  conn : Connection π
  /-- The descriptor `c->fd`, if it is open and the connection's own. -/
  socket : Option Descriptor
  reader : Option FileProc
  writer : Option FileProc
  /-- A `delay_request` timer is pending. -/
  waits : Bool
  /-- The `delayed_initial_connect` timer is pending. -/
  unborn : Bool
  phase : Phase
  /-- The last one first. -/
  trace : List TcpObservation

/-- A run of `tcp_connect_socket`: the descriptor that it registers, if it
succeeds, and what it does. -/
structure Attempt where
  fd : Option ℕ
  log : List TcpObservation

inductive TcpAct where
  /-- A call of `sock.read` or `sock.write`. -/
  | call (kind : Access)
  /-- `usec_to_next_send`. -/
  | pace (pacer : Pacer)
  /-- It is not yet time to send: a timer takes the place of `AE_WRITABLE`. -/
  | postpone
  | prepare (script : Bytes) (now : ℕ)
  | accept (bytes : Bytes)
  /-- `sock.write` returned `RETRY`. -/
  | blocked
  /-- `delayed_initial_connect`. -/
  | connect (pacer : Pacer) (r : Attempt) (unborn : Bool)
  | reconnect (r : Attempt)
  /-- `socket_connected` has run. -/
  | setUp
  | enter
  | leave
  | deliver (chunk : Bytes)
  /-- `response_complete`, which counts the response unless `stop_at` has
  passed, and reconnects with `r` if the response closes the connection. -/
  | answer (m : Completion) (now : ℕ) (counted : Bool) (r : Attempt)
  /-- `delay_request` finds that it is time to send. -/
  | fire (waits : Bool)

namespace TcpConn

variable {π : Type*}

def observe (v : TcpConn π) (o : TcpObservation) : TcpConn π := { v with trace := o :: v.trace }

def access (v : TcpConn π) (kind : Access) (c : ℕ) : TcpConn π :=
  v.observe (.access kind c v.conn.fd v.socket)

/-- `socket_writeable` is registered. -/
def watch (v : TcpConn π) (c : ℕ) : TcpConn π :=
  { v.access .register c with
    writer := v.socket.bind fun _ => some .socketWriteable }

def unwatch (v : TcpConn π) (c : ℕ) : TcpConn π := { v.access .unregister c with writer := none }

def attempt (v : TcpConn π) (c : ℕ) (r : Attempt) : TcpConn π :=
  match r.fd with
  | some fd =>
      { v with
        conn := { v.conn with fd := fd }
        socket := some ⟨some c, false, 0, 0, []⟩
        reader := some .socketConnected
        writer := some .socketConnected
        trace := r.log ++ v.trace }
  | none => { v with trace := r.log ++ v.trace }

def closeSocket (v : TcpConn π) (c : ℕ) : TcpConn π :=
  { (v.access .unregister c).access .close c with
    socket := none
    reader := none
    writer := none }

def reconnect (v : TcpConn π) (c : ℕ) (r : Attempt) : TcpConn π := (v.closeSocket c).attempt c r

/-- The request of the script is for the next batch, which starts now. -/
def prepare (cfg : Config) (v : TcpConn π) (c : ℕ) (script : Bytes) (now : ℕ) : TcpConn π :=
  let v :=
    if cfg.dynamic then
      { v with conn := { v.conn with request := script } }.observe (.request c script)
    else v
  { v with conn := v.conn.startBatch cfg.pipeline now }

def accept (cfg : Config) (v : TcpConn π) (c : ℕ) (bytes : Bytes) : TcpConn π :=
  let first := decide (v.conn.written = 0 ∧ bytes ≠ [])
  let k := v.conn
  let v := { v.observe (.accepted c v.socket first bytes) with
    socket := v.socket.map (Descriptor.accepted · cfg.pipeline first) }
  if k.written + bytes.length = k.request.length then
    { v with conn := { k with written := 0 } }.unwatch c
  else { v with conn := { k with written := k.written + bytes.length } }

/-- `--c->pending`, and what follows at 0. -/
def decrementPending (v : TcpConn π) (c : ℕ) : TcpConn π :=
  let k := v.conn
  let pending := u64Sub k.pending 1
  if pending = 0 then
    { v with conn := { k with pending := pending, hasPending := false } }.watch c
  else { v with conn := { k with pending := pending } }

/-- A response is counted. -/
def respond (cfg : Config) (v : TcpConn π) (c now : ℕ) (counted : Bool) : TcpConn π :=
  let target := v.socket
  let v := { v with socket := v.socket.map Descriptor.answer }.decrementPending c
  if counted then
    let k := v.conn.requestCompleted
    { v with conn := k }.observe (.response c target k.pending (some (k.timing cfg now)))
  else v.observe (.response c target v.conn.pending none)

def setUp (P : ResponseParser π) (v : TcpConn π) (c : ℕ) : TcpConn π :=
  { (v.access .register c).access .register c with
    conn := { v.conn with parser := P.init, written := 0 }
    socket := v.socket.map Descriptor.connect
    reader := some .socketReadable
    writer := some .socketWriteable }

def deliver (P : ResponseParser π) (v : TcpConn π) (c : ℕ) (replaced : Bool) (chunk : Bytes) :
    TcpConn π :=
  let r := P.execute v.conn.parser chunk
  { v.observe (.delivered c v.socket chunk) with
    conn := { v.conn with parser := r.parser }
    socket := v.socket.map (Descriptor.deliver · chunk)
    phase := .reading replaced r.completions }

/-- `proc` is called for an event of the socket. -/
def Dispatched (v : TcpConn π) (proc : FileProc) : Prop :=
  v.reader = some proc ∨ v.writer = some proc

end TcpConn

/-- A failed attempt leaves nothing, and any attempt only registers and
closes new sockets. -/
def Attempt.Silent (c : ℕ) (r : Attempt) : Prop :=
  ∀ o ∈ r.log, ∃ kind fd target, o = .access kind c fd target ∧ (kind = .register ∨ kind = .close)

/-- The event loop and the kernel are told about a socket. -/
def TcpObservation.Bookkeeping (c : ℕ) : TcpObservation → Prop
  | .access kind c' _ _ => c' = c ∧ (kind = .register ∨ kind = .unregister ∨ kind = .close)
  | _ => False

namespace TcpAct

variable {π : Type*}

/-- The source can take the step. -/
def Allowed (P : ResponseParser π) (c : ℕ) (v : TcpConn π) : TcpAct → Prop
  | .call .write => v.Dispatched .socketWriteable
  | .call .read => ∃ replaced, v.phase = .reading replaced []
  | .call _ => False
  | .pace pacer => v.phase = .idle ∧ ∃ time, pacer = (v.conn.pacer.usecToNextSend time).2
  | .postpone => v.phase = .idle ∧ v.Dispatched .socketWriteable ∧ v.conn.written = 0
  | .prepare _ _ => v.phase = .idle ∧ v.Dispatched .socketWriteable ∧ v.conn.written = 0
  | .accept bytes => (v.phase = .writing ∨ v.phase = .idle ∧ v.conn.written ≠ 0) ∧
      v.Dispatched .socketWriteable ∧ v.socket.isSome = true ∧
      ∃ n, bytes = (v.conn.request.drop v.conn.written).take (max n 1)
  | .blocked => (v.phase = .writing ∨ v.phase = .idle ∧ v.conn.written ≠ 0) ∧
      v.Dispatched .socketWriteable
  | .connect _ r _ => v.phase = .idle ∧ v.socket = none ∧ v.unborn = true ∧ r.Silent c
  | .reconnect r => (∀ replaced m ms, v.phase ≠ .reading replaced (m :: ms)) ∧
      (v.phase ≠ .idle ∨ ∃ proc, v.Dispatched proc) ∧ r.Silent c
  | .setUp => v.phase = .idle ∧ v.Dispatched .socketConnected ∧ v.socket.isSome = true
  | .enter => v.phase = .idle ∧ v.Dispatched .socketReadable
  | .leave => ∃ replaced, v.phase = .reading replaced []
  | .deliver chunk => v.socket.isSome = true ∧ (∃ replaced, v.phase = .reading replaced []) ∧
      ∀ m ∈ (P.execute v.conn.parser chunk).completions.dropLast, m.keepAlive = true
  | .answer m _ _ r => r.Silent c ∧ ∃ replaced ms, v.phase = .reading replaced (m :: ms) ∧
      (m.keepAlive = false → ms = [])
  | .fire _ => v.phase = .idle ∧ v.waits = true

/-- The rest of the responses of a chunk. -/
def rest : Phase → List Completion
  | .reading _ (_ :: ms) => ms
  | _ => []

def replaced : Phase → Bool
  | .reading replaced _ => replaced
  | _ => false

def apply (cfg : Config) (P : ResponseParser π) (c : ℕ) (v : TcpConn π) : TcpAct → TcpConn π
  | .call kind => v.access kind c
  | .pace pacer => { v with conn := { v.conn with pacer := pacer } }
  | .postpone => { v.unwatch c with waits := true }
  | .prepare script now => { v.prepare cfg c script now with phase := .writing }
  | .accept bytes => { v.accept cfg c bytes with phase := .idle }
  | .blocked => { v with phase := .idle }
  | .connect pacer r unborn =>
      { { v with conn := { v.conn with pacer := pacer } }.attempt c r with unborn := unborn }
  | .reconnect r => { v.reconnect c r with phase := .idle }
  | .setUp => v.setUp P c
  | .enter => { v with phase := .reading false [] }
  | .leave => { v with phase := .idle }
  | .deliver chunk => v.deliver P c (replaced v.phase) chunk
  | .answer m now counted r =>
      let v := { v.respond cfg c now counted with
        phase := .reading (replaced v.phase || !m.keepAlive) (rest v.phase) }
      if m.keepAlive then v else v.reconnect c r
  | .fire waits => { v.watch c with waits := waits }

/-- What the step itself is seen to do. -/
def Observes (c : ℕ) (v : TcpConn π) : TcpAct → TcpObservation → Prop
  | .call kind, o => o = .access kind c v.conn.fd v.socket
  | .prepare script _, o => o = .request c script
  | .accept bytes, o => o = .accepted c v.socket (v.conn.written = 0 ∧ bytes ≠ []) bytes
  | .deliver chunk, o => o = .delivered c v.socket chunk
  | .answer _ _ _ _, o => ∃ pending timing, o = .response c v.socket pending timing
  | _, _ => False

end TcpAct

/-- What the environment does, in each state of the connection: what the
script returns, whether `sock.write` may return `RETRY`, how attempts to
connect end, when `socket_connected` succeeds, when `socket_readable` reads and
when responses come, and when a `delay_request` timer finds that it is time to
send. -/
structure Policy (π : Type*) where
  script : Bytes → Prop := fun _ => True
  blocked : TcpConn π → Prop := fun _ => True
  connect : Attempt → Prop := fun _ => True
  reconnect : TcpConn π → Attempt → Prop := fun _ _ => True
  setUp : TcpConn π → Prop := fun _ => True
  read : TcpConn π → Prop := fun _ => True
  answer : TcpConn π → Prop := fun _ => True
  fire : TcpConn π → Prop := fun _ => True

def Policy.Meets {π : Type*} (p : Policy π) (v : TcpConn π) : TcpAct → Prop
  | .prepare script _ => p.script script
  | .blocked => p.blocked v
  | .connect _ r _ => p.connect r
  | .reconnect r => p.reconnect v r
  | .setUp => p.setUp v
  | .call .read => p.read v
  | .deliver _ => p.read v
  | .answer m _ _ r => p.answer v ∧ (m.keepAlive = false → p.reconnect v r)
  | .fire _ => p.fire v
  | _ => True

/-- A connection before its first event. -/
def TcpConn.initial {π : Type*} (cfg : Config) (P : ResponseParser π) (c : ℕ) :
    TcpConn π where
  conn := .initial cfg P.zeroed
  socket := none
  reader := none
  writer := none
  waits := false
  unborn := c < cfg.connections
  phase := .idle
  trace := []

/-- The machine of connection `c`. -/
def tcpConn {π : Type*} (cfg : Config) (P : ResponseParser π) (c : ℕ) :
    Machine (TcpConn π) TcpAct where
  init v := v = .initial cfg P c
  step v a v' := a.Allowed P c v ∧ v' = a.apply cfg P c v

/-! ## What is registered -/

namespace TcpConn

variable {π : Type*} {cfg : Config} {P : ResponseParser π} {c : ℕ} {v : TcpConn π} {r : Attempt}
  {a : TcpAct}

/-- Exactly an open socket has something registered, and the procedures fit
their events. -/
structure Wired (v : TcpConn π) : Prop where
  reader : v.reader.isSome = v.socket.isSome
  readers : ∀ proc, v.reader = some proc → proc = .socketConnected ∨ proc = .socketReadable
  writers : ∀ proc, v.writer = some proc → proc = .socketConnected ∨ proc = .socketWriteable
  closed : v.socket = none → v.writer = none

theorem Wired.watch (h : v.Wired) : (v.watch c).Wired where
  reader := h.reader
  readers := h.readers
  writers proc hproc := by
    obtain ⟨d, -, hd⟩ := Option.bind_eq_some_iff.mp hproc
    exact Or.inr (Option.some.inj hd).symm
  closed hnone := by
    have hsocket : v.socket = none := hnone
    show (v.socket.bind fun _ => some FileProc.socketWriteable) = none
    rw [hsocket]
    rfl

theorem Wired.unwatch (h : v.Wired) : (v.unwatch c).Wired :=
  { h with
    writers := fun _ hproc => by cases hproc
    closed := fun _ => rfl }

theorem Wired.attempt (h : v.Wired) : (v.attempt c r).Wired := by
  unfold TcpConn.attempt
  split
  · exact
      { reader := rfl
        readers := fun proc hproc => Or.inl (Option.some.inj hproc).symm
        writers := fun proc hproc => Or.inl (Option.some.inj hproc).symm
        closed := fun hnone => by cases hnone }
  · exact { h with }

theorem closeSocket_wired : (v.closeSocket c).Wired where
  reader := rfl
  readers proc hproc := by cases hproc
  writers proc hproc := by cases hproc
  closed _ := rfl

theorem reconnect_phase (phase : Phase) :
    { v.reconnect c r with phase := phase } = { v with phase := phase }.reconnect c r := by
  unfold TcpConn.reconnect TcpConn.attempt
  cases r.fd <;> rfl

theorem reconnect_wired : (v.reconnect c r).Wired := closeSocket_wired.attempt

/-- New counts for the socket. -/
theorem Wired.map (h : v.Wired) (f : Descriptor → Descriptor) :
    { v with socket := v.socket.map f }.Wired :=
  { h with
    reader := h.reader.trans (Option.isSome_map ..).symm
    closed := fun hnone => h.closed (Option.map_eq_none_iff.mp hnone) }

theorem Wired.accept (h : v.Wired) (cfg : Config) (c : ℕ) (bytes : Bytes) :
    (v.accept cfg c bytes).Wired := by
  have hmap := h.map fun d =>
    d.accepted cfg.pipeline (decide (v.conn.written = 0 ∧ bytes ≠ []))
  unfold TcpConn.accept
  simp only
  split
  · exact Wired.unwatch { hmap with }
  · exact { hmap with }

theorem Wired.respond (h : v.Wired) (cfg : Config) (c : ℕ) (now : ℕ) (counted : Bool) :
    (v.respond cfg c now counted).Wired := by
  have hanswered :
      ({ v with socket := v.socket.map Descriptor.answer }.decrementPending c).Wired := by
    have hmap := h.map Descriptor.answer
    unfold TcpConn.decrementPending
    simp only
    split
    · exact Wired.watch { hmap with }
    · exact { hmap with }
  unfold TcpConn.respond
  simp only
  split
  · exact { hanswered with }
  · exact { hanswered with }

theorem Wired.prepare (h : v.Wired) (cfg : Config) (c : ℕ) (script : Bytes) (now : ℕ) :
    (v.prepare cfg c script now).Wired := by
  unfold TcpConn.prepare
  simp only
  split
  · exact { h with }
  · exact { h with }

theorem Wired.apply (h : v.Wired) (ha : a.Allowed P c v) : (a.apply cfg P c v).Wired := by
  cases a with
  | call kind => exact { h with }
  | pace pacer => exact { h with }
  | postpone => exact { h.unwatch (c := c) with }
  | prepare script now => exact { h.prepare cfg c script now with }
  | accept bytes => exact { h.accept cfg c bytes with }
  | blocked => exact { h with }
  | connect pacer r unborn =>
      have hpaced : { v with conn := { v.conn with pacer := pacer } }.Wired := { h with }
      exact { hpaced.attempt (c := c) (r := r) with }
  | reconnect r => exact { reconnect_wired (v := v) (c := c) (r := r) with }
  | setUp =>
      obtain ⟨-, -, hopen⟩ := ha
      exact
        { reader := hopen.symm.trans (Option.isSome_map ..).symm
          readers := fun proc hproc => Or.inr (Option.some.inj hproc).symm
          writers := fun proc hproc => Or.inr (Option.some.inj hproc).symm
          closed := by
            intro hnone
            rw [Option.map_eq_none_iff.mp hnone] at hopen
            cases hopen }
  | enter => exact { h with }
  | leave => exact { h with }
  | deliver chunk => exact { h.map (·.deliver chunk) with }
  | answer m now counted r =>
      have hrespond := h.respond cfg c now counted
      simp only [TcpAct.apply]
      split
      · exact { hrespond with }
      · exact reconnect_wired
  | fire waits => exact { h.watch (c := c) with }

/-! ## What is observed -/

/-- `v'` is seen to do more than `v`, each time something of which `Q`
holds. -/
def Adds (Q : TcpObservation → Prop) (v v' : TcpConn π) : Prop :=
  ∃ new, v'.trace = new ++ v.trace ∧ ∀ o ∈ new, Q o

variable {Q Q' : TcpObservation → Prop} {v' v'' : TcpConn π} {o : TcpObservation}

theorem Adds.none (h : v'.trace = v.trace) : v.Adds Q v' :=
  ⟨[], h, fun o ho => by cases ho⟩

theorem Adds.one (h : v'.trace = o :: v.trace) (ho : Q o) : v.Adds Q v' :=
  ⟨[o], h, fun _ ho' => List.mem_singleton.mp ho' ▸ ho⟩

theorem Adds.trans (h : v.Adds Q v') (h' : v'.Adds Q v'') : v.Adds Q v'' := by
  obtain ⟨new, htrace, hnew⟩ := h
  obtain ⟨new', htrace', hnew'⟩ := h'
  refine ⟨new' ++ new, by rw [htrace', htrace, List.append_assoc], ?_⟩
  intro o ho
  exact (List.mem_append.mp ho).elim (hnew' o) (hnew o)

theorem Adds.imp (h : v.Adds Q v') (himp : ∀ o, Q o → Q' o) : v.Adds Q' v' := by
  obtain ⟨new, htrace, hnew⟩ := h
  exact ⟨new, htrace, fun o ho => himp o (hnew o ho)⟩

theorem watch_adds : v.Adds (·.Bookkeeping c) (v.watch c) := .one rfl ⟨rfl, Or.inl rfl⟩

theorem unwatch_adds : v.Adds (·.Bookkeeping c) (v.unwatch c) :=
  .one rfl ⟨rfl, Or.inr (Or.inl rfl)⟩

theorem attempt_trace : (v.attempt c r).trace = r.log ++ v.trace := by
  unfold TcpConn.attempt
  cases r.fd <;> rfl

theorem attempt_adds (hr : r.Silent c) : v.Adds (·.Bookkeeping c) (v.attempt c r) := by
  refine ⟨r.log, attempt_trace, ?_⟩
  intro o ho
  obtain ⟨kind, fd, target, rfl, hkind⟩ := hr o ho
  exact ⟨rfl, hkind.imp_right Or.inr⟩

theorem closeSocket_adds : v.Adds (·.Bookkeeping c) (v.closeSocket c) := by
  refine ⟨[_, _], rfl, ?_⟩
  intro o ho
  rcases List.mem_cons.mp ho with rfl | ho
  · exact ⟨rfl, Or.inr (Or.inr rfl)⟩
  · rw [List.mem_singleton.mp ho]
    exact ⟨rfl, Or.inr (Or.inl rfl)⟩

theorem reconnect_adds (hr : r.Silent c) : v.Adds (·.Bookkeeping c) (v.reconnect c r) :=
  closeSocket_adds.trans (attempt_adds hr)

theorem decrementPending_adds : v.Adds (·.Bookkeeping c) (v.decrementPending c) := by
  unfold TcpConn.decrementPending
  simp only
  split
  · exact .one rfl ⟨rfl, Or.inl rfl⟩
  · exact .none rfl

theorem respond_adds (cfg : Config) (v : TcpConn π) (now : ℕ) (counted : Bool) :
    v.Adds (fun o => (∃ pending timing, o = .response c v.socket pending timing) ∨
      o.Bookkeeping c) (v.respond cfg c now counted) := by
  have hdecrement : { v with socket := v.socket.map Descriptor.answer }.Adds
      (fun o => (∃ pending timing, o = TcpObservation.response c v.socket pending timing) ∨
        o.Bookkeeping c) ({ v with socket := v.socket.map Descriptor.answer }.decrementPending c) :=
    decrementPending_adds.imp fun o => Or.inr
  unfold TcpConn.respond
  simp only
  split
  · exact Adds.trans hdecrement (.one rfl (Or.inl ⟨_, _, rfl⟩))
  · exact Adds.trans hdecrement (.one rfl (Or.inl ⟨_, _, rfl⟩))

/-- A step is seen by its own observation, and by what it tells the event
loop and the kernel. -/
theorem apply_adds (cfg : Config) (ha : a.Allowed P c v) :
    v.Adds (fun o => a.Observes c v o ∨ o.Bookkeeping c) (a.apply cfg P c v) := by
  cases a with
  | call kind => exact .one rfl (Or.inl rfl)
  | pace pacer => exact .none rfl
  | postpone => exact unwatch_adds.imp fun o => Or.inr
  | prepare script now =>
      simp only [TcpAct.apply, TcpConn.prepare]
      split
      · exact .one rfl (Or.inl rfl)
      · exact .none rfl
  | accept bytes =>
      simp only [TcpAct.apply, TcpConn.accept]
      split
      · exact ⟨[_, _], rfl, fun o ho => by
          rcases List.mem_cons.mp ho with rfl | ho
          · exact Or.inr ⟨rfl, Or.inr (Or.inl rfl)⟩
          · exact Or.inl (List.mem_singleton.mp ho)⟩
      · exact .one rfl (Or.inl rfl)
  | blocked => exact .none rfl
  | connect pacer r unborn =>
      exact (attempt_adds (v := { v with conn := { v.conn with pacer := pacer } })
        ha.2.2.2).imp fun o => Or.inr
  | reconnect r => exact (reconnect_adds ha.2.2).imp fun o => Or.inr
  | setUp =>
      exact ⟨[_, _], rfl, fun o ho => by
        rcases List.mem_cons.mp ho with rfl | ho
        · exact Or.inr ⟨rfl, Or.inl rfl⟩
        · rw [List.mem_singleton.mp ho]
          exact Or.inr ⟨rfl, Or.inl rfl⟩⟩
  | enter => exact .none rfl
  | leave => exact .none rfl
  | deliver chunk => exact .one rfl (Or.inl rfl)
  | answer m now counted r =>
      have hrespond := respond_adds cfg v (c := c) now counted
      simp only [TcpAct.apply]
      split
      · exact hrespond
      · exact Adds.trans hrespond ((reconnect_adds (v := { v.respond cfg c now counted with
          phase := _ }) ha.1).imp fun o => Or.inr)
  | fire waits => exact watch_adds.imp fun o => Or.inr

theorem respond_observed (cfg : Config) (v : TcpConn π) (now : ℕ) (counted : Bool) :
    ∃ pending timing,
      .response c v.socket pending timing ∈ (v.respond cfg c now counted).trace := by
  unfold TcpConn.respond
  simp only
  split
  · exact ⟨_, _, List.mem_cons_self ..⟩
  · exact ⟨_, _, List.mem_cons_self ..⟩

theorem answer_observed (cfg : Config) {m : Completion} {now : ℕ} {counted : Bool}
    (ha : (TcpAct.answer m now counted r).Allowed P c v) : ∃ pending timing,
    .response c v.socket pending timing ∈
      ((TcpAct.answer m now counted r).apply cfg P c v).trace := by
  obtain ⟨pending, timing, hmem⟩ := respond_observed cfg v (c := c) now counted
  simp only [TcpAct.apply]
  split
  · exact ⟨pending, timing, hmem⟩
  · obtain ⟨new, htrace, -⟩ := reconnect_adds (v := { v.respond cfg c now counted with
      phase := .reading (TcpAct.replaced v.phase || !m.keepAlive) (TcpAct.rest v.phase) }) ha.1
    exact ⟨pending, timing, htrace ▸ List.mem_append_right new hmem⟩

/-! ## What a response leaves -/

theorem respond_keepsParser (now : ℕ) (counted : Bool) :
    (v.respond cfg c now counted).conn.parser = v.conn.parser := by
  unfold TcpConn.respond TcpConn.decrementPending
  simp only
  split <;> split <;> rfl

theorem respond_phase (now : ℕ) (counted : Bool) :
    (v.respond cfg c now counted).phase = v.phase := by
  unfold TcpConn.respond TcpConn.decrementPending
  simp only
  split <;> split <;> rfl

theorem respond_request (now : ℕ) (counted : Bool) :
    (v.respond cfg c now counted).conn.request = v.conn.request := by
  unfold TcpConn.respond TcpConn.decrementPending
  simp only
  split <;> split <;> rfl

theorem respond_conn (cfg : Config) (v : TcpConn π) (now : ℕ) (counted : Bool) :
    (v.respond cfg c now counted).conn.written = v.conn.written ∧
      (v.respond cfg c now counted).conn.pending = u64Sub v.conn.pending 1 ∧
      (v.respond cfg c now counted).socket = v.socket.map Descriptor.answer := by
  unfold TcpConn.respond TcpConn.decrementPending
  simp only
  split <;> split <;> exact ⟨rfl, rfl, rfl⟩

theorem respond_reader (v : TcpConn π) (c now : ℕ) (counted : Bool) :
    (v.respond cfg c now counted).reader = v.reader := by
  unfold TcpConn.respond TcpConn.decrementPending
  simp only
  split <;> split <;> rfl

theorem respond_writer (now : ℕ) (counted : Bool) (h : v.writer ≠ some .socketConnected) :
    (v.respond cfg c now counted).writer ≠ some .socketConnected := by
  have hwatch : (v.socket.map Descriptor.answer).bind
      (fun _ => some FileProc.socketWriteable) ≠ some .socketConnected := by
    cases v.socket <;> exact nofun
  unfold TcpConn.respond TcpConn.decrementPending
  simp only
  split
  · split
    · exact hwatch
    · exact h
  · split
    · exact hwatch
    · exact h

theorem reconnect_keepsParser : (v.reconnect c r).conn.parser = v.conn.parser := by
  unfold TcpConn.reconnect TcpConn.attempt
  cases r.fd <;> rfl

theorem reconnect_keeps_phase : (v.reconnect c r).phase = v.phase := by
  unfold TcpConn.reconnect TcpConn.attempt
  cases r.fd <;> rfl

theorem answer_keepsParser {m : Completion} {now : ℕ} {counted : Bool} :
    ((TcpAct.answer m now counted r).apply cfg P c v).conn.parser = v.conn.parser := by
  simp only [TcpAct.apply]
  split
  · exact respond_keepsParser now counted
  · exact reconnect_keepsParser.trans (respond_keepsParser now counted)

theorem answer_phase {m : Completion} {now : ℕ} {counted : Bool} :
    ((TcpAct.answer m now counted r).apply cfg P c v).phase =
      .reading (TcpAct.replaced v.phase || !m.keepAlive) (TcpAct.rest v.phase) := by
  simp only [TcpAct.apply]
  split
  · rfl
  · exact reconnect_keeps_phase

/-- A response in a call that has kept its socket: the next one follows, or
the socket is replaced. -/
theorem answer_cases {m : Completion} {ms : List Completion}
    (hphase : v.phase = .reading false (m :: ms)) (hlast : m.keepAlive = false → ms = [])
    (now : ℕ) (counted : Bool) :
    (TcpAct.answer m now counted r).apply cfg P c v =
        { v.respond cfg c now counted with phase := .reading false ms } ∨
      m.keepAlive = false ∧ (TcpAct.answer m now counted r).apply cfg P c v =
        { v.respond cfg c now counted with phase := .reading true [] }.reconnect c r := by
  simp only [TcpAct.apply, hphase, TcpAct.replaced, TcpAct.rest, Bool.false_or]
  cases halive : m.keepAlive with
  | true => exact Or.inl rfl
  | false =>
      obtain rfl := hlast halive
      exact Or.inr ⟨rfl, rfl⟩

end TcpConn

section Runs

variable {π : Type*} {cfg : Config} {P : ResponseParser π} {c : ℕ}
  {ok : TcpConn π → TcpAct → Prop} {v : TcpConn π}

theorem tcpConn_wired (hv : (tcpConn cfg P c).ReachableWith ok v) : v.Wired := by
  refine hv.invariant ?_ ?_
  · rintro v rfl
    exact
      { reader := rfl
        readers := fun proc hproc => by cases hproc
        writers := fun proc hproc => by cases hproc
        closed := fun _ => rfl }
  · rintro v a v' h ⟨ha, rfl⟩ -
    exact h.apply ha

/-- The invariant rule of the connection machine: what is registered is
known before each step. -/
theorem tcpConn_invariant {I : TcpConn π → Prop} (h0 : I (.initial cfg P c))
    (hstep : ∀ v a, v.Wired → I v → a.Allowed P c v → ok v a → I (a.apply cfg P c v))
    (hv : (tcpConn cfg P c).ReachableWith ok v) : I v := by
  induction hv with
  | init hi =>
      obtain rfl := hi
      exact h0
  | step hs hact hok ih =>
      obtain ⟨ha, rfl⟩ := hact
      exact hstep _ _ (tcpConn_wired hs) ih ha hok

end Runs

end WrkQuic
