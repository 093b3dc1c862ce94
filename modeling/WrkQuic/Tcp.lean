import WrkQuic.Connection
import WrkQuic.EventLoop
import WrkQuic.Lib.Runs

/-!
# The TCP transport

One thread of `wrk.c` with its connections over `tcp.h`: the thread's
event loop, the descriptors of the process, and every handler that the
event loop calls. Threads share nothing but the descriptor numbers, and
the descriptors of the other threads are not modelled.

A run is any order of the events that the event loop can deliver: a file
event on a registered descriptor, or a pending timer. What the clock, the
kernel, the server and the script answer during one call of a handler
comes with the event (`Answers`), so a run leaves all of it open. The
calls of `struct sock` are those of `net.c`; their four results and `AGAIN`
loops are kept, so that `RETRY` may come from any of them.

The response parser is a parameter. Each descriptor carries what is known
of its socket but stored nowhere in the source: who opened it, whether
`socket_connected` has run for it, how many requests were sent and answered
on it, and what was read from it. The thread carries a trace of what it did.
-/

namespace WrkQuic

open Runs

/-! ## The response parser -/

/-- A call of `response_complete` by the parser. -/
structure Completion where
  status : ℕ
  /-- `http_should_keep_alive`. -/
  keepAlive : Bool
deriving DecidableEq

structure Parsed (π : Type*) where
  parser : π
  completions : List Completion
  /-- The result of `http_parser_execute`. -/
  consumed : ℕ

/-- `http_parser_execute` on a chunk, with `response_complete` starting the
next message after each response that keeps the connection alive. After
any other response the parser is dead. -/
structure ResponseParser (π : Type*) where
  /-- Zeroed memory. -/
  zeroed : π
  /-- `http_parser_init`. -/
  init : π
  execute : π → Bytes → Parsed π
  closing_last : ∀ p chunk, ∀ m ∈ (execute p chunk).completions.dropLast, m.keepAlive = true

/-! ## State -/

inductive FileProc where
  | socketConnected
  | socketReadable
  | socketWriteable
deriving DecidableEq

inductive TimeProc where
  | delayedInitialConnect
  | delayRequest
deriving DecidableEq

/-- An open descriptor. `owner` is the connection that opened it, if one
did; `delivered` are the chunks read from it, an empty one at the end of the
stream. -/
structure Descriptor where
  owner : Option ℕ
  connected : Bool
  sent : ℕ
  answered : ℕ
  delivered : List Bytes
deriving DecidableEq

/-- More bytes are accepted; the first ones of a batch put its requests on
the way. -/
def Descriptor.accepted (d : Descriptor) (pipeline : ℕ) (first : Bool) : Descriptor :=
  { d with sent := if first then d.sent + pipeline else d.sent }

def Descriptor.answer (d : Descriptor) : Descriptor := { d with answered := d.answered + 1 }

def Descriptor.deliver (d : Descriptor) (chunk : Bytes) : Descriptor :=
  { d with delivered := d.delivered ++ [chunk] }

/-- `socket_connected` has run for the socket. -/
def Descriptor.connect (d : Descriptor) : Descriptor := { d with connected := true }

/-- `struct errors`, less the timeouts. -/
structure Errors where
  connect : ℕ
  read : ℕ
  write : ℕ
  status : ℕ
deriving DecidableEq

/-- What a handler uses a descriptor for. -/
inductive Access where
  | register
  | unregister
  | close
  | read
  | write
deriving DecidableEq

/-- What a thread is seen to do. A `target` is the descriptor as it was
just before, `none` when the number was not open. -/
inductive TcpObservation where
  | access (kind : Access) (c fd : ℕ) (target : Option Descriptor)
  /-- `script_request` returned `text`. -/
  | request (c : ℕ) (text : Bytes)
  /-- `sock.write` accepted `bytes`; `first` when they start a batch. -/
  | accepted (c : ℕ) (target : Option Descriptor) (first : Bool) (bytes : Bytes)
  /-- `sock.read` returned `chunk`. -/
  | delivered (c : ℕ) (target : Option Descriptor) (chunk : Bytes)
  /-- `response_complete` ran and left `c->pending` at `pending`; it measured
  latencies unless `stop_at` had passed. -/
  | response (c : ℕ) (target : Option Descriptor) (pending : ℕ) (timing : Option ResponseTiming)
deriving DecidableEq

structure TcpThread (π : Type*) where
  clock : ℕ
  loop : EventLoop FileProc TimeProc ℕ
  fds : FdTable Descriptor
  conns : ℕ → Connection π
  complete : ℕ
  requests : ℕ
  bytes : ℕ
  errors : Errors
  trace : List TcpObservation

/-! ## Answers -/

/-- `enum status`. `AGAIN` repeats the call. -/
inductive Status (α : Type) where
  | ok (a : α)
  | error
  | retry
  | again (next : Status α)
deriving DecidableEq

/-- How far `tcp_connect_socket` gets: `failed` when `bind`, `connect` or
`epoll_ctl` fails. -/
inductive ConnectOutcome where
  | noSocket
  | failed
  | started
deriving DecidableEq

structure ResponseAnswers where
  dt : ℕ := 0
  connect : ConnectOutcome := .started
deriving DecidableEq

/-- A result of `sock.read`. Of a chunk, `answers` belong to the responses
it completes, in order. Neither `sock_read` nor `ssl_read` returns `AGAIN`,
whose `continue` would go on to the condition of the loop. -/
inductive Read where
  | data (chunk : Bytes) (answers : List ResponseAnswers)
  | error
  | retry
  | again
deriving DecidableEq

/-- The answers during one call of a handler: the time to its first clock
reading and from there to its second, the results of its calls in order,
and the outcome of its reconnection. -/
structure Answers where
  dt : ℕ := 0
  startDt : ℕ := 0
  script : Bytes := []
  connected : Status Unit := .ok ()
  write : Status ℕ := .retry
  reads : List Read := []
  connect : ConnectOutcome := .started
deriving DecidableEq

/-! ## Steps of the handlers -/

namespace TcpThread

variable {π : Type*}

/-- The descriptor that `c->fd` names. -/
def current (s : TcpThread π) (c : ℕ) : Option Descriptor := s.fds.get (s.conns c).fd

def setConn (s : TcpThread π) (c : ℕ) (k : Connection π) : TcpThread π :=
  { s with conns := Function.update s.conns c k }

def setLoop (s : TcpThread π) (loop : EventLoop FileProc TimeProc ℕ) : TcpThread π :=
  { s with loop := loop }

def setFds (s : TcpThread π) (fds : FdTable Descriptor) : TcpThread π := { s with fds := fds }

def observe (s : TcpThread π) (o : TcpObservation) : TcpThread π :=
  { s with trace := o :: s.trace }

def access (s : TcpThread π) (kind : Access) (c fd : ℕ) : TcpThread π :=
  s.observe (.access kind c fd (s.fds.get fd))

/-- A clock reading `dt` later. -/
def tick (s : TcpThread π) (dt : ℕ) : TcpThread π := { s with clock := s.clock + dt }

/-- `aeCreateFileEvent` where the result is ignored. -/
def createFileEvent (s : TcpThread π) (c fd : ℕ) (mask : Mask) (proc : FileProc) :
    TcpThread π :=
  let s := s.access .register c fd
  match aeCreateFileEvent (s.fds.get fd).isSome s.loop fd mask proc c with
  | some loop => s.setLoop loop
  | none => s

def deleteFileEvent (s : TcpThread π) (c fd : ℕ) (mask : Mask) : TcpThread π :=
  (s.access .unregister c fd).setLoop (aeDeleteFileEvent s.loop fd mask)

def createTimeEvent (s : TcpThread π) (c : ℕ) (proc : TimeProc) : TcpThread π :=
  s.setLoop (aeCreateTimeEvent s.loop proc c)

def deleteTimeEvent (s : TcpThread π) (id : ℕ) : TcpThread π :=
  s.setLoop (aeDeleteTimeEvent s.loop id)

/-- `close(fd)`. -/
def close (s : TcpThread π) (c fd : ℕ) : TcpThread π :=
  ((s.access .close c fd).setFds (s.fds.close fd)).setLoop (s.loop.dropClosed fd)

/-- `socket` opens the lowest free descriptor. -/
def openSocket (s : TcpThread π) (c : ℕ) : TcpThread π :=
  s.setFds (s.fds.openLowest ⟨some c, false, 0, 0, []⟩)

def connectError (s : TcpThread π) : TcpThread π :=
  { s with errors := { s.errors with connect := s.errors.connect + 1 } }

def readError (s : TcpThread π) : TcpThread π :=
  { s with errors := { s.errors with read := s.errors.read + 1 } }

def writeError (s : TcpThread π) : TcpThread π :=
  { s with errors := { s.errors with write := s.errors.write + 1 } }

def statusError (s : TcpThread π) : TcpThread π :=
  { s with errors := { s.errors with status := s.errors.status + 1 } }

/-- `tcp_connect_socket`. Only a registered socket becomes `c->fd`. -/
def tcpConnectSocket (s : TcpThread π) (c : ℕ) : ConnectOutcome → TcpThread π
  | .noSocket => s.connectError
  | .failed => (s.openSocket c).connectError.close c s.fds.lowest
  | .started =>
      let fd := s.fds.lowest
      let s := (s.openSocket c).access .register c fd
      match aeCreateFileEvent true s.loop fd .both .socketConnected c with
      | some loop => (s.setLoop loop).setConn c { s.conns c with fd := fd }
      | none => s.connectError.close c fd

/-- `tcp_reconnect_socket`; `sock_close` does nothing. -/
def tcpReconnectSocket (s : TcpThread π) (c : ℕ) (connect : ConnectOutcome) : TcpThread π :=
  let fd := (s.conns c).fd
  ((s.deleteFileEvent c fd .both).close c fd).tcpConnectSocket c connect

/-- `delayed_initial_connect`. -/
def delayedInitialConnect (s : TcpThread π) (c : ℕ) (a : Answers) : TcpThread π :=
  let s := s.tick a.dt
  let k := s.conns c
  (s.setConn c { k with pacer := { k.pacer with threadStart := s.clock } }).tcpConnectSocket c
    a.connect

/-- `usec_to_next_send` at the current clock reading. -/
def usecToNextSend (s : TcpThread π) (c : ℕ) : ℕ × TcpThread π :=
  let k := s.conns c
  let r := k.pacer.usecToNextSend s.clock
  (r.1, s.setConn c { k with pacer := r.2 })

/-- `delay_request`. The result says whether it returned `AE_NOMORE`. -/
def delayRequest (s : TcpThread π) (c : ℕ) (a : Answers) : Bool × TcpThread π :=
  let r := (s.tick a.dt).usecToNextSend c
  if r.1 ≠ 0 then (false, r.2)
  else (true, r.2.createFileEvent c (r.2.conns c).fd .aeWritable .socketWriteable)

/-- The bytes that `sock.write` accepts: at least one, at most those it is
offered. -/
def acceptedBytes (k : Connection π) (n : ℕ) : Bytes :=
  (k.request.drop k.written).take (max n 1)

/-- The kernel accepts `bytes`. -/
def accept (cfg : Config) (s : TcpThread π) (c : ℕ) (bytes : Bytes) : TcpThread π :=
  let first := decide ((s.conns c).written = 0 ∧ bytes ≠ [])
  let s := s.observe (.accepted c (s.current c) first bytes)
  s.setFds (s.fds.modify (s.conns c).fd (·.accepted cfg.pipeline first))

/-- The end of `sock_writeable`, after `n` more bytes were written. -/
def advanceWritten (s : TcpThread π) (c n : ℕ) : TcpThread π :=
  let k := s.conns c
  if k.written + n = k.request.length then
    (s.setConn c { k with written := 0 }).deleteFileEvent c k.fd .aeWritable
  else s.setConn c { k with written := k.written + n }

/-- The loop of `sock_writeable` around `sock.write`. A closed descriptor
is an error. -/
def sockWrite (cfg : Config) (s : TcpThread π) (c : ℕ) (connect : ConnectOutcome) :
    Status ℕ → TcpThread π
  | .ok n =>
      let open? := (s.current c).isSome
      let s := s.access .write c (s.conns c).fd
      if open? then
        let bytes := acceptedBytes (s.conns c) n
        (accept cfg s c bytes).advanceWritten c bytes.length
      else s.writeError.tcpReconnectSocket c connect
  | .error => (s.access .write c (s.conns c).fd).writeError.tcpReconnectSocket c connect
  | .retry => s.access .write c (s.conns c).fd
  | .again next => sockWrite cfg (s.access .write c (s.conns c).fd) c connect next

/-- What `sock_writeable` does before it writes the first bytes of a batch,
once it is time to send. -/
def prepareBatch (cfg : Config) (s : TcpThread π) (c : ℕ) (a : Answers) : TcpThread π :=
  let s :=
    if cfg.dynamic then
      (s.setConn c { s.conns c with request := a.script }).observe (.request c a.script)
    else s
  let s := s.tick a.startDt
  s.setConn c ((s.conns c).startBatch cfg.pipeline s.clock)

/-- `sock_writeable`. -/
def sockWriteable (cfg : Config) (s : TcpThread π) (c : ℕ) (a : Answers) : TcpThread π :=
  if (s.conns c).written = 0 then
    let r := (s.tick a.dt).usecToNextSend c
    if r.1 ≠ 0 then
      (r.2.deleteFileEvent c (r.2.conns c).fd .aeWritable).createTimeEvent c .delayRequest
    else sockWrite cfg (prepareBatch cfg r.2 c a) c a.connect a.write
  else sockWrite cfg s c a.connect a.write

/-- `stats_request_completed`, for a response read from `target`. -/
def statsRequestCompleted (cfg : Config) (s : TcpThread π) (c : ℕ)
    (target : Option Descriptor) : TcpThread π :=
  if cfg.stopAt ≤ s.clock then
    (s.setLoop (aeStop s.loop)).observe (.response c target (s.conns c).pending none)
  else
    let k := (s.conns c).requestCompleted
    ({ s with complete := s.complete + 1, requests := s.requests + 1 }.setConn c k).observe
      (.response c target k.pending (some (k.timing cfg s.clock)))

/-- `--c->pending`, and what follows at 0. -/
def decrementPending (s : TcpThread π) (c : ℕ) : TcpThread π :=
  let k := s.conns c
  let pending := u64Sub k.pending 1
  if pending = 0 then
    (s.setConn c { k with pending := pending, hasPending := false }).createFileEvent c k.fd
      .aeWritable .socketWriteable
  else s.setConn c { k with pending := pending }

def responseAnswered (s : TcpThread π) (c : ℕ) : TcpThread π :=
  s.setFds (s.fds.modify (s.conns c).fd Descriptor.answer)

/-- `response_complete`; `http_parser_init` is part of the parser. -/
def responseComplete (cfg : Config) (s : TcpThread π) (c : ℕ) (m : Completion)
    (a : ResponseAnswers) : TcpThread π :=
  let target := s.current c
  let s := if 399 < m.status then s.statusError else s
  let s := (s.responseAnswered c).decrementPending c
  let s := statsRequestCompleted cfg (s.tick a.dt) c target
  if m.keepAlive then s else s.tcpReconnectSocket c a.connect

/-- The responses that one chunk completes. -/
def responsesComplete (cfg : Config) (c : ℕ) :
    TcpThread π → List Completion → List ResponseAnswers → TcpThread π
  | s, [], _ => s
  | s, m :: ms, as =>
      responsesComplete cfg c (responseComplete cfg s c m (as.headD {})) ms as.tail

/-- `thread->bytes += n`. -/
def received (s : TcpThread π) (n : ℕ) : TcpThread π := { s with bytes := s.bytes + n }

/-- A chunk is read. -/
def deliver (s : TcpThread π) (c : ℕ) (chunk : Bytes) : TcpThread π :=
  (s.observe (.delivered c (s.current c) chunk)).setFds
    (s.fds.modify (s.conns c).fd (·.deliver chunk))

/-- `http_parser_execute` on a chunk that was read, with its result. -/
def parseChunk (cfg : Config) (P : ResponseParser π) (s : TcpThread π) (c : ℕ) (chunk : Bytes)
    (answers : List ResponseAnswers) : ℕ × TcpThread π :=
  let s := s.deliver c chunk
  let r := P.execute (s.conns c).parser chunk
  (r.consumed, responsesComplete cfg c (s.setConn c { s.conns c with parser := r.parser })
    r.completions answers)

/-- The error path of `socket_readable`. -/
def readFailed (s : TcpThread π) (c : ℕ) (connect : ConnectOutcome) : TcpThread π :=
  s.readError.tcpReconnectSocket c connect

/-- The loop of `socket_readable`. It goes on after a full buffer while the
answers hold another read; a closed descriptor has nothing to read. -/
def socketReadable (cfg : Config) (P : ResponseParser π) (c : ℕ) (connect : ConnectOutcome) :
    TcpThread π → List Read → TcpThread π
  | s, [] => s
  | s, .error :: _ => (s.access .read c (s.conns c).fd).readFailed c connect
  | s, .retry :: _ => s.access .read c (s.conns c).fd
  | s, .again :: reads =>
      socketReadable cfg P c connect (s.access .read c (s.conns c).fd) reads
  | s, .data chunk answers :: reads =>
      let open? := (s.current c).isSome
      let s := s.access .read c (s.conns c).fd
      if open? then
        let chunk := chunk.take cfg.recvbuf
        let r := parseChunk cfg P s c chunk answers
        if r.1 ≠ chunk.length then r.2.readFailed c connect
        else
          let s := r.2.received chunk.length
          if chunk.length = cfg.recvbuf ∧ (s.current c).isSome then
            socketReadable cfg P c connect s reads
          else s
      else s.readFailed c connect

/-- `socket_connected`. -/
def socketConnected (P : ResponseParser π) (s : TcpThread π) (fd c : ℕ)
    (connect : ConnectOutcome) : Status Unit → TcpThread π
  | .ok _ =>
      let s := s.setConn c { s.conns c with parser := P.init, written := 0 }
      let s := s.createFileEvent c fd .aeReadable .socketReadable
      let s := s.createFileEvent c fd .aeWritable .socketWriteable
      s.setFds (s.fds.modify fd Descriptor.connect)
  | .error => s.connectError.tcpReconnectSocket c connect
  | .retry => s
  | .again next => socketConnected P s fd c connect next

/-- A file procedure on descriptor `fd` with client data `c`; none when the
assertion of `socket_writeable` fails. -/
def runFileProc (cfg : Config) (P : ResponseParser π) (s : TcpThread π) (fd c : ℕ)
    (a : Answers) : FileProc → Option (TcpThread π)
  | .socketConnected => some (socketConnected P s fd c a.connect a.connected)
  | .socketReadable => some (socketReadable cfg P c a.connect s a.reads)
  | .socketWriteable => if fd = (s.conns c).fd then some (sockWriteable cfg s c a) else none

/-- `processTimeEvents` on a time event that is due: it is deleted when its
procedure returns `AE_NOMORE`. -/
def runTimeEvent (s : TcpThread π) (te : TimeEvent TimeProc ℕ) (a : Answers) : TcpThread π :=
  match te.timeProc with
  | .delayedInitialConnect =>
      (s.delayedInitialConnect te.clientData a).deleteTimeEvent te.id
  | .delayRequest =>
      let r := s.delayRequest te.clientData a
      if r.1 then r.2.deleteTimeEvent te.id else r.2

end TcpThread

/-! ## The machine -/

inductive TcpEvent where
  | readable (fd : ℕ) (a : Answers)
  | writable (fd : ℕ) (a : Answers)
  | timer (id : ℕ) (a : Answers)
deriving DecidableEq

/-- `aeProcessEvents` on one event. -/
def tcpStep {π : Type*} (cfg : Config) (P : ResponseParser π) (s : TcpThread π) :
    TcpEvent → Option (TcpThread π)
  | .readable fd a =>
      (s.loop.events fd).rfileProc.bind
        (s.runFileProc cfg P fd (s.loop.events fd).clientData a)
  | .writable fd a =>
      (s.loop.events fd).wfileProc.bind
        (s.runFileProc cfg P fd (s.loop.events fd).clientData a)
  | .timer id a =>
      (s.loop.timeEvents.find? (·.id == id)).map fun te => s.runTimeEvent te a

/-- The event loop of `thread_main`, with one timer for each connection. -/
def initialLoop (cfg : Config) : EventLoop FileProc TimeProc ℕ :=
  (List.range cfg.connections).foldl
    (fun loop i => aeCreateTimeEvent loop .delayedInitialConnect i)
    (aeCreateEventLoop cfg.setsize)

/-- A thread as `thread_main` sets it up at clock reading `clock`, in a
process whose open descriptors are those of `reserved`. -/
def TcpThread.initial {π : Type*} (cfg : Config) (P : ResponseParser π) (clock : ℕ)
    (reserved : FdTable Unit) : TcpThread π where
  clock := clock
  loop := initialLoop cfg
  fds := reserved.map fun _ => ⟨none, false, 0, 0, []⟩
  conns _ := .initial cfg P.zeroed
  complete := 0
  requests := 0
  bytes := 0
  errors := ⟨0, 0, 0, 0⟩
  trace := []

def tcpThread {π : Type*} (cfg : Config) (P : ResponseParser π) :
    Machine (TcpThread π) TcpEvent :=
  ofFun (fun s => ∃ clock reserved, s = .initial cfg P clock reserved) (tcpStep cfg P)

end WrkQuic
