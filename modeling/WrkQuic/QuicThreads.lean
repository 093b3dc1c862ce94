import WrkQuic.EventLoop
import WrkQuic.Lib.Runs

/-!
# The threads of a QUIC run

The event loops of all threads over QUIC, with the sockets of the process
and the table `fd_to_cnx` that the threads share.

Each step is one handler in one thread. The connections that picoquic
makes `quic_callback` reconnect are a step of their own (`restart`), which
may come at any time. Sockets are told apart by their `use`, which
the source does not have, and `setBy` remembers the thread that stored
`ae`.
-/

namespace WrkQuic

open Runs

/-! ## State -/

inductive QuicFileProc where
  | quicSocketConnected
  | quicReadable
  | quicWriteable
deriving DecidableEq

inductive QuicTimeProc where
  | delayedInitialConnect
  | calibrate
  | checkTimeouts
  | sampleRate
  | delayRecon
  | writeRequest
deriving DecidableEq

/-- What a `void *data` stands for: a connection, a thread or `(void*)fd`,
here with the use of `fd` that it was made for. -/
inductive Client where
  | connection (t index : ℕ)
  | thread (t : ℕ)
  | socket (fd use : ℕ)
deriving DecidableEq

instance : Inhabited Client := ⟨.thread 0⟩

/-- `c->thread`. -/
def Client.owner : Client → ℕ
  | .connection t _ => t
  | .thread t => t
  | .socket _ _ => 0

/-- An open descriptor; `thread` is none if it is not a QUIC socket. -/
structure QuicSocket where
  thread : Option ℕ
  use : ℕ
deriving DecidableEq

/-- `struct wr`, less the picoquic connection. -/
structure Wr where
  c : Client
  ae : ℕ
  setBy : ℕ
deriving DecidableEq

abbrev QuicLoop := EventLoop QuicFileProc QuicTimeProc Client

/-- A timer that `quic_read` deleted for the use `use` of `fd`. -/
structure Removal where
  fd : ℕ
  use : ℕ
  timeProc : QuicTimeProc
  clientData : Client
deriving DecidableEq

structure QuicProcess where
  loops : ℕ → QuicLoop
  fds : FdTable QuicSocket
  fdToCnx : ℕ → Wr
  uses : ℕ
  removed : List Removal

/-- `socket`, `bind`. -/
inductive SocketAnswer where
  | noSocket
  | bindFails
  | bound
deriving DecidableEq

/-- What `picoquic_prepare_packet` makes of a socket: a packet to send, an
error, or nothing to send until a wake delay is over. -/
inductive PacketAnswer where
  | packet
  | error
  | wait
  | noWait
deriving DecidableEq

/-! ## Handlers -/

namespace QuicProcess

def setLoop (s : QuicProcess) (t : ℕ) (loop : QuicLoop) : QuicProcess :=
  { s with loops := Function.update s.loops t loop }

def setWr (s : QuicProcess) (fd : ℕ) (wr : Wr) : QuicProcess :=
  { s with fdToCnx := Function.update s.fdToCnx fd wr }

def createFileEvent (s : QuicProcess) (t fd : ℕ) (mask : Mask) (proc : QuicFileProc)
    (data : Client) : QuicProcess :=
  match aeCreateFileEvent (s.fds.get fd).isSome (s.loops t) fd mask proc data with
  | some loop => s.setLoop t loop
  | none => s

def deleteFileEvent (s : QuicProcess) (t fd : ℕ) (mask : Mask) : QuicProcess :=
  s.setLoop t (aeDeleteFileEvent (s.loops t) fd mask)

def createTimeEvent (s : QuicProcess) (t : ℕ) (proc : QuicTimeProc) (data : Client) :
    QuicProcess :=
  s.setLoop t (aeCreateTimeEvent (s.loops t) proc data)

def deleteTimeEvent (s : QuicProcess) (t id : ℕ) : QuicProcess :=
  s.setLoop t (aeDeleteTimeEvent (s.loops t) id)

/-- `close(fd)`, which the kernel carries out in every interest list. -/
def close (s : QuicProcess) (fd : ℕ) : QuicProcess :=
  { s with
    fds := s.fds.close fd
    loops := fun t => (s.loops t).dropClosed fd }

/-- The use that the open descriptor `fd` is in. -/
def useOf (s : QuicProcess) (fd : ℕ) : ℕ := ((s.fds.get fd).map QuicSocket.use).getD 0

/-- `quic_connect_socket`. Descriptor 0 is taken for an error, and stays
open. -/
def quicConnectSocket (s : QuicProcess) (c : Client) (answer : SocketAnswer) : QuicProcess :=
  let fd := s.fds.lowest
  if answer = .noSocket then s
  else if fd = 0 then { s with fds := s.fds.openLowest ⟨none, 0⟩ }
  else
    let s := { s with fds := s.fds.openLowest ⟨some c.owner, s.uses⟩, uses := s.uses + 1 }
    let s := s.setWr fd { s.fdToCnx fd with c := c }
    if answer = .bindFails then s.close fd
    else
      match aeCreateFileEvent true (s.loops c.owner) fd .both .quicSocketConnected c with
      | some loop => s.setLoop c.owner loop
      | none => s.close fd

/-- `quic_socket_connected`; `quic_connect` always returns `OK`. -/
def quicSocketConnected (s : QuicProcess) (fd : ℕ) (c : Client) : QuicProcess :=
  (s.createFileEvent c.owner fd .aeReadable .quicReadable c).createFileEvent c.owner fd
    .aeWritable .quicWriteable c

/-- `write_request`, in the loop of thread `t`. -/
def writeRequest (s : QuicProcess) (t fd : ℕ) : QuicProcess :=
  s.createFileEvent t fd .aeWritable .quicWriteable (s.fdToCnx fd).c

/-- `quic_writeable`, in the loop of thread `t`. -/
def quicWriteable (s : QuicProcess) (t fd : ℕ) (c : Client) : PacketAnswer → QuicProcess
  | .packet => s
  | .error => (s.deleteFileEvent t fd .both).close fd
  | .wait =>
      let s := s.deleteFileEvent t fd .aeWritable
      let id := (s.loops c.owner).timeEventNextId
      (s.createTimeEvent c.owner .writeRequest (.socket fd (s.useOf fd))).setWr fd
        { s.fdToCnx fd with ae := id, setBy := c.owner }
  | .noWait => s.createFileEvent c.owner fd .aeWritable .quicWriteable c

/-- `aeDeleteTimeEvent(c->thread->loop, id)` for a socket, seen to remove a
timer if there is one. -/
def removeTimer (s : QuicProcess) (t fd id : ℕ) : QuicProcess :=
  let removed := ((s.loops t).timeEvents.find? (·.id == id)).map fun te =>
    (⟨fd, s.useOf fd, te.timeProc, te.clientData⟩ : Removal)
  { s.deleteTimeEvent t id with removed := removed.toList ++ s.removed }

/-- The end of `quic_read`. -/
def quicRead (s : QuicProcess) (fd : ℕ) (c : Client) : QuicProcess :=
  let ae := (s.fdToCnx fd).ae
  if ae ≠ 0 then
    let s := (s.removeTimer c.owner fd ae).setWr fd { s.fdToCnx fd with ae := 0 }
    s.createFileEvent c.owner fd .aeWritable .quicWriteable c
  else s

/-- A file procedure in the loop of thread `t`. -/
def runFileProc (s : QuicProcess) (t fd : ℕ) (c : Client) (answer : PacketAnswer) :
    QuicFileProc → QuicProcess
  | .quicSocketConnected => s.quicSocketConnected fd c
  | .quicReadable => s.quicRead fd c
  | .quicWriteable => s.quicWriteable t fd c answer

/-- `processTimeEvents` on a time event of thread `t`: it is deleted when
its procedure returns `AE_NOMORE`. `calibrate` waits for a first latency. -/
def runTimeEvent (s : QuicProcess) (t : ℕ) (te : TimeEvent QuicTimeProc Client)
    (calibrated : Bool) (answer : SocketAnswer) : QuicProcess :=
  match te.timeProc with
  | .delayedInitialConnect | .delayRecon =>
      (s.quicConnectSocket te.clientData answer).deleteTimeEvent t te.id
  | .calibrate =>
      if calibrated then
        (s.createTimeEvent t .sampleRate te.clientData).deleteTimeEvent t te.id
      else s
  | .checkTimeouts | .sampleRate => s
  | .writeRequest =>
      match te.clientData with
      | .socket fd _ => (s.writeRequest t fd).deleteTimeEvent t te.id
      | _ => s

end QuicProcess

open QuicProcess

inductive QuicProcessEvent where
  | readable (t fd : ℕ) (answer : PacketAnswer)
  | writable (t fd : ℕ) (answer : PacketAnswer)
  | timer (t id : ℕ) (calibrated : Bool) (answer : SocketAnswer)
  /-- The label `restart` of `quic_callback`, for connection `index` of
  thread `t`; `wait` when it is not yet time to send. -/
  | restart (t index : ℕ) (wait : Bool) (answer : SocketAnswer)
deriving DecidableEq

def quicProcessStep (s : QuicProcess) : QuicProcessEvent → Option QuicProcess
  | .readable t fd answer =>
      let fe := (s.loops t).events fd
      fe.rfileProc.map (s.runFileProc t fd fe.clientData answer)
  | .writable t fd answer =>
      let fe := (s.loops t).events fd
      fe.wfileProc.map (s.runFileProc t fd fe.clientData answer)
  | .timer t id calibrated answer =>
      ((s.loops t).timeEvents.find? (·.id == id)).map fun te =>
        s.runTimeEvent t te calibrated answer
  | .restart t index wait answer =>
      if wait then some (s.createTimeEvent t .delayRecon (.connection t index))
      else some (s.quicConnectSocket (.connection t index) answer)

/-- The event loop of thread `t` as `thread_main` sets it up. -/
def quicInitialLoop (setsize connections t : ℕ) : QuicLoop :=
  let loop := (List.range connections).foldl
    (fun loop i => aeCreateTimeEvent loop .delayedInitialConnect (.connection t i))
    (aeCreateEventLoop setsize)
  aeCreateTimeEvent (aeCreateTimeEvent loop .calibrate (.thread t)) .checkTimeouts (.thread t)

/-- A process whose threads are about to enter their event loops, with the
open descriptors of `reserved`. -/
def QuicProcess.initial (setsize connections : ℕ) (reserved : FdTable Unit) : QuicProcess where
  loops := quicInitialLoop setsize connections
  fds := reserved.map fun _ => ⟨none, 0⟩
  fdToCnx _ := ⟨default, 0, 0⟩
  uses := 0
  removed := []

def quicProcess (setsize connections : ℕ) : Machine QuicProcess QuicProcessEvent :=
  ofFun (fun s => ∃ reserved, s = .initial setsize connections reserved) quicProcessStep

end WrkQuic
