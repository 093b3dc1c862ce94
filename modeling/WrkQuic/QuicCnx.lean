import Mathlib.Data.Int.Notation
import WrkQuic.QuicTimers

/-!
# QUIC handlers and their connections

The threads of `QuicThreads` together with what they leave out: the member
`cnx` of `fd_to_cnx`, which `quic_connect` fills with the connection that
picoquic creates for a socket, and `errors.connect`.

`quic_socket_connected` has a branch for a failed `quic_connect`, but
`quic_connect` returns `OK` whatever picoquic answers: the handlers of the
socket are registered also without a connection.
-/

namespace WrkQuic

open Runs QuicProcess

/-! ## State -/

/-- A connection of picoquic: the use of the socket that it was created
for, whether `picoquic_start_client_cnx` succeeded, and whether
`picoquic_delete_cnx` has freed it. -/
structure Cnx where
  use : ℕ
  started : Bool
  deleted : Bool
deriving DecidableEq

/-- `fd_to_cnx[fd].cnx`, none for `NULL`. The source does not have
`storedFor`, the use of the socket that `quic_connect` stored it for. -/
structure CnxEntry where
  cnx : Option Cnx
  storedFor : Option ℕ
deriving DecidableEq

structure QuicHandlers where
  process : QuicProcess
  cnx : ℕ → CnxEntry
  /-- `errors.connect` of each thread. -/
  connectErrors : ℕ → ℕ

/-- What picoquic answers to one `quic_connect`: whether
`picoquic_create_cnx` returns a connection, and what
`picoquic_start_client_cnx` and `picoquic_mark_active_stream` return.
`reconnect` is for the socket of a reconnection. -/
structure CnxAnswer where
  created : Bool
  startClientCnx : ℤ
  markActiveStream : ℤ
  reconnect : SocketAnswer
deriving DecidableEq

/-- `status`. -/
inductive QuicStatus where
  | ok
  | error
  | retry
  | again
deriving DecidableEq

/-! ## Handlers -/

namespace QuicHandlers

def setCnx (s : QuicHandlers) (fd : ℕ) (entry : CnxEntry) : QuicHandlers :=
  { s with cnx := Function.update s.cnx fd entry }

/-- `thread->errors.connect++`. -/
def countConnectError (s : QuicHandlers) (t : ℕ) : QuicHandlers :=
  { s with connectErrors := Function.update s.connectErrors t (s.connectErrors t + 1) }

/-- `quic_connect`. -/
def quicConnect (s : QuicHandlers) (fd : ℕ) (answer : CnxAnswer) : QuicStatus × QuicHandlers :=
  let use := s.process.useOf fd
  let cnx : Option Cnx :=
    if answer.created then
      some { use := use, started := ¬answer.startClientCnx < 0, deleted := false }
    else none
  let s := s.setCnx fd ⟨cnx, some use⟩
  -- The errors of all three calls end here; the result is not read again.
  let _ret : ℤ := if answer.created then answer.markActiveStream else -1
  (.ok, s)

/-- `quic_connect_socket` comes to `oerror`. -/
def connectFails (s : QuicProcess) (c : Client) (answer : SocketAnswer) : Bool :=
  let fd := s.fds.lowest
  answer = .noSocket || fd = 0 || answer = .bindFails ||
    (aeCreateFileEvent true (s.loops c.owner) fd .both .quicSocketConnected c).isNone

/-- `quic_connect_socket`, with its error counter. -/
def quicConnectSocket (s : QuicHandlers) (c : Client) (answer : SocketAnswer) :
    QuicHandlers :=
  let s' := { s with process := s.process.quicConnectSocket c answer }
  if connectFails s.process c answer then s'.countConnectError c.owner else s'

/-- `quic_socket_connected`. `AGAIN`, on which it calls `quic_connect` once
more, is never returned. -/
def quicSocketConnected (s : QuicHandlers) (fd : ℕ) (c : Client) (answer : CnxAnswer) :
    QuicHandlers :=
  match s.quicConnect fd answer with
  | (.ok, s) => { s with process := s.process.quicSocketConnected fd c }
  | (.error, s) => (s.countConnectError c.owner).quicConnectSocket c answer.reconnect
  | (.retry, s) | (.again, s) => s

/-- `quic_writeable`, which deletes the connection after an error. -/
def quicWriteable (s : QuicHandlers) (t fd : ℕ) (c : Client) (answer : PacketAnswer) :
    QuicHandlers :=
  let s' := { s with process := s.process.quicWriteable t fd c answer }
  match answer with
  | .error =>
      let entry := s.cnx fd
      s'.setCnx fd { entry with cnx := entry.cnx.map fun cnx => { cnx with deleted := true } }
  | .packet | .wait | .noWait => s'

def runFileProc (s : QuicHandlers) (t fd : ℕ) (c : Client) (prepared : PacketAnswer)
    (answer : CnxAnswer) : QuicFileProc → QuicHandlers
  | .quicSocketConnected => s.quicSocketConnected fd c answer
  | .quicReadable => { s with process := s.process.quicRead fd c }
  | .quicWriteable => s.quicWriteable t fd c prepared

def runTimeEvent (s : QuicHandlers) (t : ℕ) (te : TimeEvent QuicTimeProc Client)
    (calibrated : Bool) (answer : SocketAnswer) : QuicHandlers :=
  match te.timeProc with
  | .delayedInitialConnect | .delayRecon =>
      let s := s.quicConnectSocket te.clientData answer
      { s with process := s.process.deleteTimeEvent t te.id }
  | _ => { s with process := s.process.runTimeEvent t te calibrated answer }

end QuicHandlers

open QuicHandlers

/-- One event, with the answers of picoquic if it calls `quic_connect`. -/
def quicHandlersStep (s : QuicHandlers) : QuicProcessEvent × CnxAnswer → Option QuicHandlers
  | (.readable t fd prepared, answer) =>
      let fe := (s.process.loops t).events fd
      fe.rfileProc.map (s.runFileProc t fd fe.clientData prepared answer)
  | (.writable t fd prepared, answer) =>
      let fe := (s.process.loops t).events fd
      fe.wfileProc.map (s.runFileProc t fd fe.clientData prepared answer)
  | (.timer t id calibrated answer, _) =>
      ((s.process.loops t).timeEvents.find? (·.id == id)).map fun te =>
        s.runTimeEvent t te calibrated answer
  | (.restart t index wait answer, _) =>
      if wait then
        some { s with
          process := s.process.createTimeEvent t .delayRecon (.connection t index) }
      else some (s.quicConnectSocket (.connection t index) answer)

def QuicHandlers.initial (setsize connections : ℕ) (reserved : FdTable Unit) : QuicHandlers where
  process := .initial setsize connections reserved
  cnx _ := ⟨none, none⟩
  connectErrors _ := 0

def quicHandlers (setsize connections : ℕ) :
    Machine QuicHandlers (QuicProcessEvent × CnxAnswer) :=
  ofFun (fun s => ∃ reserved, s = .initial setsize connections reserved) quicHandlersStep

/-! ## Refinement -/

section Refinement

variable {s : QuicHandlers} {t fd : ℕ} {c : Client}

theorem quicConnectSocket_process (s : QuicHandlers) (c : Client) (answer : SocketAnswer) :
    (s.quicConnectSocket c answer).process = s.process.quicConnectSocket c answer := by
  unfold QuicHandlers.quicConnectSocket
  simp only
  split
  · rfl
  · rfl

theorem runFileProc_process (prepared : PacketAnswer) (answer : CnxAnswer) (proc : QuicFileProc) :
    (s.runFileProc t fd c prepared answer proc).process
      = s.process.runFileProc t fd c prepared proc := by
  cases proc with
  | quicSocketConnected => rfl
  | quicReadable => rfl
  | quicWriteable =>
      cases prepared with
      | error => rfl
      | packet => rfl
      | wait => rfl
      | noWait => rfl

theorem runTimeEvent_process (te : TimeEvent QuicTimeProc Client) (calibrated : Bool)
    (answer : SocketAnswer) : (s.runTimeEvent t te calibrated answer).process
      = s.process.runTimeEvent t te calibrated answer := by
  unfold QuicHandlers.runTimeEvent QuicProcess.runTimeEvent
  cases te.timeProc with
  | delayedInitialConnect =>
      exact congrArg (QuicProcess.deleteTimeEvent · t te.id)
        (quicConnectSocket_process s te.clientData answer)
  | delayRecon =>
      exact congrArg (QuicProcess.deleteTimeEvent · t te.id)
        (quicConnectSocket_process s te.clientData answer)
  | calibrate => rfl
  | checkTimeouts => rfl
  | sampleRate => rfl
  | writeRequest => rfl

/-- The event loops do what they do without the connections. -/
theorem quicHandlersStep_process (s : QuicHandlers) (e : QuicProcessEvent) (answer : CnxAnswer) :
    (quicHandlersStep s (e, answer)).map QuicHandlers.process
      = quicProcessStep s.process e := by
  cases e with
  | readable t fd prepared =>
      simp only [quicHandlersStep, quicProcessStep, Option.map_map]
      exact congrArg (Option.map · _) (funext fun proc => runFileProc_process prepared answer proc)
  | writable t fd prepared =>
      simp only [quicHandlersStep, quicProcessStep, Option.map_map]
      exact congrArg (Option.map · _) (funext fun proc => runFileProc_process prepared answer proc)
  | timer t id calibrated socket =>
      simp only [quicHandlersStep, quicProcessStep, Option.map_map]
      exact congrArg (Option.map · _) (funext fun te => runTimeEvent_process te calibrated socket)
  | restart t index wait socket =>
      cases wait with
      | true => rfl
      | false => exact congrArg some (quicConnectSocket_process s _ socket)

/-- A run with connections is a run of the threads. -/
theorem quicHandlers_reachable {setsize connections : ℕ}
    (h : (quicHandlers setsize connections).Reachable s) :
    (quicProcess setsize connections).Reachable s.process := by
  refine h.invariant (P := fun s => (quicProcess setsize connections).Reachable s.process) ?_ ?_
  · rintro s ⟨reserved, rfl⟩
    exact .init ⟨reserved, rfl⟩
  · rintro s ⟨e, answer⟩ s' hs hstep
    refine hs.step (e := e) ?_ trivial
    have hproject := quicHandlersStep_process s e answer
    rw [show quicHandlersStep s (e, answer) = some s' from hstep] at hproject
    exact hproject.symm

end Refinement

end WrkQuic
