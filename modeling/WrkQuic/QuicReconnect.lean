import WrkQuic.Quic
import WrkQuic.Lib.Runs

/-!
# QUIC reconnection

One connection slot of a thread and the QUIC connections (`cnx`) that
picoquic holds for it. All of them share the slot's `connection` and
callback; `quic_callback` never removes the callback of an old `cnx`.

A `cnx` is opened by `quic_socket_connected` on a socket that
`quic_connect_socket` registered, and terminates when picoquic reports its
close, application close or stateless reset. picoquic may deliver any
event to any `cnx` it was given, at any time.

The restart label of `quic_callback` is also reached by `stream_reset` and
`stop_sending`, which leave the `cnx` open, and by a second closing event
of a `cnx` that has already terminated. `OnlyTerminations` are the steps
that do neither.
-/

namespace WrkQuic

open Runs

/-- Events that jump to the label `restart`. -/
def PicoquicEvent.restarts : PicoquicEvent → Bool
  | .stopSending | .streamReset | .statelessReset | .close | .applicationClose => true
  | _ => false

/-- Events by which picoquic reports the end of a `cnx`. -/
def PicoquicEvent.terminates : PicoquicEvent → Bool
  | .statelessReset | .close | .applicationClose => true
  | _ => false

/-- The slot. `cnxs` holds for each `cnx` ever created whether it is still
open, `awaiting` the sockets on which `quic_socket_connected` is
registered, `timers` the pending `delay_recon` timers. `terminated` and
`reconnects` count the terminations and the calls of
`quic_reconnect_socket`. -/
structure QuicSlot where
  conn : QuicConnection
  clock : ℕ
  initialPending : Bool
  timers : ℕ
  awaiting : ℕ
  cnxs : List Bool
  terminated : ℕ
  reconnects : ℕ

/-- `registered`: socket, bind and `aeCreateFileEvent` succeeded;
`created`: `picoquic_create_cnx` returned a `cnx`. -/
inductive QuicSlotEvent where
  | initialConnect (dt : ℕ) (registered : Bool)
  | socketConnected (created : Bool)
  | delayRecon (registered : Bool)
  | callback (cnx : ℕ) (event : PicoquicEvent) (dt : ℕ) (registered : Bool)
deriving DecidableEq, Repr

namespace QuicSlot

def openCnxs (s : QuicSlot) : ℕ := s.cnxs.count true

/-- `quic_connect_socket`: a failed attempt leaves nothing behind. -/
def connectSocket (s : QuicSlot) (registered : Bool) : QuicSlot :=
  if registered then { s with awaiting := s.awaiting + 1 } else s

def reconnectSocket (s : QuicSlot) (registered : Bool) : QuicSlot :=
  { s with reconnects := s.reconnects + 1 }.connectSocket registered

/-- The effect of a call of `quic_callback` on the slot. -/
def perform (registered : Bool) (s : QuicSlot) : QuicCall → QuicSlot
  | .delayRecon _ => { s with timers := s.timers + 1 }
  | .reconnectSocket => s.reconnectSocket registered
  | _ => s

/-- picoquic's side of an event: the `cnx` is over. -/
def deliver (s : QuicSlot) (cnx : ℕ) (event : PicoquicEvent) : QuicSlot :=
  if event.terminates ∧ s.cnxs[cnx]? = some true then
    { s with cnxs := s.cnxs.set cnx false, terminated := s.terminated + 1 }
  else s

end QuicSlot

open QuicSlot

/-- `delayed_initial_connect`. -/
def initialConnect (s : QuicSlot) (dt : ℕ) (registered : Bool) : Option QuicSlot :=
  if s.initialPending then
    let s := { s with
      initialPending := false
      clock := s.clock + dt
      conn := { s.conn with pacer := { s.conn.pacer with threadStart := s.clock + dt } } }
    some (s.connectSocket registered)
  else none

/-- `quic_socket_connected` on a waiting socket. -/
def quicSocketConnected (s : QuicSlot) (created : Bool) : Option QuicSlot :=
  if 0 < s.awaiting then
    let s := { s with awaiting := s.awaiting - 1, conn := quicConnect s.conn }
    some (if created then { s with cnxs := s.cnxs ++ [true] } else s)
  else none

/-- The timer is deleted: `delay_recon` returns `AE_NOMORE`. -/
def delayRecon (s : QuicSlot) (registered : Bool) : Option QuicSlot :=
  if 0 < s.timers then
    some ({ s with timers := s.timers - 1 }.reconnectSocket registered)
  else none

def callbackOn (cfg : Config) (s : QuicSlot) (cnx : ℕ) (event : PicoquicEvent) (dt : ℕ)
    (registered : Bool) : Option QuicSlot :=
  if cnx < s.cnxs.length then
    let now := s.clock + dt
    let s := s.deliver cnx event
    let r := quicCallback cfg s.conn now event
    some (r.2.foldl (perform registered) { s with conn := r.1, clock := now })
  else none

def quicSlotStep (cfg : Config) (s : QuicSlot) : QuicSlotEvent → Option QuicSlot
  | .initialConnect dt registered => initialConnect s dt registered
  | .socketConnected created => quicSocketConnected s created
  | .delayRecon registered => delayRecon s registered
  | .callback cnx event dt registered => callbackOn cfg s cnx event dt registered

/-- A slot as `thread_main` sets it up. -/
def QuicSlot.Initial (cfg : Config) (s : QuicSlot) : Prop :=
  s.conn = .initial cfg () ∧ s.initialPending = true ∧ s.timers = 0 ∧ s.awaiting = 0 ∧
    s.cnxs = [] ∧ s.terminated = 0 ∧ s.reconnects = 0

def quicSlot (cfg : Config) : Machine QuicSlot QuicSlotEvent :=
  ofFun (QuicSlot.Initial cfg) (quicSlotStep cfg)

/-- A restart event ends a `cnx` that was open until then. -/
def OnlyTerminations (s : QuicSlot) : QuicSlotEvent → Prop
  | .callback cnx event _ _ =>
      event.restarts = true → event.terminates = true ∧ s.cnxs[cnx]? = some true
  | _ => True

instance (s : QuicSlot) (e : QuicSlotEvent) : Decidable (OnlyTerminations s e) :=
  match e with
  | .callback _ _ _ _ => inferInstanceAs (Decidable (_ → _))
  | .initialConnect _ _ | .socketConnected _ | .delayRecon _ => isTrue trivial

/-! ## What one step does to the counts -/

/-- Everything that is or will become a connection of the slot. -/
def QuicSlot.pending (s : QuicSlot) : ℕ :=
  (if s.initialPending then 1 else 0) + s.timers + s.awaiting + s.openCnxs

/-- At most one connection is open or on its way, and every termination is
paid for by one reconnection, made or scheduled. -/
structure QuicSlot.OneConnection (s : QuicSlot) : Prop where
  single : s.pending ≤ 1
  balanced : s.reconnects + s.timers = s.terminated

/-- `s'` differs from `s` by `n` reconnections, made or scheduled. -/
structure QuicSlot.Reconnects (n : ℕ) (s s' : QuicSlot) : Prop where
  initialPending : s'.initialPending = s.initialPending
  cnxs : s'.cnxs = s.cnxs
  terminated : s'.terminated = s.terminated
  waiting : s'.timers + s'.awaiting ≤ s.timers + s.awaiting + n
  balance : s'.reconnects + s'.timers = s.reconnects + s.timers + n

theorem QuicSlot.Reconnects.none (s : QuicSlot) : s.Reconnects 0 s :=
  ⟨rfl, rfl, rfl, Nat.le_refl _, rfl⟩

theorem reconnectSocket_reconnects (s : QuicSlot) (registered : Bool) :
    s.Reconnects 1 (s.reconnectSocket registered) := by
  cases registered with
  | true => exact ⟨rfl, rfl, rfl, Nat.le_refl _, Nat.add_right_comm _ _ _⟩
  | false => exact ⟨rfl, rfl, rfl, Nat.le_succ _, Nat.add_right_comm _ _ _⟩

theorem quicRestart_reconnects (c : QuicConnection) (now : ℕ) (registered : Bool)
    (s : QuicSlot) :
    s.Reconnects 1 ((quicRestart c now).2.foldl (perform registered) s) := by
  unfold quicRestart
  simp only
  split
  · exact ⟨rfl, rfl, rfl, Nat.le_of_eq (Nat.add_right_comm _ _ _), rfl⟩
  · exact reconnectSocket_reconnects s registered

/-- The restart label makes or schedules one reconnection, anything else
none. -/
theorem quicCallback_reconnects (cfg : Config) (c : QuicConnection) (now : ℕ)
    (event : PicoquicEvent) (registered : Bool) (s : QuicSlot) :
    s.Reconnects (if event.restarts then 1 else 0)
      ((quicCallback cfg c now event).2.foldl (perform registered) s) := by
  have hrestart := quicRestart_reconnects c now registered s
  cases event with
  | stopSending => exact hrestart
  | streamReset => exact hrestart
  | statelessReset => exact hrestart
  | close => exact hrestart
  | applicationClose => exact hrestart
  | streamFin length =>
      by_cases hnow : now < cfg.stopAt
      · simp only [quicCallback, hnow, if_true]
        exact .none s
      · simp only [quicCallback, hnow, if_false]
        exact .none s
  | streamData length => exact .none s
  | versionNegotiation => exact .none s
  | streamGap => exact .none s
  | prepareToSend length script => exact .none s
  | almostReady => exact .none s
  | ready => exact .none s
  | other => exact .none s

theorem count_set_false {l : List Bool} {i : ℕ} (h : l[i]? = some true) :
    (l.set i false).count true + 1 = l.count true := by
  induction l generalizing i with
  | nil => cases h
  | cons b l ih =>
      cases i with
      | zero =>
          obtain rfl := Option.some.inj h
          simp
      | succ i =>
          have := ih h
          simp only [List.set_cons_succ, List.count_cons]
          omega

theorem deliver_keeps (s : QuicSlot) (cnx : ℕ) {event : PicoquicEvent}
    (ht : event.terminates = false) : s.deliver cnx event = s := by
  rw [deliver, if_neg]
  rintro ⟨h, -⟩
  rw [h] at ht
  cases ht

theorem terminates_restarts {event : PicoquicEvent} (h : event.restarts = false) :
    event.terminates = false := by
  cases event <;> first | rfl | cases h

theorem connectSocket_pending (s : QuicSlot) (registered : Bool) :
    (s.connectSocket registered).pending ≤ s.pending + 1 := by
  cases registered with
  | true =>
      simp only [connectSocket, if_true, QuicSlot.pending, openCnxs]
      omega
  | false => exact Nat.le_succ _

theorem connectSocket_balance (s : QuicSlot) (registered : Bool) :
    (s.connectSocket registered).reconnects = s.reconnects ∧
      (s.connectSocket registered).timers = s.timers ∧
      (s.connectSocket registered).terminated = s.terminated := by
  cases registered with
  | true => exact ⟨rfl, rfl, rfl⟩
  | false => exact ⟨rfl, rfl, rfl⟩

/-! ### One lemma for each event -/

theorem OneConnection.initialConnect {s s' : QuicSlot} {dt : ℕ} {registered : Bool}
    (h : s.OneConnection) (hstep : initialConnect s dt registered = some s') :
    s'.OneConnection := by
  obtain ⟨hsingle, hbalanced⟩ := h
  unfold WrkQuic.initialConnect at hstep
  split at hstep
  · rename_i hinit
    cases hstep
    refine ⟨(connectSocket_pending _ registered).trans ?_, ?_⟩
    · simp only [QuicSlot.pending, openCnxs, hinit, if_true, Bool.false_eq_true,
        if_false] at hsingle ⊢
      omega
    · obtain ⟨hr, ht, hd⟩ := connectSocket_balance _ registered
      rw [hr, ht, hd]
      exact hbalanced
  · cases hstep

theorem OneConnection.socketConnected {s s' : QuicSlot} {created : Bool}
    (h : s.OneConnection) (hstep : quicSocketConnected s created = some s') :
    s'.OneConnection := by
  obtain ⟨hsingle, hbalanced⟩ := h
  unfold quicSocketConnected at hstep
  split at hstep
  · rename_i hawait
    cases hstep
    simp only [QuicSlot.pending, openCnxs] at hsingle
    cases created with
    | true =>
        refine ⟨?_, hbalanced⟩
        simp only [QuicSlot.pending, openCnxs, if_true, List.count_append,
          List.count_singleton_self]
        omega
    | false =>
        refine ⟨?_, hbalanced⟩
        simp only [QuicSlot.pending, openCnxs, Bool.false_eq_true, if_false]
        omega
  · cases hstep

theorem OneConnection.delayRecon {s s' : QuicSlot} {registered : Bool}
    (h : s.OneConnection) (hstep : delayRecon s registered = some s') :
    s'.OneConnection := by
  obtain ⟨hsingle, hbalanced⟩ := h
  unfold WrkQuic.delayRecon at hstep
  split at hstep
  · rename_i htimer
    cases hstep
    refine ⟨(connectSocket_pending _ registered).trans ?_, ?_⟩
    · simp only [QuicSlot.pending, openCnxs] at hsingle ⊢
      omega
    · obtain ⟨hr, ht, hd⟩ := connectSocket_balance
        { s with timers := s.timers - 1, reconnects := s.reconnects + 1 } registered
      simp only [reconnectSocket, hr, ht, hd]
      omega
  · cases hstep

theorem OneConnection.of_reconnects {s s' : QuicSlot} {n : ℕ} (h : s.Reconnects n s')
    (hsingle : s.pending + n ≤ 1) (hbalanced : s.reconnects + s.timers + n = s.terminated) :
    s'.OneConnection := by
  obtain ⟨hinit, hcnxs, hterm, hwaiting, hbalance⟩ := h
  refine ⟨?_, ?_⟩
  · simp only [QuicSlot.pending, openCnxs] at hsingle ⊢
    rw [hinit, hcnxs]
    omega
  · rw [hbalance, hterm]
    exact hbalanced

/-- A termination makes room for the reconnection it causes. -/
theorem deliver_pending (s : QuicSlot) {cnx : ℕ} {event : PicoquicEvent}
    (ht : event.terminates = true) (hopen : s.cnxs[cnx]? = some true) :
    (s.deliver cnx event).pending + 1 = s.pending ∧
      (s.deliver cnx event).reconnects = s.reconnects ∧
      (s.deliver cnx event).timers = s.timers ∧
      (s.deliver cnx event).terminated = s.terminated + 1 := by
  have hcount := count_set_false hopen
  rw [deliver, if_pos ⟨ht, hopen⟩]
  refine ⟨?_, rfl, rfl, rfl⟩
  simp only [QuicSlot.pending, openCnxs]
  omega

theorem OneConnection.callback {cfg : Config} {s s' : QuicSlot} {cnx : ℕ}
    {event : PicoquicEvent} {dt : ℕ} {registered : Bool} (h : s.OneConnection)
    (hok : event.restarts = true → event.terminates = true ∧ s.cnxs[cnx]? = some true)
    (hstep : callbackOn cfg s cnx event dt registered = some s') : s'.OneConnection := by
  obtain ⟨hsingle, hbalanced⟩ := h
  unfold callbackOn at hstep
  split at hstep
  · cases hstep
    have hcall := quicCallback_reconnects cfg (s.deliver cnx event).conn (s.clock + dt) event
      registered { s.deliver cnx event with
        conn := (quicCallback cfg (s.deliver cnx event).conn (s.clock + dt) event).1
        clock := s.clock + dt }
    cases hr : event.restarts with
    | true =>
        obtain ⟨ht, hopen⟩ := hok hr
        obtain ⟨hpending, hrecon, htimers, hterm⟩ := deliver_pending s ht hopen
        rw [hr, if_pos rfl] at hcall
        refine OneConnection.of_reconnects hcall ?_ ?_
        · exact hpending.trans_le hsingle
        · simp only [hrecon, htimers, hterm]
          omega
    | false =>
        have hsame := deliver_keeps s cnx (terminates_restarts hr)
        rw [hr, if_neg (by decide), hsame] at hcall
        rw [hsame]
        exact OneConnection.of_reconnects hcall hsingle hbalanced
  · cases hstep

/-- Every step but a restart of a live `cnx` keeps the count at one. -/
theorem OneConnection.step {cfg : Config} {s s' : QuicSlot} {e : QuicSlotEvent}
    (h : s.OneConnection) (hstep : quicSlotStep cfg s e = some s')
    (hok : OnlyTerminations s e) : s'.OneConnection := by
  cases e with
  | initialConnect dt registered => exact OneConnection.initialConnect h hstep
  | socketConnected created => exact OneConnection.socketConnected h hstep
  | delayRecon registered => exact OneConnection.delayRecon h hstep
  | callback cnx event dt registered => exact OneConnection.callback h hok hstep

/-! ## Runs -/

/-- In every run whose restarts are terminations of open connections, at
most one QUIC connection of the slot is open or waiting for its
`delay_recon` timer, and every terminated connection causes exactly one
reconnection. -/
theorem quic_one_connection (cfg : Config) {s : QuicSlot}
    (hs : (quicSlot cfg).ReachableWith OnlyTerminations s) :
    s.timers + s.openCnxs ≤ 1 ∧ s.reconnects + s.timers = s.terminated := by
  have hone : s.OneConnection := by
    refine hs.invariant ?_ ?_
    · rintro s ⟨-, hinit, htimers, hawait, hcnxs, hterm, hrecon⟩
      refine ⟨?_, by omega⟩
      simp [QuicSlot.pending, openCnxs, hinit, htimers, hawait, hcnxs]
    · intro s e s' h hstep hok
      exact OneConnection.step h hstep hok
  obtain ⟨hsingle, hbalanced⟩ := hone
  refine ⟨?_, hbalanced⟩
  rw [QuicSlot.pending] at hsingle
  omega

/-- A slot at clock reading 0. -/
def QuicSlot.fresh (cfg : Config) : QuicSlot where
  conn := .initial cfg ()
  clock := 0
  initialPending := true
  timers := 0
  awaiting := 0
  cnxs := []
  terminated := 0
  reconnects := 0

theorem QuicSlot.fresh_initial (cfg : Config) : (QuicSlot.fresh cfg).Initial cfg :=
  ⟨rfl, rfl, rfl, rfl, rfl, rfl, rfl⟩

/-- A connection is opened and closed by the server. -/
theorem quic_one_connection_closed : ∃ s, (quicSlot (staticConfig [97])).ReachableWith
    OnlyTerminations s ∧ s.terminated = 1 ∧ s.timers + s.openCnxs ≤ 1 ∧
    s.reconnects + s.timers = s.terminated := by
  obtain ⟨s, hs, hterm⟩ : ∃ s, (quicSlot (staticConfig [97])).ReachableWith
      OnlyTerminations s ∧ s.terminated = 1 :=
    exists_reachableWith_of_runEvents QuicSlot.terminated
      [.initialConnect 5 true, .socketConnected true, .callback 0 .close 1000 true]
      (QuicSlot.fresh_initial _) (by decide +kernel)
  exact ⟨s, hs, hterm, quic_one_connection _ hs⟩

/-- The server resets the stream, a new connection is opened, and the old
one is closed. -/
def resetRun : List QuicSlotEvent :=
  [.initialConnect 5 true, .socketConnected true, .callback 0 .streamReset 1000 true,
    .socketConnected true, .callback 0 .close 1000 true]

/-- After the reset two connections of the slot are open at once; the one
termination that follows has then caused two reconnections. -/
theorem quic_reset_opens_two :
    (∃ s, (quicSlot (staticConfig [97])).Reachable s ∧ s.timers + s.openCnxs = 2) ∧
    ∃ s, (quicSlot (staticConfig [97])).Reachable s ∧
      (s.terminated, s.reconnects + s.timers) = (1, 2) := by
  have htwo : (runEvents (quicSlotStep (staticConfig [97])) (.fresh (staticConfig [97]))
      (resetRun.take 4)).map (fun s => s.timers + s.openCnxs) = some 2 := by decide +kernel
  have hboth : (runEvents (quicSlotStep (staticConfig [97])) (.fresh (staticConfig [97]))
      resetRun).map (fun s => (s.terminated, s.reconnects + s.timers)) = some (1, 2) := by
    decide +kernel
  exact ⟨exists_reachable_of_runEvents _ _ (QuicSlot.fresh_initial _) htwo,
    exists_reachable_of_runEvents _ _ (QuicSlot.fresh_initial _) hboth⟩

end WrkQuic
