import WrkQuic.HttpParser
import WrkQuic.TcpEffect

/-!
# TCP latencies

A connection is untouched until its `delayed_initial_connect` timer fires
(`Setup`). From then on its schedule stays where it is, so that the latency
anchors keep their order in every run, and no latency that
`stats_request_completed` measures wraps.
-/

namespace WrkQuic

open Runs

namespace TcpThread

variable {π : Type*}

/-- Nothing refers to connection `c` but its `delayed_initial_connect`. -/
structure Fresh (c : ℕ) (s : TcpThread π) : Prop where
  started : (s.conns c).started = false
  timers : ∀ te ∈ s.loop.timeEvents, te.clientData = c →
    te.timeProc = .delayedInitialConnect
  slots : ∀ fd, (s.loop.events fd).isNone = false → (s.loop.events fd).clientData ≠ c
  owners : ∀ fd d, s.fds.get fd = some d → d.owner ≠ some c

/-- Connections whose initial timer is pending are fresh, and have just
one. -/
structure Setup (s : TcpThread π) : Prop where
  ids : ∀ te ∈ s.loop.timeEvents, te.timeProc = .delayedInitialConnect →
    te.clientData = te.id
  fresh : ∀ te ∈ s.loop.timeEvents, te.timeProc = .delayedInitialConnect →
    s.Fresh te.clientData

variable {cfg : Config} {P : ResponseParser π} {c c' fd id : ℕ} {s s' : TcpThread π}
  {te : TimeEvent TimeProc ℕ} {a : Answers}

/-- Work on another connection leaves a fresh one fresh. -/
theorem Fresh.effect (h : s.Fresh c') (hc : c' ≠ c) (he : s.Effect c s') : s'.Fresh c' where
  started := by
    rw [he.conns c' hc]
    exact h.started
  timers te hte hdata := by
    rcases he.timers te hte with hold | ⟨-, hnew⟩
    · exact h.timers te hold hdata
    · exact absurd (hdata.symm.trans hnew) hc
  slots fd hfd := by
    rcases he.slots fd hfd with hnew | ⟨hold, hsame⟩
    · rw [hnew]
      exact Ne.symm hc
    · rw [hsame]
      exact h.slots fd hold
  owners fd d hd := by
    rcases he.owners fd d hd with hnew | ⟨d₀, hold, hsame⟩
    · rw [hnew]
      exact fun h => hc (Option.some.inj h).symm
    · rw [← hsame]
      exact h.owners fd d₀ hold

theorem Setup.mem_of_effect (he : s.Effect c s') (hte : te ∈ s'.loop.timeEvents)
    (hproc : te.timeProc = .delayedInitialConnect) : te ∈ s.loop.timeEvents := by
  rcases he.timers te hte with hold | ⟨hdelay, -⟩
  · exact hold
  · rw [hproc] at hdelay
    cases hdelay

/-- A handler of a connection that is not fresh. -/
theorem Setup.effect (h : s.Setup) (hc : ¬ s.Fresh c) (he : s.Effect c s') : s'.Setup where
  ids te hte hproc := h.ids te (Setup.mem_of_effect he hte hproc) hproc
  fresh te hte hproc := by
    have hfresh := h.fresh te (Setup.mem_of_effect he hte hproc) hproc
    refine hfresh.effect ?_ he
    rintro rfl
    exact hc hfresh

/-- The handler of a fresh connection, whose timer is deleted. -/
theorem Setup.connected (h : s.Setup) (hte : te ∈ s.loop.timeEvents)
    (hproc : te.timeProc = .delayedInitialConnect) (he : s.Effect te.clientData s')
    (hdeleted : ∀ te' ∈ s'.loop.timeEvents, te'.id ≠ te.id) : s'.Setup where
  ids te' hte' hproc' := h.ids te' (Setup.mem_of_effect he hte' hproc') hproc'
  fresh te' hte' hproc' := by
    have hold := Setup.mem_of_effect he hte' hproc'
    refine (h.fresh te' hold hproc').effect ?_ he
    intro hsame
    rw [h.ids te' hold hproc', h.ids te hte hproc] at hsame
    exact hdeleted te' hte' hsame

theorem not_fresh_of_slot {proc : FileProc}
    (h : (s.loop.events fd).rfileProc = some proc ∨ (s.loop.events fd).wfileProc = some proc) :
    ¬ s.Fresh (s.loop.events fd).clientData := by
  intro hfresh
  refine hfresh.slots fd ?_ rfl
  rw [FileEvent.isNone]
  rcases h with h | h
  · rw [h]
    rfl
  · rw [h, Option.isNone_some, Bool.and_false]

theorem not_fresh_of_delayRequest (hte : te ∈ s.loop.timeEvents)
    (hproc : te.timeProc = .delayRequest) : ¬ s.Fresh te.clientData := by
  intro hfresh
  rw [hfresh.timers te hte rfl] at hproc
  cases hproc

/-! ## One step -/

/-- The handler of a timer leaves its id to its connection. -/
theorem Effect.own_timer (he : s.Effect te.clientData s') (hte : te ∈ s.loop.timeEvents) :
    ∀ te' ∈ s'.loop.timeEvents, te'.id = te.id → te'.clientData = te.clientData := by
  intro te' hte' hid
  rcases he.timers te' hte' with hold | ⟨-, hnew⟩
  · rw [timeEvent_unique hold hte hid]
  · exact hnew

/-- `delayed_initial_connect` may move the schedule of a fresh connection. -/
theorem delayedInitialConnect_effect (s : TcpThread π) (a : Answers)
    (h : (s.conns c).started = false) : s.Effect c (s.delayedInitialConnect c a) :=
  ((tick_effect c s a.dt).trans (setConn_effect fun ht => ht.restart h _)).trans
    (tcpConnectSocket_effect _ c a.connect)

theorem runTimeEvent_effect (h : s.Setup) (hte : te ∈ s.loop.timeEvents) (a : Answers) :
    s.Effect te.clientData (s.runTimeEvent te a) := by
  unfold runTimeEvent
  split
  · rename_i hproc
    have he := delayedInitialConnect_effect s a (h.fresh te hte hproc).started
    exact he.trans (deleteTimeEvent_effect te.id (he.own_timer hte))
  · have he := delayRequest_effect s te.clientData a
    simp only
    split
    · exact he.trans (deleteTimeEvent_effect te.id (he.own_timer hte))
    · exact he

theorem runTimeEvent_setup (h : s.Setup) (hte : te ∈ s.loop.timeEvents) (a : Answers) :
    (s.runTimeEvent te a).Setup := by
  have he := runTimeEvent_effect h hte a
  cases hproc : te.timeProc with
  | delayedInitialConnect =>
      refine h.connected hte hproc he ?_
      intro te' hte'
      simp only [runTimeEvent, hproc] at hte'
      exact (mem_aeDeleteTimeEvent hte').2
  | delayRequest => exact h.effect (not_fresh_of_delayRequest hte hproc) he

/-- Every step is the work of one handler on its connection. -/
theorem tcpStep_effect {e : TcpEvent} (h : s.Setup) (hstep : tcpStep cfg P s e = some s') :
    s'.Setup ∧ ∃ c, s.Effect c s' := by
  cases e with
  | readable fd a =>
      obtain ⟨proc, hproc, hrun⟩ := Option.bind_eq_some_iff.mp hstep
      have he := runFileProc_effect hrun
      exact ⟨h.effect (not_fresh_of_slot (Or.inl hproc)) he, _, he⟩
  | writable fd a =>
      obtain ⟨proc, hproc, hrun⟩ := Option.bind_eq_some_iff.mp hstep
      have he := runFileProc_effect hrun
      exact ⟨h.effect (not_fresh_of_slot (Or.inr hproc)) he, _, he⟩
  | timer id a =>
      obtain ⟨te, hfind, rfl⟩ := Option.map_eq_some_iff.mp hstep
      have hte := List.mem_of_find?_eq_some hfind
      exact ⟨runTimeEvent_setup h hte a, _, runTimeEvent_effect h hte a⟩

/-! ## Runs -/

/-- The anchors of all connections are in order, and so is every latency
measured so far. -/
structure LatencyOk (s : TcpThread π) : Prop where
  setup : s.Setup
  timed : ∀ c, (s.conns c).Timed s.clock
  measured : ∀ o ∈ s.trace, o.Measured

theorem LatencyOk.effect (h : s.LatencyOk) (hsetup : s'.Setup) (he : s.Effect c s') :
    s'.LatencyOk where
  setup := hsetup
  timed c' := by
    by_cases hc : c' = c
    · subst hc
      exact he.timed (h.timed c')
    · rw [he.conns c' hc]
      exact (h.timed c').later he.clock
  measured o ho := by
    rcases he.trace (h.timed c) o ho with hold | hnew
    · exact h.measured o hold
    · exact hnew

end TcpThread

open TcpThread

variable {π : Type*}

/-- The time events of `thread_main`: one for each connection, whose number
is its id. -/
theorem initialLoop_timeEvents (cfg : Config) :
    ∀ te ∈ (initialLoop cfg).timeEvents,
      te.timeProc = .delayedInitialConnect ∧ te.clientData = te.id := by
  have hloop : ∀ n, ∀ loop, loop = (List.range n).foldl
      (fun loop i => aeCreateTimeEvent loop .delayedInitialConnect i)
      (aeCreateEventLoop cfg.setsize : EventLoop FileProc TimeProc ℕ) →
      loop.timeEventNextId = n ∧
        ∀ te ∈ loop.timeEvents, te.timeProc = .delayedInitialConnect ∧ te.clientData = te.id := by
    intro n
    induction n with
    | zero =>
        rintro loop rfl
        exact ⟨rfl, fun te hte => by cases hte⟩
    | succ n ih =>
        rintro loop rfl
        obtain ⟨hid, htimers⟩ := ih _ rfl
        rw [List.range_succ, List.foldl_append, List.foldl_cons, List.foldl_nil]
        refine ⟨congrArg (· + 1) hid, ?_⟩
        intro te hte
        rcases List.mem_cons.mp hte with rfl | hte
        · exact ⟨rfl, hid.symm⟩
        · exact htimers te hte
  exact (hloop cfg.connections _ rfl).2

/-- No descriptor is registered by `thread_main`. -/
theorem initialLoop_events (cfg : Config) (fd : ℕ) :
    ((initialLoop cfg).events fd).isNone = true ∧ (initialLoop cfg).apidata fd = false := by
  unfold initialLoop
  induction cfg.connections with
  | zero => exact ⟨rfl, rfl⟩
  | succ n ih =>
      rw [List.range_succ, List.foldl_append]
      exact ih

theorem initial_owner (cfg : Config) (P : ResponseParser π) (clock : ℕ)
    (reserved : FdTable Unit) {fd : ℕ} {d : Descriptor}
    (h : (TcpThread.initial cfg P clock reserved).fds.get fd = some d) : d.owner = none := by
  obtain ⟨-, -, rfl⟩ := Option.map_eq_some_iff.mp h
  rfl

theorem initial_setup (cfg : Config) (P : ResponseParser π) (clock : ℕ)
    (reserved : FdTable Unit) : (TcpThread.initial cfg P clock reserved).Setup where
  ids te hte _ := (initialLoop_timeEvents cfg te hte).2
  fresh te _ _ :=
    { started := rfl
      timers := fun te' hte' _ => (initialLoop_timeEvents cfg te' hte').1
      slots := by
        intro fd hfd
        exact absurd (hfd.symm.trans (initialLoop_events cfg fd).1) Bool.false_ne_true
      owners := by
        intro fd d hd
        rw [initial_owner cfg P clock reserved hd]
        exact fun h => by cases h }

theorem tcp_latencyOk {cfg : Config} {P : ResponseParser π} {s : TcpThread π}
    (hs : (tcpThread cfg P).Reachable s) : s.LatencyOk := by
  refine hs.invariant ?_ ?_
  · rintro s ⟨clock, reserved, rfl⟩
    exact
      { setup := initial_setup cfg P clock reserved
        timed := fun _ => Connection.initial_timed cfg P.zeroed clock
        measured := fun o ho => by cases ho }
  · intro s e s' h hstep
    obtain ⟨hsetup, c, he⟩ := tcpStep_effect h.setup hstep
    exact h.effect hsetup he

/-- In every run, whatever the parser makes of the bytes: a response that is
completed after the first batch of its connection was started has a
corrected latency that is at least the uncorrected one, and neither
subtraction wraps. As the signed values that are recorded they are at least
0 while the clock fits. -/
theorem tcp_latencies_in_order (cfg : Config) (P : ResponseParser π) {s : TcpThread π}
    (hs : (tcpThread cfg P).Reachable s) {c : ℕ} {target : Option Descriptor}
    {pending : ℕ} {t : ResponseTiming} (ht : .response c target pending (some t) ∈ s.trace)
    (hstarted : t.started = true) :
    t.Ordered ∧ t.uncorrected ≤ t.corrected ∧
      (t.now < 2 ^ 63 → 0 ≤ toInt64 t.uncorrected ∧
        toInt64 t.uncorrected ≤ toInt64 t.corrected) := by
  have hordered : t.Ordered := (tcp_latencyOk hs).measured _ ht hstarted
  exact ⟨hordered, hordered.le, hordered.signed⟩

/-- Two connections of a thread that sends 100 requests a second on each. -/
def twoConnections : Config where
  connections := 2
  throughput := 1 / 10000
  pipeline := 1
  dynamic := false
  recordAllResponses := false
  stopAt := 10 ^ 9
  setsize := 16
  recvbuf := 8192
  request := "GET / HTTP/1.1\r\n\r\n".toUTF8.toList

def emptyResponse : Bytes := "HTTP/1.1 200 OK\r\nContent-Length: 0\r\n\r\n".toUTF8.toList

/-- The first four descriptors are taken, and the clock starts at 0. -/
def twoConnectionsStart : TcpThread HttpParser :=
  .initial twoConnections httpParser 0 (.firstOpen 4 ())

theorem twoConnectionsStart_initial : ∃ clock reserved,
    twoConnectionsStart = .initial twoConnections httpParser clock reserved :=
  ⟨0, .firstOpen 4 (), rfl⟩

/-- Connection 0 connects at time 5 and sends a request at time 20, whose
response comes at time 720. -/
def oneRequest : List TcpEvent :=
  [.timer 0 { dt := 5 }, .writable 4 { dt := 10 },
    .writable 4 { dt := 10, startDt := 5, write := .ok 18 },
    .readable 4 { reads := [.data emptyResponse [{ dt := 700 }]] }]

/-- The corrected latency of that response is 715, the uncorrected 700. -/
theorem tcp_latencies_in_order_one : ∃ (s : TcpThread HttpParser) (t : ResponseTiming),
    (tcpThread twoConnections httpParser).Reachable s ∧ t.started = true ∧
    (t.corrected, t.uncorrected) = (715, 700) ∧
    t.Ordered ∧ t.uncorrected ≤ t.corrected ∧
    (t.now < 2 ^ 63 → 0 ≤ toInt64 t.uncorrected ∧
      toInt64 t.uncorrected ≤ toInt64 t.corrected) := by
  obtain ⟨s, hs, hlast⟩ : ∃ s, (tcpThread twoConnections httpParser).Reachable s ∧
      s.trace.head? = some (.response 0 (some ⟨some 0, true, 1, 0, [emptyResponse]⟩) 0
        (some ⟨true, 720, 5, 20, 715, 700, true⟩)) :=
    exists_reachable_of_runEvents (fun s : TcpThread HttpParser => s.trace.head?) oneRequest
      twoConnectionsStart_initial (by decide +kernel)
  exact ⟨s, ⟨true, 720, 5, 20, 715, 700, true⟩, hs, rfl, rfl,
    tcp_latencies_in_order twoConnections httpParser hs (List.mem_of_mem_head? hlast) rfl⟩

end WrkQuic
