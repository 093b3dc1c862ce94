import WrkQuic.QuicReconnect

/-!
# QUIC latencies

The slot of `QuicReconnect` with its two clocks. `time_us` is the
monotonic clock of the slot; the `delay_recon` timers go by the wall clock
of `gettimeofday`, cut off to milliseconds, and `processTimeEvents` makes
every timer due when the wall clock has gone back by a second.

`quic_callback` checks the schedule when a connection ends, not when the
next request is sent. `OnSchedule` are the steps that keep to the schedule
all the same: batches start when they are due, and a stream ends only after
a batch was started.
-/

namespace WrkQuic

open Runs QuicSlot

/-! ## Timers of the event loop -/

/-- `when_sec` and `when_ms`. -/
structure WhenTime where
  sec : ℕ
  ms : ℕ
deriving DecidableEq

/-- `aeGetTime`, at `wall` microseconds. -/
def aeGetTime (wall : ℕ) : WhenTime := ⟨wall / 1000000, wall % 1000000 / 1000⟩

def aeAddMillisecondsToNow (wall milliseconds : ℕ) : WhenTime :=
  let cur := aeGetTime wall
  let whenSec := cur.sec + milliseconds / 1000
  let whenMs := cur.ms + milliseconds % 1000
  if 1000 ≤ whenMs then ⟨whenSec + 1, whenMs - 1000⟩ else ⟨whenSec, whenMs⟩

/-- The test of `processTimeEvents`. -/
def WhenTime.Due (te now : WhenTime) : Prop :=
  te.sec < now.sec ∨ (now.sec = te.sec ∧ te.ms ≤ now.ms)

instance (te now : WhenTime) : Decidable (te.Due now) := inferInstanceAs (Decidable (_ ∨ _))

/-- `round((usec / 1000.0L) + 0.5)`. -/
def msecToWait (usec : ℕ) : ℕ := usec / 1000 + 1

theorem aeAddMillisecondsToNow_total (wall milliseconds : ℕ) :
    (aeAddMillisecondsToNow wall milliseconds).ms < 1000 ∧
      (aeAddMillisecondsToNow wall milliseconds).sec * 1000
        + (aeAddMillisecondsToNow wall milliseconds).ms = wall / 1000 + milliseconds := by
  unfold aeAddMillisecondsToNow aeGetTime
  by_cases hcarry : 1000 ≤ wall % 1000000 / 1000 + milliseconds % 1000
  · simp only [hcarry, if_true]
    omega
  · simp only [hcarry, if_false]
    omega

/-- A timer is due once as many milliseconds have begun. -/
theorem due_iff {wall milliseconds now : ℕ} :
    (aeAddMillisecondsToNow wall milliseconds).Due (aeGetTime now) ↔
      wall / 1000 + milliseconds ≤ now / 1000 := by
  obtain ⟨hms, htotal⟩ := aeAddMillisecondsToNow_total wall milliseconds
  rw [← htotal]
  simp only [WhenTime.Due, aeGetTime]
  constructor
  · rintro (h | ⟨h, h'⟩) <;> omega
  · omega

/-! ## The slot with its clocks -/

/-- `due` are the times of the pending `delay_recon` timers, oldest first.
`counted` are the timings of the `stream_fin` events that
`stats_request_completed` counted. -/
structure QuicTimed where
  slot : QuicSlot
  wall : ℕ
  lastTime : ℕ
  due : List WhenTime
  counted : List ResponseTiming

inductive QuicTimedEvent where
  /-- The wall clock shows `wall`. -/
  | wall (time : ℕ)
  /-- `processTimeEvents` looks for clock skew. -/
  | detectSkew
  | initialConnect (dt : ℕ) (registered : Bool)
  | socketConnected (created : Bool)
  /-- The pending timer at position `timer` fires. -/
  | delayRecon (timer : ℕ) (registered : Bool)
  | callback (cnx : ℕ) (event : PicoquicEvent) (dt : ℕ) (registered : Bool)
deriving DecidableEq

def QuicCall.timing : QuicCall → Option ResponseTiming
  | .requestCompleted timing => some timing
  | _ => none

def QuicCall.delay : QuicCall → Option ℕ
  | .delayRecon usec => some usec
  | _ => none

namespace QuicTimed

/-- The start of `processTimeEvents`. -/
def detectSkew (s : QuicTimed) : QuicTimed :=
  let now := s.wall / 1000000
  { s with
    due := if now < s.lastTime then s.due.map fun te => { te with sec := 0 } else s.due
    lastTime := now }

/-- `quic_callback` on a `cnx`, with the timers it creates. -/
def callback (cfg : Config) (s : QuicTimed) (cnx : ℕ) (event : PicoquicEvent) (dt : ℕ)
    (registered : Bool) : Option QuicTimed :=
  let calls := (quicCallback cfg s.slot.conn (s.slot.clock + dt) event).2
  (callbackOn cfg s.slot cnx event dt registered).map fun slot =>
    { s with
      slot := slot
      due := s.due ++ (calls.filterMap QuicCall.delay).map fun usec =>
        aeAddMillisecondsToNow s.wall (msecToWait usec)
      counted := calls.filterMap QuicCall.timing ++ s.counted }

/-- A pending timer fires when it is due. -/
def delayRecon (s : QuicTimed) (timer : ℕ) (registered : Bool) : Option QuicTimed :=
  match s.due[timer]? with
  | some te =>
      if te.Due (aeGetTime s.wall) then
        (WrkQuic.delayRecon s.slot registered).map fun slot =>
          { s with slot := slot, due := s.due.eraseIdx timer }
      else none
  | none => none

end QuicTimed

def quicTimedStep (cfg : Config) (s : QuicTimed) : QuicTimedEvent → Option QuicTimed
  | .wall time => some { s with wall := time }
  | .detectSkew => some s.detectSkew
  | .initialConnect dt registered =>
      (initialConnect s.slot dt registered).map fun slot => { s with slot := slot }
  | .socketConnected created =>
      (quicSocketConnected s.slot created).map fun slot => { s with slot := slot }
  | .delayRecon timer registered => s.delayRecon timer registered
  | .callback cnx event dt registered => s.callback cfg cnx event dt registered

def QuicTimed.Initial (cfg : Config) (s : QuicTimed) : Prop :=
  s.slot.Initial cfg ∧ s.due = [] ∧ s.counted = []

def quicTimed (cfg : Config) : Machine QuicTimed QuicTimedEvent :=
  ofFun (QuicTimed.Initial cfg) (quicTimedStep cfg)

/-- Of the events that picoquic delivers at `now`: a batch starts no
earlier than the schedule says, and a stream that ends in time belongs to a
connection that has started a batch. -/
def Scheduled (cfg : Config) (c : QuicConnection) (now : ℕ) : PicoquicEvent → Prop
  | .prepareToSend _ _ => c.hasPending = false → c.pacer.scheduledStart ≤ now
  | .streamFin _ => now < cfg.stopAt → c.started = true
  | _ => True

/-- The steps whose callbacks meet a condition. -/
def CallbacksMeet (ok : QuicConnection → ℕ → PicoquicEvent → Prop) (s : QuicTimed) :
    QuicTimedEvent → Prop
  | .callback _ event dt _ => ok s.slot.conn (s.slot.clock + dt) event
  | _ => True

def OnSchedule (cfg : Config) : QuicTimed → QuicTimedEvent → Prop :=
  CallbacksMeet (Scheduled cfg)

instance (cfg : Config) (c : QuicConnection) (now : ℕ) (event : PicoquicEvent) :
    Decidable (Scheduled cfg c now event) :=
  match event with
  | .prepareToSend _ _ => inferInstanceAs (Decidable (_ → _))
  | .streamFin _ => inferInstanceAs (Decidable (_ → _))
  | .streamData _ | .stopSending | .streamReset | .statelessReset | .close
  | .applicationClose | .versionNegotiation | .streamGap | .almostReady | .ready
  | .other => isTrue trivial

instance (cfg : Config) (s : QuicTimed) (e : QuicTimedEvent) : Decidable (OnSchedule cfg s e) :=
  match e with
  | .callback _ event dt _ =>
      inferInstanceAs (Decidable (Scheduled cfg s.slot.conn (s.slot.clock + dt) event))
  | .wall _ | .detectSkew | .initialConnect _ _ | .socketConnected _
  | .delayRecon _ _ => isTrue trivial

/-! ## What one callback does to the latency anchors -/

/-- `c'` has the anchors of `c`. -/
structure Connection.SameAnchors {π : Type*} (c c' : Connection π) : Prop where
  pending : c'.hasPending = true → c.hasPending = true
  started : c'.started = c.started
  expected : c'.expectedLatencyStart = c.expectedLatencyStart
  actual : c'.actualLatencyStart = c.actualLatencyStart

/-- `c'` is `c` with the anchors moved by a batch that starts at `now`. -/
structure Connection.Anchors {π : Type*} (c c' : Connection π) (now : ℕ) : Prop where
  free : c.hasPending = false
  started : c'.started = true
  expected : c'.expectedLatencyStart = c.pacer.scheduledStart
  actual : c'.actualLatencyStart = now

section Callback

variable {cfg : Config} {c c' : QuicConnection} {clock now : ℕ}

theorem Connection.SameAnchors.refl (c : QuicConnection) : c.SameAnchors c :=
  ⟨fun hp => hp, rfl, rfl, rfl⟩

theorem quicRestart_anchors (c : QuicConnection) (now : ℕ) :
    c.SameAnchors (quicRestart c now).1 := by
  obtain ⟨hline, hrate, -, hstart, -⟩ := c.pacer.usecToNextSend_schedule now
  unfold quicRestart
  simp only
  split
  · exact ⟨fun hp => hp, rfl,
      by simp only [Connection.expectedLatencyStart, hline, hrate, hstart], rfl⟩
  · exact ⟨fun hp => hp, rfl,
      by simp only [Connection.expectedLatencyStart, hline, hrate, hstart], rfl⟩

theorem quicRestart_timing (c : QuicConnection) (now : ℕ) :
    (quicRestart c now).2.filterMap QuicCall.timing = [] := by
  unfold quicRestart
  simp only
  split
  · rfl
  · rfl

theorem startBatch_anchors (c : QuicConnection) (pipeline now : ℕ) :
    c.SameAnchors (c.startBatch pipeline now) ∨ c.Anchors (c.startBatch pipeline now) now := by
  unfold Connection.startBatch
  split
  · exact Or.inl ⟨fun hp => hp, rfl, rfl, rfl⟩
  · rename_i hpending
    exact Or.inr ⟨Bool.eq_false_iff.mpr hpending, rfl, rfl, rfl⟩

/-- Only `prepare_to_send` moves the anchors. -/
theorem quicCallback_anchors (cfg : Config) (c : QuicConnection) (now : ℕ)
    (event : PicoquicEvent) :
    c.SameAnchors (quicCallback cfg c now event).1 ∨
      (∃ length script, event = .prepareToSend length script) ∧
        c.Anchors (quicCallback cfg c now event).1 now := by
  have hrestart := quicRestart_anchors c now
  have hsame := Connection.SameAnchors.refl c
  cases event with
  | prepareToSend length script =>
      simp only [quicCallback, prepareToSend]
      split
      · rcases startBatch_anchors { c with request := script } cfg.pipeline now with h | h
        · exact Or.inl ⟨h.pending, h.started, h.expected, h.actual⟩
        · exact Or.inr ⟨⟨_, _, rfl⟩, h.free, h.started, h.expected, h.actual⟩
      · exact (startBatch_anchors c cfg.pipeline now).imp_right fun h => ⟨⟨_, _, rfl⟩, h⟩
  | streamFin length =>
      simp only [quicCallback]
      split
      · exact Or.inl ⟨(fun hp => by cases hp), rfl, rfl, rfl⟩
      · exact Or.inl ⟨(fun hp => by cases hp), rfl, rfl, rfl⟩
  | stopSending => exact Or.inl hrestart
  | streamReset => exact Or.inl hrestart
  | statelessReset => exact Or.inl hrestart
  | close => exact Or.inl hrestart
  | applicationClose => exact Or.inl hrestart
  | almostReady => exact Or.inl ⟨fun hp => hp, rfl, rfl, rfl⟩
  | streamData length => exact Or.inl hsame
  | versionNegotiation => exact Or.inl hsame
  | streamGap => exact Or.inl hsame
  | ready => exact Or.inl hsame
  | other => exact Or.inl hsame

/-- Only `stream_fin` measures, and from the anchors it finds. -/
theorem quicCallback_timing {event : PicoquicEvent} {t : ResponseTiming}
    (ht : t ∈ (quicCallback cfg c now event).2.filterMap QuicCall.timing) :
    (∃ length, event = .streamFin length) ∧ now < cfg.stopAt ∧
      ∃ k : QuicConnection, c.SameAnchors k ∧ t = k.timing cfg now := by
  have hrestart := quicRestart_timing c now
  cases event with
  | streamFin length =>
      by_cases hnow : now < cfg.stopAt
      · simp only [quicCallback, hnow, if_true] at ht
        exact ⟨⟨length, rfl⟩, hnow, { c with hasPending := false },
          ⟨(fun hp => by cases hp), rfl, rfl, rfl⟩, List.mem_singleton.mp ht⟩
      · simp only [quicCallback, hnow, if_false] at ht
        cases ht
  | stopSending =>
      rw [show (quicCallback cfg c now .stopSending).2 = .resetStream :: (quicRestart c now).2
        from rfl, List.filterMap_cons_none rfl, hrestart] at ht
      cases ht
  | streamReset => cases hrestart ▸ ht
  | statelessReset => cases hrestart ▸ ht
  | close => cases hrestart ▸ ht
  | applicationClose => cases hrestart ▸ ht
  | prepareToSend length script => cases ht
  | almostReady => cases ht
  | streamData length => cases ht
  | versionNegotiation => cases ht
  | streamGap => cases ht
  | ready => cases ht
  | other => cases ht

end Callback

/-! ## What a connection keeps -/

/-- `I` holds of a connection at any time, and `O` of what is measured on
it, as long as the callbacks meet `ok`. -/
structure AnchorRule (cfg : Config) (ok : QuicConnection → ℕ → PicoquicEvent → Prop)
    (I : QuicConnection → ℕ → Prop) (O : ResponseTiming → Prop) : Prop where
  initial : ∀ clock, I (.initial cfg ()) clock
  later : ∀ c clock now, I c clock → clock ≤ now → I c now
  same : ∀ c c' clock, I c clock → c.SameAnchors c' → I c' clock
  /-- The schedule may be set as long as no batch was started. -/
  restart : ∀ c clock pacer, I c clock → c.started = false → I { c with pacer := pacer } clock
  anchor : ∀ c c' now length script, I c now → ok c now (.prepareToSend length script) →
    c.Anchors c' now → I c' now
  measure : ∀ c now length, I c now → ok c now (.streamFin length) → now < cfg.stopAt →
    ∀ recorded, O { c.timing cfg now with recorded := recorded }

/-- Until `delayed_initial_connect` has run nothing can happen to the
connection. -/
structure QuicTimed.Keeps (I : QuicConnection → ℕ → Prop) (O : ResponseTiming → Prop)
    (s : QuicTimed) : Prop where
  fresh : s.slot.initialPending = true → s.slot.conn.started = false ∧ s.slot.timers = 0 ∧
    s.slot.awaiting = 0 ∧ s.slot.cnxs = []
  conn : I s.slot.conn s.slot.clock
  counted : ∀ t ∈ s.counted, O t

section Steps

variable {cfg : Config} {ok : QuicConnection → ℕ → PicoquicEvent → Prop}
  {I : QuicConnection → ℕ → Prop} {O : ResponseTiming → Prop} {s s' : QuicTimed}

/-- The calls of a callback change the slot around the connection. -/
theorem foldl_perform_conn (registered : Bool) (calls : List QuicCall) (s : QuicSlot) :
    (calls.foldl (perform registered) s).conn = s.conn ∧
      (calls.foldl (perform registered) s).clock = s.clock ∧
      (calls.foldl (perform registered) s).initialPending = s.initialPending := by
  have hone : ∀ s : QuicSlot, ∀ call, (perform registered s call).conn = s.conn ∧
      (perform registered s call).clock = s.clock ∧
      (perform registered s call).initialPending = s.initialPending := by
    intro s call
    cases call with
    | reconnectSocket => cases registered <;> exact ⟨rfl, rfl, rfl⟩
    | _ => exact ⟨rfl, rfl, rfl⟩
  induction calls generalizing s with
  | nil => exact ⟨rfl, rfl, rfl⟩
  | cons call calls ih =>
      obtain ⟨hconn, hclock, hinit⟩ := ih (perform registered s call)
      obtain ⟨hconn', hclock', hinit'⟩ := hone s call
      exact ⟨hconn.trans hconn', hclock.trans hclock', hinit.trans hinit'⟩

theorem deliver_conn (s : QuicSlot) (cnx : ℕ) (event : PicoquicEvent) :
    (s.deliver cnx event).conn = s.conn ∧
      (s.deliver cnx event).initialPending = s.initialPending := by
  unfold deliver
  split
  · exact ⟨rfl, rfl⟩
  · exact ⟨rfl, rfl⟩

theorem connectSocket_conn (s : QuicSlot) (registered : Bool) :
    (s.connectSocket registered).conn = s.conn ∧
      (s.connectSocket registered).clock = s.clock ∧
      (s.connectSocket registered).initialPending = s.initialPending := by
  cases registered <;> exact ⟨rfl, rfl, rfl⟩

/-! ### One lemma for each event -/

theorem QuicTimed.Keeps.initialConnect {dt : ℕ} {registered : Bool} {slot : QuicSlot}
    (hrule : AnchorRule cfg ok I O) (h : s.Keeps I O)
    (hstep : initialConnect s.slot dt registered = some slot) :
    ({ s with slot := slot } : QuicTimed).Keeps I O := by
  unfold WrkQuic.initialConnect at hstep
  split at hstep
  · rename_i hinit
    obtain rfl := Option.some.inj hstep
    obtain ⟨hstarted, -⟩ := h.fresh hinit
    obtain ⟨hconn, hclock, hpending⟩ := connectSocket_conn { s.slot with
      initialPending := false
      clock := s.slot.clock + dt
      conn := { s.slot.conn with
        pacer := { s.slot.conn.pacer with threadStart := s.slot.clock + dt } } } registered
    refine ⟨fun hp => ?_, ?_, h.counted⟩
    · simp only [hpending] at hp
      cases hp
    · simp only [hconn, hclock]
      exact hrule.restart _ _ _ (hrule.later _ _ _ h.conn (Nat.le_add_right _ _)) hstarted
  · cases hstep

theorem QuicTimed.Keeps.socketConnected {created : Bool} {slot : QuicSlot}
    (hrule : AnchorRule cfg ok I O) (h : s.Keeps I O)
    (hstep : quicSocketConnected s.slot created = some slot) :
    ({ s with slot := slot } : QuicTimed).Keeps I O := by
  unfold quicSocketConnected at hstep
  split at hstep
  · rename_i hawait
    obtain rfl := Option.some.inj hstep
    have hstarted : s.slot.initialPending ≠ true := by
      intro hinit
      obtain ⟨-, -, hnone, -⟩ := h.fresh hinit
      omega
    have hconn : I (quicConnect s.slot.conn) s.slot.clock :=
      hrule.same _ _ _ h.conn ⟨fun hp => hp, rfl, rfl, rfl⟩
    cases created with
    | true => exact ⟨fun hp => absurd hp hstarted, hconn, h.counted⟩
    | false => exact ⟨fun hp => absurd hp hstarted, hconn, h.counted⟩
  · cases hstep

theorem QuicTimed.Keeps.delayRecon {timer : ℕ} {registered : Bool} (h : s.Keeps I O)
    (hstep : s.delayRecon timer registered = some s') : s'.Keeps I O := by
  unfold QuicTimed.delayRecon at hstep
  split at hstep
  · split at hstep
    · obtain ⟨slot, hslot, rfl⟩ := Option.map_eq_some_iff.mp hstep
      unfold WrkQuic.delayRecon at hslot
      split at hslot
      · rename_i htimers
        obtain rfl := Option.some.inj hslot
        obtain ⟨hconn, hclock, hinit⟩ := connectSocket_conn
          { s.slot with timers := s.slot.timers - 1, reconnects := s.slot.reconnects + 1 }
          registered
        refine ⟨fun hp => ?_, ?_, h.counted⟩
        · simp only [reconnectSocket, hinit] at hp
          obtain ⟨-, hnone, -⟩ := h.fresh hp
          omega
        · simp only [reconnectSocket, hconn, hclock]
          exact h.conn
      · cases hslot
    · cases hstep
  · cases hstep

theorem QuicTimed.Keeps.callback {cnx dt : ℕ} {event : PicoquicEvent} {registered : Bool}
    (hrule : AnchorRule cfg ok I O) (h : s.Keeps I O)
    (hok : ok s.slot.conn (s.slot.clock + dt) event)
    (hstep : s.callback cfg cnx event dt registered = some s') : s'.Keeps I O := by
  obtain ⟨slot, hslot, rfl⟩ := Option.map_eq_some_iff.mp hstep
  unfold callbackOn at hslot
  split at hslot
  · rename_i hcnx
    obtain rfl := Option.some.inj hslot
    obtain ⟨hdelivered, hdinit⟩ := deliver_conn s.slot cnx event
    rw [hdelivered]
    have hlater := hrule.later _ _ _ h.conn (Nat.le_add_right s.slot.clock dt)
    obtain ⟨hconn, hclock, hinit⟩ := foldl_perform_conn registered
      (quicCallback cfg s.slot.conn (s.slot.clock + dt) event).2
      { s.slot.deliver cnx event with
        conn := (quicCallback cfg s.slot.conn (s.slot.clock + dt) event).1
        clock := s.slot.clock + dt }
    refine ⟨fun hp => ?_, ?_, ?_⟩
    · obtain ⟨-, -, -, hnone⟩ := h.fresh (hdinit.symm.trans (hinit.symm.trans hp))
      rw [hnone] at hcnx
      cases hcnx
    · simp only [hconn, hclock]
      rcases quicCallback_anchors cfg s.slot.conn (s.slot.clock + dt) event with
        hsame | ⟨⟨length, script, rfl⟩, hanchors⟩
      · exact hrule.same _ _ _ hlater hsame
      · exact hrule.anchor _ _ _ length script hlater hok hanchors
    · intro t ht
      rcases List.mem_append.mp ht with hnew | hold
      · obtain ⟨⟨length, rfl⟩, hnow, k, hk, rfl⟩ := quicCallback_timing hnew
        have htiming : k.timing cfg (s.slot.clock + dt)
            = { s.slot.conn.timing cfg (s.slot.clock + dt) with
                recorded := cfg.recordAllResponses || !k.hasPending } := by
          simp only [Connection.timing, hk.started, hk.expected, hk.actual]
        rw [htiming]
        exact hrule.measure _ _ length hlater hok hnow _
      · exact h.counted t hold
  · cases hslot

end Steps

/-! ## Runs -/

/-- The run rule: every connection keeps what an `AnchorRule` says. -/
theorem AnchorRule.run {cfg : Config} {ok : QuicConnection → ℕ → PicoquicEvent → Prop}
    {I : QuicConnection → ℕ → Prop} {O : ResponseTiming → Prop} (hrule : AnchorRule cfg ok I O)
    {s : QuicTimed} (hs : (quicTimed cfg).ReachableWith (CallbacksMeet ok) s) : s.Keeps I O := by
  refine hs.invariant ?_ ?_
  · rintro s ⟨⟨hconn, -, htimers, hawait, hcnxs, -⟩, -, hcounted⟩
    refine ⟨fun _ => ⟨?_, htimers, hawait, hcnxs⟩, ?_, ?_⟩
    · rw [hconn]
      rfl
    · rw [hconn]
      exact hrule.initial _
    · rw [hcounted]
      exact fun t ht => by cases ht
  · intro s e s' h hstep hok
    cases e with
    | wall time =>
        obtain rfl := Option.some.inj hstep
        exact ⟨h.fresh, h.conn, h.counted⟩
    | detectSkew =>
        obtain rfl := Option.some.inj hstep
        exact ⟨h.fresh, h.conn, h.counted⟩
    | initialConnect dt registered =>
        obtain ⟨slot, hslot, rfl⟩ := Option.map_eq_some_iff.mp hstep
        exact h.initialConnect hrule hslot
    | socketConnected created =>
        obtain ⟨slot, hslot, rfl⟩ := Option.map_eq_some_iff.mp hstep
        exact h.socketConnected hrule hslot
    | delayRecon timer registered => exact h.delayRecon hstep
    | callback cnx event dt registered => exact h.callback hrule hok hstep

/-- On schedule, the anchors keep their order. -/
theorem timed_rule (cfg : Config) :
    AnchorRule cfg (Scheduled cfg) Connection.Timed ResponseTiming.Ordered where
  initial := Connection.initial_timed cfg ()
  later _ _ _ h hle := h.later hle
  same _ _ _ h hsame := h.congr hsame.pending hsame.started hsame.expected hsame.actual
  restart _ _ pacer h hstarted := h.restart hstarted pacer
  anchor c c' now _ _ _ hok hanchors :=
    { pending := fun _ => hanchors.started
      expected := by
        intro _
        rw [hanchors.expected, hanchors.actual]
        exact hok hanchors.free
      actual := fun _ => Nat.le_of_eq hanchors.actual }
  measure c now _ h hok hnow recorded := by
    have ht := h.timing_ordered cfg (Nat.le_refl now) (hok hnow)
    exact ⟨ht.expected, ht.actual, ht.corrected, ht.uncorrected⟩

/-- In every run whose batches start on schedule, every counted response
has a corrected latency that is at least the uncorrected one, and neither
subtraction wraps; as signed values both are at least 0. -/
theorem quic_latencies_in_order (cfg : Config) {s : QuicTimed}
    (hs : (quicTimed cfg).ReachableWith (OnSchedule cfg) s) {t : ResponseTiming}
    (ht : t ∈ s.counted) :
    t.Ordered ∧ t.uncorrected ≤ t.corrected ∧
      (t.now < 2 ^ 63 → 0 ≤ toInt64 t.uncorrected ∧
        toInt64 t.uncorrected ≤ toInt64 t.corrected) := by
  have hordered := ((timed_rule cfg).run hs).counted t ht
  exact ⟨hordered, hordered.le, hordered.signed⟩

/-- One request every four milliseconds, on one connection. -/
def everyFourMs : Config := { staticConfig [97] with throughput := 1 / 4000 }

def QuicTimed.fresh (cfg : Config) : QuicTimed where
  slot := .fresh cfg
  wall := 0
  lastTime := 0
  due := []
  counted := []

theorem QuicTimed.fresh_initial (cfg : Config) : (QuicTimed.fresh cfg).Initial cfg :=
  ⟨QuicSlot.fresh_initial cfg, rfl, rfl⟩

/-- The schedule starts at 998. The first request is sent at once, and
answered after 200 microseconds. -/
def firstAnswer : List QuicTimedEvent :=
  [.wall 998, .initialConnect 998 true, .socketConnected true, .callback 0 .almostReady 0 true,
    .callback 0 (.prepareToSend 1200 []) 0 true, .wall 1198,
    .callback 0 (.streamFin 100) 200 true]

/-- The server closes at 1999, the next request is due at 4998. The timer
fires at 4000, and the request is sent at 4100 and answered at 4300. -/
def earlyTimer : List QuicTimedEvent :=
  firstAnswer ++
    [.wall 1999, .callback 0 .close 801 true, .wall 4000, .detectSkew, .delayRecon 0 true,
      .socketConnected true, .wall 4100, .callback 1 .almostReady 2101 true,
      .callback 1 (.prepareToSend 1200 []) 0 true, .wall 4300,
      .callback 1 (.streamFin 100) 200 true]

theorem quic_latencies_in_order_one : ∃ s, ∃ t : ResponseTiming,
    (quicTimed everyFourMs).ReachableWith (OnSchedule everyFourMs) s ∧ t ∈ s.counted ∧
    (t.corrected, t.uncorrected) = (200, 200) ∧
    t.Ordered ∧ t.uncorrected ≤ t.corrected ∧
    (t.now < 2 ^ 63 → 0 ≤ toInt64 t.uncorrected ∧
      toInt64 t.uncorrected ≤ toInt64 t.corrected) := by
  obtain ⟨s, hs, hcounted⟩ : ∃ s, (quicTimed everyFourMs).ReachableWith (OnSchedule everyFourMs) s
      ∧ s.counted = [⟨true, 1198, 998, 998, 200, 200, true⟩] :=
    exists_reachableWith_of_runEvents QuicTimed.counted firstAnswer
      (QuicTimed.fresh_initial everyFourMs) (by decide +kernel)
  have ht : ⟨true, 1198, 998, 998, 200, 200, true⟩ ∈ s.counted := by
    rw [hcounted]
    exact List.mem_singleton_self _
  exact ⟨s, _, hs, ht, rfl, quic_latencies_in_order everyFourMs hs ht⟩

/-- The second response has the uncorrected latency 200 and the corrected
latency -698. -/
theorem quic_latency_negative : ∃ s, ∃ t ∈ s.counted,
    (quicTimed everyFourMs).Reachable s ∧
    (toInt64 t.uncorrected, toInt64 t.corrected) = (200, -698) := by
  obtain ⟨s, hs, hcounted⟩ : ∃ s, (quicTimed everyFourMs).Reachable s ∧
      s.counted.head? = some ⟨true, 4300, 4998, 4100, 2 ^ 64 - 698, 200, true⟩ :=
    exists_reachable_of_runEvents (fun s : QuicTimed => s.counted.head?) earlyTimer
      (QuicTimed.fresh_initial everyFourMs) (by decide +kernel)
  exact ⟨s, _, List.mem_of_mem_head? hcounted, hs, by decide +kernel⟩

end WrkQuic
