import WrkQuic.TcpSimulation

/-!
# Calls of `sock.read` and `sock.write`

A socket is read and written only after `socket_connected` has run for it,
in every run in which no `delay_request` timer registers a socket that is
still connecting, and no read follows a response that replaced the socket.
-/

namespace WrkQuic

open Runs TcpThread

/-- The socket is set up. -/
def SetUp (socket : Option Descriptor) : Prop := ∃ d ∈ socket, d.connected = true

/-- `sock.read` and `sock.write` are called on sockets that are set up. -/
def TcpObservation.AfterSetUp : TcpObservation → Prop
  | .access .read _ _ target | .access .write _ _ target => SetUp target
  | _ => True

instance (socket : Option Descriptor) : Decidable (SetUp socket) :=
  inferInstanceAs (Decidable (∃ d ∈ socket, d.connected = true))

theorem SetUp.isSome {socket : Option Descriptor} (h : SetUp socket) : socket.isSome = true := by
  obtain ⟨d, hd, -⟩ := h
  rw [Option.mem_def.mp hd]
  rfl

theorem SetUp.connected {socket : Option Descriptor} (h : SetUp socket) :
    ∀ d ∈ socket, d.connected = true := by
  obtain ⟨d, rfl, hconnected⟩ := h
  rintro _ ⟨⟩
  exact hconnected

theorem SetUp.map {socket : Option Descriptor} (h : SetUp socket) {f : Descriptor → Descriptor}
    (hf : ∀ d, (f d).connected = d.connected) : SetUp (socket.map f) := by
  obtain ⟨d, hd, hconnected⟩ := h
  exact ⟨f d, Option.mem_map_of_mem f hd, (hf d).trans hconnected⟩

/-! ## One connection -/

namespace TcpConn

variable {π : Type*} {cfg : Config} {P : ResponseParser π} {c : ℕ} {v : TcpConn π} {a : TcpAct}
  {r : Attempt}

/-- `delay_request` finds no socket that is still connecting, and
`socket_readable` stops at a response that replaces the socket. -/
def setUpFirst : Policy π where
  read v := TcpAct.replaced v.phase = false
  fire v := ∀ d ∈ v.socket, d.connected = true

/-- The procedures that call `sock.read` and `sock.write` are registered
for sockets that are set up only, and run for no others. -/
structure Guarded (v : TcpConn π) : Prop where
  reader : v.reader = some .socketReadable → SetUp v.socket
  writer : v.writer = some .socketWriteable → SetUp v.socket
  reading : ∀ todo, v.phase = .reading false todo → SetUp v.socket
  replaced : ∀ todo, v.phase = .reading true todo → todo = []
  trace : ∀ o ∈ v.trace, o.AfterSetUp

theorem Guarded.called (h : v.Guarded) (hw : v.Wired)
    (hcalled : v.Dispatched .socketReadable ∨ v.Dispatched .socketWriteable) :
    SetUp v.socket := by
  rcases hcalled with (hr | hwrite) | (hr | hwrite)
  · exact h.reader hr
  · rcases hw.writers _ hwrite with h | h <;> cases h
  · rcases hw.readers _ hr with h | h <;> cases h
  · exact h.writer hwrite

theorem Guarded.cons {o : TcpObservation} (h : v.Guarded) (ho : o.AfterSetUp) :
    ∀ o' ∈ o :: v.trace, o'.AfterSetUp := by
  intro o' ho'
  rcases List.mem_cons.mp ho' with rfl | hold
  · exact ho
  · exact h.trace o' hold

theorem Guarded.access (h : v.Guarded) (kind : Access)
    (hkind : kind = .read ∨ kind = .write → SetUp v.socket) : (v.access kind c).Guarded :=
  { h with
    trace := h.cons (by
      cases kind with
      | read => exact hkind (Or.inl rfl)
      | write => exact hkind (Or.inr rfl)
      | register => trivial
      | unregister => trivial
      | close => trivial) }

/-- Without a socket nothing is registered. -/
theorem Guarded.watch (h : v.Guarded) (hsocket : ∀ d ∈ v.socket, d.connected = true) :
    (v.watch c).Guarded :=
  { h.access .register (c := c) (by rintro (h | h) <;> cases h) with
    writer := fun hwriter => by
      obtain ⟨d, hd, -⟩ := Option.bind_eq_some_iff.mp hwriter
      exact ⟨d, hd, hsocket d hd⟩ }

theorem Guarded.unwatch (h : v.Guarded) : (v.unwatch c).Guarded :=
  { h.access .unregister (c := c) (by rintro (h | h) <;> cases h) with
    writer := fun h => by cases h }

theorem Guarded.silent (h : ∀ o ∈ v.trace, o.AfterSetUp) (hr : r.Silent c) :
    ∀ o ∈ r.log ++ v.trace, o.AfterSetUp := by
  intro o ho
  rcases List.mem_append.mp ho with hnew | hold
  · obtain ⟨kind, fd, target, rfl, hkind⟩ := hr o hnew
    rcases hkind with rfl | rfl <;> trivial
  · exact h o hold

/-- New counts for the socket. -/
theorem Guarded.map (h : v.Guarded) {f : Descriptor → Descriptor}
    (hf : ∀ d, (f d).connected = d.connected) :
    { v with socket := v.socket.map f }.Guarded :=
  { h with
    reader := fun hreader => (h.reader hreader).map hf
    writer := fun hwriter => (h.writer hwriter).map hf
    reading := fun todo hphase => (h.reading todo hphase).map hf }

theorem Guarded.phase {phase : Phase} (h : v.Guarded)
    (hreading : ∀ todo, phase = .reading false todo → SetUp v.socket)
    (hreplaced : ∀ todo, phase = .reading true todo → todo = []) :
    { v with phase := phase }.Guarded :=
  { h with
    reading := hreading
    replaced := hreplaced }

theorem Guarded.idle (h : v.Guarded) : { v with phase := .idle }.Guarded :=
  h.phase (fun _ h => by cases h) fun _ h => by cases h

theorem Guarded.accept (h : v.Guarded) (bytes : Bytes) : (v.accept cfg c bytes).Guarded := by
  have hmap := h.map (f := (Descriptor.accepted · cfg.pipeline
    (decide (v.conn.written = 0 ∧ bytes ≠ [])))) fun _ => rfl
  have htrace := h.cons (o := .accepted c v.socket
    (decide (v.conn.written = 0 ∧ bytes ≠ [])) bytes) trivial
  unfold TcpConn.accept
  simp only
  split
  · exact Guarded.unwatch { hmap with trace := htrace }
  · exact { hmap with trace := htrace }

theorem Guarded.prepare (h : v.Guarded) (script : Bytes) (now : ℕ) :
    (v.prepare cfg c script now).Guarded := by
  unfold TcpConn.prepare
  simp only
  split
  · exact { h with trace := h.cons (o := .request c script) trivial }
  · exact { h with }

theorem Guarded.respond (h : v.Guarded) (hsocket : SetUp v.socket) (cfg : Config) (c now : ℕ)
    (counted : Bool) :
    (v.respond cfg c now counted).Guarded ∧ SetUp (v.respond cfg c now counted).socket := by
  have hmap := h.map (f := Descriptor.answer) fun _ => rfl
  have hset : SetUp (v.socket.map Descriptor.answer) := hsocket.map fun _ => rfl
  have hdecrement : ({ v with socket := v.socket.map Descriptor.answer }.decrementPending
      c).Guarded ∧ SetUp ({ v with
        socket := v.socket.map Descriptor.answer }.decrementPending c).socket := by
    unfold TcpConn.decrementPending
    simp only
    split
    · exact ⟨Guarded.watch { hmap with } hset.connected, hset⟩
    · exact ⟨{ hmap with }, hset⟩
  unfold TcpConn.respond
  simp only
  split
  · exact ⟨{ hdecrement.1 with trace := hdecrement.1.cons trivial }, hdecrement.2⟩
  · exact ⟨{ hdecrement.1 with trace := hdecrement.1.cons trivial }, hdecrement.2⟩

theorem Guarded.attempt (h : v.Guarded) (hr : r.Silent c)
    (hphase : ∀ todo, v.phase ≠ .reading false todo) : (v.attempt c r).Guarded := by
  unfold TcpConn.attempt
  split
  · exact
      { reader := fun hreader => by cases hreader
        writer := fun hwriter => by cases hwriter
        reading := fun todo hreading => absurd hreading (hphase todo)
        replaced := h.replaced
        trace := Guarded.silent h.trace hr }
  · exact { h with trace := Guarded.silent h.trace hr }

theorem Guarded.reconnect (h : v.Guarded) (hr : r.Silent c)
    (hphase : ∀ todo, v.phase ≠ .reading false todo) : (v.reconnect c r).Guarded := by
  have hunregister := h.access .unregister (c := c) (by rintro (h | h) <;> cases h)
  have hclose := hunregister.access .close (c := c) (by rintro (h | h) <;> cases h)
  have hclosed : (v.closeSocket c).Guarded :=
    { reader := fun hreader => by cases hreader
      writer := fun hwriter => by cases hwriter
      reading := fun todo hreading => absurd hreading (hphase todo)
      replaced := h.replaced
      trace := hclose.trace }
  exact hclosed.attempt hr hphase

theorem Guarded.setUp (h : v.Guarded) (hopen : v.socket.isSome = true) :
    (v.setUp P c).Guarded := by
  have hset : SetUp (v.socket.map Descriptor.connect) := by
    obtain ⟨d, hd⟩ := Option.isSome_iff_exists.mp hopen
    exact ⟨d.connect, Option.mem_map_of_mem _ hd, rfl⟩
  have hfirst := h.access .register (c := c) (by rintro (h | h) <;> cases h)
  have hsecond := hfirst.access .register (c := c) (by rintro (h | h) <;> cases h)
  exact
    { reader := fun _ => hset
      writer := fun _ => hset
      reading := fun _ _ => hset
      replaced := h.replaced
      trace := hsecond.trace }

theorem Guarded.deliver (h : v.Guarded) {rest : List Completion}
    (hphase : v.phase = .reading false rest) (chunk : Bytes) :
    (v.deliver P c false chunk).Guarded := by
  have hdelivered := h.map (f := (·.deliver chunk)) fun _ => rfl
  exact
    { hdelivered with
      reading := fun _ _ => (h.reading _ hphase).map fun _ => rfl
      replaced := fun _ h => by cases h
      trace := h.cons (o := .delivered c v.socket chunk) trivial }

theorem Guarded.answer (h : v.Guarded) {m : Completion} {ms : List Completion}
    (hphase : v.phase = .reading false (m :: ms)) (hlast : m.keepAlive = false → ms = [])
    (hr : r.Silent c) (now : ℕ) (counted : Bool) :
    ((TcpAct.answer m now counted r).apply cfg P c v).Guarded := by
  obtain ⟨hrespond, hset⟩ := h.respond (h.reading _ hphase) cfg c now counted
  rcases answer_cases hphase hlast now counted with heq | ⟨-, heq⟩ <;> rw [heq]
  · exact hrespond.phase (fun _ _ => hset) fun _ h => by cases h
  · refine (hrespond.phase (fun _ h => by cases h) ?_).reconnect hr fun _ h => by cases h
    rintro todo ⟨⟩
    rfl

theorem Guarded.apply (h : v.Guarded) (hw : v.Wired) (ha : a.Allowed P c v)
    (hp : setUpFirst.Meets v a) : (a.apply cfg P c v).Guarded := by
  cases a with
  | call kind =>
      cases kind with
      | write => exact h.access _ fun _ => h.called hw (Or.inr ha)
      | read =>
          obtain ⟨replaced, hphase⟩ := ha
          have hfalse : replaced = false := by
            have hread : TcpAct.replaced v.phase = false := hp
            rw [hphase] at hread
            exact hread
          subst hfalse
          exact h.access _ fun _ => h.reading [] hphase
      | register => exact ha.elim
      | unregister => exact ha.elim
      | close => exact ha.elim
  | pace pacer => exact { h with }
  | postpone => exact { h.unwatch (c := c) with }
  | prepare script now =>
      exact (h.prepare script now).phase (fun _ h => by cases h) fun _ h => by cases h
  | accept bytes => exact (h.accept bytes).idle
  | blocked => exact h.idle
  | connect pacer r unborn =>
      obtain ⟨hidle, -, -, hr⟩ := ha
      have hpaced : { v with conn := { v.conn with pacer := pacer } }.Guarded := { h with }
      exact { hpaced.attempt hr fun todo hphase => (by
        rw [show v.phase = .idle from hidle] at hphase
        cases hphase) with }
  | reconnect r =>
      obtain ⟨-, -, hr⟩ := ha
      have hidle := h.idle.reconnect hr fun _ hphase => by cases hphase
      rw [← reconnect_phase] at hidle
      exact hidle
  | setUp => exact h.setUp ha.2.2
  | enter =>
      obtain ⟨-, hcalled⟩ := ha
      exact h.phase (fun _ _ => h.called hw (Or.inl hcalled)) fun _ hphase => by cases hphase
  | leave => exact h.idle
  | deliver chunk =>
      have hfalse : TcpAct.replaced v.phase = false := hp
      obtain ⟨-, ⟨replaced, hphase⟩, -⟩ := ha
      show (v.deliver P c (TcpAct.replaced v.phase) chunk).Guarded
      rw [hphase] at hfalse ⊢
      cases hfalse
      exact h.deliver hphase chunk
  | answer m now counted r =>
      obtain ⟨hr, replaced, ms, hphase, hlast⟩ := ha
      have hfalse : replaced = false := by
        cases replaced with
        | true => cases h.replaced _ hphase
        | false => rfl
      subst hfalse
      exact h.answer hphase hlast hr now counted
  | fire waits => exact { h.watch (c := c) hp with }

end TcpConn

theorem tcpConn_guarded {π : Type*} {cfg : Config} {P : ResponseParser π} {c : ℕ}
    {v : TcpConn π} (hv : (tcpConn cfg P c).ReachableWith TcpConn.setUpFirst.Meets v) :
    v.Guarded := by
  refine tcpConn_invariant ?_ (fun v a hw h ha hp => h.apply hw ha hp) hv
  exact
    { reader := fun h => by cases h
      writer := fun h => by cases h
      reading := fun _ h => by cases h
      replaced := fun _ h => by cases h
      trace := fun o ho => by cases ho }

/-! ## A thread -/

section Thread

variable {π : Type*} {cfg : Config} {P : ResponseParser π} {c : ℕ}

/-- `socket_readable` reads on after a full buffer only if no response in it
closed the connection. -/
def stopsWhenReplaced (cfg : Config) (P : ResponseParser π) : π → List Read → Bool
  | _, [] | _, .error :: _ | _, .retry :: _ => true
  | parser, .again :: reads => stopsWhenReplaced cfg P parser reads
  | parser, .data chunk _ :: reads =>
      let chunk := chunk.take cfg.recvbuf
      let r := P.execute parser chunk
      if r.consumed = chunk.length ∧ chunk.length = cfg.recvbuf then
        reads.isEmpty || r.completions.all (·.keepAlive) && stopsWhenReplaced cfg P r.parser reads
      else true

/-- A `delay_request` timer that finds it is time to send finds the
descriptor closed, or a socket that the connection opened and
`socket_connected` has set up; and no call of `socket_readable` reads on after
a response that closes the connection. -/
def SetUpFirst (cfg : Config) (P : ResponseParser π) (s : TcpThread π) : TcpEvent → Prop
  | .readable fd a => (s.loop.events fd).rfileProc = some .socketReadable →
      stopsWhenReplaced cfg P (s.conns (s.loop.events fd).clientData).parser a.reads = true
  | .writable _ _ => True
  | .timer id a => ∀ te ∈ s.loop.timeEvents.find? (·.id == id), te.timeProc = .delayRequest →
      ((s.tick a.dt).usecToNextSend te.clientData).1 = 0 →
        ∀ d ∈ s.current te.clientData, d.owner = some te.clientData ∧ d.connected = true

instance (cfg : Config) (P : ResponseParser π) (s : TcpThread π) (e : TcpEvent) :
    Decidable (SetUpFirst cfg P s e) :=
  match e with
  | .readable _ _ => inferInstanceAs (Decidable (_ → _))
  | .writable _ _ => isTrue trivial
  | .timer id a => inferInstanceAs (Decidable (∀ te ∈ s.loop.timeEvents.find? (·.id == id),
      te.timeProc = .delayRequest →
        ((s.tick a.dt).usecToNextSend te.clientData).1 = 0 →
          ∀ d ∈ s.current te.clientData, d.owner = some te.clientData ∧ d.connected = true))

/-- What is known in `socket_readable`: the responses still to be counted
close the connection only if nothing is read after them. -/
def ReadsOn (cfg : Config) (P : ResponseParser π) (v : TcpConn π) (_ : List ResponseAnswers)
    (reads : List Read) : Prop :=
  reads = [] ∨ TcpAct.replaced v.phase = false ∧
    ∀ todo, v.phase = .reading false todo → (∀ m ∈ todo, m.keepAlive = true) ∧
      stopsWhenReplaced cfg P v.conn.parser reads = true

theorem readsOn_rule : ReadRule cfg P c TcpConn.setUpFirst (ReadsOn cfg P) where
  read := by
    rintro v as r reads (h | ⟨h, -⟩)
    · cases h
    · exact h
  again := by
    rintro v reads (h | ⟨hreplaced, h⟩)
    · cases h
    · exact Or.inr ⟨hreplaced, h⟩
  deliver := by
    rintro v replaced chunk answers reads (h | ⟨hreplaced, h⟩) hphase
    · cases h
    · rw [hphase] at hreplaced
      obtain rfl : replaced = false := hreplaced
      obtain ⟨-, hstops⟩ := h [] hphase
      refine ⟨(congrArg TcpAct.replaced hphase : TcpAct.replaced v.phase = false), ?_⟩
      rw [stopsWhenReplaced] at hstops
      split
      · rename_i hon
        rw [if_pos hon, Bool.or_eq_true, Bool.and_eq_true, List.isEmpty_iff, List.all_eq_true]
          at hstops
        rcases hstops with hdone | ⟨halive, hnext⟩
        · exact Or.inl hdone
        · refine Or.inr ⟨rfl, ?_⟩
          rintro todo ⟨⟩
          exact ⟨halive, hnext⟩
      · exact Or.inl rfl
  answer := by
    intro v replaced m ms as reads h hphase
    refine ⟨trivial, fun _ _ _ => trivial, ?_⟩
    intro now counted r _
    rcases h with hdone | ⟨hreplaced, h⟩
    · exact Or.inl hdone
    · right
      rw [hphase] at hreplaced
      obtain rfl : replaced = false := hreplaced
      obtain ⟨halive, hstops⟩ := h _ hphase
      have hm := halive m (List.mem_cons_self ..)
      rw [TcpConn.answer_phase, TcpConn.answer_keepsParser, hphase, hm]
      refine ⟨rfl, ?_⟩
      rintro todo ⟨⟩
      exact ⟨fun m' hm' => halive m' (List.mem_cons_of_mem _ hm'), hstops⟩
  rest := fun h _ => h

theorem SetUpFirst.admitted {s : TcpThread π} {e : TcpEvent} (h : SetUpFirst cfg P s e) :
    s.Admitted TcpConn.setUpFirst (ReadsOn cfg P) e := by
  cases e with
  | readable fd a =>
      refine ⟨fun _ _ _ => trivial, fun _ _ => trivial, ?_⟩
      intro hreader
      refine Or.inr ⟨rfl, ?_⟩
      rintro todo ⟨⟩
      exact ⟨fun m hm => (by cases hm), h hreader⟩
  | writable fd a =>
      exact ⟨fun _ _ _ => trivial, fun _ _ => trivial,
        fun _ => ⟨fun _ => trivial, fun _ _ _ => trivial⟩⟩
  | timer id a =>
      intro te hte
      refine ⟨fun _ _ _ => trivial, ?_⟩
      intro hproc hsend
      have hset := h te hte hproc hsend
      refine ⟨fun d hd => (hset d hd).1, ?_⟩
      rw [seen_usecToNextSend]
      intro d hd
      exact (hset d (socketOf_eq_some.mp hd).1).2

/-- In every run in which `delay_request` timers send on sockets that are
set up, and nothing is read after a response that closes the connection,
`sock.read` and `sock.write` are called only on a socket that the connection
opened and for which `socket_connected` has run to completion. -/
theorem tcp_calls_after_set_up (cfg : Config) (P : ResponseParser π) {s : TcpThread π}
    (hs : (tcpThread cfg P).ReachableWith (SetUpFirst cfg P) s) :
    ∀ kind c fd target, .access kind c fd target ∈ s.trace → kind = .read ∨ kind = .write →
      ∃ d, target = some d ∧ d.owner = some c ∧ d.connected = true := by
  obtain ⟨-, howned, hruns⟩ := tcp_conn_reachable (fun _ => readsOn_rule)
    (fun _ _ _ _ _ h => SetUpFirst.admitted h) hs
  intro kind c fd target ho hkind
  have hseen : .access kind c fd target ∈ (s.seen c .idle).trace :=
    List.mem_filter.mpr ⟨ho, by simp [TcpObservation.conn]⟩
  have hset : SetUp target := by
    have hafter := (tcpConn_guarded (hruns c)).trace _ hseen
    rcases hkind with rfl | rfl <;> exact hafter
  obtain ⟨d, hd, hconnected⟩ := hset
  obtain rfl := Option.mem_def.mp hd
  exact ⟨d, rfl, howned.trace _ ho, hconnected⟩

/-- The run of one request reads its response from a socket that is set
up. -/
theorem tcp_calls_after_set_up_one : ∃ s d,
    (tcpThread twoConnections httpParser).ReachableWith (SetUpFirst twoConnections httpParser) s ∧
    .access .read 0 4 (some d) ∈ s.trace ∧ d.owner = some 0 ∧ d.connected = true := by
  obtain ⟨s, hs, hread⟩ : ∃ s, (tcpThread twoConnections httpParser).ReachableWith
      (SetUpFirst twoConnections httpParser) s ∧
      s.trace[3]? = some (TcpObservation.access .read 0 4 (some ⟨some 0, true, 1, 0, []⟩)) :=
    exists_reachableWith_of_runEvents (fun s : TcpThread HttpParser => s.trace[3]?) oneRequest
      twoConnectionsStart_initial (by decide +kernel)
  obtain ⟨d, hd, hown, hconnected⟩ := tcp_calls_after_set_up twoConnections httpParser hs _ _ _ _
    (List.mem_of_getElem? hread) (Or.inl rfl)
  exact ⟨s, d, hs, hd ▸ List.mem_of_getElem? hread, hown, hconnected⟩

/-- Connection 0 waits for its `delay_request` timer when a read fails. The
new socket is still connecting at 10030, when the timer finds that it is
time to send. -/
def staleTimer : List TcpEvent :=
  [.timer 0 { dt := 5 }, .writable 4 { dt := 10 },
    .writable 4 { dt := 10, startDt := 5, write := .ok 18 },
    .readable 4 { reads := [.data emptyResponse [{ dt := 100 }]] },
    .writable 4 { dt := 10 },
    .readable 4 { reads := [.error] },
    .timer 2 { dt := 10000 }, .writable 4 { write := .ok 18 }]

/-- `sock.write` is called on it before `socket_connected`. -/
theorem write_before_set_up : ∃ s d, (tcpThread twoConnections httpParser).Reachable s ∧
    .access .write 0 4 (some d) ∈ s.trace ∧ d.connected = false := by
  obtain ⟨s, hs, hwrite⟩ : ∃ s, (tcpThread twoConnections httpParser).Reachable s ∧
      s.trace[2]? = some (TcpObservation.access .write 0 4 (some ⟨some 0, false, 0, 0, []⟩)) :=
    exists_reachable_of_runEvents (fun s : TcpThread HttpParser => s.trace[2]?) staleTimer
      twoConnectionsStart_initial (by decide +kernel)
  exact ⟨s, _, hs, List.mem_of_getElem? hwrite, rfl⟩

end Thread

end WrkQuic
