import WrkQuic.TcpSimulation

/-!
# Wake-up sources over TCP

A connection does something only in a handler of the event loop, so it
needs a registered socket or a timer. Every attempt to connect that
succeeds leaves a registered socket; an attempt that fails leaves nothing,
and its result is ignored by all callers.
-/

namespace WrkQuic

open Runs TcpThread

namespace TcpConn

variable {π : Type*} {cfg : Config} {P : ResponseParser π} {c : ℕ} {v : TcpConn π} {a : TcpAct}
  {r : Attempt}

/-- No attempt fails. -/
def attemptsSucceed : Policy π where
  connect r := r.fd.isSome = true
  reconnect v r := v.reader.isSome = true → r.fd.isSome = true

/-- From its first attempt on, the connection has a registered socket. -/
def Awake (v : TcpConn π) : Prop := v.unborn = true ∨ v.reader.isSome = true

theorem Awake.congr {v' : TcpConn π} (h : v.Awake) (hunborn : v'.unborn = v.unborn)
    (hreader : v'.reader = v.reader) : v'.Awake := by
  unfold Awake
  rw [hunborn, hreader]
  exact h

theorem attempt_reader (h : r.fd.isSome = true) : (v.attempt c r).reader.isSome = true := by
  obtain ⟨fd, hfd⟩ := Option.isSome_iff_exists.mp h
  unfold TcpConn.attempt
  rw [hfd]
  rfl

theorem reconnect_unborn : (v.reconnect c r).unborn = v.unborn := by
  unfold TcpConn.reconnect TcpConn.attempt
  cases r.fd <;> rfl

theorem Awake.reconnect (h : v.Awake) (hr : v.reader.isSome = true → r.fd.isSome = true) :
    (v.reconnect c r).Awake := by
  rcases h with hunborn | hreader
  · exact Or.inl (reconnect_unborn.trans hunborn)
  · exact Or.inr (attempt_reader (hr hreader))

theorem respond_unborn (now : ℕ) (counted : Bool) :
    (v.respond cfg c now counted).unborn = v.unborn := by
  unfold TcpConn.respond TcpConn.decrementPending
  simp only
  split <;> split <;> rfl

theorem Awake.apply (h : v.Awake) (hp : attemptsSucceed.Meets v a) :
    (a.apply cfg P c v).Awake := by
  cases a with
  | call kind => exact h
  | pace pacer => exact h
  | postpone => exact h
  | prepare script now =>
      refine h.congr ?_ ?_ <;>
      · simp only [TcpAct.apply, TcpConn.prepare]
        split <;> rfl
  | accept bytes =>
      refine h.congr ?_ ?_ <;>
      · simp only [TcpAct.apply, TcpConn.accept]
        split <;> rfl
  | blocked => exact h
  | connect pacer r unborn => exact Or.inr (attempt_reader hp)
  | reconnect r => exact h.reconnect hp
  | setUp => exact Or.inr rfl
  | enter => exact h
  | leave => exact h
  | deliver chunk => exact h
  | answer m now counted r =>
      have hrespond : (v.respond cfg c now counted).Awake :=
        h.congr (respond_unborn now counted) (respond_reader v c now counted)
      simp only [TcpAct.apply]
      split
      · exact hrespond
      · rename_i hclosing
        have hr := hp.2 (Bool.not_eq_true _ ▸ hclosing)
        refine Awake.reconnect (v := { v.respond cfg c now counted with phase := _ }) hrespond ?_
        intro hreader
        exact hr ((congrArg Option.isSome (respond_reader v c now counted)).symm.trans hreader)
  | fire waits => exact h

/-- Nothing refers to the connection. -/
structure Untouched (v : TcpConn π) : Prop where
  reader : v.reader = none
  writer : v.writer = none
  waits : v.waits = false
  unborn : v.unborn = false
  phase : v.phase = .idle

theorem Untouched.not_called (h : v.Untouched) {proc : FileProc} : ¬ v.Dispatched proc := by
  rintro (hr | hw)
  · rw [h.reader] at hr
    cases hr
  · rw [h.writer] at hw
    cases hw

theorem Untouched.not_reading (h : v.Untouched) {replaced : Bool} {todo : List Completion} :
    v.phase ≠ .reading replaced todo := by
  rw [h.phase]
  exact fun heq => by cases heq

theorem Untouched.apply (h : v.Untouched) (ha : a.Allowed P c v) :
    (a.apply cfg P c v).Untouched := by
  have hwriting : v.phase ≠ .writing := by
    rw [h.phase]
    exact fun heq => by cases heq
  cases a with
  | call kind =>
      cases kind with
      | write => exact (h.not_called ha).elim
      | read => exact (h.not_reading ha.choose_spec).elim
      | register => exact ha.elim
      | unregister => exact ha.elim
      | close => exact ha.elim
  | pace pacer => exact { h with }
  | postpone => exact (h.not_called ha.2.1).elim
  | prepare script now => exact (h.not_called ha.2.1).elim
  | accept bytes => exact (h.not_called ha.2.1).elim
  | blocked => exact (h.not_called ha.2).elim
  | connect pacer r unborn =>
      have hunborn := h.unborn
      rw [ha.2.2.1] at hunborn
      cases hunborn
  | reconnect r =>
      obtain ⟨-, hphase | ⟨proc, hcalled⟩, -⟩ := ha
      · exact (hphase h.phase).elim
      · exact (h.not_called hcalled).elim
  | setUp => exact (h.not_called ha.2.1).elim
  | enter => exact (h.not_called ha.2).elim
  | leave => exact (h.not_reading ha.choose_spec).elim
  | deliver chunk => exact (h.not_reading ha.2.1.choose_spec).elim
  | answer m now counted r =>
      obtain ⟨-, replaced, ms, hphase, -⟩ := ha
      exact (h.not_reading hphase).elim
  | fire waits =>
      have hwaits := h.waits
      rw [ha.2] at hwaits
      cases hwaits

end TcpConn

theorem tcpConn_untouched {π : Type*} {cfg : Config} {P : ResponseParser π} {c : ℕ}
    {ok : TcpConn π → TcpAct → Prop} (hc : ¬ c < cfg.connections) {v : TcpConn π}
    (hv : (tcpConn cfg P c).ReachableWith ok v) : v.Untouched :=
  tcpConn_invariant ⟨rfl, rfl, rfl, decide_eq_false hc, rfl⟩ (fun _ _ _ h ha _ => h.apply ha) hv

theorem tcpConn_awake {π : Type*} {cfg : Config} {P : ResponseParser π} {c : ℕ}
    (hc : c < cfg.connections) {v : TcpConn π}
    (hv : (tcpConn cfg P c).ReachableWith TcpConn.attemptsSucceed.Meets v) : v.Awake :=
  tcpConn_invariant (Or.inl (decide_eq_true hc)) (fun _ _ _ h _ hp => h.apply hp) hv

section Thread

variable {π : Type*} {cfg : Config} {P : ResponseParser π} {c : ℕ}

/-- The answers to the responses of a read. -/
def Read.answers : Read → List ResponseAnswers
  | .data _ answers => answers
  | _ => []

/-- Every attempt to connect succeeds: `socket`, `bind` and `connect` do,
and the number of the first socket lies within the table of the event
loop. -/
def AttemptsSucceed (s : TcpThread π) : TcpEvent → Prop
  | .readable _ a => a.connect = .started ∧
      ∀ r ∈ a.reads, ∀ b ∈ r.answers, b.connect = .started
  | .writable _ a => a.connect = .started
  | .timer id a => ∀ te ∈ s.loop.timeEvents.find? (·.id == id),
      te.timeProc = .delayedInitialConnect → a.connect = .started ∧ s.fds.lowest < s.loop.setsize

instance (s : TcpThread π) (e : TcpEvent) : Decidable (AttemptsSucceed s e) :=
  match e with
  | .readable _ _ => inferInstanceAs (Decidable (_ ∧ _))
  | .writable _ _ => inferInstanceAs (Decidable (_ = _))
  | .timer id a => inferInstanceAs (Decidable (∀ te ∈ s.loop.timeEvents.find? (·.id == id),
      te.timeProc = .delayedInitialConnect → a.connect = .started ∧
        s.fds.lowest < s.loop.setsize))

/-- All attempts that may still come succeed. -/
def StartedReads (_ : TcpConn π) (as : List ResponseAnswers) (reads : List Read) : Prop :=
  (∀ b ∈ as, b.connect = .started) ∧ ∀ r ∈ reads, ∀ b ∈ r.answers, b.connect = .started

theorem startedReads_rule : ReadRule cfg P c TcpConn.attemptsSucceed StartedReads where
  read _ := trivial
  again h := ⟨h.1, fun r hr => h.2 r (List.mem_cons_of_mem _ hr)⟩
  deliver := by
    intro v replaced chunk answers reads h _
    refine ⟨trivial, h.2 _ (List.mem_cons_self ..), ?_⟩
    intro r hr
    split at hr
    · exact h.2 r (List.mem_cons_of_mem _ hr)
    · cases hr
  answer := by
    intro v replaced m ms as reads h _
    have hhead : (as.headD {}).connect = .started := by
      cases as with
      | nil => rfl
      | cons b as => exact h.1 b (List.mem_cons_self ..)
    refine ⟨trivial, fun _ r hfits hreader => hfits hreader hhead, ?_⟩
    intro now counted r _
    exact ⟨fun b hb => h.1 b (List.mem_of_mem_tail hb), h.2⟩
  rest h _ := ⟨fun b hb => (by cases hb), h.2⟩

/-- A connection with a `delay_request` timer has made its first attempt. -/
theorem not_unborn {s : TcpThread π} (hsetup : s.Setup) {te : TimeEvent TimeProc ℕ}
    (hte : te ∈ s.loop.timeEvents) (hproc : te.timeProc = .delayRequest) :
    s.hasTimer te.clientData .delayedInitialConnect = false := by
  refine Bool.eq_false_iff.mpr fun h => ?_
  obtain ⟨te', hte', hproc', hdata⟩ := hasTimer_iff.mp h
  have hfresh := (hsetup.fresh te' hte' hproc').timers te hte hdata.symm
  rw [hproc] at hfresh
  cases hfresh

theorem AttemptsSucceed.admitted {s : TcpThread π} {e : TcpEvent} (hsetup : s.Setup)
    (hruns : ∀ c, (tcpConn cfg P c).ReachableWith TcpConn.attemptsSucceed.Meets (s.seen c .idle))
    (h : AttemptsSucceed s e) : s.Admitted TcpConn.attemptsSucceed StartedReads e := by
  cases e with
  | readable fd a =>
      exact ⟨fun _ _ hfits hreader => hfits hreader h.1, fun _ _ => trivial,
        fun _ => ⟨fun b hb => (by cases hb), h.2⟩⟩
  | writable fd a =>
      exact ⟨fun _ _ hfits hreader => hfits hreader h, fun _ _ => trivial,
        fun _ => ⟨fun _ => trivial, fun _ _ _ => trivial⟩⟩
  | timer id a =>
      intro te hfind
      refine ⟨?_, ?_⟩
      · intro hproc r hr
        obtain ⟨hconnect, hsize⟩ := h te hfind hproc
        exact hr hconnect hsize
      · intro hproc _
        have hte := List.mem_of_find?_eq_some hfind
        refine ⟨?_, trivial⟩
        by_cases hc : te.clientData < cfg.connections
        · rcases tcpConn_awake hc (hruns te.clientData) with hunborn | hreader
          · exact absurd ((not_unborn hsetup hte hproc).symm.trans hunborn) (by decide)
          · rw [(tcpConn_wired (hruns te.clientData)).reader] at hreader
            obtain ⟨d, hd⟩ := Option.isSome_iff_exists.mp hreader
            obtain ⟨hcur, hown⟩ := socketOf_eq_some.mp hd
            intro d' hd'
            rw [Option.mem_def, hcur] at hd'
            cases hd'
            exact hown
        · have hwaits := (tcpConn_untouched hc (hruns te.clientData)).waits
          have hpending := hasTimer_iff.mpr ⟨te, hte, hproc, rfl⟩
          exact absurd (hwaits.symm.trans hpending) (by decide)

/-- A socket of the connection is registered, or one of its `delay_request`
timers is pending. -/
def HasWakeUp (s : TcpThread π) (c : ℕ) : Prop :=
  (∃ fd, Registered s c fd) ∨ s.hasTimer c .delayRequest = true

theorem tcp_wakes {s : TcpThread π} (hs : (tcpThread cfg P).ReachableWith AttemptsSucceed s)
    (hc : c < cfg.connections) (hfired : s.hasTimer c .delayedInitialConnect = false) :
    HasWakeUp s c := by
  obtain ⟨-, howned, hruns⟩ := tcp_conn_reachable (fun _ => startedReads_rule)
    (fun _ _ hsetup _ hruns h => h.admitted hsetup hruns) hs
  rcases tcpConn_awake hc (hruns c) with hunborn | hreader
  · exact absurd (hfired.symm.trans hunborn) (by decide)
  · have hslot := not_isNone_of_reader hreader
    rw [(tcpConn_wired (hruns c)).reader] at hreader
    obtain ⟨d, hd⟩ := Option.isSome_iff_exists.mp hreader
    obtain ⟨hcur, hown⟩ := socketOf_eq_some.mp hd
    obtain ⟨d', hd', hown'⟩ := howned.slot _ hslot
    rw [current] at hcur
    rw [hcur] at hd'
    cases hd'
    exact Or.inl ⟨_, hslot, Option.some.inj (hown'.symm.trans hown)⟩

end Thread

end WrkQuic
