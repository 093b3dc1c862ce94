import WrkQuic.HttpParser
import WrkQuic.TcpSimulation

/-!
# The end of a stream

`socket_readable` hands the end of the stream to the parser, and reconnects
when the parser calls that an error or the end of a response that closes the
connection. Between two responses it is neither: then the half-closed socket
stays. It is replaced exactly when the stream ends inside a response, and in
every run in which all streams do, no open socket has reached its end.
-/

namespace WrkQuic

open Runs

namespace HttpParser

/-- The end of the stream ends the response, or is an error. -/
def noticesEnd (p : HttpParser) : Bool :=
  p.httpErrno.isNone && match p.state with
    | .startRes | .dead => false
    | .bodyIdentityEof => !p.shouldKeepAlive
    | _ => true

theorem execute_noticed {p : HttpParser} (h : p.noticesEnd = true) :
    ((execute p []).consumed ≠ 0 ∧ (execute p []).completions = []) ∨
      (execute p []).consumed = 0 ∧
        ∃ m : Completion, m.keepAlive = false ∧ (execute p []).completions = [m] := by
  rw [noticesEnd, Bool.and_eq_true, Option.isNone_iff_eq_none] at h
  obtain ⟨herrno, hstate⟩ := h
  rw [execute, herrno, if_neg (by exact Bool.false_ne_true), if_pos rfl, scanEof]
  cases hp : p.state with
  | startRes =>
      rw [hp] at hstate
      cases hstate
  | dead =>
      rw [hp] at hstate
      cases hstate
  | bodyIdentityEof =>
      rw [hp] at hstate
      exact Or.inr ⟨rfl, _, (Bool.not_eq_true' _).mp hstate, rfl⟩
  | _ => exact Or.inl ⟨Nat.one_ne_zero, rfl⟩

theorem execute_unnoticed {p : HttpParser} (h : p.noticesEnd = false) :
    (execute p []).consumed = 0 ∧ ∀ m ∈ (execute p []).completions, m.keepAlive = true := by
  rw [noticesEnd, Bool.and_eq_false_iff] at h
  rw [execute]
  split
  · exact ⟨rfl, fun m hm => by cases hm⟩
  · rename_i herrno
    rw [if_pos rfl, scanEof]
    rcases h with hnone | hstate
    · rw [Option.isNone_eq_false_iff] at hnone
      exact absurd hnone herrno
    · cases hp : p.state with
      | startRes => exact ⟨rfl, fun m hm => by cases hm⟩
      | dead => exact ⟨rfl, fun m hm => by cases hm⟩
      | bodyIdentityEof =>
          rw [hp] at hstate
          refine ⟨rfl, ?_⟩
          intro m hm
          rw [List.mem_singleton.mp hm]
          exact (Bool.not_eq_false' ..).mp hstate
      | _ =>
          rw [hp] at hstate
          cases hstate

end HttpParser

/-- `aeDeleteFileEvent` is called. -/
def TcpObservation.unregisters : TcpObservation → Bool
  | .access .unregister _ _ _ => true
  | _ => false

namespace TcpThread

/-! ## Reconnections -/

section

variable {π : Type*} {cfg : Config} {P : ResponseParser π} {c fd : ℕ} {s s' s₁ : TcpThread π}
  {mask : Mask} {proc : FileProc} {o : TcpObservation}

/-- The calls of `aeDeleteFileEvent`. Of the functions that
`socket_readable` calls, only `tcp_reconnect_socket` makes one, and it makes
one. -/
def reconnects (s : TcpThread π) : ℕ := s.trace.countP (·.unregisters)

theorem reconnects_of_cons (h : s'.trace = o :: s.trace) (ho : o.unregisters = false) :
    s'.reconnects = s.reconnects := by
  rw [reconnects, h, List.countP_cons_of_neg (by rw [ho]; exact Bool.false_ne_true)]
  rfl

/-- `c` keeps its socket and its parser, and nothing is reconnected. -/
structure Keeps (c : ℕ) (s s' : TcpThread π) : Prop where
  reconnects : s'.reconnects = s.reconnects
  fd : (s'.conns c).fd = (s.conns c).fd
  parser : (s'.conns c).parser = (s.conns c).parser
  isOpen : (s'.current c).isSome = (s.current c).isSome

theorem Keeps.trans (h : s.Keeps c s₁) (h' : s₁.Keeps c s') : s.Keeps c s' where
  reconnects := h'.reconnects.trans h.reconnects
  fd := h'.fd.trans h.fd
  parser := h'.parser.trans h.parser
  isOpen := h'.isOpen.trans h.isOpen

theorem access_keeps {kind : Access} (hkind : kind ≠ .unregister) :
    s.Keeps c (s.access kind c fd) where
  reconnects := by
    refine reconnects_of_cons rfl ?_
    cases kind <;> first | rfl | exact absurd rfl hkind
  fd := rfl
  parser := rfl
  isOpen := rfl

theorem modify_keeps {f : Descriptor → Descriptor} :
    s.Keeps c (s.setFds (s.fds.modify (s.conns c).fd f)) where
  reconnects := rfl
  fd := rfl
  parser := rfl
  isOpen := by
    rw [current, setFds, FdTable.get_modify_self, Option.isSome_map]
    rfl

theorem setConn_keeps {k : Connection π} (hfd : k.fd = (s.conns c).fd)
    (hparser : k.parser = (s.conns c).parser) : s.Keeps c (s.setConn c k) where
  reconnects := rfl
  fd := by rw [setConn_self, hfd]
  parser := by rw [setConn_self, hparser]
  isOpen := by
    rw [current, setConn_self, hfd]
    rfl

theorem tick_keeps (dt : ℕ) : s.Keeps c (s.tick dt) := ⟨rfl, rfl, rfl, rfl⟩

theorem createFileEvent_keeps : s.Keeps c (s.createFileEvent c fd mask proc) := by
  have haccess : s.Keeps c (s.access .register c fd) := access_keeps nofun
  rcases s.createFileEvent_cases c fd mask proc with h | ⟨-, -, h⟩
  · rw [h]
    exact haccess
  · rw [h]
    exact { haccess with }

theorem decrementPending_keeps : s.Keeps c (s.decrementPending c) := by
  unfold decrementPending
  simp only
  split
  · have hset : s.Keeps c (s.setConn c { s.conns c with
        pending := u64Sub (s.conns c).pending 1, hasPending := false }) := setConn_keeps rfl rfl
    exact hset.trans createFileEvent_keeps
  · exact setConn_keeps rfl rfl

theorem statsRequestCompleted_keeps (target : Option Descriptor) :
    s.Keeps c (statsRequestCompleted cfg s c target) := by
  unfold statsRequestCompleted
  split
  · exact ⟨reconnects_of_cons rfl rfl, rfl, rfl, rfl⟩
  · have hset : s.Keeps c (s.setConn c (s.conns c).requestCompleted) := setConn_keeps rfl rfl
    exact ⟨reconnects_of_cons rfl rfl, hset.fd, hset.parser, hset.isOpen⟩

theorem deliver_keeps (chunk : Bytes) : s.Keeps c (s.deliver c chunk) := by
  have hobserved : s.Keeps c (s.observe (.delivered c (s.current c) chunk)) :=
    ⟨reconnects_of_cons rfl rfl, rfl, rfl, rfl⟩
  exact hobserved.trans modify_keeps

theorem tcpConnectSocket_reconnects (connect : ConnectOutcome) :
    (s.tcpConnectSocket c connect).reconnects = s.reconnects := by
  cases connect with
  | noSocket => rfl
  | failed => exact reconnects_of_cons rfl rfl
  | started =>
      have hregister : ((s.openSocket c).access .register c s.fds.lowest).reconnects =
          s.reconnects := reconnects_of_cons rfl rfl
      simp only [tcpConnectSocket]
      split
      · exact hregister
      · exact Eq.trans (reconnects_of_cons rfl rfl) hregister

theorem tcpReconnectSocket_reconnects (connect : ConnectOutcome) :
    (s.tcpReconnectSocket c connect).reconnects = s.reconnects + 1 := by
  have hdelete : (s.deleteFileEvent c (s.conns c).fd .both).reconnects = s.reconnects + 1 :=
    List.countP_cons_of_pos rfl
  have hclose : ((s.deleteFileEvent c (s.conns c).fd .both).close c (s.conns c).fd).reconnects =
      s.reconnects + 1 := Eq.trans (reconnects_of_cons rfl rfl) hdelete
  exact (tcpConnectSocket_reconnects connect).trans hclose

/-- `response_complete` up to the decision whether to reconnect. -/
theorem responseCounted_keeps (cfg : Config) (s : TcpThread π) (m : Completion) (dt : ℕ) :
    s.Keeps c (statsRequestCompleted cfg ((((if 399 < m.status then s.statusError else
      s).responseAnswered c).decrementPending c).tick dt) c (s.current c)) := by
  have hstatus : s.Keeps c (if 399 < m.status then s.statusError else s) := by
    split
    · exact ⟨rfl, rfl, rfl, rfl⟩
    · exact ⟨rfl, rfl, rfl, rfl⟩
  have hanswered := hstatus.trans (modify_keeps (f := Descriptor.answer))
  have hdecremented := hanswered.trans decrementPending_keeps
  exact (hdecremented.trans (tick_keeps dt)).trans (statsRequestCompleted_keeps _)

theorem responseComplete_reconnects {m : Completion} (hclosing : m.keepAlive = false)
    (a : ResponseAnswers) :
    (responseComplete cfg s c m a).reconnects = s.reconnects + 1 := by
  rw [← (responseCounted_keeps cfg s m a.dt (c := c)).reconnects]
  simp only [responseComplete, hclosing, Bool.false_eq_true, if_false]
  exact tcpReconnectSocket_reconnects a.connect

theorem responsesComplete_keeps (cfg : Config) : ∀ (ms : List Completion) {s : TcpThread π}
    (as : List ResponseAnswers), (∀ m ∈ ms, m.keepAlive = true) →
      s.Keeps c (responsesComplete cfg c s ms as)
  | [], _, _, _ => ⟨rfl, rfl, rfl, rfl⟩
  | m :: ms, s, as, halive => by
      have hfirst : s.Keeps c (responseComplete cfg s c m (as.headD {})) := by
        simp only [responseComplete, halive m (List.mem_cons_self ..), if_true]
        exact responseCounted_keeps cfg s m _
      exact hfirst.trans (responsesComplete_keeps cfg ms as.tail fun m' hm' =>
        halive m' (List.mem_cons_of_mem m hm'))

/-! ## One call -/

/-- The parser with which a call of `socket_readable` reaches the end of the
stream, if it reads that far before a response or an error makes it
reconnect. -/
def endOfStream (cfg : Config) : HttpParser → List Read → Option HttpParser
  | _, [] | _, .error :: _ | _, .retry :: _ => none
  | p, .again :: reads => endOfStream cfg p reads
  | p, .data chunk _ :: reads =>
      let chunk := chunk.take cfg.recvbuf
      let r := HttpParser.execute p chunk
      if chunk = [] then some p
      else if r.consumed = chunk.length ∧ chunk.length = cfg.recvbuf ∧
          ∀ m ∈ r.completions, m.keepAlive = true then endOfStream cfg r.parser reads
      else none

/-- A chunk is read and parsed, and no response of it closes the connection. -/
theorem parseChunk_keeps (cfg : Config) {s : TcpThread HttpParser} {chunk : Bytes}
    (answers : List ResponseAnswers) (halive : ∀ m ∈
      (HttpParser.execute (s.conns c).parser chunk).completions, m.keepAlive = true) :
    (parseChunk cfg httpParser s c chunk answers).2.reconnects = s.reconnects ∧
      ((parseChunk cfg httpParser s c chunk answers).2.conns c).parser =
        (HttpParser.execute (s.conns c).parser chunk).parser ∧
      ((parseChunk cfg httpParser s c chunk answers).2.current c).isSome =
        (s.current c).isSome := by
  have hdeliver := s.deliver_keeps (c := c) chunk
  have hset : ((s.deliver c chunk).setConn c { (s.deliver c chunk).conns c with
      parser := (HttpParser.execute (s.conns c).parser chunk).parser }).current c =
        (s.deliver c chunk).current c := by
    rw [current, setConn_self]
    rfl
  have hparsed := responsesComplete_keeps cfg _
    (s := (s.deliver c chunk).setConn c { (s.deliver c chunk).conns c with
      parser := (HttpParser.execute (s.conns c).parser chunk).parser }) (c := c) answers halive
  refine ⟨hparsed.reconnects.trans hdeliver.reconnects, ?_, ?_⟩
  · refine hparsed.parser.trans ?_
    rw [setConn_self]
  · rw [← hdeliver.isOpen, ← hset]
    exact hparsed.isOpen

/-- The parser is given the end of the stream. -/
theorem parseEnd_reconnects (cfg : Config) (s : TcpThread HttpParser)
    (answers : List ResponseAnswers) {p : HttpParser} (hp : (s.conns c).parser = p) :
    (p.noticesEnd = false ∧ (parseChunk cfg httpParser s c [] answers).1 = 0 ∧
        (parseChunk cfg httpParser s c [] answers).2.reconnects = s.reconnects) ∨
      p.noticesEnd = true ∧ (((parseChunk cfg httpParser s c [] answers).1 ≠ 0 ∧
          (parseChunk cfg httpParser s c [] answers).2.reconnects = s.reconnects) ∨
        (parseChunk cfg httpParser s c [] answers).1 = 0 ∧
          (parseChunk cfg httpParser s c [] answers).2.reconnects = s.reconnects + 1) := by
  subst hp
  cases hnotices : (s.conns c).parser.noticesEnd with
  | false =>
      obtain ⟨hconsumed, halive⟩ := HttpParser.execute_unnoticed hnotices
      exact Or.inl ⟨rfl, hconsumed, (parseChunk_keeps cfg answers halive).1⟩
  | true =>
      refine Or.inr ⟨rfl, ?_⟩
      rcases HttpParser.execute_noticed hnotices with ⟨hconsumed, hnone⟩ | ⟨hconsumed, m, hm, hone⟩
      · refine Or.inl ⟨hconsumed, (parseChunk_keeps cfg answers ?_).1⟩
        rw [hnone]
        exact fun m hm => by cases hm
      · refine Or.inr ⟨hconsumed, ?_⟩
        rw [← (s.deliver_keeps (c := c) []).reconnects]
        show (responsesComplete cfg c _ (HttpParser.execute (s.conns c).parser []).completions
          answers).reconnects = _
        rw [hone]
        exact responseComplete_reconnects hm _

theorem socketReadable_reconnects (hbuf : 0 < cfg.recvbuf) (connect : ConnectOutcome)
    {p : HttpParser} : ∀ (reads : List Read) {s : TcpThread HttpParser},
      (s.current c).isSome = true → endOfStream cfg (s.conns c).parser reads = some p →
      (socketReadable cfg httpParser c connect s reads).reconnects =
        s.reconnects + if p.noticesEnd then 1 else 0
  | [], _, _, hend => by cases hend
  | .error :: _, _, _, hend => by cases hend
  | .retry :: _, _, _, hend => by cases hend
  | .again :: reads, s, hopen, hend => by
      have haccess : s.Keeps c (s.access .read c (s.conns c).fd) := access_keeps nofun
      rw [← haccess.reconnects]
      exact socketReadable_reconnects hbuf connect reads hopen hend
  | .data chunk answers :: reads, s, hopen, hend => by
      have haccess : s.Keeps c (s.access .read c (s.conns c).fd) := access_keeps nofun
      rw [← haccess.reconnects, socketReadable, if_pos hopen]
      rw [endOfStream] at hend
      simp only at hend ⊢
      generalize chunk.take cfg.recvbuf = chunk at hend ⊢
      generalize ht : s.access .read c (s.conns c).fd = t at haccess ⊢
      split at hend
      · rename_i hempty
        subst hempty
        have hp : (t.conns c).parser = p := haccess.parser.trans (Option.some.inj hend)
        have hmore (q : Prop) : ¬ (0 = cfg.recvbuf ∧ q) :=
          fun h => absurd h.1 (Nat.ne_of_lt hbuf)
        rcases parseEnd_reconnects cfg t answers hp with
          ⟨hnotices, hconsumed, hsame⟩ | ⟨hnotices, ⟨hconsumed, hsame⟩ | ⟨hconsumed, hone⟩⟩
        · rw [hnotices, List.length_nil, if_neg (not_not.mpr hconsumed), if_neg (hmore _)]
          exact hsame
        · rw [hnotices, List.length_nil, if_pos hconsumed, ← hsame]
          exact tcpReconnectSocket_reconnects connect
        · rw [hnotices, List.length_nil, if_neg (not_not.mpr hconsumed), if_neg (hmore _)]
          exact hone
      · split at hend
        · rename_i hfull
          obtain ⟨hconsumed, hlength, halive⟩ := hfull
          rw [← haccess.parser] at hconsumed halive hend
          obtain ⟨hsame, hparser, hstill⟩ := parseChunk_keeps cfg answers halive
          have hcurrent := hstill.trans (haccess.isOpen.trans hopen)
          have hparsed : (parseChunk cfg httpParser t c chunk answers).1 = chunk.length := hconsumed
          rw [if_neg (not_not.mpr hparsed), if_pos ⟨hlength, hcurrent⟩, ← hsame]
          refine socketReadable_reconnects hbuf connect reads hcurrent ?_
          rw [← hend, ← hparser]
          rfl
        · cases hend

/-! ## Streams of a run -/

/-- No open descriptor but `skip` has reached the end of its stream. -/
def Unended (skip : Option ℕ) (fds : FdTable Descriptor) : Prop :=
  ∀ fd d, fds.get fd = some d → some fd ≠ skip → [] ∉ d.delivered

variable {skip : Option ℕ} {fds : FdTable Descriptor}

theorem Unended.modify {f : Descriptor → Descriptor} (h : Unended skip fds)
    (hf : ∀ d, (f d).delivered = d.delivered) : Unended skip (fds.modify fd f) := by
  intro fd' d' hd' hskip
  by_cases hfd : fd' = fd
  · subst hfd
    rw [FdTable.get_modify_self] at hd'
    obtain ⟨d, hd, rfl⟩ := Option.map_eq_some_iff.mp hd'
    rw [hf]
    exact h fd' d hd hskip
  · rw [FdTable.modify, FdTable.get_set_of_ne hfd] at hd'
    exact h fd' d' hd' hskip

theorem Unended.close (h : Unended (some fd) fds) : Unended none (fds.close fd) := by
  intro fd' d' hd' _
  rw [FdTable.close, FdTable.get_set] at hd'
  split at hd'
  · cases hd'
  · rename_i hfd
    exact h fd' d' hd' fun heq => hfd (Option.some.inj heq)

theorem Unended.but (h : Unended none fds) : Unended skip fds :=
  fun fd d hd _ => h fd d hd nofun

theorem Unended.openLowest (h : Unended none fds) :
    Unended none (fds.openLowest ⟨some c, false, 0, 0, []⟩) := by
  intro fd' d' hd' _
  rw [FdTable.openLowest, FdTable.get_set] at hd'
  split at hd'
  · cases hd'
    exact List.not_mem_nil
  · exact h fd' d' hd' nofun

theorem createFileEvent_fds : (s.createFileEvent c fd mask proc).fds = s.fds := by
  rcases s.createFileEvent_cases c fd mask proc with h | ⟨-, -, h⟩
  · rw [h]
    rfl
  · rw [h]
    rfl

theorem tcpConnectSocket_unended (h : Unended none s.fds) (connect : ConnectOutcome) :
    Unended none (s.tcpConnectSocket c connect).fds := by
  have hopened := h.openLowest (c := c)
  cases connect with
  | noSocket => exact h
  | failed => exact hopened.but.close
  | started =>
      simp only [tcpConnectSocket]
      split
      · exact hopened
      · exact hopened.but.close

/-- The half-closed socket is closed. -/
theorem tcpReconnectSocket_unended (h : Unended (some (s.conns c).fd) s.fds)
    (connect : ConnectOutcome) : Unended none (s.tcpReconnectSocket c connect).fds :=
  tcpConnectSocket_unended (s := (s.deleteFileEvent c (s.conns c).fd .both).close c (s.conns c).fd)
    h.close connect

theorem advanceWritten_fds (n : ℕ) : (s.advanceWritten c n).fds = s.fds := by
  unfold advanceWritten
  simp only
  split
  · rfl
  · rfl

theorem sockWrite_unended (connect : ConnectOutcome) :
    ∀ (write : Status ℕ) {s : TcpThread π}, Unended none s.fds →
      Unended none (sockWrite cfg s c connect write).fds
  | .ok n, s, h => by
      unfold sockWrite
      simp only
      split
      · rw [advanceWritten_fds]
        exact h.modify fun _ => rfl
      · exact tcpReconnectSocket_unended (s := (s.access .write c (s.conns c).fd).writeError) h.but
          connect
  | .error, s, h =>
      tcpReconnectSocket_unended (s := (s.access .write c (s.conns c).fd).writeError) h.but connect
  | .retry, _, h => h
  | .again next, s, h =>
      sockWrite_unended connect next (s := s.access .write c (s.conns c).fd) h

theorem prepareBatch_fds (a : Answers) : (prepareBatch cfg s c a).fds = s.fds := by
  unfold prepareBatch
  simp only
  split
  · rfl
  · rfl

theorem sockWriteable_unended (h : Unended none s.fds) (a : Answers) :
    Unended none (sockWriteable cfg s c a).fds := by
  unfold sockWriteable
  split
  · simp only
    split
    · exact h
    · refine sockWrite_unended a.connect a.write ?_
      rw [prepareBatch_fds]
      exact h
  · exact sockWrite_unended a.connect a.write h

theorem socketConnected_unended (connect : ConnectOutcome) :
    ∀ (status : Status Unit) {s : TcpThread π}, Unended none s.fds →
      Unended none (socketConnected P s fd c connect status).fds
  | .ok _, s, h => by
      unfold socketConnected
      simp only
      refine Unended.modify ?_ fun _ => rfl
      rw [createFileEvent_fds, createFileEvent_fds]
      exact h
  | .error, s, h => tcpReconnectSocket_unended (s := s.connectError) h.but connect
  | .retry, _, h => h
  | .again next, _, h => socketConnected_unended connect next h

theorem decrementPending_fds : (s.decrementPending c).fds = s.fds := by
  unfold decrementPending
  simp only
  split
  · exact createFileEvent_fds
  · rfl

theorem statsRequestCompleted_fds (target : Option Descriptor) :
    (statsRequestCompleted cfg s c target).fds = s.fds := by
  unfold statsRequestCompleted
  split
  · rfl
  · rfl

theorem responseCounted_unended (h : Unended skip s.fds) (m : Completion) (dt : ℕ)
    (target : Option Descriptor) :
    Unended skip (statsRequestCompleted cfg ((((if 399 < m.status then s.statusError else
      s).responseAnswered c).decrementPending c).tick dt) c target).fds := by
  rw [statsRequestCompleted_fds]
  show Unended skip (decrementPending _ c).fds
  rw [decrementPending_fds]
  refine Unended.modify ?_ fun _ => rfl
  split
  · exact h
  · exact h

theorem responseComplete_unended (h : Unended none s.fds) (m : Completion) (a : ResponseAnswers) :
    Unended none (responseComplete cfg s c m a).fds := by
  simp only [responseComplete]
  split
  · exact responseCounted_unended h m a.dt _
  · exact tcpReconnectSocket_unended (responseCounted_unended h m a.dt _).but a.connect

/-- The last response of a half-closed socket closes it. -/
theorem responseComplete_closes (h : Unended (some (s.conns c).fd) s.fds) {m : Completion}
    (hclosing : m.keepAlive = false) (a : ResponseAnswers) :
    Unended none (responseComplete cfg s c m a).fds := by
  have hkeeps := responseCounted_keeps cfg s m a.dt (c := c)
  simp only [responseComplete, hclosing, Bool.false_eq_true, if_false]
  refine tcpReconnectSocket_unended ?_ a.connect
  rw [hkeeps.fd]
  exact responseCounted_unended h m a.dt _

theorem responsesComplete_unended : ∀ (ms : List Completion) {s : TcpThread π}
    (as : List ResponseAnswers), Unended none s.fds →
      Unended none (responsesComplete cfg c s ms as).fds
  | [], _, _, h => h
  | m :: ms, _, as, h => responsesComplete_unended ms as.tail (responseComplete_unended h m _)

theorem tcpConnectSocket_keepsParser (connect : ConnectOutcome) :
    ((s.tcpConnectSocket c connect).conns c).parser = (s.conns c).parser := by
  rcases s.tcpConnectSocket_cases c connect with ⟨-, h⟩ | ⟨h, -, -⟩
  · rw [h, startedSocket, setConn_self]
  · rw [h]

theorem responsesComplete_keepsParser : ∀ (ms : List Completion) {s : TcpThread π}
    (as : List ResponseAnswers),
      ((responsesComplete cfg c s ms as).conns c).parser = (s.conns c).parser
  | [], _, _ => rfl
  | m :: ms, s, as => by
      refine (responsesComplete_keepsParser ms as.tail).trans ?_
      have hkeeps := responseCounted_keeps cfg s m (as.headD {}).dt (c := c)
      simp only [responseComplete]
      split
      · exact hkeeps.parser
      · exact (tcpConnectSocket_keepsParser _).trans hkeeps.parser

/-- Every end of a stream that a call of `socket_readable` reads ends a
response or is an error. -/
def endsInside (cfg : Config) : HttpParser → List Read → Bool
  | _, [] | _, .error :: _ | _, .retry :: _ => true
  | p, .again :: reads => endsInside cfg p reads
  | p, .data chunk _ :: reads =>
      let chunk := chunk.take cfg.recvbuf
      let r := HttpParser.execute p chunk
      if chunk = [] then p.noticesEnd
      else if r.consumed = chunk.length ∧ chunk.length = cfg.recvbuf then
        endsInside cfg r.parser reads
      else true

theorem deliver_unended {chunk : Bytes} (h : Unended none s.fds) (hchunk : chunk ≠ []) :
    Unended none (s.deliver c chunk).fds := by
  intro fd d hd _
  by_cases hfd : fd = (s.conns c).fd
  · subst hfd
    obtain ⟨d', hd', rfl⟩ := Option.map_eq_some_iff.mp (FdTable.get_modify_self.symm.trans hd)
    intro hmem
    rcases List.mem_append.mp hmem with hold | hnew
    · exact h _ d' hd' nofun hold
    · exact hchunk (List.mem_singleton.mp hnew).symm
  · exact h fd d ((FdTable.get_set_of_ne hfd).symm.trans hd) nofun

theorem deliver_unended_but {chunk : Bytes} (h : Unended none s.fds) :
    Unended (some (s.conns c).fd) (s.deliver c chunk).fds := by
  intro fd d hd hfd
  refine h fd d ((FdTable.get_set_of_ne ?_).symm.trans hd) nofun
  rintro rfl
  exact hfd rfl

theorem parseChunk_unended (cfg : Config) {s : TcpThread HttpParser} {chunk : Bytes}
    (answers : List ResponseAnswers) (h : Unended none s.fds) (hchunk : chunk ≠ []) :
    Unended none (parseChunk cfg httpParser s c chunk answers).2.fds ∧
      ((parseChunk cfg httpParser s c chunk answers).2.conns c).parser =
        (HttpParser.execute (s.conns c).parser chunk).parser := by
  refine ⟨responsesComplete_unended _ _ (deliver_unended h hchunk), ?_⟩
  refine (responsesComplete_keepsParser _ answers).trans ?_
  rw [setConn_self]
  rfl

/-- The end of the stream makes the socket the only half-closed one. -/
theorem parseEnd_unended (cfg : Config) {s : TcpThread HttpParser}
    (answers : List ResponseAnswers) (h : Unended none s.fds)
    (hnotices : (s.conns c).parser.noticesEnd = true) :
    ((parseChunk cfg httpParser s c [] answers).1 ≠ 0 ∧
        Unended (some ((parseChunk cfg httpParser s c [] answers).2.conns c).fd)
          (parseChunk cfg httpParser s c [] answers).2.fds) ∨
      (parseChunk cfg httpParser s c [] answers).1 = 0 ∧
        Unended none (parseChunk cfg httpParser s c [] answers).2.fds := by
  have hresult : (parseChunk cfg httpParser s c [] answers).2 = responsesComplete cfg c
      ((s.deliver c []).setConn c { (s.deliver c []).conns c with
        parser := (HttpParser.execute (s.conns c).parser []).parser })
      (HttpParser.execute (s.conns c).parser []).completions answers := rfl
  have hfd : (((s.deliver c []).setConn c { (s.deliver c []).conns c with
      parser := (HttpParser.execute (s.conns c).parser []).parser }).conns c).fd =
        (s.conns c).fd := by
    rw [setConn_self]
    rfl
  have hended : Unended (some (s.conns c).fd) ((s.deliver c []).setConn c
      { (s.deliver c []).conns c with
        parser := (HttpParser.execute (s.conns c).parser []).parser }).fds :=
    deliver_unended_but h
  rw [← hfd] at hended
  rw [hresult]
  rcases HttpParser.execute_noticed hnotices with ⟨hconsumed, hnone⟩ | ⟨hconsumed, m, hm, hone⟩
  · rw [hnone]
    exact Or.inl ⟨hconsumed, hended⟩
  · rw [hone]
    exact Or.inr ⟨hconsumed, responseComplete_closes hended hm _⟩

theorem socketReadable_unended (hbuf : 0 < cfg.recvbuf) (connect : ConnectOutcome) :
    ∀ (reads : List Read) {s : TcpThread HttpParser}, Unended none s.fds →
      endsInside cfg (s.conns c).parser reads = true →
      Unended none (socketReadable cfg httpParser c connect s reads).fds
  | [], _, h, _ => h
  | .error :: _, s, h, _ =>
      tcpReconnectSocket_unended (s := (s.access .read c (s.conns c).fd).readError) h.but connect
  | .retry :: _, _, h, _ => h
  | .again :: reads, s, h, hends =>
      socketReadable_unended hbuf connect reads (s := s.access .read c (s.conns c).fd) h hends
  | .data chunk answers :: reads, s, h, hends => by
      rw [socketReadable]
      rw [endsInside] at hends
      simp only at hends ⊢
      generalize chunk.take cfg.recvbuf = chunk at hends ⊢
      have haccess : Unended none (s.access .read c (s.conns c).fd).fds := h
      have hparser : ((s.access .read c (s.conns c).fd).conns c).parser = (s.conns c).parser := rfl
      generalize s.access .read c (s.conns c).fd = t at haccess hparser ⊢
      rw [← hparser] at hends
      split
      · split at hends
        · rename_i hempty
          subst hempty
          have hmore (q : Prop) : ¬ (0 = cfg.recvbuf ∧ q) :=
            fun h => absurd h.1 (Nat.ne_of_lt hbuf)
          rw [List.length_nil]
          rcases parseEnd_unended cfg answers haccess hends with ⟨hconsumed, hended⟩ |
            ⟨hconsumed, hclosed⟩
          · rw [if_pos hconsumed]
            exact tcpReconnectSocket_unended
              (s := (parseChunk cfg httpParser t c [] answers).2.readError) hended connect
          · rw [if_neg (not_not.mpr hconsumed), if_neg (hmore _)]
            exact hclosed
        · rename_i hchunk
          obtain ⟨hparsed, hnext⟩ := parseChunk_unended cfg answers haccess hchunk
          have hresult : (parseChunk cfg httpParser t c chunk answers).1 =
              (HttpParser.execute (t.conns c).parser chunk).consumed := rfl
          rw [← hresult, ← hnext] at hends
          generalize parseChunk cfg httpParser t c chunk answers = r at hparsed hends ⊢
          split
          · exact tcpReconnectSocket_unended (s := r.2.readError) hparsed.but connect
          · rename_i hconsumed
            split
            · rename_i hfull
              rw [if_pos ⟨not_not.mp hconsumed, hfull.1⟩] at hends
              exact socketReadable_unended hbuf connect reads (s := r.2.received chunk.length)
                hparsed hends
            · exact hparsed
      · exact tcpReconnectSocket_unended (s := t.readError) haccess.but connect

theorem delayedInitialConnect_unended (h : Unended none s.fds) (a : Answers) :
    Unended none (s.delayedInitialConnect c a).fds :=
  tcpConnectSocket_unended (s := (s.tick a.dt).setConn c _) h a.connect

theorem runTimeEvent_unended (h : Unended none s.fds) (te : TimeEvent TimeProc ℕ) (a : Answers) :
    Unended none (s.runTimeEvent te a).fds := by
  unfold runTimeEvent
  cases te.timeProc with
  | delayedInitialConnect => exact delayedInitialConnect_unended h a
  | delayRequest =>
      have hdelay : (s.delayRequest te.clientData a).2.fds = s.fds := by
        unfold delayRequest
        simp only
        split
        · rfl
        · exact createFileEvent_fds
      simp only
      split
      · show Unended none (s.delayRequest te.clientData a).2.fds
        rw [hdelay]
        exact h
      · rw [hdelay]
        exact h

/-- Every stream that a call of `socket_readable` reads to its end ends inside
a response. -/
def EndsInside (cfg : Config) (s : TcpThread HttpParser) : TcpEvent → Prop
  | .readable fd a => (s.loop.events fd).rfileProc = some .socketReadable →
      endsInside cfg (s.conns (s.loop.events fd).clientData).parser a.reads = true
  | .writable fd a => (s.loop.events fd).wfileProc = some .socketReadable →
      endsInside cfg (s.conns (s.loop.events fd).clientData).parser a.reads = true
  | .timer _ _ => True

instance (s : TcpThread HttpParser) (e : TcpEvent) : Decidable (EndsInside cfg s e) :=
  match e with
  | .readable _ _ => inferInstanceAs (Decidable (_ → _))
  | .writable _ _ => inferInstanceAs (Decidable (_ → _))
  | .timer _ _ => isTrue trivial

end

end TcpThread

open TcpThread

variable {cfg : Config}

theorem runFileProc_unended (hbuf : 0 < cfg.recvbuf) {s s' : TcpThread HttpParser} {fd c : ℕ}
    {a : Answers} {proc : FileProc} (h : Unended none s.fds)
    (hends : proc = .socketReadable → endsInside cfg (s.conns c).parser a.reads = true)
    (hrun : s.runFileProc cfg httpParser fd c a proc = some s') : Unended none s'.fds := by
  cases proc with
  | socketConnected =>
      obtain rfl := Option.some.inj hrun
      exact socketConnected_unended a.connect a.connected h
  | socketReadable =>
      obtain rfl := Option.some.inj hrun
      exact socketReadable_unended hbuf a.connect a.reads h (hends rfl)
  | socketWriteable =>
      rw [runFileProc] at hrun
      split at hrun
      · obtain rfl := Option.some.inj hrun
        exact sockWriteable_unended h a
      · cases hrun

theorem tcp_unended (hbuf : 0 < cfg.recvbuf) {s : TcpThread HttpParser}
    (hs : (tcpThread cfg httpParser).ReachableWith (EndsInside cfg) s) : Unended none s.fds := by
  refine hs.invariant (P := fun s => Unended none s.fds) ?_ ?_
  · rintro s ⟨clock, reserved, rfl⟩ fd d hd -
    obtain ⟨-, -, rfl⟩ := Option.map_eq_some_iff.mp hd
    exact List.not_mem_nil
  · intro s e s' h hstep hok
    have hstep : tcpStep cfg httpParser s e = some s' := hstep
    cases e with
    | readable fd a =>
        obtain ⟨proc, hproc, hrun⟩ := Option.bind_eq_some_iff.mp hstep
        refine runFileProc_unended hbuf h ?_ hrun
        rintro rfl
        exact hok hproc
    | writable fd a =>
        obtain ⟨proc, hproc, hrun⟩ := Option.bind_eq_some_iff.mp hstep
        refine runFileProc_unended hbuf h ?_ hrun
        rintro rfl
        exact hok hproc
    | timer id a =>
        obtain ⟨te, -, rfl⟩ := Option.map_eq_some_iff.mp hstep
        exact runTimeEvent_unended h te a

/-- A call of `socket_readable` that reads an open socket to the end of its
stream reconnects once if the stream ends inside a response, and otherwise not
at all. In every run in which all streams end so, no open descriptor is left
half-closed. -/
theorem end_of_stream_noticed (cfg : Config) (hbuf : 0 < cfg.recvbuf) :
    (∀ (s : TcpThread HttpParser) (c : ℕ) (connect : ConnectOutcome) (reads : List Read)
      (p : HttpParser), (s.current c).isSome = true →
      endOfStream cfg (s.conns c).parser reads = some p →
      ((socketReadable cfg httpParser c connect s reads).reconnects = s.reconnects + 1 ↔
        p.noticesEnd = true)) ∧
    ∀ s, (tcpThread cfg httpParser).ReachableWith (EndsInside cfg) s →
      ∀ fd d, s.fds.get fd = some d → [] ∉ d.delivered := by
  refine ⟨?_, fun s hs fd d hd => tcp_unended hbuf hs fd d hd nofun⟩
  intro s c connect reads p hopen hend
  rw [socketReadable_reconnects hbuf connect reads hopen hend]
  cases p.noticesEnd with
  | true => simp
  | false => simp

/-- The server closes the connection in the middle of a response. -/
def truncatedResponse : Bytes := "HTTP/1.1 200 OK\r\nContent-Le".toUTF8.toList

def endsInResponse : List TcpEvent :=
  [.timer 0 { dt := 5 }, .writable 4 { dt := 10 },
    .writable 4 { dt := 10, startDt := 5, write := .ok 18 },
    .readable 4 { reads := [.data truncatedResponse []] }, .readable 4 { reads := [.data [] []] }]

/-- The half-closed socket is replaced. -/
theorem end_of_stream_noticed_one :
    (∃ (s : TcpThread HttpParser) (p : HttpParser),
      (tcpThread twoConnections httpParser).Reachable s ∧ (s.current 0).isSome = true ∧
      endOfStream twoConnections (s.conns 0).parser [.data [] []] = some p ∧
      p.noticesEnd = true ∧
      (socketReadable twoConnections httpParser 0 .started s [.data [] []]).reconnects =
        s.reconnects + 1) ∧
    ∃ s, (tcpThread twoConnections httpParser).ReachableWith (EndsInside twoConnections) s ∧
      s.reconnects = 2 ∧ ∀ fd d, s.fds.get fd = some d → [] ∉ d.delivered := by
  obtain ⟨s, hs, hview⟩ : ∃ s, (tcpThread twoConnections httpParser).Reachable s ∧
      ((s.current 0).isSome, (s.conns 0).parser.noticesEnd) = (true, true) :=
    exists_reachable_of_runEvents (fun s : TcpThread HttpParser =>
      ((s.current 0).isSome, (s.conns 0).parser.noticesEnd)) endsInResponse.dropLast
      twoConnectionsStart_initial (by decide +kernel)
  obtain ⟨s', hs', hreconnects⟩ : ∃ s', (tcpThread twoConnections httpParser).ReachableWith
      (EndsInside twoConnections) s' ∧ s'.reconnects = 2 :=
    exists_reachableWith_of_runEvents (fun s : TcpThread HttpParser => s.reconnects) endsInResponse
      twoConnectionsStart_initial (by decide +kernel)
  obtain ⟨hopen, hnotices⟩ := Prod.mk.inj hview
  have hend : endOfStream twoConnections (s.conns 0).parser [.data [] []] =
      some (s.conns 0).parser := rfl
  obtain ⟨hcall, hrun⟩ := end_of_stream_noticed twoConnections (by decide)
  exact ⟨⟨s, _, hs, hopen, hend, hnotices, (hcall s 0 .started _ _ hopen hend).mpr hnotices⟩,
    s', hs', hreconnects, hrun s' hs'⟩

/-- The server closes the connection before it answers the request. -/
def endsBeforeResponse : List TcpEvent :=
  [.timer 0 { dt := 5 }, .writable 4 { dt := 10 },
    .writable 4 { dt := 10, startDt := 5, write := .ok 18 }, .readable 4 { reads := [.data [] []] }]

/-- The half-closed socket stays registered, with a request that nothing will
answer. -/
theorem end_of_stream_missed : ∃ (s : TcpThread HttpParser) (d : Descriptor),
    (tcpThread twoConnections httpParser).Reachable s ∧ s.socketOf 0 = some d ∧
    d.delivered = [[]] ∧ d.sent = 1 ∧ d.answered = 0 ∧
    (s.loop.events (s.conns 0).fd).rfileProc = some .socketReadable ∧
    endOfStream twoConnections (s.conns 0).parser [.data [] []] = some (s.conns 0).parser ∧
    (socketReadable twoConnections httpParser 0 .started s [.data [] []]).reconnects ≠
      s.reconnects + 1 := by
  obtain ⟨s, hs, hview⟩ : ∃ s, (tcpThread twoConnections httpParser).Reachable s ∧
      (s.socketOf 0, (s.loop.events (s.conns 0).fd).rfileProc,
        decide ((socketReadable twoConnections httpParser 0 .started s
          [.data [] []]).reconnects = s.reconnects + 1)) =
        (some ⟨some 0, true, 1, 0, [[]]⟩, some .socketReadable, false) :=
    exists_reachable_of_runEvents (fun s : TcpThread HttpParser =>
      (s.socketOf 0, (s.loop.events (s.conns 0).fd).rfileProc,
        decide ((socketReadable twoConnections httpParser 0 .started s
          [.data [] []]).reconnects = s.reconnects + 1)))
      endsBeforeResponse twoConnectionsStart_initial (by decide +kernel)
  simp only [Prod.mk.injEq, decide_eq_false_iff_not] at hview
  obtain ⟨hd, hreader, hcall⟩ := hview
  exact ⟨s, _, hs, hd, rfl, rfl, rfl, hreader, rfl, hcall⟩

end WrkQuic
