import WrkQuic.HttpMessages
import WrkQuic.TcpBatch
import WrkQuic.TcpRequests

/-!
# A response for each request

`response_complete` runs for every message that the parser completes, and
`c->pending` counts down from the size of the batch. When a server sends no
more responses on a socket than requests were sent on it, and each of them is
one that the parser follows (`TcpObservation.Conforms`), then the responses
completed on a socket are exactly those that were read (`InStep`), and
`c->pending` is what is left of the batch.
-/

namespace WrkQuic

open Runs Scanner TcpThread

/-! ## What a stream completes -/

namespace Stream

variable {s : Stream} {chunks : List Bytes} {chunk : Bytes} {q : HttpParser}
  {ms : List Completion}

theorem Delivers.before (h : s.Delivers (chunks ++ [chunk])) : s.Delivers chunks where
  data := by
    have hdata := h.data
    rw [List.flatten_append] at hdata
    exact (List.prefix_append _ _).trans hdata
  eof before after hchunks := by
    refine h.eof before (after ++ [chunk]) ?_
    rw [hchunks, List.append_assoc, List.cons_append]

/-- At the end of the stream all of it was read. -/
theorem Delivers.ended (h : s.Delivers chunks) (heof : [] ∈ chunks) :
    chunks.flatten = s.encode := by
  obtain ⟨before, after, rfl⟩ := List.append_of_mem heof
  have hall := h.eof before after rfl
  have hlength := h.data.length_le
  rw [List.flatten_append, List.length_append, hall] at hlength
  exact h.data.eq_of_length_le (by rw [List.flatten_append, List.length_append, hall]; omega)

theorem completed_le (s : Stream) (chunks : List Bytes) :
    s.completed chunks ≤ s.responses.length := by
  unfold completed
  split
  · exact Nat.le_refl _
  · refine (framesIn_le _ _).trans ?_
    rw [List.length_map]
    exact List.length_filter_le _ _

theorem Delivers.completed_of_run (h : s.Delivers chunks) (heof : [] ∉ chunks)
    (hrun : run HttpParser.feedByte .init chunks.flatten = some (q, ms)) :
    s.completed chunks = ms.length := by
  obtain ⟨q', ms', hrun', hlength, -⟩ := HttpParser.run_stream s h
  obtain ⟨rfl, rfl⟩ := Prod.mk.inj (Option.some.inj (hrun'.symm.trans hrun))
  rw [completed, if_neg heof, hlength]

theorem Delivers.atEnd (h : s.Delivers chunks) (heof : [] ∈ chunks)
    (hrun : run HttpParser.feedByte .init chunks.flatten = some (q, ms)) :
    HttpParser.AtEnd ms.length (s.completed chunks) q := by
  obtain ⟨q', ms', hrun', -, hend⟩ := HttpParser.run_stream s h
  obtain ⟨rfl, rfl⟩ := Prod.mk.inj (Option.some.inj (hrun'.symm.trans hrun))
  rw [completed, if_pos heof]
  exact hend (h.ended heof)

end Stream

/-- The parser `p` of a socket from which `chunks` were read: of the responses
they complete, `answered` are counted and `todo` are still to be counted. Once
the stream has ended inside a body, that body is to be counted. -/
structure InStep (p : HttpParser) (chunks : List Bytes) (answered : ℕ) (todo : List Completion) :
    Prop where
  parser : ∃ q ms, run HttpParser.feedByte .init chunks.flatten = some (q, ms) ∧
    HttpParser.Ahead p none q ∧ ([] ∈ chunks → q.state = .bodyIdentityEof →
      ∃ m : Completion, todo = [m] ∧ m.keepAlive = false)
  counted : ∀ s : Stream, s.Delivers chunks → s.completed chunks = answered + todo.length

section

variable {p : HttpParser} {chunks : List Bytes} {chunk : Bytes} {answered : ℕ} {m : Completion}
  {ms : List Completion} {stream : Stream}

/-- Nothing was read, but perhaps the end of the stream. -/
theorem inStep_nothing (h : chunks.flatten = []) : InStep .init chunks 0 [] where
  parser := by
    refine ⟨.init, [], by rw [h]; rfl, HttpParser.init_ahead, ?_⟩
    rintro - ⟨⟩
  counted s hs := by
    have hrun : run HttpParser.feedByte .init chunks.flatten = some (.init, []) := by
      rw [h]
      rfl
    by_cases heof : [] ∈ chunks
    · rcases hs.atEnd heof hrun with ⟨-, hend⟩ | ⟨⟨⟩, -⟩
      exact hend.symm
    · exact hs.completed_of_run heof hrun

/-- A chunk is read. -/
theorem InStep.deliver (h : InStep p chunks answered [])
    (hstream : stream.Delivers (chunks ++ [chunk])) :
    InStep (HttpParser.execute p chunk).parser (chunks ++ [chunk]) answered
      (HttpParser.execute p chunk).completions := by
  obtain ⟨q, ms, hrun, hahead, hend⟩ := h.parser
  by_cases hchunk : chunk = []
  · subst hchunk
    have hflat : (chunks ++ [[]]).flatten = chunks.flatten := by simp
    have heof : [] ∈ chunks ++ [([] : Bytes)] := by simp
    have hopen : q.state = .bodyIdentityEof → [] ∉ chunks := by
      intro hstate hmem
      obtain ⟨m, hm, -⟩ := hend hmem hstate
      cases hm
    rw [← hflat] at hrun
    rcases hstream.atEnd heof hrun with ⟨hstate, -⟩ | ⟨hstate, hclose, -⟩
    · rw [HttpParser.execute_eof hahead hstate]
      refine ⟨⟨q, ms, hrun, hahead, ?_⟩, ?_⟩
      · intro _ hbody
        rcases hstate with hstate | hstate <;> cases hstate.symm.trans hbody
      · intro s hs
        rw [← h.counted s hs.before]
        by_cases hmem : [] ∈ chunks
        · rw [Stream.completed, if_pos heof, Stream.completed, if_pos hmem]
        · rcases hs.atEnd heof hrun with ⟨-, hlength⟩ | ⟨hbody, -⟩
          · rw [hflat] at hrun
            exact hlength.symm.trans (hs.before.completed_of_run hmem hrun).symm
          · rcases hstate with hstate | hstate <;> cases hstate.symm.trans hbody
    · obtain ⟨m, hm, hexecute⟩ := HttpParser.execute_eof_body hahead hstate hclose
      rw [hexecute]
      refine ⟨⟨q, ms, hrun, hahead, fun _ _ => ⟨m, rfl, hm⟩⟩, ?_⟩
      intro s hs
      have hcounted := h.counted s hs.before
      rcases hs.atEnd heof hrun with ⟨hstate' | hstate', -⟩ | ⟨-, -, hlength⟩
      · cases hstate.symm.trans hstate'
      · cases hstate.symm.trans hstate'
      · rw [hflat] at hrun
        rw [hs.before.completed_of_run (hopen hstate) hrun] at hcounted
        rw [← hlength, hcounted]
        rfl
  · obtain ⟨q', ms', hrun', -, -⟩ := HttpParser.run_stream stream hstream
    have hflat : (chunks ++ [chunk]).flatten = chunks.flatten ++ chunk := by simp
    have hnot : [] ∉ chunks := by
      intro hmem
      have hlength := hstream.data.length_le
      rw [hflat, hstream.before.ended hmem, List.length_append] at hlength
      exact hchunk (List.length_eq_zero_iff.mp (by omega))
    have hnot' : [] ∉ chunks ++ [chunk] := by
      rw [List.mem_append, List.mem_singleton]
      exact fun hmem => hmem.elim hnot fun h => hchunk h.symm
    have hrest := hrun'
    rw [hflat, run_append_of_some hrun] at hrest
    obtain ⟨⟨q'', new⟩, hnew, heq⟩ := Option.map_eq_some_iff.mp hrest
    obtain ⟨rfl, rfl⟩ := Prod.mk.inj heq
    obtain ⟨p', hexecute, hahead'⟩ := HttpParser.execute_of_run hahead hchunk hnew
    rw [hexecute]
    refine ⟨⟨q'', ms ++ new, hrun', hahead', fun hmem => absurd hmem hnot'⟩, ?_⟩
    intro s hs
    rw [hs.completed_of_run hnot' hrun', List.length_append,
      ← hs.before.completed_of_run hnot hrun, h.counted s hs.before]
    rfl

/-- A response is counted that leaves the connection open. -/
theorem InStep.answer (h : InStep p chunks answered (m :: ms)) (halive : m.keepAlive = true) :
    InStep p chunks (answered + 1) ms where
  parser := by
    obtain ⟨q, ms', hrun, hahead, hend⟩ := h.parser
    refine ⟨q, ms', hrun, hahead, ?_⟩
    intro heof hbody
    obtain ⟨m', hm', hclosing⟩ := hend heof hbody
    obtain ⟨rfl, -⟩ := List.cons.inj hm'
    cases halive.symm.trans hclosing
  counted s hs := by
    rw [h.counted s hs, List.length_cons]
    omega

end

/-! ## One connection -/

/-- What was read from a socket is sent by a server that answers each request
at most once. -/
def TcpObservation.Conforms : TcpObservation → Prop
  | .delivered _ target chunk => ∀ d ∈ target, ∃ stream : Stream,
      stream.responses.length ≤ d.sent ∧ stream.Delivers (d.delivered ++ [chunk])
  | _ => True

/-- The responses of the last chunk that are still to be counted. -/
def Phase.todo : Phase → List Completion
  | .reading _ todo => todo
  | _ => []

namespace TcpConn

variable {cfg : Config} {c : ℕ} {v v' : TcpConn HttpParser} {a : TcpAct} {r : Attempt}

/-- `delay_request` makes no socket write that is still connecting. -/
def firesConnected : Policy HttpParser where
  read v := TcpAct.replaced v.phase = true → ∀ chunk,
    (HttpParser.execute v.conn.parser chunk).completions = []
  fire v := ∀ d ∈ v.socket, d.connected = true

/-- The socket has counted what it read, up to the responses that
`socket_readable` still has to count, and each of them answers a request. -/
structure Answering (v : TcpConn HttpParser) : Prop where
  connecting : ∀ d ∈ v.socket, d.connected = false →
    (d.sent = 0 ∧ d.answered = 0 ∧ d.delivered.flatten = []) ∧
      v.writer ≠ some .socketWriteable ∧ v.reader ≠ some .socketReadable ∧
        ∀ todo, v.phase ≠ .reading false todo
  connected : ∀ d ∈ v.socket, d.connected = true →
    (v.writer ≠ some .socketConnected ∧ v.reader ≠ some .socketConnected) ∧
      InStep v.conn.parser d.delivered d.answered v.phase.todo
  todo : v.phase.todo ≠ [] → ∃ d, v.socket = some d ∧ d.connected = true ∧
    d.answered + v.phase.todo.length ≤ d.sent

theorem Answering.congr (h : v.Answering) (hparser : v'.conn.parser = v.conn.parser)
    (hsocket : v'.socket = v.socket) (hreader : v'.reader = v.reader)
    (hwriter : v'.writer = v.writer) (hphase : v'.phase = v.phase) : v'.Answering := by
  obtain ⟨connecting, connected, todo⟩ := h
  refine ⟨?_, ?_, ?_⟩
  · rwa [hsocket, hreader, hwriter, hphase]
  · rwa [hsocket, hreader, hwriter, hphase, hparser]
  · rwa [hsocket, hphase]

theorem Answering.phase {phase : Phase} (h : v.Answering) (hold : v.phase.todo = [])
    (hnew : phase.todo = [])
    (hreading : ∀ d ∈ v.socket, d.connected = false → ∀ todo, phase ≠ .reading false todo) :
    { v with phase := phase }.Answering where
  connecting d hd hc :=
    have hconnecting := h.connecting d hd hc
    ⟨hconnecting.1, hconnecting.2.1, hconnecting.2.2.1, hreading d hd hc⟩
  connected d hd hc := by
    show _ ∧ InStep v.conn.parser d.delivered d.answered phase.todo
    rw [hnew, ← hold]
    exact h.connected d hd hc
  todo hne := absurd hnew hne

theorem Answering.idle (h : v.Answering) (hold : v.phase.todo = []) :
    { v with phase := .idle }.Answering :=
  h.phase hold rfl fun _ _ _ _ => nofun

/-- Only a connected socket writes. -/
theorem Answering.writes (h : v.Answering) (hw : v.Wired)
    (hcalled : v.Dispatched .socketWriteable) :
    ∀ d ∈ v.socket, d.connected = true := by
  intro d hd
  by_contra hc
  obtain ⟨-, hwriter, -⟩ := h.connecting d hd (Bool.eq_false_iff.mpr hc)
  rcases hcalled with hread | hwrite
  · rcases hw.readers _ hread with h | h <;> cases h
  · exact hwriter hwrite

theorem Answering.watch (h : v.Answering) (hconnected : ∀ d ∈ v.socket, d.connected = true) :
    (v.watch c).Answering where
  connecting d hd hc := by
    cases (hconnected d hd).symm.trans hc
  connected d hd hc := by
    obtain ⟨⟨-, hreader⟩, hstep⟩ := h.connected d hd hc
    refine ⟨⟨?_, hreader⟩, hstep⟩
    intro hwriter
    obtain ⟨d', -, hd'⟩ := Option.bind_eq_some_iff.mp hwriter
    cases hd'
  todo := h.todo

theorem Answering.unwatch (h : v.Answering) : (v.unwatch c).Answering where
  connecting d hd hc :=
    have hconnecting := h.connecting d hd hc
    ⟨hconnecting.1, nofun, hconnecting.2.2⟩
  connected d hd hc :=
    have hconnected := h.connected d hd hc
    ⟨⟨nofun, hconnected.1.2⟩, hconnected.2⟩
  todo := h.todo

theorem attempt_answering (hclosed : v.socket = none) (htodo : v.phase.todo = [])
    (hphase : ∀ todo, v.phase ≠ .reading false todo) : (v.attempt c r).Answering := by
  unfold TcpConn.attempt
  split
  · exact
      { connecting := by
          rintro d ⟨⟩ -
          exact ⟨⟨rfl, rfl, rfl⟩, nofun, nofun, hphase⟩
        connected := by
          rintro d ⟨⟩ ⟨⟩
        todo := fun hne => absurd htodo hne }
  · have hnone (d : Descriptor) : d ∉ v.socket := by
      rw [hclosed]
      exact nofun
    exact
      { connecting := fun d hd => absurd hd (hnone d)
        connected := fun d hd => absurd hd (hnone d)
        todo := fun hne => absurd htodo hne }

theorem reconnect_answering (htodo : v.phase.todo = [])
    (hphase : ∀ todo, v.phase ≠ .reading false todo) : (v.reconnect c r).Answering :=
  attempt_answering rfl htodo hphase

theorem Answering.accept (h : v.Answering) (hconnected : ∀ d ∈ v.socket, d.connected = true)
    (bytes : Bytes) : (v.accept cfg c bytes).Answering := by
  have hmap : { v with socket := v.socket.map (Descriptor.accepted · cfg.pipeline
      (decide (v.conn.written = 0 ∧ bytes ≠ []))) }.Answering := by
    refine ⟨?_, ?_, ?_⟩
    · intro d hd hc
      obtain ⟨d', hd', rfl⟩ := Option.map_eq_some_iff.mp hd
      cases (hconnected d' hd').symm.trans hc
    · intro d hd hc
      obtain ⟨d', hd', rfl⟩ := Option.map_eq_some_iff.mp hd
      exact h.connected d' hd' hc
    · intro hne
      obtain ⟨d, hd, hc, hle⟩ := h.todo hne
      refine ⟨_, Option.map_eq_some_iff.mpr ⟨d, hd, rfl⟩, hc, hle.trans ?_⟩
      unfold Descriptor.accepted
      split
      · exact Nat.le_add_right _ _
      · exact Nat.le_refl _
  unfold TcpConn.accept
  simp only
  split
  · exact Answering.unwatch (hmap.congr rfl rfl rfl rfl rfl)
  · exact hmap.congr rfl rfl rfl rfl rfl

/-- Only `socket_connected` has run for a socket that it is called for. -/
theorem Answering.setUp (h : v.Answering) (hidle : v.phase = .idle)
    (hcalled : v.Dispatched .socketConnected) : (v.setUp httpParser c).Answering where
  connecting := by
    intro d hd hc
    obtain ⟨d', -, rfl⟩ := Option.map_eq_some_iff.mp hd
    cases hc
  connected := by
    intro d hd _
    obtain ⟨d', hd', rfl⟩ := Option.map_eq_some_iff.mp hd
    have hconnecting : d'.connected = false := by
      by_contra hc
      obtain ⟨⟨hwriter, hreader⟩, -⟩ := h.connected d' hd' (Bool.eq_true_of_not_eq_false hc)
      exact hcalled.elim hreader hwriter
    obtain ⟨⟨-, hanswered, hflat⟩, -⟩ := h.connecting d' hd' hconnecting
    refine ⟨⟨nofun, nofun⟩, ?_⟩
    show InStep .init d'.delivered d'.answered v.phase.todo
    rw [hanswered, hidle]
    exact inStep_nothing hflat
  todo hne := by
    have hne : v.phase.todo ≠ [] := hne
    rw [hidle] at hne
    exact absurd rfl hne

/-- A chunk of a conforming server. -/
theorem Answering.deliver (h : v.Answering) {replaced : Bool} {chunk : Bytes}
    (hphase : v.phase = .reading replaced [])
    (hserver : (TcpObservation.delivered c v.socket chunk).Conforms)
    (hread : replaced = true → (HttpParser.execute v.conn.parser chunk).completions = [])
    (hopen : v.socket.isSome = true) : (v.deliver httpParser c replaced chunk).Answering := by
  obtain ⟨d, hd⟩ := Option.isSome_iff_exists.mp hopen
  obtain ⟨stream, hsent, hstream⟩ := hserver d hd
  have hsocket : (v.deliver httpParser c replaced chunk).socket = some (d.deliver chunk) :=
    congrArg (Option.map _) hd
  have htodo : (v.deliver httpParser c replaced chunk).phase.todo =
      (HttpParser.execute v.conn.parser chunk).completions := rfl
  cases hc : d.connected with
  | false =>
      obtain ⟨⟨hnone, hanswered, hflat⟩, hwriter, hreader, hnot⟩ := h.connecting d hd hc
      have hreplaced : replaced = true := by
        cases replaced with
        | true => rfl
        | false => exact absurd hphase (hnot [])
      have hempty : (d.delivered ++ [chunk]).flatten = [] := by
        have hdata := hstream.data
        have hresponses : stream.responses = [] := by
          rw [hnone] at hsent
          exact List.length_eq_zero_iff.mp (Nat.le_zero.mp hsent)
        rw [Stream.encode, hresponses] at hdata
        exact List.prefix_nil.mp hdata
      refine ⟨?_, ?_, ?_⟩
      · rw [hsocket]
        rintro _ ⟨⟩ -
        refine ⟨⟨hnone, hanswered, hempty⟩, hwriter, hreader, ?_⟩
        rintro todo ⟨⟩
        cases hreplaced
      · rw [hsocket]
        rintro _ ⟨⟩ hc'
        cases hc.symm.trans hc'
      · rw [htodo, hread hreplaced]
        exact fun hne => absurd rfl hne
  | true =>
      obtain ⟨hprocs, hstep⟩ := h.connected d hd hc
      rw [hphase] at hstep
      have hnext := InStep.deliver hstep hstream
      refine ⟨?_, ?_, ?_⟩
      · rw [hsocket]
        rintro _ ⟨⟩ hc'
        cases hc.symm.trans hc'
      · rw [hsocket]
        rintro _ ⟨⟩ -
        exact ⟨hprocs, hnext⟩
      · intro _
        refine ⟨_, hsocket, hc, ?_⟩
        have hcounted := hnext.counted stream hstream
        have hle := stream.completed_le (d.delivered ++ [chunk])
        rw [htodo]
        show d.answered + _ ≤ d.sent
        omega

/-- A response is counted. -/
theorem Answering.answer (h : v.Answering) {replaced : Bool} {m : Completion}
    {ms : List Completion} (hphase : v.phase = .reading replaced (m :: ms))
    (hlast : m.keepAlive = false → ms = []) (now : ℕ) (counted : Bool) :
    ((TcpAct.answer m now counted r).apply cfg httpParser c v).Answering := by
  have htodo : v.phase.todo = m :: ms := by rw [hphase]; rfl
  have hnext : TcpAct.replaced v.phase = replaced ∧ TcpAct.rest v.phase = ms := by
    rw [hphase]
    exact ⟨rfl, rfl⟩
  obtain ⟨d, hd, hc, hle⟩ := h.todo (by rw [htodo]; exact nofun)
  rw [htodo, List.length_cons] at hle
  obtain ⟨⟨hwriter, hreader⟩, hstep⟩ := h.connected d hd hc
  rw [htodo] at hstep
  simp only [TcpAct.apply, hnext.1, hnext.2]
  split
  · rename_i halive
    have hsocket : (v.respond cfg c now counted).socket = some d.answer := by
      rw [(respond_conn cfg v now counted).2.2, hd]
      rfl
    refine ⟨?_, ?_, ?_⟩
    · rintro d' hd' hc'
      cases hsocket.symm.trans hd'
      cases hc.symm.trans hc'
    · rintro d' hd' -
      cases hsocket.symm.trans hd'
      refine ⟨⟨?_, ?_⟩, ?_⟩
      · exact respond_writer now counted hwriter
      · exact fun hconnected => hreader ((respond_reader v c now counted).symm.trans hconnected)
      · show InStep (v.respond cfg c now counted).conn.parser _ _ _
        rw [respond_keepsParser]
        exact hstep.answer halive
    · intro _
      refine ⟨_, hsocket, hc, ?_⟩
      show d.answered + 1 + ms.length ≤ d.sent
      omega
  · rename_i hclosing
    have hclosing : m.keepAlive = false := Bool.eq_false_iff.mpr hclosing
    refine reconnect_answering (hlast hclosing) ?_
    rw [hclosing]
    intro todo htodo
    cases replaced <;> cases htodo

theorem Answering.apply (hw : v.Wired) (h : v.Answering) (ha : a.Allowed httpParser c v)
    (hp : firesConnected.Meets v a)
    (hserver : ∀ o ∈ (a.apply cfg httpParser c v).trace, o.Conforms) :
    (a.apply cfg httpParser c v).Answering := by
  cases a with
  | call kind => exact h.congr rfl rfl rfl rfl rfl
  | pace pacer => exact h.congr rfl rfl rfl rfl rfl
  | postpone => exact (h.unwatch (c := c)).congr rfl rfl rfl rfl rfl
  | prepare script now =>
      obtain ⟨hidle, -⟩ := ha
      have hprepared : (v.prepare cfg c script now).Answering := by
        unfold TcpConn.prepare Connection.startBatch
        simp only
        split <;> split <;> exact h.congr rfl rfl rfl rfl rfl
      have hphase : (v.prepare cfg c script now).phase = .idle := by
        unfold TcpConn.prepare
        simp only
        split <;> exact hidle
      exact hprepared.phase (by rw [hphase]; rfl) rfl fun _ _ _ _ => nofun
  | accept bytes =>
      obtain ⟨hphase, hcalled, -⟩ := ha
      have haccepted : (v.accept cfg c bytes).phase = v.phase := by
        unfold TcpConn.accept
        simp only
        split <;> rfl
      refine (h.accept (h.writes hw hcalled) bytes).idle ?_
      rw [haccepted]
      rcases hphase with hphase | ⟨hphase, -⟩ <;> rw [hphase] <;> rfl
  | blocked =>
      refine h.idle ?_
      rcases ha.1 with hphase | ⟨hphase, -⟩ <;> rw [hphase] <;> rfl
  | connect pacer r unborn =>
      obtain ⟨hidle, hclosed, -⟩ := ha
      have hattempt : ({ v with conn := { v.conn with pacer := pacer } }.attempt c r).Answering :=
        attempt_answering hclosed (congrArg Phase.todo hidle) fun todo hreading => by
          cases hidle.symm.trans hreading
      exact hattempt.congr rfl rfl rfl rfl rfl
  | reconnect r =>
      show { v.reconnect c r with phase := .idle }.Answering
      rw [reconnect_phase]
      exact reconnect_answering rfl fun _ => nofun
  | setUp => exact h.setUp ha.1 ha.2.1
  | enter =>
      obtain ⟨hidle, hcalled⟩ := ha
      refine h.phase (congrArg Phase.todo hidle) rfl ?_
      intro d hd hc todo _
      obtain ⟨-, -, hreader, -⟩ := h.connecting d hd hc
      rcases hcalled with hread | hwrite
      · exact hreader hread
      · rcases hw.writers _ hwrite with h | h <;> cases h
  | leave =>
      obtain ⟨replaced, hphase⟩ := ha
      exact h.idle (congrArg Phase.todo hphase)
  | deliver chunk =>
      obtain ⟨hopen, ⟨replaced, hphase⟩, -⟩ := ha
      have hread : TcpAct.replaced v.phase = true → ∀ chunk,
          (HttpParser.execute v.conn.parser chunk).completions = [] := hp
      have hconforms := hserver _ (List.mem_cons_self ..)
      rw [hphase] at hread
      show (v.deliver httpParser c (TcpAct.replaced v.phase) chunk).Answering
      rw [hphase]
      exact h.deliver hphase hconforms (fun hreplaced => hread hreplaced chunk) hopen
  | answer m now counted r =>
      obtain ⟨-, replaced, ms, hphase, hlast⟩ := ha
      exact h.answer hphase hlast now counted
  | fire waits => exact (h.watch (c := c) hp).congr rfl rfl rfl rfl rfl

/-- The only step that completes a response completes one that was asked
for. -/
theorem Answering.answers (h : v.Answering) (ha : a.Allowed httpParser c v)
    (hold : ∀ o ∈ v.trace, o.Answers) : ∀ o ∈ (a.apply cfg httpParser c v).trace, o.Answers := by
  obtain ⟨new, htrace, hnew⟩ := apply_adds cfg ha
  intro o ho
  rw [htrace] at ho
  rcases List.mem_append.mp ho with ho | ho
  · cases o with
    | response c' target pending timing =>
        rcases hnew _ ho with hobserves | hkept
        · cases a with
          | answer m now counted r =>
              obtain ⟨-, replaced, ms, hphase, -⟩ := ha
              obtain ⟨_, _, ⟨⟩⟩ := hobserves
              obtain ⟨d, hd, -, hle⟩ := h.todo (by rw [hphase]; exact nofun)
              rw [hphase] at hle
              have hle : d.answered + (ms.length + 1) ≤ d.sent := hle
              exact ⟨d, hd, by omega⟩
          | _ => cases hobserves
        · exact hkept.elim
    | _ => trivial
  · exact hold o ho

end TcpConn

theorem tcpConn_answering {cfg : Config} {c : ℕ} {v : TcpConn HttpParser}
    (hv : (tcpConn cfg httpParser c).ReachableWith TcpConn.firesConnected.Meets v) :
    (∀ o ∈ v.trace, o.Conforms) → v.Answering ∧ ∀ o ∈ v.trace, o.Answers := by
  refine tcpConn_invariant (I := fun v => (∀ o ∈ v.trace, o.Conforms) →
    v.Answering ∧ ∀ o ∈ v.trace, o.Answers) ?_ ?_ hv
  · intro _
    exact ⟨⟨nofun, nofun, fun hne => absurd rfl hne⟩, nofun⟩
  · intro v a hw h ha hp hserver
    obtain ⟨new, htrace, -⟩ := TcpConn.apply_adds cfg ha
    obtain ⟨hanswering, hanswers⟩ := h fun o ho =>
      hserver o (htrace ▸ List.mem_append_right new ho)
    exact ⟨hanswering.apply hw ha hp hserver, hanswering.answers ha hanswers⟩

/-! ## A thread -/

theorem SendsWhenIdle.admitted {s : TcpThread HttpParser} {e : TcpEvent}
    (h : SendsWhenIdle s e) : s.Admitted TcpConn.firesConnected ParserStops e := by
  cases e with
  | readable fd a =>
      refine ⟨fun _ _ _ => trivial, fun _ _ => trivial, fun _ => Or.inr ?_⟩
      rintro _ _ ⟨⟩ (h | ⟨m, hm, -⟩)
      · cases h
      · cases hm
  | writable fd a =>
      exact ⟨fun _ _ _ => trivial, fun _ _ => trivial,
        fun _ => ⟨fun _ => trivial, fun _ _ _ => trivial⟩⟩
  | timer id a =>
      intro te hte
      refine ⟨fun _ _ _ => trivial, ?_⟩
      intro hproc hsend
      have hidle := h te hte hproc hsend
      refine ⟨fun d hd => (hidle d hd).1, ?_⟩
      rw [seen_usecToNextSend]
      intro d hd
      exact (hidle d (socketOf_eq_some.mp hd).1).2.1

/-! ## The responses of a thread -/

/-- A run of `response_complete`. -/
def TcpObservation.isResponse : TcpObservation → Bool
  | .response .. => true
  | _ => false

/-- A response that was counted. -/
def TcpObservation.isCounted : TcpObservation → Bool
  | .response _ _ _ (some _) => true
  | _ => false

namespace TcpThread

variable {π : Type*} {cfg : Config} {P : ResponseParser π} {c fd : ℕ} {s s' s₁ : TcpThread π}
  {mask : Mask} {proc : FileProc} {o : TcpObservation} {a : Answers}

/-- `thread->complete` is the number of responses that were counted, which
are all of them until `stop_at` has passed. -/
structure Tallied (cfg : Config) (s : TcpThread π) : Prop where
  counted : s.complete = s.trace.countP (·.isCounted)
  all : s.clock < cfg.stopAt → s.complete = s.trace.countP (·.isResponse)

/-- No response is completed. -/
structure Quiet (s s' : TcpThread π) : Prop where
  complete : s'.complete = s.complete
  clock : s.clock ≤ s'.clock
  trace : ∃ new, s'.trace = new ++ s.trace ∧ ∀ o ∈ new, o.isResponse = false

theorem Quiet.same (hcomplete : s'.complete = s.complete) (hclock : s.clock ≤ s'.clock)
    (htrace : s'.trace = s.trace) : s.Quiet s' := ⟨hcomplete, hclock, [], htrace, nofun⟩

theorem Quiet.cons (hcomplete : s'.complete = s.complete) (hclock : s.clock ≤ s'.clock)
    (htrace : s'.trace = o :: s.trace) (ho : o.isResponse = false) : s.Quiet s' :=
  ⟨hcomplete, hclock, [o], htrace, fun _ ho' => List.mem_singleton.mp ho' ▸ ho⟩

theorem Quiet.refl (s : TcpThread π) : s.Quiet s := .same rfl (Nat.le_refl _) rfl

theorem Quiet.trans (h : s.Quiet s₁) (h' : s₁.Quiet s') : s.Quiet s' where
  complete := h'.complete.trans h.complete
  clock := h.clock.trans h'.clock
  trace := by
    obtain ⟨new, htrace, hnew⟩ := h.trace
    obtain ⟨new', htrace', hnew'⟩ := h'.trace
    refine ⟨new' ++ new, by rw [htrace', htrace, List.append_assoc], ?_⟩
    intro o ho
    exact (List.mem_append.mp ho).elim (hnew' o) (hnew o)

theorem isCounted_isResponse (h : o.isCounted = true) : o.isResponse = true := by
  cases o with
  | response c target pending timing => rfl
  | _ => cases h

theorem Tallied.quiet (h : s.Tallied cfg) (hs : s.Quiet s') : s'.Tallied cfg := by
  obtain ⟨new, htrace, hnew⟩ := hs.trace
  have hresponse : new.countP (·.isResponse) = 0 :=
    List.countP_eq_zero.mpr fun o ho => by rw [hnew o ho]; exact Bool.false_ne_true
  have hcounted : new.countP (·.isCounted) = 0 :=
    List.countP_eq_zero.mpr fun o ho hcounted => by
      cases (hnew o ho).symm.trans (isCounted_isResponse hcounted)
  refine ⟨?_, ?_⟩
  · rw [hs.complete, htrace, List.countP_append, hcounted, Nat.zero_add, h.counted]
  · intro hclock
    rw [hs.complete, htrace, List.countP_append, hresponse, Nat.zero_add]
    exact h.all (Nat.lt_of_le_of_lt hs.clock hclock)

theorem tick_quiet (dt : ℕ) : s.Quiet (s.tick dt) := .same rfl (Nat.le_add_right _ _) rfl

theorem access_quiet {kind : Access} : s.Quiet (s.access kind c fd) :=
  .cons rfl (Nat.le_refl _) rfl rfl

theorem createFileEvent_quiet : s.Quiet (s.createFileEvent c fd mask proc) := by
  rcases s.createFileEvent_cases c fd mask proc with h | ⟨-, -, h⟩ <;> rw [h] <;>
    exact .cons rfl (Nat.le_refl _) rfl rfl

theorem tcpConnectSocket_quiet (connect : ConnectOutcome) :
    s.Quiet (s.tcpConnectSocket c connect) := by
  cases connect with
  | noSocket => exact .same rfl (Nat.le_refl _) rfl
  | failed => exact .cons rfl (Nat.le_refl _) rfl rfl
  | started =>
      have hregister : s.Quiet ((s.openSocket c).access .register c s.fds.lowest) :=
        .cons rfl (Nat.le_refl _) rfl rfl
      simp only [tcpConnectSocket]
      split
      · exact hregister.trans (.same rfl (Nat.le_refl _) rfl)
      · exact hregister.trans (.cons rfl (Nat.le_refl _) rfl rfl)

theorem tcpReconnectSocket_quiet (connect : ConnectOutcome) :
    s.Quiet (s.tcpReconnectSocket c connect) := by
  have hdelete : s.Quiet (s.deleteFileEvent c (s.conns c).fd .both) :=
    .cons rfl (Nat.le_refl _) rfl rfl
  have hclose : (s.deleteFileEvent c (s.conns c).fd .both).Quiet
      ((s.deleteFileEvent c (s.conns c).fd .both).close c (s.conns c).fd) :=
    .cons rfl (Nat.le_refl _) rfl rfl
  exact (hdelete.trans hclose).trans (tcpConnectSocket_quiet connect)

theorem usecToNextSend_quiet (dt : ℕ) : s.Quiet ((s.tick dt).usecToNextSend c).2 :=
  .same rfl (Nat.le_add_right _ _) rfl

theorem advanceWritten_quiet {n : ℕ} : s.Quiet (s.advanceWritten c n) := by
  unfold advanceWritten
  simp only
  split
  · exact .cons rfl (Nat.le_refl _) rfl rfl
  · exact .same rfl (Nat.le_refl _) rfl

theorem sockWrite_quiet (cfg : Config) (connect : ConnectOutcome) :
    ∀ (status : Status ℕ) {s : TcpThread π}, s.Quiet (sockWrite cfg s c connect status)
  | .ok n, s => by
      simp only [sockWrite]
      split
      · have haccept : (s.access .write c (s.conns c).fd).Quiet (accept cfg
            (s.access .write c (s.conns c).fd) c (acceptedBytes (s.conns c) n)) :=
          .cons rfl (Nat.le_refl _) rfl rfl
        exact (access_quiet.trans haccept).trans advanceWritten_quiet
      · have herror : (s.access .write c (s.conns c).fd).Quiet
            (s.access .write c (s.conns c).fd).writeError := .same rfl (Nat.le_refl _) rfl
        exact (access_quiet.trans herror).trans (tcpReconnectSocket_quiet connect)
  | .error, s => by
      have herror : (s.access .write c (s.conns c).fd).Quiet
          (s.access .write c (s.conns c).fd).writeError := .same rfl (Nat.le_refl _) rfl
      exact (access_quiet.trans herror).trans (tcpReconnectSocket_quiet connect)
  | .retry, _ => access_quiet
  | .again next, _ => access_quiet.trans (sockWrite_quiet cfg connect next)

theorem prepareBatch_quiet (cfg : Config) (a : Answers) : s.Quiet (prepareBatch cfg s c a) := by
  unfold prepareBatch
  simp only
  split
  · exact .cons rfl (Nat.le_add_right _ _) rfl rfl
  · exact .same rfl (Nat.le_add_right _ _) rfl

theorem sockWriteable_quiet (cfg : Config) (a : Answers) :
    s.Quiet (sockWriteable cfg s c a) := by
  unfold sockWriteable
  simp only
  split
  · split
    · exact (usecToNextSend_quiet a.dt).trans (.cons rfl (Nat.le_refl _) rfl rfl)
    · exact ((usecToNextSend_quiet a.dt).trans (prepareBatch_quiet cfg a)).trans
        (sockWrite_quiet cfg a.connect a.write)
  · exact sockWrite_quiet cfg a.connect a.write

theorem decrementPending_quiet : s.Quiet (s.decrementPending c) := by
  unfold decrementPending
  simp only
  split
  · have hset : s.Quiet (s.setConn c { s.conns c with
        pending := u64Sub (s.conns c).pending 1, hasPending := false }) :=
      .same rfl (Nat.le_refl _) rfl
    exact hset.trans createFileEvent_quiet
  · exact .same rfl (Nat.le_refl _) rfl

theorem socketConnected_quiet (P : ResponseParser π) (connect : ConnectOutcome) :
    ∀ (status : Status Unit) {s : TcpThread π}, s.Quiet (socketConnected P s fd c connect status)
  | .ok _, s => by
      have hset : s.Quiet (s.setConn c { s.conns c with parser := P.init, written := 0 }) :=
        .same rfl (Nat.le_refl _) rfl
      exact ((hset.trans createFileEvent_quiet).trans createFileEvent_quiet).trans
        (.same rfl (Nat.le_refl _) rfl)
  | .error, s => by
      have herror : s.Quiet s.connectError := .same rfl (Nat.le_refl _) rfl
      exact herror.trans (tcpReconnectSocket_quiet connect)
  | .retry, s => .refl s
  | .again next, _ => socketConnected_quiet P connect next

theorem statsRequestCompleted_tallied (h : s.Tallied cfg) (target : Option Descriptor) :
    (statsRequestCompleted cfg s c target).Tallied cfg := by
  unfold statsRequestCompleted
  split
  · rename_i hstop
    refine ⟨h.counted, ?_⟩
    intro hclock
    exact absurd hstop (Nat.not_le.mpr hclock)
  · refine ⟨?_, ?_⟩
    · exact (congrArg (· + 1) h.counted).trans (List.countP_cons_of_pos rfl).symm
    · intro hclock
      exact (congrArg (· + 1) (h.all hclock)).trans (List.countP_cons_of_pos rfl).symm

theorem responseComplete_tallied (h : s.Tallied cfg) (m : Completion) (a : ResponseAnswers) :
    (responseComplete cfg s c m a).Tallied cfg := by
  have hstatus : s.Quiet (if 399 < m.status then s.statusError else s) := by
    split
    · exact .same rfl (Nat.le_refl _) rfl
    · exact .refl s
  have hanswered : (if 399 < m.status then s.statusError else s).Quiet
      ((if 399 < m.status then s.statusError else s).responseAnswered c) :=
    .same rfl (Nat.le_refl _) rfl
  have hpending := (hstatus.trans hanswered).trans (decrementPending_quiet (c := c))
  have hticked := hpending.trans (tick_quiet a.dt)
  have hcounted := statsRequestCompleted_tallied (c := c) (h.quiet hticked) (s.current c)
  simp only [responseComplete]
  split
  · exact hcounted
  · exact hcounted.quiet (tcpReconnectSocket_quiet a.connect)

theorem responsesComplete_tallied : ∀ (ms : List Completion) (as : List ResponseAnswers)
    {s : TcpThread π}, s.Tallied cfg → (responsesComplete cfg c s ms as).Tallied cfg
  | [], _, _, h => h
  | m :: ms, as, _, h =>
      responsesComplete_tallied ms as.tail (responseComplete_tallied h m (as.headD {}))

theorem parseChunk_tallied (h : s.Tallied cfg) (chunk : Bytes) (answers : List ResponseAnswers) :
    (parseChunk cfg P s c chunk answers).2.Tallied cfg := by
  have hdeliver : s.Quiet ((s.deliver c chunk).setConn c { (s.deliver c chunk).conns c with
      parser := (P.execute ((s.deliver c chunk).conns c).parser chunk).parser }) :=
    .cons rfl (Nat.le_refl _) rfl rfl
  exact responsesComplete_tallied _ _ (h.quiet hdeliver)

theorem received_quiet (n : ℕ) : s.Quiet (s.received n) := .same rfl (Nat.le_refl _) rfl

theorem readFailed_quiet (connect : ConnectOutcome) : s.Quiet (s.readFailed c connect) := by
  have herror : s.Quiet s.readError := .same rfl (Nat.le_refl _) rfl
  exact herror.trans (tcpReconnectSocket_quiet connect)

theorem socketReadable_tallied (connect : ConnectOutcome) : ∀ (reads : List Read)
    {s : TcpThread π}, s.Tallied cfg → (socketReadable cfg P c connect s reads).Tallied cfg
  | [], _, h => h
  | .error :: _, _, h => h.quiet (access_quiet.trans (readFailed_quiet connect))
  | .retry :: _, _, h => h.quiet access_quiet
  | .again :: reads, _, h => socketReadable_tallied connect reads (h.quiet access_quiet)
  | .data chunk answers :: reads, s, h => by
      have hread : (s.access .read c (s.conns c).fd).Tallied cfg := h.quiet access_quiet
      rw [socketReadable]
      split
      · have hparsed := parseChunk_tallied (P := P) (c := c) hread (chunk.take cfg.recvbuf) answers
        simp only
        split
        · exact hparsed.quiet (readFailed_quiet connect)
        · have hreceived := hparsed.quiet (received_quiet (chunk.take cfg.recvbuf).length)
          split
          · exact socketReadable_tallied connect reads hreceived
          · exact hreceived
      · exact hread.quiet (readFailed_quiet connect)

theorem runFileProc_tallied (h : s.Tallied cfg) (hrun : s.runFileProc cfg P fd c a proc = some s') :
    s'.Tallied cfg := by
  cases proc with
  | socketConnected =>
      obtain rfl := Option.some.inj hrun
      exact h.quiet (socketConnected_quiet P a.connect a.connected)
  | socketReadable =>
      obtain rfl := Option.some.inj hrun
      exact socketReadable_tallied a.connect a.reads h
  | socketWriteable =>
      rw [runFileProc] at hrun
      split at hrun
      · obtain rfl := Option.some.inj hrun
        exact h.quiet (sockWriteable_quiet cfg a)
      · cases hrun

theorem runTimeEvent_quiet (s : TcpThread π) (te : TimeEvent TimeProc ℕ) (a : Answers) :
    s.Quiet (s.runTimeEvent te a) := by
  unfold runTimeEvent
  split
  · have hset : s.Quiet ((s.tick a.dt).setConn te.clientData
        { (s.tick a.dt).conns te.clientData with
          pacer := { ((s.tick a.dt).conns te.clientData).pacer with
            threadStart := (s.tick a.dt).clock } }) := .same rfl (Nat.le_add_right _ _) rfl
    exact (hset.trans (tcpConnectSocket_quiet a.connect)).trans (.same rfl (Nat.le_refl _) rfl)
  · have hdelay : s.Quiet (s.delayRequest te.clientData a).2 := by
      unfold delayRequest
      simp only
      split
      · exact usecToNextSend_quiet a.dt
      · exact (usecToNextSend_quiet a.dt).trans createFileEvent_quiet
    simp only
    split
    · exact hdelay.trans (.same rfl (Nat.le_refl _) rfl)
    · exact hdelay

end TcpThread

theorem tcp_tallied {π : Type*} {cfg : Config} {P : ResponseParser π}
    {ok : TcpThread π → TcpEvent → Prop} {s : TcpThread π}
    (hs : (tcpThread cfg P).ReachableWith ok s) : s.Tallied cfg := by
  refine hs.invariant (P := fun s => s.Tallied cfg) ?_ ?_
  · rintro s ⟨clock, reserved, rfl⟩
    exact ⟨rfl, fun _ => rfl⟩
  · intro s e s' h hstep _
    have hstep : tcpStep cfg P s e = some s' := hstep
    cases e with
    | readable fd a =>
        obtain ⟨proc, -, hrun⟩ := Option.bind_eq_some_iff.mp hstep
        exact runFileProc_tallied h hrun
    | writable fd a =>
        obtain ⟨proc, -, hrun⟩ := Option.bind_eq_some_iff.mp hstep
        exact runFileProc_tallied h hrun
    | timer id a =>
        obtain ⟨te, -, rfl⟩ := Option.map_eq_some_iff.mp hstep
        exact h.quiet (runTimeEvent_quiet s te a)

/-- In every run whose `delay_request` timers never find it time to send on a
socket that is not connected yet or has a batch under way, and whose server
sends at most one response for each request, in a form that the parser
follows: a batch starts when all earlier requests are answered;
`response_complete` runs for one request after the other and leaves
`c->pending` at the number of those still unanswered; after each event it has
run once for each response that was read of the current sockets, and
`c->pending` is what is left of a batch; and `thread->complete` counts its
runs, until `stop_at` has passed. -/
theorem tcp_one_response_each (cfg : Config) (hbuf : 0 < cfg.recvbuf) {s : TcpThread HttpParser}
    (hs : (tcpThread cfg httpParser).ReachableWith SendsWhenIdle s)
    (hserver : ∀ o ∈ s.trace, o.Conforms) :
    (∀ c target bytes, .accepted c target true bytes ∈ s.trace →
        ∃ d, target = some d ∧ d.sent = d.answered) ∧
      (∀ c target pending timing, .response c target pending timing ∈ s.trace →
        ∃ d, target = some d ∧ d.answered < d.sent ∧ pending = d.sent - (d.answered + 1)) ∧
      (∀ c fd d, s.fds.get fd = some d → d.owner = some c →
        (∀ stream : Stream, stream.Delivers d.delivered →
            stream.completed d.delivered = d.answered) ∧
          d.answered ≤ d.sent ∧ d.sent - d.answered ≤ cfg.pipeline ∧
          (d.answered < d.sent → (s.conns c).pending = d.sent - d.answered)) ∧
      s.complete = s.trace.countP (·.isCounted) ∧
      (s.clock < cfg.stopAt → s.complete = s.trace.countP (·.isResponse)) := by
  obtain ⟨-, howned, hruns⟩ := tcp_conn_reachable
    (fun _ => parserStops_rule hbuf (fun _ h => h) (fun _ => trivial) fun _ _ => trivial)
    (fun _ _ _ _ _ h => SendsWhenIdle.admitted h) hs
  have hanswering (c : ℕ) : (s.seen c .idle).Answering ∧
      ∀ o ∈ (s.seen c .idle).trace, o.Answers :=
    tcpConn_answering (hruns c) fun o ho => hserver o (List.mem_of_mem_filter ho)
  have hanswers : ∀ o ∈ s.trace, o.Answers := by
    intro o ho
    exact (hanswering o.conn).2 o (List.mem_filter.mpr ⟨ho, decide_eq_true rfl⟩)
  obtain ⟨-, -, hgood⟩ := tcp_good hs
  have htallied := tcp_tallied hs
  refine ⟨?_, ?_, ?_, htallied.counted, htallied.all⟩
  · intro c target bytes ho
    exact (hgood c hanswers).2 _ ho rfl
  · intro c target pending timing ho
    obtain ⟨d, hd, hlt⟩ := hanswers _ ho
    exact ⟨d, hd, hlt, (hgood c hanswers).2 _ ho d hd⟩
  · intro c fd d hd hown
    have hname := howned.name fd d c hd hown
    subst hname
    have hok := (hgood c hanswers).1 d hd hown
    refine ⟨?_, hok.answered, hok.bound, hok.pending⟩
    intro stream hstream
    have hsocket : d ∈ (s.seen c .idle).socket := socketOf_eq_some.mpr ⟨hd, hown⟩
    cases hc : d.connected with
    | true => exact ((hanswering c).1.connected d hsocket hc).2.counted stream hstream
    | false =>
        obtain ⟨⟨-, hanswered, hflat⟩, -⟩ := (hanswering c).1.connecting d hsocket hc
        rw [hanswered]
        exact (inStep_nothing hflat).counted stream hstream

/-- `emptyResponse`, field by field. -/
def emptyBody : Response where
  status := [50, 48, 48]
  reason := [79, 75]
  fields := [⟨"Content-Length".toUTF8.toList, [space, 48], by decide +kernel, by decide +kernel,
    by decide +kernel⟩]
  framing := .length []
  status_length := rfl
  status_digits := by decide +kernel
  final := by decide
  reason_text := by decide +kernel
  announced := by
    refine ⟨⟨_, List.mem_singleton_self _, by decide +kernel⟩, ?_⟩
    intro f hf
    rw [List.mem_singleton.mp hf]
    exact ⟨fun _ => ⟨[48], ⟨[space], [], rfl, by decide +kernel, nofun⟩,
      by decide +kernel, by decide +kernel, rfl, by decide⟩, by decide +kernel⟩
  no_upgrade := by
    rintro ⟨f, hf, hname⟩
    rw [List.mem_singleton.mp hf] at hname
    exact absurd hname (by decide +kernel)
  short := by decide +kernel

theorem emptyBody_encode : emptyBody.encode = emptyResponse := by decide +kernel

/-- A server that has answered one request. -/
def oneAnswer : Stream := ⟨[emptyBody], nofun⟩

/-- What was read, and from which socket. -/
def TcpObservation.chunk? : TcpObservation → Option (Option Descriptor × Bytes)
  | .delivered _ target chunk => some (target, chunk)
  | _ => none

theorem tcp_one_response_each_one : ∃ s,
    (tcpThread twoConnections httpParser).ReachableWith SendsWhenIdle s ∧
      (∀ o ∈ s.trace, o.Conforms) ∧ s.complete = 1 ∧
      (∃ pending timing, .response 0 (some ⟨some 0, true, 1, 0, [emptyResponse]⟩) pending timing ∈
        s.trace ∧ pending = 0) ∧
      ∃ d, s.fds.get 4 = some d ∧ oneAnswer.completed d.delivered = d.answered ∧
        s.complete = s.trace.countP (·.isCounted) := by
  obtain ⟨s, hs, hview⟩ : ∃ s,
      (tcpThread twoConnections httpParser).ReachableWith SendsWhenIdle s ∧
      (s.trace.filterMap TcpObservation.chunk?, s.fds.get 4, s.trace.head?, s.complete) =
        ([(some ⟨some 0, true, 1, 0, []⟩, emptyResponse)],
          some ⟨some 0, true, 1, 1, [emptyResponse]⟩,
          some (.response 0 (some ⟨some 0, true, 1, 0, [emptyResponse]⟩) 0
            (some ⟨true, 720, 5, 20, 715, 700, true⟩)), 1) :=
    exists_reachableWith_of_runEvents (fun s : TcpThread HttpParser =>
      (s.trace.filterMap TcpObservation.chunk?, s.fds.get 4, s.trace.head?, s.complete)) oneRequest
      twoConnectionsStart_initial (by decide +kernel)
  obtain ⟨hchunks, hfd, hlast, hcomplete⟩ : _ ∧ _ ∧ _ ∧ _ := by
    simpa only [Prod.mk.injEq] using hview
  have hdelivers : oneAnswer.Delivers [emptyResponse] := by
    refine ⟨?_, ?_⟩
    · rw [Stream.encode, oneAnswer, List.flatMap_singleton, emptyBody_encode,
        List.flatten_singleton]
    · intro before after hsplit
      have hmem : ([] : Bytes) ∈ [emptyResponse] := by
        rw [hsplit]
        simp
      exact absurd (List.mem_singleton.mp hmem) (by decide +kernel)
  have hserver : ∀ o ∈ s.trace, o.Conforms := by
    intro o ho
    cases o with
    | delivered c target chunk =>
        have hmem : (target, chunk) ∈ s.trace.filterMap TcpObservation.chunk? :=
          List.mem_filterMap.mpr ⟨_, ho, rfl⟩
        rw [hchunks] at hmem
        obtain ⟨rfl, rfl⟩ := Prod.mk.inj (List.mem_singleton.mp hmem)
        rintro d ⟨⟩
        exact ⟨oneAnswer, Nat.le_refl 1, hdelivers⟩
    | _ => trivial
  obtain ⟨-, hresponses, hsockets, hcounted, -⟩ :=
    tcp_one_response_each twoConnections (by decide) hs hserver
  have hmem := List.mem_of_mem_head? hlast
  obtain ⟨d, ⟨⟩, -, hpending⟩ := hresponses _ _ _ _ hmem
  exact ⟨s, hs, hserver, hcomplete, ⟨_, _, hmem, hpending⟩, _, hfd,
    (hsockets 0 4 _ hfd rfl).1 oneAnswer hdelivers, hcounted⟩

/-- An interim response before the final one. -/
def continued : Bytes := "HTTP/1.1 100 Continue\r\n\r\n".toUTF8.toList ++ emptyResponse

def interimResponse : List TcpEvent :=
  [.timer 0 { dt := 5 }, .writable 4 { dt := 10 },
    .writable 4 { dt := 10, startDt := 5, write := .ok 18 },
    .readable 4 { reads := [.data continued []] }]

def headConnections : Config :=
  { twoConnections with request := "HEAD / HTTP/1.1\r\n\r\n".toUTF8.toList }

/-- The answer to `HEAD` has the length of the body that `GET` would get. -/
def headResponse : List TcpEvent :=
  [.timer 0 { dt := 5 }, .writable 4 { dt := 10 },
    .writable 4 { dt := 10, startDt := 5, write := .ok 19 },
    .readable 4 { reads :=
      [.data "HTTP/1.1 200 OK\r\nContent-Length: 5\r\n\r\n".toUTF8.toList []] }]

/-- The interim response is counted as the answer, and the answer takes
`c->pending` below 0. The answer to `HEAD` is not completed. -/
theorem interim_and_head_miscounted :
    (∃ s, (tcpThread twoConnections httpParser).ReachableWith SendsWhenIdle s ∧
      (∃ d timing, .response 0 (some d) (2 ^ 64 - 1) timing ∈ s.trace ∧ d.sent = d.answered) ∧
      s.complete = 2 ∧ ∃ d, s.fds.get 4 = some d ∧ d.sent = 1 ∧ d.answered = 2) ∧
    ∃ s, (tcpThread headConnections httpParser).ReachableWith SendsWhenIdle s ∧
      s.complete = 0 ∧ (s.conns 0).pending = 1 ∧
      ∃ d, s.fds.get 4 = some d ∧ d.sent = 1 ∧ d.answered = 0 ∧ d.delivered ≠ [] := by
  refine ⟨?_, ?_⟩
  · obtain ⟨s, hs, hview⟩ : ∃ s,
        (tcpThread twoConnections httpParser).ReachableWith SendsWhenIdle s ∧
        (s.fds.get 4, s.trace.head?, s.complete) =
          (some ⟨some 0, true, 1, 2, [continued]⟩,
            some (.response 0 (some ⟨some 0, true, 1, 1, [continued]⟩) (2 ^ 64 - 1)
              (some ⟨true, 20, 5, 20, 15, 0, true⟩)), 2) :=
      exists_reachableWith_of_runEvents (fun s : TcpThread HttpParser =>
        (s.fds.get 4, s.trace.head?, s.complete)) interimResponse
        twoConnectionsStart_initial (by decide +kernel)
    obtain ⟨hfd, hlast, hcomplete⟩ : _ ∧ _ ∧ _ := by simpa only [Prod.mk.injEq] using hview
    exact ⟨s, hs, ⟨_, _, List.mem_of_mem_head? hlast, rfl⟩, hcomplete, _, hfd, rfl, rfl⟩
  · obtain ⟨s, hs, hview⟩ : ∃ s,
        (tcpThread headConnections httpParser).ReachableWith SendsWhenIdle s ∧
        (s.complete, (s.conns 0).pending, (s.fds.get 4).map fun d : Descriptor =>
          (d.sent, d.answered, d.delivered.length)) = (0, 1, some (1, 0, 1)) :=
      exists_reachableWith_of_runEvents (fun s : TcpThread HttpParser =>
        (s.complete, (s.conns 0).pending, (s.fds.get 4).map fun d : Descriptor =>
          (d.sent, d.answered, d.delivered.length))) headResponse
        (s := .initial headConnections httpParser 0 (.firstOpen 4 ()))
        ⟨0, .firstOpen 4 (), rfl⟩ (by decide +kernel)
    obtain ⟨hcomplete, hpending, hfd⟩ : _ ∧ _ ∧ _ := by simpa only [Prod.mk.injEq] using hview
    obtain ⟨d, hd, hcounts⟩ := Option.map_eq_some_iff.mp hfd
    obtain ⟨hsent, hanswered, hdelivered⟩ : _ ∧ _ ∧ _ := by
      simpa only [Prod.mk.injEq] using hcounts
    refine ⟨s, hs, hcomplete, hpending, d, hd, hsent, hanswered, ?_⟩
    intro hnone
    rw [hnone] at hdelivered
    cases hdelivered

end WrkQuic
