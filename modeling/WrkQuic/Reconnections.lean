import WrkQuic.ReadBoundaries
import WrkQuic.TcpEnd

/-!
# Reconnections in one call

`response_complete` reconnects while `http_parser_execute` is still working on
the chunk. What follows the response there is given to a dead parser, which
takes line ends only: at any other byte `socket_readable` counts a read error
and reconnects once more, which closes the new socket. The same happens when
the chunk has filled the buffer and the loop goes on to read the new socket.

A call reconnects at most once, and without a read error if a response made
it, exactly when nothing of this happens.
-/

namespace WrkQuic

open Runs

namespace HttpParser

variable {p : HttpParser}

/-- What a dead parser takes of a chunk to its end. -/
def Takes (p : HttpParser) (u : Bytes) : Prop := u = [] ∨ LineEnds p u

theorem dead_scan_consumed (hdead : p.state = .dead) (u : Bytes) (done : ℕ) :
    (scan p none done u).consumed = done + u.length ↔ p.Takes u := by
  by_cases hlimit : p.nread ≤ httpMaxHeaderSize
  · obtain ⟨-, hconsumed, -⟩ := scanData_scan u p none ⟨.empty, none⟩ done
    rw [← hconsumed, (dead_scanData u ⟨.empty, none⟩ done hdead hlimit).2]
    refine ⟨Or.inr, ?_⟩
    rintro (rfl | hends)
    · exact ⟨nofun, hlimit⟩
    · exact hends
  · cases u with
    | nil =>
        refine iff_of_true ?_ (Or.inl rfl)
        rw [scan]
        split <;> rfl
    | cons ch rest =>
        refine iff_of_false ?_ ?_
        · have hheader : p.state.parsingHeader = true := by
            rw [hdead]
            rfl
          have hscan : scanByte p none ch =
              fail { p with nread := p.nread + 1 } .headerOverflow := by
            rw [scanByte_none, loopHead, if_pos hheader, countHeaderSize]
            exact if_pos (by show httpMaxHeaderSize < p.nread + 1; omega)
          rw [scan, hscan, List.length_cons]
          show done - 0 ≠ done + (rest.length + 1)
          omega
        · rintro (hnil | ⟨-, hsize⟩)
          · cases hnil
          · omega

/-- Behind a response of the chunk that closes the connection come only line
ends that the parser takes, and nothing where the parser returns at once. -/
def ClosesLast (p : HttpParser) (loop : Option ℕ) : Bytes → Prop
  | [] => True
  | ch :: rest =>
      match scanByte p loop ch with
      | .next p' loop' m =>
          if m.any (!·.keepAlive) then p'.Takes rest else ClosesLast p' loop' rest
      | .error _ _ => True
      | .leave _ m => m.keepAlive = true ∨ rest = []

theorem scan_closes_consumed : ∀ (chunk : Bytes) (p : HttpParser) (loop : Option ℕ) (done : ℕ),
    (∃ m ∈ (scan p loop done chunk).completions, m.keepAlive = false) →
      ((scan p loop done chunk).consumed = done + chunk.length ↔ p.ClosesLast loop chunk)
  | [], p, loop, done => by
      rw [scan]
      split
      · rintro ⟨m, hm, -⟩
        cases hm
      · rintro ⟨m, hm, -⟩
        cases hm
  | ch :: rest, p, loop, done => by
      have hclosing := scanByte_closing p loop ch
      rw [scan, List.length_cons, show done + (rest.length + 1) = done + 1 + rest.length by omega]
      split
      · rename_i p' loop' m hnext
        rw [hnext] at hclosing
        rw [ClosesLast, hnext]
        simp only
        rintro ⟨m', hm', hclose⟩
        cases m with
        | none => exact scan_closes_consumed rest p' loop' (done + 1) ⟨m', hm', hclose⟩
        | some m =>
            cases hm : m.keepAlive with
            | false =>
                obtain ⟨hdead, rfl⟩ := hclosing hm
                rw [Option.any_some, hm, Bool.not_false, if_pos rfl]
                exact dead_scan_consumed hdead rest (done + 1)
            | true =>
                rw [Option.any_some, hm, Bool.not_true, if_neg Bool.false_ne_true]
                refine scan_closes_consumed rest p' loop' (done + 1) ⟨m', ?_, hclose⟩
                rcases List.mem_cons.mp hm' with rfl | hlater
                · rw [hm] at hclose
                  cases hclose
                · exact hlater
      · rintro ⟨m, hm, -⟩
        cases hm
      · rename_i p' m hleave
        rw [ClosesLast, hleave]
        rintro ⟨m', hm', hclose⟩
        obtain rfl := List.mem_singleton.mp hm'
        simp only [hclose]
        show done + 1 = done + 1 + rest.length ↔ false = true ∨ rest = []
        rw [← List.length_eq_zero_iff]
        constructor
        · intro h
          exact Or.inr (by omega)
        · rintro (h | h)
          · cases h
          · omega

/-- A chunk with a response that closes the connection is taken whole. -/
theorem execute_closes_consumed {chunk : Bytes}
    (h : ∃ m ∈ (execute p chunk).completions, m.keepAlive = false) :
    (execute p chunk).consumed = chunk.length ↔ p.ClosesLast none chunk := by
  unfold execute at h ⊢
  split at h
  · obtain ⟨m, hm, -⟩ := h
    cases hm
  · rename_i herrno
    rw [if_neg herrno]
    split at h
    · rename_i hnil
      subst hnil
      refine iff_of_true ?_ trivial
      rw [if_pos rfl]
      unfold scanEof at h ⊢
      split at h
      · rfl
      · rfl
      · rfl
      · obtain ⟨m, hm, -⟩ := h
        cases hm
    · rename_i hne
      rw [if_neg hne]
      have hscan := scan_closes_consumed chunk p none 0 h
      rwa [Nat.zero_add] at hscan

/-- What a parser that is dead or stopped takes of a read. -/
def TakesRead (p : HttpParser) (chunk : Bytes) : Prop :=
  chunk = [] ∨ p.httpErrno = none ∧ LineEnds p chunk

theorem Finished.consumed (h : Finished p) (chunk : Bytes) :
    (HttpParser.execute p chunk).consumed = chunk.length ↔ p.TakesRead chunk := by
  unfold HttpParser.execute
  split
  · rename_i herrno
    constructor
    · intro hlen
      exact Or.inl (List.length_eq_zero_iff.mp hlen.symm)
    · rintro (rfl | ⟨hnone, -⟩)
      · rfl
      · rw [hnone] at herrno
        cases herrno
  · rename_i herrno
    have hdead : p.state = .dead := h.resolve_right herrno
    split
    · rename_i hnil
      refine iff_of_true ?_ (Or.inl hnil)
      rw [scanEof, hdead, hnil]
      rfl
    · rename_i hne
      have hscan := dead_scan_consumed hdead chunk 0
      rw [Nat.zero_add] at hscan
      rw [hscan]
      have hnone : p.httpErrno = none := by
        rwa [Bool.not_eq_true, Option.isSome_eq_false_iff, Option.isNone_iff_eq_none] at herrno
      exact or_congr_right (iff_and_self.mpr fun _ => hnone)

end HttpParser

/-! ## The reads of a call -/

/-- A read with a response that closes the connection: the parser before it,
the chunk, the answers to its responses, and the reads that would follow. -/
structure ClosingRead where
  parser : HttpParser
  chunk : Bytes
  answers : List ResponseAnswers
  reads : List Read

/-- The first such read of a call of `socket_readable`, if it gets that far. -/
def closingRead (cfg : Config) : HttpParser → List Read → Option ClosingRead
  | _, [] | _, .error :: _ | _, .retry :: _ => none
  | p, .again :: reads => closingRead cfg p reads
  | p, .data chunk answers :: reads =>
      let chunk := chunk.take cfg.recvbuf
      let r := HttpParser.execute p chunk
      if ∀ m ∈ r.completions, m.keepAlive = true then
        if r.consumed = chunk.length ∧ chunk.length = cfg.recvbuf then
          closingRead cfg r.parser reads
        else none
      else some ⟨p, chunk, answers, reads⟩

/-- How the reconnection ends that the last response of the chunk makes. -/
def ClosingRead.connect (k : ClosingRead) : ConnectOutcome :=
  ((k.answers.drop ((HttpParser.execute k.parser k.chunk).completions.length - 1)).headD {}).connect

/-- With a parser that takes line ends only, the reads neither fail nor hold
anything else. -/
def StaysQuiet (cfg : Config) : HttpParser → List Read → Prop
  | _, [] | _, .retry :: _ => True
  | _, .error :: _ => False
  | p, .again :: reads => StaysQuiet cfg p reads
  | p, .data chunk _ :: reads =>
      let chunk := chunk.take cfg.recvbuf
      p.TakesRead chunk ∧
        (chunk.length = cfg.recvbuf → StaysQuiet cfg (HttpParser.execute p chunk).parser reads)

namespace TcpThread

/-- The read of a call with a response that closes the connection, if there is
one: nothing is read from a closed descriptor. -/
def closingReadOf (cfg : Config) (s : TcpThread HttpParser) (c : ℕ) (reads : List Read) :
    Option ClosingRead :=
  if (s.current c).isSome then closingRead cfg (s.conns c).parser reads else none

/-- The socket that takes the place of `c->fd` can be registered. -/
def Reopens {π : Type*} (s : TcpThread π) (c : ℕ) : Prop :=
  let fd := (s.fds.close (s.conns c).fd).lowest
  fd < s.loop.setsize ∧
    (fd = (s.conns c).fd ∨ s.loop.apidata fd = !(s.loop.events fd).isNone)

/-- Nothing but line ends comes behind the closing response, neither in its
chunk nor, when that fills the buffer and the new socket is read at once, on
the new socket. -/
def Harmless (cfg : Config) (s : TcpThread HttpParser) (c : ℕ) (k : ClosingRead) : Prop :=
  k.parser.ClosesLast none k.chunk ∧
    (k.chunk.length = cfg.recvbuf → k.connect = .started → s.Reopens c →
      StaysQuiet cfg (HttpParser.execute k.parser k.chunk).parser k.reads)

/-! ## Opening a new socket -/

section

variable {π : Type*} {cfg : Config} {P : ResponseParser π} {c fd : ℕ} {s s' s₁ : TcpThread π}
  {mask : Mask} {proc : FileProc} {o : TcpObservation}

theorem aeCreateFileEvent_isSome {F T D : Type} {loop : EventLoop F T D} {isOpen : Bool}
    {proc : F} {data : D} :
    (aeCreateFileEvent isOpen loop fd mask proc data).isSome = true ↔
      fd < loop.setsize ∧ isOpen = true ∧ loop.apidata fd = !(loop.events fd).isNone := by
  unfold aeCreateFileEvent
  split
  · rename_i hsize
    exact iff_of_false Bool.false_ne_true fun h => Nat.not_le.mpr h.1 hsize
  · rename_i hsize
    have hlt := Nat.not_le.mp hsize
    rw [aeApiAddEvent]
    split
    · rename_i hadd
      rw [Bool.and_eq_true, beq_iff_eq] at hadd
      exact iff_of_true rfl ⟨hlt, hadd⟩
    · rename_i hadd
      rw [Bool.and_eq_true, beq_iff_eq] at hadd
      exact iff_of_false Bool.false_ne_true fun h => hadd h.2

theorem remove_both_isNone {F D : Type} (fe : FileEvent F D) :
    (fe.remove .both).isNone = true := rfl

/-- A descriptor is ready for a new socket after `fd` is closed. -/
theorem closedSlot_iff {F T D : Type} (loop : EventLoop F T D) {fd' : ℕ}
    (hsize : fd' < loop.setsize) :
    (((aeDeleteFileEvent loop fd .both).dropClosed fd).apidata fd' =
        !(((aeDeleteFileEvent loop fd .both).dropClosed fd).events fd').isNone) ↔
      fd' = fd ∨ loop.apidata fd' = !(loop.events fd').isNone := by
  simp only [EventLoop.dropClosed]
  by_cases hfd : fd' = fd
  · subst hfd
    refine iff_of_true ?_ (Or.inl rfl)
    rw [Function.update_self]
    unfold aeDeleteFileEvent
    rw [if_neg (Nat.not_le.mpr hsize)]
    split
    · rename_i hnone
      rw [hnone]
      rfl
    · simp only [Function.update_self, remove_both_isNone]
      rfl
  · rw [Function.update_of_ne hfd, or_iff_right hfd]
    unfold aeDeleteFileEvent
    split
    · rfl
    · split
      · rfl
      · simp only [Function.update_of_ne hfd]
        rw [if_pos (remove_both_isNone _), Function.update_of_ne hfd]

theorem tcpReconnectSocket_isOpen (connect : ConnectOutcome) :
    ((s.tcpReconnectSocket c connect).current c).isSome = true ↔
      connect = .started ∧ s.Reopens c := by
  have hclosed : (s.fds.close (s.conns c).fd).get (s.conns c).fd = none := FdTable.get_set_self
  have hgone {t : TcpThread π} (hfd : (t.conns c).fd = (s.conns c).fd)
      (hfds : ∀ fd, t.fds.get fd = (s.fds.close (s.conns c).fd).get fd) :
      ¬ (t.current c).isSome = true := by
    rw [current, hfd, hfds, hclosed]
    exact Bool.false_ne_true
  generalize ht : (s.deleteFileEvent c (s.conns c).fd .both).close c (s.conns c).fd = t
  have hfds : t.fds = s.fds.close (s.conns c).fd := by rw [← ht]; rfl
  have hconns : t.conns = s.conns := by rw [← ht]; rfl
  have hloop : t.loop = (aeDeleteFileEvent s.loop (s.conns c).fd .both).dropClosed
      (s.conns c).fd := by rw [← ht]; rfl
  have hsetsize : t.loop.setsize = s.loop.setsize := by
    rw [hloop]
    exact aeDeleteFileEvent_setsize
  rw [tcpReconnectSocket, ht]
  cases connect with
  | noSocket =>
      exact iff_of_false (hgone (by rw [← hconns]; rfl) fun fd => by rw [← hfds]; rfl)
        fun h => by cases h.1
  | failed =>
      refine iff_of_false (hgone (by rw [← hconns]; rfl) ?_) fun h => by cases h.1
      rw [← hfds]
      exact close_opened_get (t := (t.openSocket c).connectError) rfl
  | started =>
      have hready : (aeCreateFileEvent true t.loop t.fds.lowest .both FileProc.socketConnected
          c).isSome = true ↔ s.Reopens c := by
        rw [aeCreateFileEvent_isSome, hsetsize, hfds, hloop]
        refine and_congr_right fun hsize => ?_
        rw [closedSlot_iff s.loop hsize]
        exact and_iff_right rfl
      rw [← hready, eq_self_iff_true, true_and]
      simp only [tcpConnectSocket]
      split
      · rename_i loop hloop'
        have hloop' : aeCreateFileEvent true t.loop t.fds.lowest .both FileProc.socketConnected c =
            some loop := hloop'
        rw [hloop']
        refine iff_of_true ?_ rfl
        rw [current, setConn_self]
        show ((t.openSocket c).fds.get t.fds.lowest).isSome = true
        rw [openSocket_get, if_pos rfl]
        rfl
      · rename_i hloop'
        have hloop' : aeCreateFileEvent true t.loop t.fds.lowest .both FileProc.socketConnected c =
            none := hloop'
        rw [hloop']
        refine iff_of_false (hgone (by rw [← hconns]; rfl) ?_) Bool.false_ne_true
        rw [← hfds]
        exact close_opened_get
          (t := ((t.openSocket c).access .register c t.fds.lowest).connectError) rfl

theorem tcpConnectSocket_read (connect : ConnectOutcome) :
    (s.tcpConnectSocket c connect).errors.read = s.errors.read := by
  cases connect with
  | noSocket => rfl
  | failed => rfl
  | started =>
      simp only [tcpConnectSocket]
      split
      · rfl
      · rfl

theorem tcpReconnectSocket_read (connect : ConnectOutcome) :
    (s.tcpReconnectSocket c connect).errors.read = s.errors.read :=
  tcpConnectSocket_read (s := (s.deleteFileEvent c (s.conns c).fd .both).close c (s.conns c).fd)
    connect

/-! ## Responses before the one that closes the connection -/

/-- Nothing changes that decides about a reconnection. -/
structure Counts (c : ℕ) (s s' : TcpThread π) : Prop extends s.Keeps c s' where
  read : s'.errors.read = s.errors.read
  opens : ∀ fd, (s'.fds.get fd).isSome = (s.fds.get fd).isSome
  slots : ∀ fd, fd ≠ (s.conns c).fd →
    s'.loop.events fd = s.loop.events fd ∧ s'.loop.apidata fd = s.loop.apidata fd
  setsize : s'.loop.setsize = s.loop.setsize

theorem Counts.refl (c : ℕ) (s : TcpThread π) : s.Counts c s :=
  ⟨⟨rfl, rfl, rfl, rfl⟩, rfl, fun _ => rfl, fun _ _ => ⟨rfl, rfl⟩, rfl⟩

theorem Counts.trans (h : s.Counts c s₁) (h' : s₁.Counts c s') : s.Counts c s' where
  toKeeps := h.toKeeps.trans h'.toKeeps
  read := h'.read.trans h.read
  opens fd := (h'.opens fd).trans (h.opens fd)
  slots fd hfd := by
    obtain ⟨hevents, hpolled⟩ := h.slots fd hfd
    obtain ⟨hevents', hpolled'⟩ := h'.slots fd (h.fd.symm ▸ hfd)
    exact ⟨hevents'.trans hevents, hpolled'.trans hpolled⟩
  setsize := h'.setsize.trans h.setsize

/-- The same sockets can be opened. -/
theorem Counts.reopens (h : s.Counts c s') : s'.Reopens c ↔ s.Reopens c := by
  have hlowest : (s'.fds.close (s'.conns c).fd).lowest = (s.fds.close (s.conns c).fd).lowest := by
    refine FdTable.lowest_congr fun fd => ?_
    rw [h.fd, FdTable.close, FdTable.close, FdTable.get_set, FdTable.get_set]
    split
    · rfl
    · exact h.opens fd
  unfold Reopens
  rw [hlowest, h.setsize, h.fd]
  refine and_congr_right fun _ => ?_
  by_cases hfd : (s.fds.close (s.conns c).fd).lowest = (s.conns c).fd
  · exact iff_of_true (Or.inl hfd) (Or.inl hfd)
  · obtain ⟨hevents, hpolled⟩ := h.slots _ hfd
    rw [hevents, hpolled]

theorem access_counts {kind : Access} (hkind : kind ≠ .unregister) :
    s.Counts c (s.access kind c fd) :=
  { Counts.refl c s with toKeeps := access_keeps hkind }

theorem read_counts : s.Counts c (s.access .read c fd) := access_counts (by decide)

theorem modify_counts {f : Descriptor → Descriptor} :
    s.Counts c (s.setFds (s.fds.modify (s.conns c).fd f)) :=
  { Counts.refl c s with
    toKeeps := modify_keeps
    opens := by
      intro fd
      show ((s.fds.modify (s.conns c).fd f).get fd).isSome = (s.fds.get fd).isSome
      rw [FdTable.modify, FdTable.get_set]
      split
      · rename_i hfd
        rw [hfd, Option.isSome_map]
      · rfl }

theorem setConn_counts {k : Connection π} (hfd : k.fd = (s.conns c).fd)
    (hparser : k.parser = (s.conns c).parser) : s.Counts c (s.setConn c k) :=
  { Counts.refl c s with toKeeps := setConn_keeps hfd hparser }

theorem tick_counts (dt : ℕ) : s.Counts c (s.tick dt) :=
  { Counts.refl c s with toKeeps := tick_keeps dt }

theorem createFileEvent_counts (hfd : fd = (s.conns c).fd) :
    s.Counts c (s.createFileEvent c fd mask proc) := by
  subst hfd
  have hkeeps : s.Keeps c (s.createFileEvent c (s.conns c).fd mask proc) := createFileEvent_keeps
  rcases s.createFileEvent_cases c (s.conns c).fd mask proc with h | ⟨-, -, h⟩
  · rw [h]
    exact access_counts nofun
  · rw [h] at hkeeps ⊢
    exact
      { toKeeps := hkeeps
        read := rfl
        opens := fun _ => rfl
        slots := fun fd hfd => ⟨Function.update_of_ne hfd .., Function.update_of_ne hfd ..⟩
        setsize := rfl }

theorem decrementPending_counts : s.Counts c (s.decrementPending c) := by
  unfold decrementPending
  simp only
  split
  · have hset : s.Counts c (s.setConn c { s.conns c with
        pending := u64Sub (s.conns c).pending 1, hasPending := false }) := setConn_counts rfl rfl
    exact hset.trans (createFileEvent_counts hset.fd.symm)
  · exact setConn_counts rfl rfl

theorem statsRequestCompleted_counts (target : Option Descriptor) :
    s.Counts c (statsRequestCompleted cfg s c target) := by
  have hkeeps : s.Keeps c (statsRequestCompleted cfg s c target) :=
    statsRequestCompleted_keeps target
  unfold statsRequestCompleted at hkeeps ⊢
  split
  · rename_i hstop
    rw [if_pos hstop] at hkeeps
    exact { Counts.refl c s with toKeeps := hkeeps }
  · rename_i hstop
    rw [if_neg hstop] at hkeeps
    exact { Counts.refl c s with toKeeps := hkeeps }

theorem deliver_counts (chunk : Bytes) : s.Counts c (s.deliver c chunk) :=
  { modify_counts (f := (·.deliver chunk)) with toKeeps := deliver_keeps chunk }

/-- `response_complete` up to the decision whether to reconnect. -/
theorem responseCounted_counts (cfg : Config) (s : TcpThread π) (m : Completion) (dt : ℕ) :
    s.Counts c (statsRequestCompleted cfg ((((if 399 < m.status then s.statusError else
      s).responseAnswered c).decrementPending c).tick dt) c (s.current c)) := by
  have hstatus : s.Counts c (if 399 < m.status then s.statusError else s) := by
    split
    · exact { Counts.refl c s with }
    · exact .refl c s
  have hanswered := hstatus.trans (modify_counts (f := Descriptor.answer))
  have hdecremented := hanswered.trans decrementPending_counts
  exact (hdecremented.trans (tick_counts dt)).trans (statsRequestCompleted_counts _)

theorem responsesComplete_counts (cfg : Config) : ∀ (ms : List Completion) {s : TcpThread π}
    (as : List ResponseAnswers), (∀ m ∈ ms, m.keepAlive = true) →
      s.Counts c (responsesComplete cfg c s ms as)
  | [], s, _, _ => .refl c s
  | m :: ms, s, as, halive => by
      have hfirst : s.Counts c (responseComplete cfg s c m (as.headD {})) := by
        simp only [responseComplete, halive m (List.mem_cons_self ..), if_true]
        exact responseCounted_counts cfg s m _
      exact hfirst.trans (responsesComplete_counts cfg ms as.tail fun m' hm' =>
        halive m' (List.mem_cons_of_mem m hm'))

theorem responsesComplete_append (cfg : Config) : ∀ (ms ms' : List Completion) (s : TcpThread π)
    (as : List ResponseAnswers), responsesComplete cfg c s (ms ++ ms') as =
      responsesComplete cfg c (responsesComplete cfg c s ms as) ms' (as.drop ms.length)
  | [], _, _, _ => rfl
  | m :: ms, ms', s, as => by
      rw [List.cons_append, responsesComplete, responsesComplete_append cfg ms ms',
        responsesComplete, List.length_cons, List.drop_tail]

end

/-! ## A chunk -/

section

variable {cfg : Config} {c : ℕ} {s : TcpThread HttpParser}

/-- The chunk is read and the parser has gone over it. -/
theorem deliver_parsed (s : TcpThread HttpParser) (c : ℕ) (chunk : Bytes) (p : HttpParser) :
    ∃ t : TcpThread HttpParser, t = (s.deliver c chunk).setConn c
        { (s.deliver c chunk).conns c with parser := p } ∧
      t.reconnects = s.reconnects ∧ t.errors.read = s.errors.read ∧ (t.conns c).parser = p ∧
      (t.current c).isSome = (s.current c).isSome ∧ (t.Reopens c ↔ s.Reopens c) := by
  have hdeliver := deliver_counts (s := s) (c := c) chunk
  have hconn : ((s.deliver c chunk).setConn c
      { (s.deliver c chunk).conns c with parser := p }).conns c =
        { (s.deliver c chunk).conns c with parser := p } := setConn_self
  refine ⟨_, rfl, hdeliver.reconnects, hdeliver.read, by rw [hconn], ?_, ?_⟩
  · rw [current, hconn]
    exact hdeliver.isOpen
  · rw [← hdeliver.reopens, Reopens, hconn]
    rfl

/-- No response of the chunk closes the connection. -/
theorem parseChunk_alive (cfg : Config) (s : TcpThread HttpParser) (c : ℕ) (chunk : Bytes)
    (answers : List ResponseAnswers)
    (halive : ∀ m ∈ (HttpParser.execute (s.conns c).parser chunk).completions,
      m.keepAlive = true) :
    ∃ t : TcpThread HttpParser, parseChunk cfg httpParser s c chunk answers =
        ((HttpParser.execute (s.conns c).parser chunk).consumed, t) ∧
      t.reconnects = s.reconnects ∧ t.errors.read = s.errors.read ∧
      (t.conns c).parser = (HttpParser.execute (s.conns c).parser chunk).parser ∧
      (t.current c).isSome = (s.current c).isSome ∧ (t.Reopens c ↔ s.Reopens c) := by
  obtain ⟨t, ht, hreconnects, hread, hparser, hopen, hreopens⟩ :=
    deliver_parsed s c chunk (HttpParser.execute (s.conns c).parser chunk).parser
  have hcounts := responsesComplete_counts cfg _ (s := t) (c := c) answers halive
  refine ⟨_, by rw [ht]; rfl, hcounts.reconnects.trans hreconnects, hcounts.read.trans hread,
    hcounts.parser.trans hparser, hcounts.isOpen.trans hopen, hcounts.reopens.trans hreopens⟩

/-- The last response of the chunk closes the connection. -/
theorem parseChunk_closes (cfg : Config) (s : TcpThread HttpParser) (c : ℕ) (chunk : Bytes)
    (answers : List ResponseAnswers) (reads : List Read)
    (hclose : ∃ m ∈ (HttpParser.execute (s.conns c).parser chunk).completions,
      m.keepAlive = false) :
    ∃ t : TcpThread HttpParser, parseChunk cfg httpParser s c chunk answers =
        ((HttpParser.execute (s.conns c).parser chunk).consumed, t) ∧
      t.reconnects = s.reconnects + 1 ∧ t.errors.read = s.errors.read ∧
      (t.conns c).parser = (HttpParser.execute (s.conns c).parser chunk).parser ∧
      ((t.current c).isSome = true ↔
        ClosingRead.connect ⟨(s.conns c).parser, chunk, answers, reads⟩ = .started ∧
          s.Reopens c) := by
  obtain ⟨t, ht, hreconnects, hread, hparser, -, hreopens⟩ :=
    deliver_parsed s c chunk (HttpParser.execute (s.conns c).parser chunk).parser
  obtain ⟨m, hm, hclosing⟩ := hclose
  have hbefore := HttpParser.execute_closing (s.conns c).parser chunk
  have hresult : parseChunk cfg httpParser s c chunk answers =
      ((HttpParser.execute (s.conns c).parser chunk).consumed, responsesComplete cfg c t
        (HttpParser.execute (s.conns c).parser chunk).completions answers) := by
    rw [ht]
    rfl
  have hlength : ClosingRead.connect ⟨(s.conns c).parser, chunk, answers, reads⟩ =
      ((answers.drop ((HttpParser.execute (s.conns c).parser chunk).completions.length -
        1)).headD {}).connect := rfl
  rw [hresult, hlength]
  generalize (HttpParser.execute (s.conns c).parser chunk).completions = ms at *
  rcases List.eq_nil_or_concat ms with rfl | ⟨init, last, rfl⟩
  · cases hm
  · rw [List.concat_eq_append] at hm hbefore ⊢
    rw [List.dropLast_concat] at hbefore
    have hlast : last.keepAlive = false := by
      rcases List.mem_append.mp hm with hinit | hlast
      · rw [hbefore m hinit] at hclosing
        cases hclosing
      · rwa [← List.mem_singleton.mp hlast]
    have hkept : ((responsesComplete cfg c t (init ++ [last]) answers).conns c).parser =
        (t.conns c).parser := responsesComplete_keepsParser (init ++ [last]) answers
    rw [responsesComplete_append] at hkept ⊢
    have hcounts := responsesComplete_counts cfg init (s := t) (c := c) answers hbefore
    generalize responsesComplete cfg c t init answers = u at hcounts hkept ⊢
    have hcounted := hcounts.trans (responseCounted_counts cfg u last
      ((answers.drop init.length).headD {}).dt)
    have hreconnected : responsesComplete cfg c u [last] (answers.drop init.length) =
        tcpReconnectSocket (statsRequestCompleted cfg ((((if 399 < last.status then u.statusError
          else u).responseAnswered c).decrementPending c).tick
            ((answers.drop init.length).headD {}).dt) c (u.current c)) c
              ((answers.drop init.length).headD {}).connect := by
      simp only [responsesComplete, responseComplete, hlast, Bool.false_eq_true, if_false]
    rw [hreconnected] at hkept ⊢
    refine ⟨_, rfl, ?_, ?_, hkept.trans hparser, ?_⟩
    · rw [tcpReconnectSocket_reconnects, hcounted.reconnects, hreconnects]
    · rw [tcpReconnectSocket_read, hcounted.read, hread]
    · rw [tcpReconnectSocket_isOpen, hcounted.reopens, hreopens, List.length_append,
        List.length_singleton, Nat.add_sub_cancel]

/-! ## One call -/

theorem readFailed_reconnects (connect : ConnectOutcome) :
    (s.readFailed c connect).reconnects = s.reconnects + 1 :=
  tcpReconnectSocket_reconnects (s := s.readError) connect

/-- The reads after a response has closed the connection. -/
theorem socketReadable_finished (hbuf : 0 < cfg.recvbuf) (connect : ConnectOutcome) :
    ∀ (reads : List Read) {s : TcpThread HttpParser}, (s.current c).isSome = true →
      (s.conns c).parser.Finished →
      (StaysQuiet cfg (s.conns c).parser reads →
        (socketReadable cfg httpParser c connect s reads).reconnects = s.reconnects ∧
        (socketReadable cfg httpParser c connect s reads).errors.read = s.errors.read) ∧
      (¬ StaysQuiet cfg (s.conns c).parser reads →
        s.reconnects < (socketReadable cfg httpParser c connect s reads).reconnects)
  | [], s, _, _ => ⟨fun _ => ⟨rfl, rfl⟩, fun h => absurd trivial h⟩
  | .error :: _, s, _, _ => by
      refine ⟨fun h => h.elim, fun _ => ?_⟩
      have haccess : s.Counts c (s.access .read c (s.conns c).fd) := read_counts
      rw [socketReadable, readFailed_reconnects, haccess.reconnects]
      exact Nat.lt_succ_self _
  | .retry :: _, s, _, _ => by
      have haccess : s.Counts c (s.access .read c (s.conns c).fd) := read_counts
      exact ⟨fun _ => ⟨haccess.reconnects, haccess.read⟩, fun h => absurd trivial h⟩
  | .again :: reads, s, hopen, hfinished => by
      have haccess : s.Counts c (s.access .read c (s.conns c).fd) := read_counts
      have ih := socketReadable_finished hbuf connect reads
        (s := s.access .read c (s.conns c).fd) hopen hfinished
      rw [haccess.reconnects, haccess.read] at ih
      exact ih
  | .data chunk answers :: reads, s, hopen, hfinished => by
      have haccess : s.Counts c (s.access .read c (s.conns c).fd) := read_counts
      rw [socketReadable, if_pos hopen, StaysQuiet, ← haccess.reconnects, ← haccess.read]
      simp only
      generalize chunk.take cfg.recvbuf = chunk
      have hopen' : ((s.access .read c (s.conns c).fd).current c).isSome = true := hopen
      have hparser : ((s.access .read c (s.conns c).fd).conns c).parser = (s.conns c).parser := rfl
      rw [← hparser] at hfinished ⊢
      generalize s.access .read c (s.conns c).fd = s at hfinished hopen' ⊢
      obtain ⟨hnone, hfinished'⟩ := hfinished.execute chunk
      obtain ⟨t, hparse, hreconnects, hread, hparser', hopen'', -⟩ :=
        parseChunk_alive cfg s c chunk answers (by rw [hnone]; exact fun _ h => by cases h)
      have hconsumed := hfinished.consumed chunk
      rw [hparse]
      simp only
      split
      · rename_i hshort
        refine ⟨fun hquiet => absurd (hconsumed.mpr hquiet.1) hshort, fun _ => ?_⟩
        rw [readFailed_reconnects, hreconnects]
        exact Nat.lt_succ_self _
      · rename_i hwhole
        have htakes := hconsumed.mp (not_not.mp hwhole)
        rw [← hparser'] at hfinished' ⊢
        split
        · rename_i hfull
          have ih := socketReadable_finished hbuf connect reads (s := t.received chunk.length)
            hfull.2 hfinished'
          rw [← hreconnects, ← hread]
          exact ⟨fun hquiet => ih.1 (hquiet.2 hfull.1),
            fun hnot => ih.2 fun hquiet => hnot ⟨htakes, fun _ => hquiet⟩⟩
        · rename_i hstop
          refine ⟨fun _ => ⟨hreconnects, hread⟩, fun hnot => absurd ⟨htakes, fun hfull => ?_⟩ hnot⟩
          exact absurd ⟨hfull, hopen''.trans hopen'⟩ hstop

/-- The call reconnects at most once, and counts no read error when a response
has closed the connection. -/
def ReconnectsOnce (cfg : Config) (s : TcpThread HttpParser) (c : ℕ) (connect : ConnectOutcome)
    (reads : List Read) : Prop :=
  (socketReadable cfg httpParser c connect s reads).reconnects ≤ s.reconnects + 1 ∧
    ((closingRead cfg (s.conns c).parser reads).isSome = true →
      (socketReadable cfg httpParser c connect s reads).errors.read = s.errors.read)

/-- The call is the rest of one on a state that it counts the same for. -/
theorem reconnectsOnce_of_eq {connect : ConnectOutcome} {reads reads' : List Read}
    {t : TcpThread HttpParser}
    (hcall : socketReadable cfg httpParser c connect s reads =
      socketReadable cfg httpParser c connect t reads')
    (hclosing : closingRead cfg (s.conns c).parser reads =
      closingRead cfg (t.conns c).parser reads')
    (hreconnects : t.reconnects = s.reconnects) (hread : t.errors.read = s.errors.read)
    (hreopens : t.Reopens c ↔ s.Reopens c)
    (ih : ReconnectsOnce cfg t c connect reads' ↔
      ∀ k ∈ closingRead cfg (t.conns c).parser reads', t.Harmless cfg c k) :
    ReconnectsOnce cfg s c connect reads ↔
      ∀ k ∈ closingRead cfg (s.conns c).parser reads, s.Harmless cfg c k := by
  rw [ReconnectsOnce, hcall, hclosing, ← hreconnects, ← hread]
  refine ih.trans (forall₂_congr fun k _ => and_congr_right fun _ => ?_)
  exact imp_congr_right fun _ => imp_congr_right fun _ => imp_congr_left hreopens

/-- The call ends without a response that closes the connection. -/
theorem reconnectsOnce_of_none {connect : ConnectOutcome} {reads : List Read}
    (hclosing : closingRead cfg (s.conns c).parser reads = none)
    (hle : (socketReadable cfg httpParser c connect s reads).reconnects ≤ s.reconnects + 1) :
    ReconnectsOnce cfg s c connect reads ↔
      ∀ k ∈ closingRead cfg (s.conns c).parser reads, s.Harmless cfg c k := by
  rw [ReconnectsOnce, hclosing]
  exact iff_of_true ⟨hle, fun h => (Bool.false_ne_true h).elim⟩ fun k hk => by cases hk

/-- The read of a chunk. -/
theorem socketReadable_data (connect : ConnectOutcome) (reads : List Read) {chunk : Bytes}
    {answers : List ResponseAnswers} {n : ℕ} {t : TcpThread HttpParser}
    (hopen : (s.current c).isSome = true)
    (hparse : parseChunk cfg httpParser (s.access .read c (s.conns c).fd) c
      (chunk.take cfg.recvbuf) answers = (n, t)) :
    socketReadable cfg httpParser c connect s (.data chunk answers :: reads) =
      if n ≠ (chunk.take cfg.recvbuf).length then t.readFailed c connect
      else if (chunk.take cfg.recvbuf).length = cfg.recvbuf ∧ (t.current c).isSome = true then
        socketReadable cfg httpParser c connect (t.received (chunk.take cfg.recvbuf).length) reads
      else t.received (chunk.take cfg.recvbuf).length := by
  rw [socketReadable, if_pos hopen]
  simp only [hparse]
  rfl

/-- A read without a response that closes the connection. -/
theorem reconnectsOnce_alive {connect : ConnectOutcome} {reads : List Read}
    (hopen : (s.current c).isSome = true) {chunk : Bytes} {answers : List ResponseAnswers}
    (halive : ∀ m ∈ (HttpParser.execute (s.conns c).parser (chunk.take cfg.recvbuf)).completions,
      m.keepAlive = true)
    (ih : ∀ {t : TcpThread HttpParser}, (t.current c).isSome = true →
      (ReconnectsOnce cfg t c connect reads ↔
        ∀ k ∈ closingRead cfg (t.conns c).parser reads, t.Harmless cfg c k)) :
    ReconnectsOnce cfg s c connect (.data chunk answers :: reads) ↔
      ∀ k ∈ closingRead cfg (s.conns c).parser (.data chunk answers :: reads),
        s.Harmless cfg c k := by
  have haccess : s.Counts c (s.access .read c (s.conns c).fd) := read_counts
  obtain ⟨t, hparse, hreconnects, hread, hparser, hopen', hreopens⟩ :=
    parseChunk_alive cfg (s.access .read c (s.conns c).fd) c (chunk.take cfg.recvbuf) answers
      halive
  have hsame : ((s.access .read c (s.conns c).fd).conns c).parser = (s.conns c).parser := rfl
  rw [hsame] at hparse hparser
  have hcall := socketReadable_data connect reads hopen hparse
  have hcount := hreconnects.trans haccess.reconnects
  have hstill : (t.current c).isSome = true := hopen'.trans hopen
  by_cases hconsumed : (HttpParser.execute (s.conns c).parser (chunk.take cfg.recvbuf)).consumed =
      (chunk.take cfg.recvbuf).length
  · rw [if_neg (not_not.mpr hconsumed)] at hcall
    by_cases hfull : (chunk.take cfg.recvbuf).length = cfg.recvbuf
    · rw [if_pos ⟨hfull, hstill⟩] at hcall
      refine reconnectsOnce_of_eq (t := t.received (chunk.take cfg.recvbuf).length) hcall ?_ hcount
        (hread.trans haccess.read) (hreopens.trans haccess.reopens) (ih hstill)
      rw [closingRead, if_pos halive, if_pos ⟨hconsumed, hfull⟩]
      exact congrArg (closingRead cfg · reads) hparser.symm
    · rw [if_neg fun h => hfull h.1] at hcall
      refine reconnectsOnce_of_none ?_ ?_
      · rw [closingRead, if_pos halive, if_neg fun h => hfull h.2]
      · rw [hcall]
        exact hcount.le.trans (Nat.le_succ _)
  · rw [if_pos hconsumed] at hcall
    refine reconnectsOnce_of_none ?_ ?_
    · rw [closingRead, if_pos halive, if_neg fun h => hconsumed h.1]
    · rw [hcall, readFailed_reconnects, hcount]

/-- A read with one. -/
theorem reconnectsOnce_closes (hbuf : 0 < cfg.recvbuf) {connect : ConnectOutcome}
    {reads : List Read} (hopen : (s.current c).isSome = true) {chunk : Bytes}
    {answers : List ResponseAnswers}
    (hclose : ∃ m ∈ (HttpParser.execute (s.conns c).parser (chunk.take cfg.recvbuf)).completions,
      m.keepAlive = false) :
    ReconnectsOnce cfg s c connect (.data chunk answers :: reads) ↔
      ∀ k ∈ closingRead cfg (s.conns c).parser (.data chunk answers :: reads),
        s.Harmless cfg c k := by
  have haccess : s.Counts c (s.access .read c (s.conns c).fd) := read_counts
  obtain ⟨t, hparse, hreconnects, hread, hparser, hopens⟩ :=
    parseChunk_closes cfg (s.access .read c (s.conns c).fd) c (chunk.take cfg.recvbuf) answers
      reads hclose
  have hsame : ((s.access .read c (s.conns c).fd).conns c).parser = (s.conns c).parser := rfl
  rw [hsame] at hparse hparser hopens
  have hcall := socketReadable_data connect reads hopen hparse
  have hconsumed := HttpParser.execute_closes_consumed hclose
  have hclosing : closingRead cfg (s.conns c).parser (.data chunk answers :: reads) =
      some ⟨(s.conns c).parser, chunk.take cfg.recvbuf, answers, reads⟩ := by
    obtain ⟨m, hm, hkeep⟩ := hclose
    refine if_neg fun halive => ?_
    rw [halive m hm] at hkeep
    cases hkeep
  have hcount : t.reconnects = s.reconnects + 1 := hreconnects.trans (by rw [haccess.reconnects])
  have hcounted : t.errors.read = s.errors.read := hread.trans haccess.read
  rw [haccess.reopens] at hopens
  rw [ReconnectsOnce, hclosing, hcall]
  simp only [Option.mem_def, Option.some.injEq, forall_eq', Option.isSome_some, true_imp_iff]
  by_cases hlast : (HttpParser.execute (s.conns c).parser (chunk.take cfg.recvbuf)).consumed =
      (chunk.take cfg.recvbuf).length
  · rw [if_neg (not_not.mpr hlast)]
    by_cases hgo : (chunk.take cfg.recvbuf).length = cfg.recvbuf ∧ (t.current c).isSome = true
    · obtain ⟨hfull, hopen'⟩ := hgo
      have hne : chunk.take cfg.recvbuf ≠ [] := by
        intro hnil
        rw [hnil, List.length_nil] at hfull
        exact Nat.ne_of_lt hbuf hfull
      have hfinished := HttpParser.execute_closes hne hclose
      rw [← hparser] at hfinished
      obtain ⟨hquiet, hnoisy⟩ := socketReadable_finished hbuf connect reads
        (s := t.received (chunk.take cfg.recvbuf).length) hopen' hfinished
      obtain ⟨hstarted, hreopens⟩ := hopens.mp hopen'
      rw [if_pos ⟨hfull, hopen'⟩]
      have hiff : s.Harmless cfg c ⟨(s.conns c).parser, chunk.take cfg.recvbuf, answers, reads⟩ ↔
          StaysQuiet cfg (t.conns c).parser reads := by
        rw [hparser]
        exact ⟨fun h => h.2 hfull hstarted hreopens,
          fun h => ⟨hconsumed.mp hlast, fun _ _ _ => h⟩⟩
      rw [hiff]
      by_cases hstays : StaysQuiet cfg (t.conns c).parser reads
      · obtain ⟨hmore, hread'⟩ := hquiet hstays
        exact iff_of_true ⟨(hmore.trans hcount).le, hread'.trans hcounted⟩ hstays
      · refine iff_of_false (fun h => ?_) hstays
        have hmore : t.reconnects < _ := hnoisy hstays
        rw [hcount] at hmore
        exact Nat.not_le.mpr hmore h.1
    · rw [if_neg hgo]
      refine iff_of_true ⟨hcount.le, hcounted⟩ ⟨hconsumed.mp hlast, ?_⟩
      intro hfull hstarted hreopens
      exact absurd ⟨hfull, hopens.mpr ⟨hstarted, hreopens⟩⟩ hgo
  · rw [if_pos hlast]
    refine iff_of_false (fun h => ?_) fun h => hlast (hconsumed.mpr h.1)
    rw [readFailed_reconnects, hcount] at h
    exact absurd h.1 (by omega)

/-- A call on an open socket. -/
theorem reconnectsOnce_iff (hbuf : 0 < cfg.recvbuf) (connect : ConnectOutcome)
    (reads : List Read) {s : TcpThread HttpParser} (hopen : (s.current c).isSome = true) :
    ReconnectsOnce cfg s c connect reads ↔
      ∀ k ∈ closingRead cfg (s.conns c).parser reads, s.Harmless cfg c k := by
  have haccess (s : TcpThread HttpParser) : s.Counts c (s.access .read c (s.conns c).fd) :=
    access_counts nofun
  induction reads generalizing s with
  | nil =>
      refine reconnectsOnce_of_none rfl ?_
      rw [socketReadable]
      exact Nat.le_succ _
  | cons r reads ih =>
      cases r with
      | error =>
          refine reconnectsOnce_of_none rfl ?_
          rw [socketReadable, readFailed_reconnects, (haccess s).reconnects]
      | retry =>
          refine reconnectsOnce_of_none rfl ?_
          rw [socketReadable, (haccess s).reconnects]
          exact Nat.le_succ _
      | again =>
          have hcall : socketReadable cfg httpParser c connect s (.again :: reads) =
              socketReadable cfg httpParser c connect (s.access .read c (s.conns c).fd) reads := by
            rw [socketReadable]
          exact reconnectsOnce_of_eq hcall rfl (haccess s).reconnects (haccess s).read
            (haccess s).reopens (ih hopen)
      | data chunk answers =>
          by_cases halive : ∀ m ∈ (HttpParser.execute (s.conns c).parser
              (chunk.take cfg.recvbuf)).completions, m.keepAlive = true
          · exact reconnectsOnce_alive hopen halive ih
          · refine reconnectsOnce_closes hbuf hopen ?_
            by_contra hnone
            refine halive fun m hm => ?_
            by_contra hkeep
            exact hnone ⟨m, hm, Bool.eq_false_iff.mpr hkeep⟩

/-- A call on a closed descriptor reads nothing. -/
theorem socketReadable_closed (connect : ConnectOutcome) :
    ∀ (reads : List Read) {s : TcpThread HttpParser}, ¬ (s.current c).isSome = true →
      (socketReadable cfg httpParser c connect s reads).reconnects ≤ s.reconnects + 1
  | [], s, _ => by
      rw [socketReadable]
      exact Nat.le_succ _
  | .error :: _, s, _ => by
      have haccess : s.Counts c (s.access .read c (s.conns c).fd) := read_counts
      rw [socketReadable, readFailed_reconnects, haccess.reconnects]
  | .retry :: _, s, _ => by
      have haccess : s.Counts c (s.access .read c (s.conns c).fd) := read_counts
      rw [socketReadable, haccess.reconnects]
      exact Nat.le_succ _
  | .again :: reads, s, hclosed => by
      have haccess : s.Counts c (s.access .read c (s.conns c).fd) := read_counts
      rw [socketReadable, ← haccess.reconnects]
      exact socketReadable_closed connect reads hclosed
  | .data _ _ :: _, s, hclosed => by
      have haccess : s.Counts c (s.access .read c (s.conns c).fd) := read_counts
      rw [socketReadable, if_neg hclosed, readFailed_reconnects, haccess.reconnects]

end

end TcpThread

open TcpThread

/-- A call of `socket_readable`, in any state of the thread and of the parser:
it reconnects at most once, and does not count a read error when a response
has closed the connection, exactly when nothing but line ends that the dead
parser takes comes behind that response. -/
theorem reconnects_once_iff (cfg : Config) (hbuf : 0 < cfg.recvbuf) (s : TcpThread HttpParser)
    (c : ℕ) (connect : ConnectOutcome) (reads : List Read) :
    ((socketReadable cfg httpParser c connect s reads).reconnects ≤ s.reconnects + 1 ∧
      ((s.closingReadOf cfg c reads).isSome = true →
        (socketReadable cfg httpParser c connect s reads).errors.read = s.errors.read)) ↔
    ∀ k ∈ s.closingReadOf cfg c reads, s.Harmless cfg c k := by
  by_cases hopen : (s.current c).isSome = true
  · rw [closingReadOf, if_pos hopen]
    exact reconnectsOnce_iff hbuf connect reads hopen
  · rw [closingReadOf, if_neg hopen]
    refine iff_of_true ⟨socketReadable_closed connect reads hopen, ?_⟩ fun k hk => by cases hk
    exact fun h => (Bool.false_ne_true h).elim

/-- A response that closes the connection. -/
def lastResponse : Bytes :=
  "HTTP/1.1 200 OK\r\nConnection: close\r\nContent-Length: 0\r\n\r\n".toUTF8.toList

/-- A request is sent. -/
def awaitingResponse : List TcpEvent :=
  [.timer 0 { dt := 5 }, .writable 4 { dt := 10 },
    .writable 4 { dt := 10, startDt := 5, write := .ok 18 }]

/-- The response and a line end behind it: one reconnection. -/
theorem reconnects_once_iff_one : ∃ s : TcpThread HttpParser,
    (tcpThread twoConnections httpParser).Reachable s ∧
    (socketReadable twoConnections httpParser 0 .started s
      [.data (lastResponse ++ [cr, lf]) []]).reconnects ≤ s.reconnects + 1 ∧
    (s.closingReadOf twoConnections 0 [.data (lastResponse ++ [cr, lf]) []]).isSome = true ∧
    ∀ k ∈ s.closingReadOf twoConnections 0 [.data (lastResponse ++ [cr, lf]) []],
      s.Harmless twoConnections 0 k := by
  obtain ⟨s, hs, hview⟩ : ∃ s, (tcpThread twoConnections httpParser).Reachable s ∧
      (decide ((socketReadable twoConnections httpParser 0 .started s
          [.data (lastResponse ++ [cr, lf]) []]).reconnects = s.reconnects + 1),
        decide ((socketReadable twoConnections httpParser 0 .started s
          [.data (lastResponse ++ [cr, lf]) []]).errors.read = s.errors.read),
        (s.closingReadOf twoConnections 0 [.data (lastResponse ++ [cr, lf]) []]).isSome) =
          (true, true, true) :=
    exists_reachable_of_runEvents (fun s : TcpThread HttpParser =>
      (decide ((socketReadable twoConnections httpParser 0 .started s
          [.data (lastResponse ++ [cr, lf]) []]).reconnects = s.reconnects + 1),
        decide ((socketReadable twoConnections httpParser 0 .started s
          [.data (lastResponse ++ [cr, lf]) []]).errors.read = s.errors.read),
        (s.closingReadOf twoConnections 0 [.data (lastResponse ++ [cr, lf]) []]).isSome))
      awaitingResponse twoConnectionsStart_initial (by decide +kernel)
  simp only [Prod.mk.injEq, decide_eq_true_eq] at hview
  obtain ⟨hreconnects, hread, hclosing⟩ := hview
  exact ⟨s, hs, hreconnects.le, hclosing,
    (reconnects_once_iff twoConnections (by decide) s 0 .started
      [.data (lastResponse ++ [cr, lf]) []]).mp ⟨hreconnects.le, fun _ => hread⟩⟩

/-- One more byte behind the response closes the new socket as well, and is a
read error. -/
theorem reconnects_twice : ∃ s : TcpThread HttpParser,
    (tcpThread twoConnections httpParser).Reachable s ∧
    (s.closingReadOf twoConnections 0 [.data (lastResponse ++ [72]) []]).isSome = true ∧
    (socketReadable twoConnections httpParser 0 .started s
      [.data (lastResponse ++ [72]) []]).reconnects = s.reconnects + 2 ∧
    (socketReadable twoConnections httpParser 0 .started s
      [.data (lastResponse ++ [72]) []]).errors.read = s.errors.read + 1 := by
  obtain ⟨s, hs, hview⟩ : ∃ s, (tcpThread twoConnections httpParser).Reachable s ∧
      (decide ((socketReadable twoConnections httpParser 0 .started s
          [.data (lastResponse ++ [72]) []]).reconnects = s.reconnects + 2),
        decide ((socketReadable twoConnections httpParser 0 .started s
          [.data (lastResponse ++ [72]) []]).errors.read = s.errors.read + 1),
        (s.closingReadOf twoConnections 0 [.data (lastResponse ++ [72]) []]).isSome) =
          (true, true, true) :=
    exists_reachable_of_runEvents (fun s : TcpThread HttpParser =>
      (decide ((socketReadable twoConnections httpParser 0 .started s
          [.data (lastResponse ++ [72]) []]).reconnects = s.reconnects + 2),
        decide ((socketReadable twoConnections httpParser 0 .started s
          [.data (lastResponse ++ [72]) []]).errors.read = s.errors.read + 1),
        (s.closingReadOf twoConnections 0 [.data (lastResponse ++ [72]) []]).isSome))
      awaitingResponse twoConnectionsStart_initial (by decide +kernel)
  simp only [Prod.mk.injEq, decide_eq_true_eq] at hview
  obtain ⟨hreconnects, hread, hclosing⟩ := hview
  exact ⟨s, hs, hclosing, hreconnects, hread⟩

end WrkQuic
