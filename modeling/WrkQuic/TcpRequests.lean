import WrkQuic.TcpSimulation

/-!
# Requests of the script

`script_request` is called when `c->written` is 0, and a batch of which no
byte was accepted also has `c->written` at 0. In every run in which
`sock.write` accepts the first bytes of a request when it is first offered
them, and in which a late `delay_request` timer does not make the socket of
another request write, the bytes accepted on a socket are the requests of
the script one after the other, each sent whole before the next is asked
for.
-/

namespace WrkQuic

open Runs TcpThread

/-! ## What a connection was seen to do -/

/-- The results of `script_request` since the last socket was closed, for a
log with its last observation first. -/
def requests : List TcpObservation → List Bytes
  | [] => []
  | .access .close _ _ _ :: _ => []
  | .request _ text :: log => requests log ++ [text]
  | _ :: log => requests log

/-- The bytes that were accepted since then. -/
def sentBytes : List TcpObservation → Bytes
  | [] => []
  | .access .close _ _ _ :: _ => []
  | .accepted _ _ _ bytes :: log => sentBytes log ++ bytes
  | _ :: log => sentBytes log

/-- At the last observation of the log, only requests of the script were
sent, in order, and all of the older ones whole. -/
def SentWhole (log : List TcpObservation) : Prop :=
  sentBytes log <+: (requests log).flatten ∧
    ∀ c text older, log = .request c text :: older → sentBytes older = (requests older).flatten

/-- Observations that are no part of a request. -/
def TcpObservation.Other : TcpObservation → Prop
  | .access .close _ _ _ | .request _ _ | .accepted _ _ _ _ => False
  | _ => True

variable {o : TcpObservation} {log new : List TcpObservation}

theorem requests_other (ho : o.Other) : requests (o :: log) = requests log := by
  cases o with
  | access kind c fd target => cases kind <;> first | rfl | exact ho.elim
  | request c text => exact ho.elim
  | accepted c target first bytes => exact ho.elim
  | delivered c target chunk => rfl
  | response c target pending timing => rfl

theorem sentBytes_other (ho : o.Other) : sentBytes (o :: log) = sentBytes log := by
  cases o with
  | access kind c fd target => cases kind <;> first | rfl | exact ho.elim
  | request c text => exact ho.elim
  | accepted c target first bytes => exact ho.elim
  | delivered c target chunk => rfl
  | response c target pending timing => rfl

/-- Nothing was asked for and nothing sent since the last socket was
closed. -/
def Unused (log : List TcpObservation) : Prop := requests log = [] ∧ sentBytes log = []

theorem unused_close {c fd : ℕ} {target : Option Descriptor} :
    Unused (.access .close c fd target :: log) := ⟨rfl, rfl⟩

/-- `SentWhole` at each observation of the log. -/
def AlwaysWhole (log : List TcpObservation) : Prop := ∀ past, past <:+ log → SentWhole past

theorem AlwaysWhole.cons (h : AlwaysWhole log) (ho : SentWhole (o :: log)) :
    AlwaysWhole (o :: log) := by
  intro past hpast
  rcases List.suffix_cons_iff.mp hpast with rfl | hpast
  · exact ho
  · exact h past hpast

theorem AlwaysWhole.inOrder (h : AlwaysWhole log) : sentBytes log <+: (requests log).flatten :=
  (h log (List.suffix_refl log)).1

theorem AlwaysWhole.other (h : AlwaysWhole log) (ho : o.Other) : AlwaysWhole (o :: log) := by
  refine h.cons ⟨?_, ?_⟩
  · rw [requests_other ho, sentBytes_other ho]
    exact h.inOrder
  · rintro c text older ⟨⟩
    exact ho.elim

theorem AlwaysWhole.close (h : AlwaysWhole log) {c fd : ℕ} {target : Option Descriptor} :
    AlwaysWhole (.access .close c fd target :: log) := by
  refine h.cons ⟨List.prefix_refl _, ?_⟩
  rintro c text older ⟨⟩

/-- What the thread tells the event loop and the kernel. -/
theorem AlwaysWhole.bookkeeping {c : ℕ} (h : AlwaysWhole log) (ho : o.Bookkeeping c) :
    AlwaysWhole (o :: log) := by
  cases o with
  | access kind c' fd target =>
      cases kind with
      | close => exact h.close
      | register => exact h.other trivial
      | unregister => exact h.other trivial
      | read => exact h.other trivial
      | write => exact h.other trivial
  | request c text => exact ho.elim
  | accepted c target first bytes => exact ho.elim
  | delivered c target chunk => exact ho.elim
  | response c target pending timing => exact ho.elim

theorem AlwaysWhole.append (h : AlwaysWhole log) :
    ∀ new : List TcpObservation, (∀ o ∈ new, o.Other ∨ ∃ c, o.Bookkeeping c) →
      AlwaysWhole (new ++ log)
  | [], _ => h
  | o :: new, hnew => by
      have hrest := h.append new fun o' ho' => hnew o' (List.mem_cons_of_mem o ho')
      rcases hnew o (List.mem_cons_self ..) with ho | ⟨c, ho⟩
      · exact hrest.other ho
      · exact hrest.bookkeeping ho

theorem Unused.silent {c : ℕ} (h : Unused log) :
    ∀ {new : List TcpObservation},
      (∀ o ∈ new, ∃ kind fd target, o = .access kind c fd target ∧
        (kind = .register ∨ kind = .close)) → Unused (new ++ log)
  | [], _ => h
  | o :: new, hnew => by
      have hrest := h.silent fun o' ho' => hnew o' (List.mem_cons_of_mem o ho')
      obtain ⟨kind, fd, target, rfl, rfl | rfl⟩ := hnew o (List.mem_cons_self ..)
      · exact hrest
      · exact unused_close

/-! ## One connection -/

namespace TcpConn

variable {π : Type*} {cfg : Config} {P : ResponseParser π} {c : ℕ} {v v' : TcpConn π} {a : TcpAct}
  {r : Attempt}

/-- `sock.write` accepts the first bytes of a request at once. `delay_request`
does not send the rest of a request on the socket after it, and
`socket_connected` does not run between the parts of one. A socket that
replaced another gets no response. -/
def wholeRequests (P : ResponseParser π) : Policy π where
  blocked v := v.conn.written ≠ 0
  setUp v := v.writer = some .socketWriteable → v.conn.written = 0
  read v := TcpAct.replaced v.phase = true → ∀ chunk,
    (P.execute v.conn.parser chunk).completions = []
  fire v := v.writer = some .socketConnected → v.conn.written = 0

/-- The last request of the log is sent up to `c->written`, all others
whole. -/
def Partway (k : Connection π) (log : List TcpObservation) : Prop :=
  ∃ done, requests log = done ++ [k.request] ∧
    sentBytes log = done.flatten ++ k.request.take k.written ∧ k.written < k.request.length

/-- How `c->written` and `c->request` stand to what was asked for and what
was sent. A socket that is still connecting is unused, whatever
`c->written` was left at. -/
structure Sending (v : TcpConn π) : Prop where
  whole : AlwaysWhole v.trace
  unused : v.socket = none ∨ v.writer = some .socketConnected → Unused v.trace
  between : v.phase ≠ .writing → v.conn.written = 0 →
    sentBytes v.trace = (requests v.trace).flatten
  partway : v.phase ≠ .writing → v.conn.written ≠ 0 → v.socket.isSome = true →
    v.writer ≠ some .socketConnected → v.writer = some .socketWriteable ∧ Partway v.conn v.trace
  prepared : v.phase = .writing → v.conn.written = 0 ∧
    ∃ done, requests v.trace = done ++ [v.conn.request] ∧ sentBytes v.trace = done.flatten
  reader : v.reader = some .socketReadable → v.writer ≠ some .socketConnected
  reading : ∀ todo, v.phase = .reading false todo → v.reader = some .socketReadable
  replaced : ∀ todo, v.phase = .reading true todo → todo = []

theorem Sending.observe {o : TcpObservation} (h : v.Sending) (ho : o.Other) :
    (v.observe o).Sending where
  whole := h.whole.other ho
  unused hunused := by
    rw [Unused, TcpConn.observe, requests_other ho, sentBytes_other ho]
    exact h.unused hunused
  between hphase hwritten := by
    rw [TcpConn.observe, requests_other ho, sentBytes_other ho]
    exact h.between hphase hwritten
  partway hphase hwritten hopen hwriter := by
    rw [Partway, TcpConn.observe, requests_other ho, sentBytes_other ho]
    exact h.partway hphase hwritten hopen hwriter
  prepared hphase := by
    rw [TcpConn.observe, requests_other ho, sentBytes_other ho]
    exact h.prepared hphase
  reader := h.reader
  reading := h.reading
  replaced := h.replaced

/-- A change that `Sending` does not look at. -/
theorem Sending.congr (h : v.Sending) (htrace : v'.trace = v.trace)
    (hrequest : v'.conn.request = v.conn.request) (hwritten : v'.conn.written = v.conn.written)
    (hsocket : v'.socket.isSome = v.socket.isSome) (hreader : v'.reader = v.reader)
    (hwriter : v'.writer = v.writer) (hphase : v'.phase = v.phase) : v'.Sending := by
  obtain ⟨whole, unused, between, partway, prepared, reader, reading, replaced⟩ := h
  refine ⟨?_, ?_, ?_, ?_, ?_, ?_, ?_, ?_⟩
  · rwa [htrace]
  · rwa [htrace, hwriter, ← Option.isNone_iff_eq_none, ← Option.not_isSome, hsocket,
      Option.not_isSome, Option.isNone_iff_eq_none]
  · rwa [htrace, hphase, hwritten]
  · rwa [Partway, htrace, hphase, hwritten, hrequest, hsocket, hwriter]
  · rwa [htrace, hphase, hwritten, hrequest]
  · rwa [hreader, hwriter]
  · rwa [hphase, hreader]
  · rwa [hphase]

theorem Sending.phase {phase : Phase} (h : v.Sending) (hphase : v.phase ≠ .writing)
    (hnext : phase ≠ .writing) (hreading : ∀ todo, phase = .reading false todo →
      v.reader = some .socketReadable)
    (hreplaced : ∀ todo, phase = .reading true todo → todo = []) :
    { v with phase := phase }.Sending :=
  { h with
    between := fun _ => h.between hphase
    partway := fun _ => h.partway hphase
    prepared := fun hwriting => absurd hwriting hnext
    reading := hreading
    replaced := hreplaced }

theorem Sending.idle (h : v.Sending) (hphase : v.phase ≠ .writing) :
    { v with phase := .idle }.Sending :=
  h.phase hphase (fun h => by cases h) (fun _ h => by cases h) fun _ h => by cases h

theorem Sending.watch (h : v.Sending) (hphase : v.phase ≠ .writing)
    (hwritten : v.writer = some .socketConnected → v.conn.written = 0) :
    (v.watch c).Sending := by
  have hobserved := h.observe (o := .access .register c v.conn.fd v.socket) trivial
  have hwriter : (v.watch c).writer ≠ some .socketConnected := by
    intro hconnected
    obtain ⟨d, -, hd⟩ := Option.bind_eq_some_iff.mp hconnected
    cases hd
  exact
    { hobserved with
      unused := fun hunused => hobserved.unused (Or.inl (hunused.resolve_right hwriter))
      partway := by
        intro _ hne hopen _
        obtain ⟨-, hpartway⟩ := hobserved.partway hphase hne hopen
          fun hconnected => hne (hwritten hconnected)
        obtain ⟨d, hd⟩ := Option.isSome_iff_exists.mp hopen
        exact ⟨Option.bind_eq_some_iff.mpr ⟨d, hd, rfl⟩, hpartway⟩
      reader := fun _ => hwriter }

theorem Sending.unwatch (h : v.Sending) (hwritten : v.conn.written = 0) :
    (v.unwatch c).Sending := by
  have hobserved := h.observe (o := .access .unregister c v.conn.fd v.socket) trivial
  exact
    { hobserved with
      unused := fun hunused =>
        hobserved.unused (Or.inl (hunused.resolve_right fun h => by cases h))
      partway := fun _ hne => absurd hwritten hne
      reader := fun _ h => by cases h }

theorem Sending.attempt (h : v.Sending) (hr : r.Silent c) (hunused : Unused v.trace)
    (hclosed : v.socket = none) (hreader : v.reader ≠ some .socketReadable)
    (hphase : v.phase ≠ .writing) : (v.attempt c r).Sending := by
  have hnew := hunused.silent hr
  have hempty : sentBytes (r.log ++ v.trace) = (requests (r.log ++ v.trace)).flatten := by
    rw [hnew.1, hnew.2]
    rfl
  have hwhole := h.whole.append r.log fun o ho => by
    obtain ⟨kind, fd, target, rfl, hkind⟩ := hr o ho
    exact Or.inr ⟨c, rfl, hkind.imp_right Or.inr⟩
  have hreading (todo : List Completion) : v.phase ≠ .reading false todo :=
    fun hreading => hreader (h.reading todo hreading)
  unfold TcpConn.attempt
  split
  · exact
      { whole := hwhole
        unused := fun _ => hnew
        between := fun _ _ => hempty
        partway := fun _ _ _ hwriter => absurd rfl hwriter
        prepared := fun hwriting => absurd hwriting hphase
        reader := fun hreader => by cases hreader
        reading := fun todo h => absurd h (hreading todo)
        replaced := h.replaced }
  · exact
      { whole := hwhole
        unused := fun _ => hnew
        between := fun _ _ => hempty
        partway := fun _ _ hopen => by
          have hnone : v.socket.isSome = true := hopen
          rw [hclosed] at hnone
          cases hnone
        prepared := fun hwriting => absurd hwriting hphase
        reader := fun h => absurd h hreader
        reading := fun todo h => absurd h (hreading todo)
        replaced := h.replaced }

theorem Sending.reconnect (h : v.Sending) (phase : Phase) (hr : r.Silent c)
    (hphase : phase ≠ .writing) (hreading : ∀ todo, phase ≠ .reading false todo)
    (hreplaced : ∀ todo, phase = .reading true todo → todo = []) :
    ({ v with phase := phase }.reconnect c r).Sending := by
  have hclosed : ({ v with phase := phase }.closeSocket c).Sending :=
    { whole := (h.whole.other (o := .access .unregister c v.conn.fd v.socket) trivial).close
      unused := fun _ => unused_close
      between := fun _ _ => rfl
      partway := fun _ _ hopen => by cases hopen
      prepared := fun hwriting => absurd hwriting hphase
      reader := fun h => by cases h
      reading := fun todo h => absurd h (hreading todo)
      replaced := hreplaced }
  exact hclosed.attempt hr unused_close rfl (fun h => by cases h) hphase

theorem Sending.prepare (h : v.Sending) (hdynamic : cfg.dynamic = true)
    (hphase : v.phase ≠ .writing) (hwritten : v.conn.written = 0)
    (hwriter : v.writer = some .socketWriteable) (hopen : v.socket.isSome = true)
    (script : Bytes) (now : ℕ) :
    { v.prepare cfg c script now with phase := .writing }.Sending := by
  have hsent := h.between hphase hwritten
  have hprepared : v.prepare cfg c script now = { v with
      conn := { v.conn with request := script }.startBatch cfg.pipeline now
      trace := .request c script :: v.trace } := by
    unfold TcpConn.prepare
    rw [if_pos hdynamic]
    rfl
  rw [hprepared]
  have hrequest : (Connection.startBatch { v.conn with request := script } cfg.pipeline
      now).request = script := by
    unfold Connection.startBatch
    split <;> rfl
  exact
    { whole := by
        refine h.whole.cons ⟨?_, ?_⟩
        · show sentBytes v.trace <+: (requests v.trace ++ [script]).flatten
          rw [hsent, List.flatten_append]
          exact List.prefix_append _ _
        · rintro c' text older ⟨⟩
          exact hsent
      unused := by
        rintro (hnone | hconnected)
        · have hclosed : v.socket = none := hnone
          rw [hclosed] at hopen
          cases hopen
        · cases hwriter.symm.trans hconnected
      between := fun hwriting => absurd rfl hwriting
      partway := fun hwriting => absurd rfl hwriting
      prepared := fun _ => ⟨(Connection.startBatch_written ..).trans hwritten,
        requests v.trace, congrArg (fun text => requests v.trace ++ [text]) hrequest.symm, hsent⟩
      reader := fun hreader hconnected => by cases hwriter.symm.trans hconnected
      reading := fun _ h => by cases h
      replaced := fun _ h => by cases h }

/-- Where `sock.write` takes the next bytes from. -/
theorem Sending.offered (h : v.Sending)
    (hphase : v.phase = .writing ∨ v.phase = .idle ∧ v.conn.written ≠ 0)
    (hwriter : v.writer = some .socketWriteable) (hopen : v.socket.isSome = true) :
    ∃ done, requests v.trace = done ++ [v.conn.request] ∧
      sentBytes v.trace = done.flatten ++ v.conn.request.take v.conn.written ∧
      v.conn.written ≤ v.conn.request.length := by
  rcases hphase with hwriting | ⟨hidle, hne⟩
  · obtain ⟨hwritten, done, hrequests, hsent⟩ := h.prepared hwriting
    refine ⟨done, hrequests, ?_, ?_⟩
    · rw [hsent, hwritten, List.take_zero, List.append_nil]
    · rw [hwritten]
      exact Nat.zero_le _
  · obtain ⟨-, done, hrequests, hsent, hlt⟩ := h.partway (by rw [hidle]; exact nofun) hne hopen
      (by rw [hwriter]; exact nofun)
    exact ⟨done, hrequests, hsent, hlt.le⟩

/-- The bytes that `sock.write` accepts continue the request. -/
theorem take_acceptedBytes {text : Bytes} {written n : ℕ} :
    text.take written ++ (text.drop written).take n =
      text.take (written + ((text.drop written).take n).length) := by
  rw [List.take_add, ← List.prefix_iff_eq_take.mp (List.take_prefix n _)]

theorem Sending.accept (h : v.Sending)
    (hphase : v.phase = .writing ∨ v.phase = .idle ∧ v.conn.written ≠ 0)
    (hwriter : v.writer = some .socketWriteable) (hopen : v.socket.isSome = true) (n : ℕ) :
    { v.accept cfg c ((v.conn.request.drop v.conn.written).take (max n 1)) with
      phase := .idle }.Sending := by
  obtain ⟨done, hrequests, hsent, hle⟩ := h.offered hphase hwriter hopen
  have hmore : sentBytes v.trace ++ (v.conn.request.drop v.conn.written).take (max n 1) =
      done.flatten ++ v.conn.request.take (v.conn.written +
        ((v.conn.request.drop v.conn.written).take (max n 1)).length) := by
    rw [hsent, List.append_assoc, take_acceptedBytes]
  have hlength : ((v.conn.request.drop v.conn.written).take (max n 1)).length =
      min (max n 1) (v.conn.request.length - v.conn.written) := by
    rw [List.length_take, List.length_drop]
  generalize (v.conn.request.drop v.conn.written).take (max n 1) = bytes at *
  have hflatten : (requests v.trace).flatten = done.flatten ++ v.conn.request := by
    rw [hrequests, List.flatten_append, List.flatten_singleton]
  have hwhole (target : Option Descriptor) (first : Bool) :
      AlwaysWhole (.accepted c target first bytes :: v.trace) := by
    refine h.whole.cons ⟨?_, ?_⟩
    · show sentBytes v.trace ++ bytes <+: (requests v.trace).flatten
      rw [hmore, hflatten, List.prefix_append_right_inj]
      exact List.take_prefix _ _
    · rintro c' text older ⟨⟩
  have hopen' (f : Descriptor → Descriptor) : v.socket.map f ≠ none := by
    rw [ne_eq, Option.map_eq_none_iff]
    intro hnone
    rw [hnone] at hopen
    cases hopen
  unfold TcpConn.accept
  simp only
  split
  · rename_i hall
    have hrest : sentBytes v.trace ++ bytes = (requests v.trace).flatten := by
      rw [hmore, hflatten, hall, List.take_length]
    exact
      { whole := (hwhole _ _).other trivial
        unused := by
          rintro (hnone | hconnected)
          · exact absurd hnone (hopen' _)
          · cases hconnected
        between := fun _ _ => hrest
        partway := fun _ hne => absurd rfl hne
        prepared := fun h => by cases h
        reader := fun _ h => by cases h
        reading := fun _ h => by cases h
        replaced := fun _ h => by cases h }
  · rename_i hpart
    exact
      { whole := hwhole _ _
        unused := by
          rintro (hnone | hconnected)
          · exact absurd hnone (hopen' _)
          · cases hwriter.symm.trans hconnected
        between := fun _ hzero => by
          have hzero : v.conn.written + bytes.length = 0 := hzero
          omega
        partway := fun _ _ _ _ => ⟨hwriter, done, hrequests, hmore, by
          show v.conn.written + bytes.length < v.conn.request.length
          omega⟩
        prepared := fun h => by cases h
        reader := fun _ hconnected => by cases hwriter.symm.trans hconnected
        reading := fun _ h => by cases h
        replaced := fun _ h => by cases h }

theorem Sending.respond (h : v.Sending) (cfg : Config) (c : ℕ) (hphase : v.phase ≠ .writing)
    (hwriter : v.writer ≠ some .socketConnected) (now : ℕ) (counted : Bool) :
    (v.respond cfg c now counted).Sending := by
  have hanswered : { v with socket := v.socket.map Descriptor.answer }.Sending :=
    h.congr rfl rfl rfl (Option.isSome_map ..) rfl rfl rfl
  have hdecremented :
      ({ v with socket := v.socket.map Descriptor.answer }.decrementPending c).Sending := by
    unfold TcpConn.decrementPending
    simp only
    split
    · exact Sending.watch (hanswered.congr rfl rfl rfl rfl rfl rfl rfl) hphase
        fun hconnected => absurd hconnected hwriter
    · exact hanswered.congr rfl rfl rfl rfl rfl rfl rfl
  unfold TcpConn.respond
  simp only
  split
  · exact Sending.observe (hdecremented.congr rfl rfl rfl rfl rfl rfl rfl) trivial
  · exact hdecremented.observe trivial

theorem Sending.setUp (h : v.Sending) (hphase : v.phase ≠ .writing)
    (hopen : v.socket.isSome = true)
    (hwritten : v.writer = some .socketWriteable → v.conn.written = 0) :
    (v.setUp P c).Sending := by
  have hfirst := h.observe (o := .access .register c v.conn.fd v.socket) trivial
  have hsecond := hfirst.observe (o := .access .register c v.conn.fd v.socket) trivial
  have hsent : sentBytes v.trace = (requests v.trace).flatten := by
    by_cases hconnecting : v.writer = some .socketConnected
    · obtain ⟨hrequests, hsent⟩ := h.unused (Or.inr hconnecting)
      rw [hrequests, hsent]
      rfl
    · by_cases hzero : v.conn.written = 0
      · exact h.between hphase hzero
      · have hwrite := (h.partway hphase hzero hopen hconnecting).1
        exact absurd (hwritten hwrite) hzero
  exact
    { whole := hsecond.whole
      unused := by
        rintro (hnone | hconnected)
        · rw [Option.map_eq_none_iff.mp hnone] at hopen
          cases hopen
        · cases hconnected
      between := fun _ _ => hsent
      partway := fun _ hne => absurd rfl hne
      prepared := fun hwriting => absurd hwriting hphase
      reader := fun _ h => by cases h
      reading := fun _ _ => rfl
      replaced := h.replaced }

theorem Sending.deliver (h : v.Sending) {replaced : Bool} {rest : List Completion}
    (hphase : v.phase = .reading replaced rest) {chunk : Bytes}
    (hread : replaced = true → (P.execute v.conn.parser chunk).completions = []) :
    (v.deliver P c replaced chunk).Sending := by
  have hdelivered : { v.observe (.delivered c v.socket chunk) with
      conn := { v.conn with parser := (P.execute v.conn.parser chunk).parser }
      socket := v.socket.map (Descriptor.deliver · chunk) }.Sending :=
    (h.observe (o := .delivered c v.socket chunk) trivial).congr rfl rfl rfl
      (Option.isSome_map ..) rfl rfl rfl
  have hnot : v.phase ≠ .writing := by rw [hphase]; exact nofun
  refine hdelivered.phase hnot (fun h => by cases h) ?_ ?_
  · rintro todo ⟨⟩
    exact h.reading _ hphase
  · rintro todo ⟨⟩
    exact hread rfl

theorem Sending.answer (h : v.Sending) {m : Completion} {ms : List Completion}
    (hphase : v.phase = .reading false (m :: ms)) (hlast : m.keepAlive = false → ms = [])
    (hr : r.Silent c) (now : ℕ) (counted : Bool) :
    ((TcpAct.answer m now counted r).apply cfg P c v).Sending := by
  have hreader := h.reading _ hphase
  have hnot : v.phase ≠ .writing := by rw [hphase]; exact nofun
  have hrespond := h.respond cfg c hnot (h.reader hreader) now counted
  rcases answer_cases hphase hlast now counted with heq | ⟨-, heq⟩ <;> rw [heq]
  · exact hrespond.phase (by rw [respond_phase]; exact hnot) (fun h => by cases h)
      (fun _ _ => (respond_reader ..).trans hreader) fun _ h => by cases h
  · refine hrespond.reconnect _ hr (fun h => by cases h) (fun _ h => by cases h) ?_
    rintro todo ⟨⟩
    rfl

theorem Sending.apply (h : v.Sending) (hdynamic : cfg.dynamic = true) (hw : v.Wired)
    (ha : a.Allowed P c v) (hp : (wholeRequests P).Meets v a) : (a.apply cfg P c v).Sending := by
  have hwriter (hcalled : v.Dispatched .socketWriteable) :
      v.writer = some .socketWriteable ∧ v.socket.isSome = true := by
    rcases hcalled with hr | hwrite
    · rcases hw.readers _ hr with h | h <;> cases h
    · refine ⟨hwrite, Option.isSome_iff_ne_none.mpr fun hnone => ?_⟩
      rw [hw.closed hnone] at hwrite
      cases hwrite
  cases a with
  | call kind =>
      cases kind with
      | write => exact h.observe trivial
      | read => exact h.observe trivial
      | register => exact ha.elim
      | unregister => exact ha.elim
      | close => exact ha.elim
  | pace pacer => exact h.congr rfl rfl rfl rfl rfl rfl rfl
  | postpone =>
      obtain ⟨-, -, hwritten⟩ := ha
      exact (h.unwatch (c := c) hwritten).congr rfl rfl rfl rfl rfl rfl rfl
  | prepare script now =>
      obtain ⟨hidle, hcalled, hwritten⟩ := ha
      obtain ⟨hwrite, hopen⟩ := hwriter hcalled
      exact h.prepare hdynamic (by rw [hidle]; exact nofun) hwritten hwrite hopen script now
  | accept bytes =>
      obtain ⟨hphase, hcalled, hopen, n, rfl⟩ := ha
      exact h.accept hphase (hwriter hcalled).1 hopen n
  | blocked =>
      have hwritten : v.conn.written ≠ 0 := hp
      have hphase : v.phase ≠ .writing := fun hwriting => hwritten (h.prepared hwriting).1
      exact h.idle hphase
  | connect pacer r unborn =>
      obtain ⟨hidle, hclosed, -, hr⟩ := ha
      have hreader : v.reader ≠ some .socketReadable := by
        intro hreader
        have hopen := hw.reader
        rw [hreader, hclosed] at hopen
        cases hopen
      have hpaced : { v with conn := { v.conn with pacer := pacer } }.Sending :=
        h.congr rfl rfl rfl rfl rfl rfl rfl
      exact (hpaced.attempt hr (h.unused (Or.inl hclosed)) hclosed hreader
        (by rw [hidle]; exact nofun)).congr rfl rfl rfl rfl rfl rfl rfl
  | reconnect r =>
      have hidle := h.reconnect .idle ha.2.2 nofun (fun _ h => by cases h)
        fun _ h => by cases h
      rw [← reconnect_phase] at hidle
      exact hidle
  | setUp =>
      obtain ⟨hidle, -, hopen⟩ := ha
      exact h.setUp (by rw [hidle]; exact nofun) hopen hp
  | enter =>
      obtain ⟨hidle, hcalled⟩ := ha
      have hreader : v.reader = some .socketReadable :=
        hcalled.resolve_right fun hwrite => by rcases hw.writers _ hwrite with h | h <;> cases h
      exact h.phase (by rw [hidle]; exact nofun) nofun (fun _ _ => hreader) fun _ h => by cases h
  | leave =>
      obtain ⟨replaced, hphase⟩ := ha
      exact h.idle (by rw [hphase]; exact nofun)
  | deliver chunk =>
      obtain ⟨-, ⟨replaced, hphase⟩, -⟩ := ha
      have hread : TcpAct.replaced v.phase = true →
          ∀ chunk, (P.execute v.conn.parser chunk).completions = [] := hp
      rw [hphase] at hread
      show (v.deliver P c (TcpAct.replaced v.phase) chunk).Sending
      rw [hphase]
      exact h.deliver hphase fun hreplaced => hread hreplaced chunk
  | answer m now counted r =>
      obtain ⟨hr, replaced, ms, hphase, hlast⟩ := ha
      have hfalse : replaced = false := by
        cases replaced with
        | true => cases h.replaced _ hphase
        | false => rfl
      subst hfalse
      exact h.answer hphase hlast hr now counted
  | fire waits =>
      obtain ⟨hidle, -⟩ := ha
      exact (h.watch (c := c) (by rw [hidle]; exact nofun) hp).congr rfl rfl rfl rfl rfl rfl rfl

end TcpConn

theorem tcpConn_sending {π : Type*} {cfg : Config} {P : ResponseParser π} {c : ℕ}
    {v : TcpConn π} (hdynamic : cfg.dynamic = true)
    (hv : (tcpConn cfg P c).ReachableWith (TcpConn.wholeRequests P).Meets v) : v.Sending := by
  refine tcpConn_invariant ?_ (fun v a hw h ha hp => h.apply hdynamic hw ha hp) hv
  exact
    { whole := by
        intro past hpast
        obtain rfl := List.suffix_nil.mp hpast
        exact ⟨List.prefix_refl _, fun c text older h => by cases h⟩
      unused := fun _ => ⟨rfl, rfl⟩
      between := fun _ _ => rfl
      partway := fun _ _ hopen => by cases hopen
      prepared := fun h => by cases h
      reader := fun h => by cases h
      reading := fun _ h => by cases h
      replaced := fun _ h => by cases h }

/-! ## A thread -/

section Thread

variable {cfg : Config} {c : ℕ}

/-- The first `sock.write` of a request does not return `RETRY`. A
`delay_request` timer that finds it is time to send finds the connection's own
socket; if that is still connecting, no rest of a request is left to write. If
such a timer has made a connecting socket write, then `socket_connected` does
not run for it while a request is half written. -/
def RequestsKept {π : Type*} (s : TcpThread π) : TcpEvent → Prop
  | .readable fd a => (s.loop.events fd).rfileProc = some .socketConnected →
      a.connected.last = .ok () → (s.loop.events fd).wfileProc = some .socketWriteable →
        (s.conns (s.loop.events fd).clientData).written = 0
  | .writable fd a => (s.loop.events fd).wfileProc = some .socketWriteable →
      s.Sends (s.loop.events fd).clientData a → a.write.last ≠ .retry
  | .timer id a => ∀ te ∈ s.loop.timeEvents.find? (·.id == id), te.timeProc = .delayRequest →
      ((s.tick a.dt).usecToNextSend te.clientData).1 = 0 → s.Own te.clientData ∧
        ((s.loop.events (s.conns te.clientData).fd).wfileProc = some .socketConnected →
          (s.conns te.clientData).written = 0)

instance {π : Type*} (s : TcpThread π) (e : TcpEvent) : Decidable (RequestsKept s e) :=
  match e with
  | .readable _ _ => inferInstanceAs (Decidable (_ → _ → _ → _))
  | .writable _ _ => inferInstanceAs (Decidable (_ → _ → _))
  | .timer id a => inferInstanceAs (Decidable (∀ te ∈ s.loop.timeEvents.find? (·.id == id),
      te.timeProc = .delayRequest →
        ((s.tick a.dt).usecToNextSend te.clientData).1 = 0 → s.Own te.clientData ∧
          ((s.loop.events (s.conns te.clientData).fd).wfileProc = some .socketConnected →
            (s.conns te.clientData).written = 0)))

/-- What is known in `socket_readable`: after a response that closes the
connection the parser accepts no other. -/
def ParserStops (v : TcpConn HttpParser) (_ : List ResponseAnswers) (reads : List Read) : Prop :=
  reads = [] ∨ ∀ replaced todo, v.phase = .reading replaced todo →
    (replaced = true ∨ ∃ m ∈ todo, m.keepAlive = false) → v.conn.parser.Finished

/-- Of a policy that lets a replaced socket answer nothing. -/
theorem parserStops_rule (hbuf : 0 < cfg.recvbuf) {p : Policy HttpParser}
    (hread : ∀ v : TcpConn HttpParser, (TcpAct.replaced v.phase = true → ∀ chunk,
      (HttpParser.execute v.conn.parser chunk).completions = []) → p.read v)
    (hanswer : ∀ v, p.answer v) (hreconnect : ∀ v r, p.reconnect v r) :
    ReadRule cfg httpParser c p ParserStops where
  read := by
    rintro v as r reads (h | h)
    · cases h
    · refine hread v ?_
      intro hreplaced chunk
      cases hphase : v.phase with
      | idle =>
          rw [hphase] at hreplaced
          cases hreplaced
      | writing =>
          rw [hphase] at hreplaced
          cases hreplaced
      | reading replaced todo =>
          rw [hphase] at hreplaced
          exact ((h replaced todo hphase (Or.inl hreplaced)).execute chunk).1
  again := by
    rintro v reads (h | h)
    · cases h
    · exact Or.inr h
  deliver := by
    rintro v replaced chunk answers reads (h | h) hphase
    · cases h
    · refine ⟨?_, ?_⟩
      · refine hread _ ?_
        intro hreplaced chunk
        have hreplaced' : TcpAct.replaced v.phase = true := hreplaced
        rw [hphase] at hreplaced'
        exact ((h replaced [] hphase (Or.inl hreplaced')).execute chunk).1
      · split
        · rename_i hon
          right
          rintro _ _ ⟨⟩ hclosed
          have hchunk : chunk.take cfg.recvbuf ≠ [] := by
            intro hempty
            rw [hempty] at hon
            exact absurd hon.2 (Nat.ne_of_lt hbuf)
          rcases hclosed with hreplaced | hclosing
          · exact ((h replaced [] hphase (Or.inl hreplaced)).execute _).2
          · exact HttpParser.execute_closes hchunk hclosing
        · exact Or.inl rfl
  answer := by
    intro v replaced m ms as reads h hphase
    refine ⟨hanswer v, fun _ r _ => hreconnect v r, ?_⟩
    intro now counted r _
    rcases h with hdone | h
    · exact Or.inl hdone
    · right
      intro replaced' todo hnext hclosed
      rw [TcpConn.answer_phase, hphase] at hnext
      rw [TcpConn.answer_keepsParser]
      cases hnext
      refine h replaced (m :: ms) hphase ?_
      rcases hclosed with hreplaced | ⟨m', hm', halive⟩
      · rcases Bool.or_eq_true_iff.mp hreplaced with hreplaced | hclosing
        · exact Or.inl hreplaced
        · exact Or.inr ⟨m, List.mem_cons_self .., by rwa [Bool.not_eq_true'] at hclosing⟩
      · exact Or.inr ⟨m', List.mem_cons_of_mem m hm', halive⟩
  rest := fun h _ => h

theorem RequestsKept.admitted {s : TcpThread HttpParser} {e : TcpEvent} (howned : s.Owned)
    (h : RequestsKept s e) :
    s.Admitted (TcpConn.wholeRequests httpParser) ParserStops e := by
  cases e with
  | readable fd a =>
      refine ⟨fun _ _ _ => trivial, ?_, ?_⟩
      · intro hreader hconnected hwriter
        have hfd := not_isNone_of_slot (s := s) (Or.inl hreader)
        obtain ⟨-, -, -, hseen⟩ := seen_slot .idle howned hfd
        exact h hreader hconnected (hseen.symm.trans hwriter)
      · intro _
        refine Or.inr ?_
        rintro _ _ ⟨⟩ (h | ⟨m, hm, -⟩)
        · cases h
        · cases hm
  | writable fd a =>
      refine ⟨fun _ _ _ => trivial, ?_, ?_⟩
      · intro hwriter _ hseen
        have hfd := not_isNone_of_slot (s := s) (Or.inr hwriter)
        obtain ⟨-, -, -, hsame⟩ := seen_slot .idle howned hfd
        cases (hsame.symm.trans hseen).symm.trans hwriter
      · intro hwriter
        refine ⟨fun _ => trivial, ?_⟩
        intro v hsends hretry hwritten
        exact h hwriter (hsends hwritten) hretry
  | timer id a =>
      intro te hte
      refine ⟨fun _ _ _ => trivial, ?_⟩
      intro hproc hsend
      obtain ⟨hown, hwritten⟩ := h te hte hproc hsend
      refine ⟨hown, ?_⟩
      intro hwriter
      rw [seen_usecToNextSend] at hwriter ⊢
      obtain ⟨d, -, hd⟩ := Option.bind_eq_some_iff.mp hwriter
      exact hwritten hd

/-- With a dynamic script: in every run in which requests are kept, the bytes
that `sock.write` accepted since a connection's last socket was closed are at
every moment the results of `script_request` since then, in order, of which
all but the last were sent whole before the next was asked for; and the
connection touches no socket but its own. -/
theorem tcp_requests_sent_whole (cfg : Config) (hdynamic : cfg.dynamic = true)
    (hbuf : 0 < cfg.recvbuf) {s : TcpThread HttpParser}
    (hs : (tcpThread cfg httpParser).ReachableWith RequestsKept s) (c : ℕ) :
    AlwaysWhole (s.trace.filter (·.conn = c)) ∧
      ∀ kind fd d, .access kind c fd (some d) ∈ s.trace → d.owner = some c := by
  obtain ⟨-, howned, hruns⟩ := tcp_conn_reachable
    (fun _ => parserStops_rule hbuf (fun _ h => h) (fun _ => trivial) fun _ _ => trivial)
    (fun _ _ _ howned _ h => RequestsKept.admitted howned h) hs
  exact ⟨(tcpConn_sending hdynamic (hruns c)).whole,
    fun kind fd d ho => howned.trace _ ho⟩

def dynamicConnections : Config := { twoConnections with dynamic := true }

theorem dynamicStart_initial : ∃ clock reserved,
    (TcpThread.initial dynamicConnections httpParser 0 (.firstOpen 4 ()) : TcpThread HttpParser) =
      .initial dynamicConnections httpParser clock reserved :=
  ⟨0, .firstOpen 4 (), rfl⟩

/-- A request of three bytes is sent in two writes. -/
def threeBytes : List TcpEvent :=
  [.timer 0 { dt := 5 }, .writable 4 { dt := 10 },
    .writable 4 { dt := 10, script := [1, 2, 3], write := .again (.ok 2) },
    .writable 4 { write := .retry }, .writable 4 { write := .ok 7 }]

theorem tcp_requests_sent_whole_one : ∃ s,
    (tcpThread dynamicConnections httpParser).ReachableWith RequestsKept s ∧
    requests (s.trace.filter (·.conn = 0)) = [[1, 2, 3]] ∧
    sentBytes (s.trace.filter (·.conn = 0)) = [1, 2, 3] ∧
    AlwaysWhole (s.trace.filter (·.conn = 0)) ∧
    ∀ kind fd d, .access kind 0 fd (some d) ∈ s.trace → d.owner = some 0 := by
  obtain ⟨s, hs, hsent⟩ : ∃ s,
      (tcpThread dynamicConnections httpParser).ReachableWith RequestsKept s ∧
      (requests (s.trace.filter (·.conn = 0)), sentBytes (s.trace.filter (·.conn = 0))) =
        ([[1, 2, 3]], [1, 2, 3]) :=
    exists_reachableWith_of_runEvents (fun s : TcpThread HttpParser =>
      (requests (s.trace.filter (·.conn = 0)), sentBytes (s.trace.filter (·.conn = 0))))
      threeBytes dynamicStart_initial (by decide +kernel)
  obtain ⟨hrequests, hbytes⟩ := Prod.mk.inj hsent
  exact ⟨s, hs, hrequests, hbytes,
    tcp_requests_sent_whole dynamicConnections rfl (by decide) hs 0⟩

/-- `RETRY` for the first byte of a request. -/
def retriedRequest : List TcpEvent :=
  [.timer 0 { dt := 5 }, .writable 4 { dt := 10 },
    .writable 4 { dt := 10, script := [1, 2, 3], write := .retry },
    .writable 4 { script := [4, 5, 6], write := .ok 3 }]

/-- The next request takes its place. -/
theorem request_dropped : ∃ s, (tcpThread dynamicConnections httpParser).Reachable s ∧
    requests (s.trace.filter (·.conn = 0)) = [[1, 2, 3], [4, 5, 6]] ∧
    sentBytes (s.trace.filter (·.conn = 0)) = [4, 5, 6] ∧
    ¬ AlwaysWhole (s.trace.filter (·.conn = 0)) := by
  obtain ⟨s, hs, hsent⟩ : ∃ s, (tcpThread dynamicConnections httpParser).Reachable s ∧
      (requests (s.trace.filter (·.conn = 0)), sentBytes (s.trace.filter (·.conn = 0))) =
        ([[1, 2, 3], [4, 5, 6]], [4, 5, 6]) :=
    exists_reachable_of_runEvents (fun s : TcpThread HttpParser =>
      (requests (s.trace.filter (·.conn = 0)), sentBytes (s.trace.filter (·.conn = 0))))
      retriedRequest dynamicStart_initial (by decide +kernel)
  obtain ⟨hrequests, hbytes⟩ := Prod.mk.inj hsent
  refine ⟨s, hs, hrequests, hbytes, ?_⟩
  intro hwhole
  have hinOrder := hwhole.inOrder
  rw [hrequests, hbytes] at hinOrder
  exact absurd hinOrder (by decide)

end Thread

end WrkQuic
