import WrkQuic.HttpData

/-!
# Read boundaries

What `socket_readable` makes of the responses that a server sends over one
connection, with the stream cut into reads in any way.

The cuts show in three places:
- behind the headers of an upgrade response `http_parser_execute` returns
  early, so that bytes that follow in the same read are an error, while
  bytes of a later read are the next response;
- behind a response that closes the connection bytes other than line ends
  are an error if they come in the same read, and are never read otherwise;
- a cut inside a header field or value counts a byte twice, so that it
  depends on the cuts whether a header is too large; and a header that is
  found too large at the end of a read is reported by the next read only.

A stream that reaches none of them is read in the same way in any cuts
(`CutFree`). What a stream comes to then is what it comes to one byte at a
time (`trickle`).
-/

namespace WrkQuic

/-- `RECVBUF`. -/
def recvbuf : ℕ := 8192

/-- What comes of the reads from one socket: the responses, and unless the
connection is kept whether `errors.read` counts that it is replaced. -/
structure Outcome where
  responses : List ReadResponse
  reconnect : Option Bool
deriving DecidableEq

def Outcome.after (o : Outcome) (responses : List ReadResponse) : Outcome :=
  { o with responses := responses ++ o.responses }

namespace HttpParser

/-- The rest of the loop of `socket_readable` after a read of `n` bytes. The
connection has been replaced already if a response closes it. -/
def finishRead (r : DataParsed) (n : ℕ) (later : HttpParser → ResponseText → Outcome) : Outcome :=
  if r.consumed ≠ n then ⟨r.responses, some true⟩
  else if ∃ response ∈ r.responses, response.keepAlive = false then ⟨r.responses, some false⟩
  else (later r.parser r.text).after r.responses

/-- `socket_readable` on the chunks read from one socket, an empty one at the
end of the stream. -/
def readChunks (p : HttpParser) (t : ResponseText) : List Bytes → Outcome
  | [] => ⟨[], none⟩
  | chunk :: chunks =>
      finishRead (executeData p t chunk) chunk.length fun p t => readChunks p t chunks

/-- The reads that a stream is cut into. -/
structure Cuts (stream : Bytes) (chunks : List Bytes) : Prop where
  flatten : chunks.flatten = stream
  sizes : ∀ chunk ∈ chunks, 1 ≤ chunk.length ∧ chunk.length ≤ recvbuf

/-- The empty read after a stream that the server closes. -/
def ending (closed : Bool) : List Bytes := if closed then [[]] else []

/-- A new connection on which the server sends the stream in these chunks. -/
def readStream (closed : Bool) (chunks : List Bytes) : Outcome :=
  readChunks .init .empty (chunks ++ ending closed)

/-- The stream is read in the same way in any cuts. -/
def CutsAgree (closed : Bool) (stream : Bytes) : Prop :=
  ∀ chunks chunks', Cuts stream chunks → Cuts stream chunks' →
    readStream closed chunks = readStream closed chunks'

/-! ## One byte at a time -/

def ended (closed : Bool) (q : HttpParser) (t : ResponseText) : Outcome :=
  if closed then
    let r := scanEof q
    finishRead ⟨r.parser, t, r.completions.map t.response, r.consumed⟩ 0 fun _ _ => ⟨[], none⟩
  else ⟨[], none⟩

/-- The stream read one byte at a time. -/
def trickle (closed : Bool) (q : HttpParser) (t : ResponseText) : Bytes → Outcome
  | [] => ended closed q t
  | ch :: rest =>
      let r := (textByte q ch t).response
      match feed q ch with
      | .next q' _ none => trickle closed q' (textByte q ch t) rest
      | .next q' _ (some m) =>
          if m.keepAlive then (trickle closed q' .empty rest).after [r m] else ⟨[r m], some false⟩
      | .leave q' m =>
          if m.keepAlive then (trickle closed q' .empty rest).after [r m] else ⟨[r m], some false⟩
      | .error _ _ => ⟨[], some true⟩

/-! ## Streams whose cuts do not show -/

/-- What follows is an error before it completes a response. -/
def Failing (closed : Bool) (q : HttpParser) : Bytes → Prop
  | [] => closed = true ∧ (scanEof q).consumed ≠ 0
  | ch :: rest =>
      match feed q ch with
      | .next q' _ none => Failing closed q' rest
      | .error _ _ => True
      | _ => False

/-- A parser that has counted every byte once, and whether the last one was
in an inner loop. -/
structure Once where
  parser : HttpParser
  inner : Bool

def Once.init : Once := ⟨.init, false⟩

def Once.pass (o : Once) (ch : UInt8) : Once :=
  match feedOnce o.parser ch with
  | .next l loop _ => ⟨l, loop.isSome⟩
  | .leave l _ => ⟨l, false⟩
  | .error l _ => ⟨l, false⟩

/-- What follows is an error even if every byte counts once. If the header is
found too large in the middle of an inner loop, it shows: the loop ends, or
another read must follow. -/
def FailingOnce (closed : Bool) (o : Once) : Bytes → Prop
  | [] => closed = true ∧ o.inner = false ∧ (scanEof o.parser).consumed ≠ 0
  | ch :: rest =>
      match feedOnce o.parser ch with
      | .next _ _ none => FailingOnce closed (o.pass ch) rest
      | .error l _ =>
          o.inner = true → l.httpErrno = some .headerOverflow →
            (∃ c ∈ ch :: rest, l.state.loopsOn c = false) ∨ recvbuf ≤ rest.length + 1
      | _ => False

/-- Line ends, which a dead parser passes. -/
def LineEnds (q : HttpParser) (u : Bytes) : Prop :=
  (∀ ch ∈ u, ch = cr ∨ ch = lf) ∧ q.nread + u.length ≤ httpMaxHeaderSize

/-- A stream from `q` on, where `o` has counted every byte once: the read that
completes a closing response holds nothing but line ends behind it; nothing
is behind an upgrade response, unless it fails at once; and a header that is
too large counted byte by byte is an error too if every byte counts once. -/
def CutFree (closed : Bool) (q : HttpParser) (o : Once) : Bytes → Prop
  | [] => True
  | ch :: rest =>
      match feed q ch with
      | .next q' _ none => CutFree closed q' (o.pass ch) rest
      | .next q' _ (some m) =>
          if m.keepAlive then CutFree closed q' (o.pass ch) rest
          else LineEnds q' (rest.take (recvbuf - 1))
      | .leave q' m =>
          rest = [] ∨
            (m.keepAlive = true ∧ Failing closed q' rest ∧ CutFree closed q' ⟨q', false⟩ rest)
      | .error q' _ => q'.httpErrno = some .headerOverflow → FailingOnce closed o (ch :: rest)

/-- No byte that counts twice makes a header too large: a header that is too
large counted byte by byte is an error at the same byte if every byte counts
once, and not in the middle of an inner loop. -/
def Undoubled (q : HttpParser) (o : Once) : Bytes → Prop
  | [] => True
  | ch :: rest =>
      match feed q ch with
      | .next q' _ none => Undoubled q' (o.pass ch) rest
      | .next q' _ (some m) => m.keepAlive = true → Undoubled q' (o.pass ch) rest
      | .leave q' m => m.keepAlive = true → Undoubled q' ⟨q', false⟩ rest
      | .error q' _ => q'.httpErrno = some .headerOverflow →
          o.inner = false ∧ ∃ l back, feedOnce o.parser ch = .error l back

/-- `p`, in the inner loop `loop`, has come as far as `o`. -/
structure BehindOnce (o : Once) (p : HttpParser) (loop : Option ℕ) : Prop
    extends Behind o.parser p loop where
  inner : loop ≠ none → o.inner = true

theorem behindOnce_self {q : HttpParser} (herrno : q.httpErrno = none) :
    BehindOnce ⟨q, false⟩ q none where
  same := rfl
  nread := by rw [passed_none, Nat.min_zero]
  entered := nofun
  httpErrno := herrno
  inner h := absurd rfl h

theorem init_behindOnce : BehindOnce .init .init none := behindOnce_self rfl

theorem BehindOnce.chunkEnd {o : Once} {p : HttpParser} {loop : Option ℕ}
    (h : BehindOnce o p loop) : BehindOnce o (p.setNread (p.nread + loop.getD 0)) none :=
  ⟨h.toBehind.chunkEnd, fun h => absurd rfl h⟩

/-- A byte that counts once is passed, or it is one too many in the middle of
an inner loop. -/
theorem BehindOnce.pass {o : Once} {p p' : HttpParser} {loop loop' : Option ℕ}
    {m : Option Completion} {ch : UInt8} (h : BehindOnce o p loop)
    (hscan : HttpParser.scanByte p loop ch = .next p' loop' m) :
    (BehindOnce (o.pass ch) p' loop' ∧ ∃ l entered, feedOnce o.parser ch = .next l entered m) ∨
      (m = none ∧ loop ≠ none ∧ p'.state.loopsOn ch = true ∧ Overdue p' loop' ∧
        ∃ l back, feedOnce o.parser ch = .error l back ∧
          l.httpErrno = some .headerOverflow ∧ l.state = p'.state) := by
  have hprecedes := h.toBehind.scanByte ch
  rw [hscan] at hprecedes
  rcases hprecedes with ⟨l, entered, honce, hbehind, hnone⟩ | ⟨hm, ⟨hne, hloops⟩, hrest⟩
  · refine Or.inl ⟨?_, l, entered, honce⟩
    rw [Once.pass, honce]
    exact ⟨hbehind, fun hne => Option.isSome_iff_ne_none.mpr (mt hnone hne)⟩
  · exact Or.inr ⟨hm, hne, hloops, hrest⟩

/-- Before an inner loop is entered, no byte is one too many. -/
theorem BehindOnce.pass_none {o : Once} {p p' : HttpParser} {loop : Option ℕ}
    {m : Option Completion} {ch : UInt8} (h : BehindOnce o p none)
    (hscan : HttpParser.scanByte p none ch = .next p' loop m) :
    BehindOnce (o.pass ch) p' loop := by
  have hprecedes := h.toBehind.scanByte ch
  rw [hscan] at hprecedes
  rcases hprecedes with ⟨l, entered, honce, hbehind, hnone⟩ | ⟨-, ⟨hne, -⟩, -⟩
  · rw [Once.pass, honce]
    exact ⟨hbehind, fun hne => Option.isSome_iff_ne_none.mpr (mt hnone hne)⟩
  · exact absurd rfl hne

/-- A byte as a chunk of its own. -/
theorem BehindOnce.feed {o : Once} {q q' : HttpParser} {loop : Option ℕ} {m : Option Completion}
    {ch : UInt8} (h : BehindOnce o q none) (hfeed : HttpParser.feed q ch = .next q' loop m) :
    BehindOnce (o.pass ch) q' none := by
  obtain ⟨q₁, loop₁, hscan, rfl, -⟩ := next_of_feed hfeed
  exact (h.pass_none hscan).chunkEnd

variable {p q q' : HttpParser} {o : Once} {t : ResponseText} {d : MarkedText} {ch : UInt8}
  {m : Completion} {u v : Bytes} {closed : Bool} {loop : Option ℕ} {r : DataParsed} {n : ℕ}
  {response : ReadResponse} {later : HttpParser → ResponseText → Outcome}

@[simp] theorem after_nil (o : Outcome) : o.after [] = o := rfl

theorem after_injective {o o' : Outcome} (responses : List ReadResponse)
    (h : o.after responses = o'.after responses) : o = o' := by
  obtain ⟨hresponses, hreconnect⟩ := Outcome.mk.inj h
  obtain ⟨rs, reconnect⟩ := o
  obtain ⟨rs', reconnect'⟩ := o'
  obtain rfl := List.append_cancel_left hresponses
  obtain rfl : reconnect = reconnect' := hreconnect
  rfl

/-! ## The end of a read -/

theorem finishRead_short (h : r.consumed ≠ n) :
    finishRead r n later = ⟨r.responses, some true⟩ := if_pos h

theorem finishRead_kept (h : r.consumed = n) (hkept : r.responses = []) :
    finishRead r n later = later r.parser r.text := by
  rw [finishRead, if_neg (not_not.mpr h), hkept, if_neg (by simp)]
  rfl

theorem finishRead_cons (h : response.keepAlive = true) :
    finishRead { r with responses := response :: r.responses } n later =
      (finishRead r n later).after [response] := by
  unfold finishRead
  simp only [List.mem_cons, exists_eq_or_imp, h, Bool.true_eq_false, false_or]
  split
  · rfl
  · split
    · rfl
    · rfl

theorem finishRead_closing (h : response.keepAlive = false) (hfull : r.consumed = n) :
    finishRead { r with responses := response :: r.responses } n later =
      ⟨response :: r.responses, some false⟩ := by
  unfold finishRead
  rw [if_neg (not_not.mpr (by exact hfull)), if_pos ⟨response, List.mem_cons_self, h⟩]

/-- Behind a closing response. -/
theorem dead_scanData : ∀ (u : Bytes) {p : HttpParser} (d : MarkedText) (done : ℕ),
    p.state = .dead → p.nread ≤ httpMaxHeaderSize →
      (scanData p none d done u).responses = [] ∧
        ((scanData p none d done u).consumed = done + u.length ↔ LineEnds p u)
  | [], p, d, done, _, hlimit => by
      refine ⟨rfl, iff_of_true ?_ ⟨nofun, hlimit⟩⟩
      rw [scanData, scan]
      split <;> rfl
  | ch :: rest, p, d, done, hdead, hlimit => by
      have hscan : scanByte p none ch = countHeaderSize p 1 fun p =>
          if ch = cr ∨ ch = lf then pass p else fail p .closedConnection := by
        have hheader : p.state.parsingHeader = true := by
          rw [hdead]
          rfl
        have hstate (n : ℕ) : scanState (p.setNread n) ch =
            if ch = cr ∨ ch = lf then pass (p.setNread n)
            else fail (p.setNread n) .closedConnection := by
          rw [scanState, show (p.setNread n).state = .dead from hdead]
        rw [scanByte_none, loopHead, if_pos hheader]
        unfold countHeaderSize
        simp only
        split
        · rfl
        · exact hstate _
      have hstop {q : HttpParser} {back : ℕ} (herror : scanByte p none ch = .error q back)
          (hnot : ¬ LineEnds p (ch :: rest)) :
          (scanData p none d done (ch :: rest)).responses = [] ∧
            ((scanData p none d done (ch :: rest)).consumed = done + (ch :: rest).length ↔
              LineEnds p (ch :: rest)) := by
        rw [scanData, herror]
        refine ⟨rfl, iff_of_false ?_ hnot⟩
        rw [List.length_cons]
        show done - back ≠ done + (rest.length + 1)
        omega
      by_cases hsize : p.nread + 1 ≤ httpMaxHeaderSize
      · rw [countHeaderSize_of_le hsize] at hscan
        by_cases hend : ch = cr ∨ ch = lf
        · rw [if_pos hend] at hscan
          obtain ⟨hnone, hiff⟩ := dead_scanData rest (p := p.setNread (p.nread + 1))
            (dataByte p ch d) (done + 1) hdead hsize
          rw [scanData, hscan]
          refine ⟨hnone, ?_⟩
          rw [List.length_cons, show done + (rest.length + 1) = done + 1 + rest.length by omega]
          refine hiff.trans ?_
          unfold LineEnds
          simp only [List.forall_mem_cons, hend, true_and, setNread_nread, List.length_cons]
          rw [show p.nread + 1 + rest.length = p.nread + (rest.length + 1) by omega]
        · rw [if_neg hend] at hscan
          exact hstop hscan fun h => hend (h.1 ch List.mem_cons_self)
      · rw [countHeaderSize, if_pos (Nat.not_le.mp hsize)] at hscan
        refine hstop hscan fun h => hsize ?_
        have := h.2
        rw [List.length_cons] at this
        omega

/-! ## The end of the stream -/

theorem scanEof_setNread (q : HttpParser) (n : ℕ) :
    (scanEof (q.setNread n)).consumed = (scanEof q).consumed ∧
      (scanEof (q.setNread n)).completions = (scanEof q).completions := by
  obtain ⟨flags, state, h, index, nread, length, major, minor, status, errno, upgrade⟩ := q
  cases state <;> exact ⟨rfl, rfl⟩

theorem readChunks_ending (h : Ahead p none q) :
    readChunks p t (ending closed) = ended closed q t := by
  unfold ending ended
  cases closed with
  | false => rfl
  | true =>
      have herrno : p.httpErrno = none := by
        rw [h.same]
        exact h.httpErrno
      have hsame := scanEof_setNread q p.nread
      rw [← h.same] at hsame
      simp only [if_true]
      rw [readChunks, executeData, herrno, if_neg (by exact Bool.false_ne_true), if_pos rfl]
      unfold finishRead
      simp only [hsame.1, hsame.2]
      rfl

/-! ## Streams that fail -/

/-- A header that is too large, unless the read ends before that shows. -/
theorem overdue_scanData : ∀ (u : Bytes) {p : HttpParser} {loop : Option ℕ} (d : MarkedText)
    (done : ℕ), Overdue p loop → (scanData p loop d done u).responses = [] ∧
      ((scanData p loop d done u).consumed = done + u.length →
        (scanData p loop d done u).parser.httpErrno.isSome = true ∧
          ∀ c ∈ u, p.state.loopsOn c = true)
  | [], p, loop, d, done, h => by
      obtain ⟨-, n, rfl, hover⟩ := h
      refine ⟨rfl, fun _ => ⟨?_, nofun⟩⟩
      rw [scanData, scan]
      simp only
      rw [if_pos ⟨hover, rfl⟩]
      rfl
  | ch :: rest, p, loop, d, done, h => by
      rw [scanData]
      rcases overdue_scanByte h ch with
        ⟨q, back, herror⟩ | ⟨hloops, q, loop', hnext, hover, hstate⟩
      · rw [herror]
        refine ⟨rfl, fun hfull => ?_⟩
        rw [List.length_cons] at hfull
        have hshort : done - back = done + (rest.length + 1) := hfull
        omega
      · rw [hnext]
        obtain ⟨hnone, hrest⟩ := overdue_scanData rest (dataByte p ch d) (done + 1) hover
        refine ⟨hnone, fun hfull => ?_⟩
        rw [List.length_cons, show done + (rest.length + 1) = done + 1 + rest.length by omega]
          at hfull
        obtain ⟨herrno, hall⟩ := hrest hfull
        rw [hstate] at hall
        refine ⟨herrno, fun c hc => ?_⟩
        rcases List.mem_cons.mp hc with rfl | hc
        · exact hloops
        · exact hall c hc

/-- The rest of a chunk, with what is left of the stream after it, when every
byte counted once is an error. -/
theorem failing_scanData (hlater : ∀ p o t, BehindOnce o p none → FailingOnce closed o v →
      later p t = ⟨[], some true⟩)
    (hstopped : ∀ p t, p.httpErrno.isSome = true → v ≠ [] → later p t = ⟨[], some true⟩) :
    ∀ (u : Bytes) {p : HttpParser} {o : Once} {loop : Option ℕ} (d : MarkedText) (done : ℕ),
      BehindOnce o p loop → (loop ≠ none → 1 ≤ done) → done + u.length ≤ recvbuf →
      FailingOnce closed o (u ++ v) →
      finishRead (scanData p loop d done u) (done + u.length) later = ⟨[], some true⟩
  | [], p, o, loop, d, done, h, _, hsize, hfail => by
      rw [List.nil_append] at hfail
      rw [scanData, scan]
      simp only
      split
      · rename_i hover
        have hne : v ≠ [] := by
          rintro rfl
          have hinner := h.inner (Option.isSome_iff_ne_none.mp hover.2)
          rw [hfail.2.1] at hinner
          exact absurd hinner (by decide)
        exact (finishRead_kept rfl rfl).trans (hstopped _ _ rfl hne)
      · exact (finishRead_kept rfl rfl).trans (hlater _ o _ h.chunkEnd hfail)
  | ch :: u, p, o, loop, d, done, h, hdone, hsize, hfail => by
      rw [List.length_cons] at hsize ⊢
      rw [List.cons_append, FailingOnce] at hfail
      rw [scanData]
      have hsum : done + (u.length + 1) = done + 1 + u.length := by omega
      cases hscan : scanByte p loop ch with
      | error q back =>
          refine finishRead_short ?_
          show done - back ≠ done + (u.length + 1)
          omega
      | leave q m =>
          have hprecedes := h.toBehind.scanByte ch
          rw [hscan] at hprecedes
          rw [hprecedes.2.2] at hfail
          exact hfail.elim
      | next q loop' m =>
          rcases h.pass hscan with ⟨hbehind, l, entered, hfeed⟩ |
            ⟨rfl, hloop, hloops, hover, l, back, hfeed, herrno, hstate⟩
          · rw [hfeed] at hfail
            cases m with
            | some m => exact hfail.elim
            | none =>
                rw [hsum]
                exact failing_scanData hlater hstopped u (dataByte p ch d) (done + 1) hbehind
                  (fun _ => Nat.le_add_left 1 done) (by omega) hfail
          · rw [hfeed] at hfail
            obtain ⟨hnone, hfull⟩ := overdue_scanData u (dataByte p ch d) (done + 1) hover
            simp only
            rw [hsum]
            by_cases hconsumed : (scanData q loop' (dataByte p ch d) (done + 1) u).consumed =
                done + 1 + u.length
            · obtain ⟨hstop, hall⟩ := hfull hconsumed
              rw [finishRead_kept hconsumed hnone]
              refine hstopped _ _ hstop ?_
              rintro rfl
              rw [List.append_nil] at hfail
              rcases hfail (h.inner hloop) herrno with ⟨c, hc, hends⟩ | hlong
              · have hon : q.state.loopsOn c = true := by
                  rcases List.mem_cons.mp hc with rfl | hc
                  · exact hloops
                  · exact hall c hc
                rw [← hstate, hends] at hon
                exact absurd hon (by decide)
              · -- the bytes before `ch` are in the read as well
                have hbefore := hdone hloop
                omega
            · rw [finishRead_short hconsumed, hnone]

theorem stopped_readChunks {chunks : List Bytes} (herrno : p.httpErrno.isSome = true)
    (hsizes : ∀ chunk ∈ chunks, 1 ≤ chunk.length ∧ chunk.length ≤ recvbuf)
    (hne : chunks.flatten ≠ []) :
    readChunks p t (chunks ++ ending closed) = ⟨[], some true⟩ := by
  cases chunks with
  | nil => exact absurd rfl hne
  | cons chunk chunks =>
      have hpos := (hsizes chunk List.mem_cons_self).1
      rw [List.cons_append, readChunks, executeData, if_pos herrno]
      refine finishRead_short ?_
      show 0 ≠ chunk.length
      omega

theorem executeData_chunk {chunk : Bytes} (herrno : p.httpErrno = none)
    (hchunk : 1 ≤ chunk.length) :
    executeData p t chunk = scanData p none (chunkStart p t) 0 chunk := by
  have hne : chunk ≠ [] := by
    rintro rfl
    exact absurd hchunk (by decide)
  rw [executeData, herrno, if_neg (by exact Bool.false_ne_true), if_neg hne]

theorem scanEof_completions {q : HttpParser} (hconsumed : (scanEof q).consumed ≠ 0) :
    (scanEof q).completions = [] := by
  obtain ⟨flags, state, h, index, nread, length, major, minor, status, errno, upgrade⟩ := q
  cases state <;> first | rfl | exact absurd rfl hconsumed

theorem readChunks_endless (herrno : p.httpErrno = none) (hconsumed : (scanEof p).consumed ≠ 0) :
    readChunks p t (ending true) = ⟨[], some true⟩ := by
  rw [ending, if_pos rfl, readChunks, executeData, herrno, if_neg (by exact Bool.false_ne_true),
    if_pos rfl]
  refine (finishRead_short (by exact hconsumed)).trans ?_
  simp only [scanEof_completions hconsumed]
  rfl

theorem failing_readChunks : ∀ (chunks : List Bytes) {p : HttpParser} {o : Once}
    (t : ResponseText), (∀ chunk ∈ chunks, 1 ≤ chunk.length ∧ chunk.length ≤ recvbuf) →
    BehindOnce o p none → FailingOnce closed o chunks.flatten →
    readChunks p t (chunks ++ ending closed) = ⟨[], some true⟩
  | [], p, o, t, _, h, hfail => by
      obtain ⟨rfl, -, hconsumed⟩ := hfail
      rw [h.same, (scanEof_setNread p _).1] at hconsumed
      exact readChunks_endless h.httpErrno hconsumed
  | chunk :: chunks, p, o, t, hsizes, h, hfail => by
      obtain ⟨hpos, hle⟩ := hsizes chunk List.mem_cons_self
      have hsizes' : ∀ c ∈ chunks, 1 ≤ c.length ∧ c.length ≤ recvbuf := fun c hc =>
        hsizes c (List.mem_cons_of_mem _ hc)
      rw [List.cons_append, readChunks, executeData_chunk h.httpErrno hpos,
        ← Nat.zero_add chunk.length]
      refine failing_scanData (v := chunks.flatten) ?_ ?_ chunk (chunkStart p t) 0 h
        (fun hloop => absurd rfl hloop) (by omega) hfail
      · intro p' o' t' h' hfail'
        exact failing_readChunks chunks t' hsizes' h' hfail'
      · intro p' t' herrno hne
        exact stopped_readChunks herrno hsizes' hne

/-! ## Streams whose cuts do not show -/

theorem textByte_ahead (h : Ahead p loop q) : textByte p ch t = textByte q ch t := by
  rw [h.same]
  rfl

theorem unmarked_text (h : d.mark = none) : d.text = d.all := by
  obtain ⟨text, mark⟩ := d
  cases h
  rfl

/-- A byte that is passed, whatever the chunk. -/
theorem feed_next {loop₁ : Option ℕ} {m : Option Completion} (h : Ahead p loop q)
    (hb : BehindOnce o p loop) (hmarks : Marks p.state d.mark)
    (hfeed : feed q ch = .next q' loop₁ m) :
    ∃ p' loop', scanByte p loop ch = .next p' loop' m ∧ Ahead p' loop' q' ∧
      BehindOnce (o.pass ch) p' loop' ∧ Marks p'.state (dataByte p ch d).mark ∧
      (dataByte p ch d).all = textByte q ch d.all := by
  have hfollows := h.feed ch
  rw [hfeed] at hfollows
  obtain ⟨p', loop', hscan, hahead⟩ := hfollows
  have hlands := scanByte_lands loop ch hmarks
  rw [hscan] at hlands
  refine ⟨p', loop', hscan, hahead, ?_, hlands, ?_⟩
  · rcases hb.pass hscan with ⟨hbehind, -⟩ | ⟨-, -, -, hover, -⟩
    · exact hbehind
    · obtain ⟨-, n, rfl, hover⟩ := hover
      have hle : p'.nread + (2 * n - 1) ≤ q'.nread := hahead.nread
      have hlimit := hahead.limit
      omega
  · rw [dataByte_text ch hmarks, textByte_ahead h]

theorem failing_trickle : ∀ (u : Bytes) {q : HttpParser} (t : ResponseText),
    Failing closed q u → trickle closed q t u = ⟨[], some true⟩
  | [], q, t, ⟨hclosed, hconsumed⟩ => by
      rw [trickle, ended, if_pos hclosed]
      refine (finishRead_short (by exact hconsumed)).trans ?_
      rw [scanEof_completions hconsumed]
      rfl
  | ch :: rest, q, t, h => by
      rw [Failing] at h
      rw [trickle]
      cases hfeed : feed q ch with
      | next q' loop m =>
          rw [hfeed] at h
          cases m with
          | none => exact failing_trickle rest _ h
          | some m => exact h.elim
      | error q' back => rfl
      | leave q' m =>
          rw [hfeed] at h
          exact h.elim

/-- Behind a closing response the chunk holds line ends only. -/
theorem lineEnds_rest (h : Ahead p none q) (hsize : u.length ≤ recvbuf - 1)
    (hline : LineEnds q ((u ++ v).take (recvbuf - 1))) : LineEnds p u := by
  have hle : p.nread ≤ q.nread := h.nread
  obtain ⟨hends, hlimit⟩ := hline
  rw [List.take_append, List.take_of_length_le hsize] at hends hlimit
  rw [List.length_append] at hlimit
  exact ⟨fun ch hch => hends ch (List.mem_append_left _ hch), by omega⟩

/-- An upgrade response, with what is left of the chunk and of the stream. -/
theorem leave_scanData
    (hlater : ∀ p q o t, Ahead p none q → BehindOnce o p none → Fits p.state t →
      CutFree closed q o v → later p t = trickle closed q t v)
    (u : Bytes) (d : MarkedText) (done : ℕ) (h : Ahead p loop q) (hmarks : Marks p.state d.mark)
    (hfeed : feed q ch = .leave q' m)
    (hfree : u ++ v = [] ∨ (m.keepAlive = true ∧ Failing closed q' (u ++ v) ∧
      CutFree closed q' ⟨q', false⟩ (u ++ v))) :
    finishRead (scanData p loop d done (ch :: u)) (done + (u.length + 1)) later =
      if m.keepAlive then
        (trickle closed q' .empty (u ++ v)).after [(textByte q ch d.all).response m]
      else ⟨[(textByte q ch d.all).response m], some false⟩ := by
  have hfollows := h.feed ch
  have hlands := scanByte_lands loop ch hmarks
  have hunmarked := scanByte_unmarked loop ch hmarks
  rw [hfeed] at hfollows
  obtain ⟨herrno, hzero, hscan⟩ := hfollows
  rw [hscan] at hunmarked hlands
  have hresponse : (dataByte p ch d).text = textByte q ch d.all := by
    rw [unmarked_text hunmarked, dataByte_text ch hmarks, textByte_ahead h]
  rw [scanData, hscan]
  simp only
  rw [hresponse]
  by_cases halive : m.keepAlive = true
  · rw [if_pos halive, finishRead_cons (by exact halive) (r := ⟨q', .empty, [], done + 1⟩)]
    congr 1
    cases u with
    | nil =>
        have hahead : Ahead q' none q' :=
          ⟨rfl, Nat.le_refl _, hzero ▸ Nat.zero_le _, herrno⟩
        have hfits : Fits q'.state .empty := by
          have := marks_fits (d := ⟨.empty, none⟩) (hunmarked ▸ hlands)
          exact this
        refine (finishRead_kept rfl rfl).trans
          (hlater q' q' ⟨q', false⟩ .empty hahead (behindOnce_self herrno) hfits ?_)
        rcases hfree with hrest | ⟨-, -, hfree⟩
        · obtain rfl : v = [] := hrest
          trivial
        · exact hfree
    | cons c u =>
        rcases hfree with hrest | ⟨-, hfails, -⟩
        · cases hrest
        · rw [failing_trickle _ _ hfails]
          refine finishRead_short ?_
          rw [List.length_cons]
          show done + 1 ≠ done + (u.length + 1 + 1)
          omega
  · rw [if_neg halive]
    rcases hfree with hrest | ⟨halive', -⟩
    · obtain ⟨rfl, rfl⟩ := List.append_eq_nil_iff.mp hrest
      exact finishRead_closing (r := ⟨q', .empty, [], done + 1⟩)
        (Bool.eq_false_iff.mpr halive) rfl
    · exact absurd halive' halive

/-- The rest of a chunk, with what is left of the stream after it. -/
theorem trickle_scanData
    (hlater : ∀ p q o t, Ahead p none q → BehindOnce o p none → Fits p.state t →
      CutFree closed q o v → later p t = trickle closed q t v)
    (hfailing : ∀ p o t, BehindOnce o p none → FailingOnce closed o v →
      later p t = ⟨[], some true⟩)
    (hstopped : ∀ p t, p.httpErrno.isSome = true → v ≠ [] → later p t = ⟨[], some true⟩) :
    ∀ (u : Bytes) {p q : HttpParser} {o : Once} {loop : Option ℕ} (d : MarkedText) (done : ℕ),
      Ahead p loop q → BehindOnce o p loop → (loop ≠ none → 1 ≤ done) → Marks p.state d.mark →
      done + u.length ≤ recvbuf → CutFree closed q o (u ++ v) →
      finishRead (scanData p loop d done u) (done + u.length) later =
        trickle closed q d.all (u ++ v)
  | [], p, q, o, loop, d, done, h, hb, _, hmarks, _, hfree => by
      obtain ⟨hsize, hend⟩ := h.chunkEnd
      rw [scanData, scan]
      simp only
      rw [if_neg fun hover => Nat.not_lt.mpr hsize hover.1]
      exact (finishRead_kept rfl rfl).trans
        (hlater _ q o _ hend hb.chunkEnd (marks_fits hmarks) hfree)
  | ch :: u, p, q, o, loop, d, done, h, hb, hdone, hmarks, hsize, hfree => by
      rw [List.length_cons] at hsize
      rw [List.cons_append, CutFree] at hfree
      rw [List.cons_append, trickle]
      have hsum : done + (u.length + 1) = done + 1 + u.length := by omega
      have hunmarked := scanByte_unmarked loop ch hmarks
      cases hfeed : feed q ch with
      | next q' loop₁ m =>
          obtain ⟨p', loop', hscan, hahead, hbehind, hmarks', htext⟩ := feed_next h hb hmarks hfeed
          rw [hfeed] at hfree
          rw [hscan] at hunmarked
          rw [scanData, hscan, List.length_cons, hsum]
          cases m with
          | none =>
              rw [← htext]
              exact trickle_scanData hlater hfailing hstopped u (dataByte p ch d) (done + 1) hahead
                hbehind (fun _ => Nat.le_add_left 1 done) hmarks' (by omega) hfree
          | some m =>
              have hresponse : (dataByte p ch d).text = textByte q ch d.all :=
                (unmarked_text hunmarked).trans htext
              simp only
              rw [hresponse]
              by_cases halive : m.keepAlive = true
              · simp only [halive, if_true] at hfree ⊢
                rw [finishRead_cons (by exact halive)]
                congr 1
                have hrest := trickle_scanData hlater hfailing hstopped u
                  { dataByte p ch d with text := .empty } (done + 1) hahead hbehind
                  (fun _ => Nat.le_add_left 1 done) hmarks' (by omega) hfree
                rwa [← unmarked_text (by exact hunmarked)] at hrest
              · simp only at hfree
                rw [if_neg halive] at hfree ⊢
                have hclosing := scanByte_closing p loop ch
                rw [hscan] at hclosing
                obtain ⟨hdead, rfl⟩ := hclosing (Bool.eq_false_iff.mpr halive)
                have hlimit : p'.nread ≤ httpMaxHeaderSize := hahead.nread.trans hahead.limit
                obtain ⟨hnone, hfull⟩ := dead_scanData u { dataByte p ch d with text := .empty }
                  (done + 1) hdead hlimit
                refine (finishRead_closing (by exact Bool.eq_false_iff.mpr halive)
                  (hfull.mpr (lineEnds_rest hahead (by omega) hfree))).trans ?_
                rw [hnone]
      | leave q' m =>
          rw [hfeed] at hfree
          rw [List.length_cons]
          exact leave_scanData hlater u d done h hmarks hfeed hfree
      | error q' back =>
          have hfollows := h.feed ch
          rw [hfeed] at hfree hfollows
          rcases hfollows with hover | ⟨p', hscan⟩
          · exact failing_scanData hfailing hstopped (ch :: u) d done hb hdone
              (by rw [List.length_cons]; exact hsize) (hfree hover)
          · rw [scanData, hscan]
            refine finishRead_short ?_
            show done - back ≠ done + (u.length + 1)
            omega

theorem readChunks_trickle : ∀ (chunks : List Bytes) {p q : HttpParser} {o : Once}
    (t : ResponseText), (∀ chunk ∈ chunks, 1 ≤ chunk.length ∧ chunk.length ≤ recvbuf) →
    Ahead p none q → BehindOnce o p none → Fits p.state t → CutFree closed q o chunks.flatten →
    readChunks p t (chunks ++ ending closed) = trickle closed q t chunks.flatten
  | [], p, q, o, t, _, h, _, _, _ => readChunks_ending h
  | chunk :: chunks, p, q, o, t, hsizes, h, hb, hfits, hfree => by
      obtain ⟨hpos, hle⟩ := hsizes chunk List.mem_cons_self
      have hsizes' : ∀ c ∈ chunks, 1 ≤ c.length ∧ c.length ≤ recvbuf := fun c hc =>
        hsizes c (List.mem_cons_of_mem _ hc)
      have hchunk := trickle_scanData (v := chunks.flatten)
        (fun _ _ _ t h hb hfits => readChunks_trickle chunks t hsizes' h hb hfits)
        (fun _ _ t hb => failing_readChunks chunks t hsizes' hb)
        (fun _ _ herrno => stopped_readChunks herrno hsizes')
        chunk (chunkStart p t) 0 h hb (fun hloop => absurd rfl hloop) (chunkStart_marks p t)
        (by omega) hfree
      rw [chunkStart_all hfits, Nat.zero_add] at hchunk
      rw [List.cons_append, readChunks, executeData_chunk hb.httpErrno hpos]
      exact hchunk

/-! ## Streams whose cuts show -/

theorem trickle_failing : ∀ (u : Bytes) {q : HttpParser} (t : ResponseText),
    trickle closed q t u = ⟨[], some true⟩ → Failing closed q u
  | [], q, t, h => by
      rw [trickle, ended] at h
      split at h
      · rename_i hclosed
        refine ⟨hclosed, fun hconsumed => ?_⟩
        unfold finishRead at h
        rw [if_neg (not_not.mpr (by exact hconsumed))] at h
        split at h
        · exact absurd (congrArg Outcome.reconnect h) (by simp)
        · exact absurd (congrArg Outcome.reconnect h) (by simp [Outcome.after])
      · exact absurd (congrArg Outcome.reconnect h) (by simp)
  | ch :: rest, q, t, h => by
      rw [trickle] at h
      rw [Failing]
      cases hfeed : feed q ch with
      | next q' loop m =>
          rw [hfeed] at h
          cases m with
          | none => exact trickle_failing rest _ h
          | some m =>
              simp only at h
              split at h
              · cases (Outcome.mk.inj h).1
              · cases (Outcome.mk.inj h).1
      | error q' back => trivial
      | leave q' m =>
          rw [hfeed] at h
          simp only at h
          split at h
          · cases (Outcome.mk.inj h).1
          · cases (Outcome.mk.inj h).1

/-- The cut into single bytes. -/
theorem cuts_bytes (stream : Bytes) : Cuts stream (stream.map ([·])) := by
  refine ⟨by rw [← List.flatMap_def, List.flatMap_singleton'], ?_⟩
  intro chunk hchunk
  obtain ⟨ch, -, rfl⟩ := List.mem_map.mp hchunk
  exact ⟨Nat.le_refl 1, show 1 ≤ recvbuf by decide⟩

theorem Cuts.cons {stream : Bytes} {chunks : List Bytes} (h : Cuts stream chunks) (chunk : Bytes)
    (hpos : 1 ≤ chunk.length) (hle : chunk.length ≤ recvbuf) :
    Cuts (chunk ++ stream) (chunk :: chunks) := by
  refine ⟨by rw [List.flatten_cons, h.flatten], ?_⟩
  intro c hc
  rcases List.mem_cons.mp hc with rfl | hc
  · exact ⟨hpos, hle⟩
  · exact h.sizes c hc

/-- A read of one byte that does not make a header too large. -/
theorem readChunks_next {loop₁ : Option ℕ} {m : Option Completion} (chunks : List Bytes)
    (h : Ahead q none q) (hfits : Fits q.state t) (hfeed : feed q ch = .next q' loop₁ m) :
    readChunks q t ([ch] :: chunks) =
        (match m with
        | none => readChunks q' (textByte q ch t) chunks
        | some m =>
            if m.keepAlive then
              (readChunks q' .empty chunks).after [(textByte q ch t).response m]
            else ⟨[(textByte q ch t).response m], some false⟩) ∧
      Ahead q' none q' ∧ Fits q'.state (textByte q ch t) ∧ (m.isSome → Fits q'.state .empty) := by
  obtain ⟨p, loop, hscan, rfl, hsize⟩ := next_of_feed hfeed
  have hfollows := h.feed ch
  rw [hfeed, hscan] at hfollows
  obtain ⟨p', loop', hsame, hahead⟩ := hfollows
  have hmarks := chunkStart_marks q t
  have hlands := scanByte_lands none ch hmarks
  have hunmarked := scanByte_unmarked none ch hmarks
  have htext := dataByte_text ch hmarks
  rw [hscan] at hlands hunmarked
  rw [chunkStart_all hfits] at htext
  have hfits' := marks_fits hlands
  rw [htext] at hfits'
  have hend (d : MarkedText) : scanData p loop d (0 + 1) [] =
      ⟨p.setNread (p.nread + loop.getD 0), d.all, [], 1⟩ := by
    rw [scanData, scan]
    simp only
    rw [if_neg fun hover => Nat.not_lt.mpr hsize hover.1]
    rfl
  refine ⟨?_, hahead.self, hfits', ?_⟩
  · rw [readChunks, executeData_chunk h.httpErrno (by exact Nat.le_refl 1), scanData, hscan]
    cases m with
    | none =>
        rw [← htext]
        simp only [hend]
        exact finishRead_kept rfl rfl
    | some m =>
        have hempty : ({ dataByte q ch (chunkStart q t) with text := .empty } : MarkedText).all =
            .empty := (unmarked_text (by exact hunmarked)).symm
        simp only [hend, hempty]
        rw [unmarked_text hunmarked, htext]
        by_cases halive : m.keepAlive = true
        · rw [if_pos halive]
          refine (finishRead_cons (r := ⟨_, _, [], 1⟩) (by exact halive)).trans ?_
          congr 1
        · rw [if_neg halive]
          exact finishRead_closing (r := ⟨_, _, [], 1⟩) (Bool.eq_false_iff.mpr halive) rfl
  · intro hsome
    obtain ⟨m, rfl⟩ := Option.isSome_iff_exists.mp hsome
    exact marks_fits (d := ⟨.empty, none⟩) (hunmarked ▸ hlands)

/-- A read of one byte that ends an upgrade response. -/
theorem readChunks_leave (chunks : List Bytes) (h : Ahead q none q) (hfits : Fits q.state t)
    (hfeed : feed q ch = .leave q' m) :
    readChunks q t ([ch] :: chunks) =
        (if m.keepAlive then (readChunks q' .empty chunks).after [(textByte q ch t).response m]
        else ⟨[(textByte q ch t).response m], some false⟩) ∧
      scanByte q none ch = .leave q' m ∧ Ahead q' none q' ∧ Fits q'.state .empty ∧
      (dataByte q ch (chunkStart q t)).text = textByte q ch t := by
  have hfollows := h.feed ch
  rw [hfeed] at hfollows
  obtain ⟨herrno, hzero, hscan⟩ := hfollows
  have hmarks := chunkStart_marks q t
  have hlands := scanByte_lands none ch hmarks
  have hunmarked := scanByte_unmarked none ch hmarks
  have htext := dataByte_text ch hmarks
  rw [hscan] at hlands hunmarked
  rw [chunkStart_all hfits, ← unmarked_text hunmarked] at htext
  refine ⟨?_, hscan, ⟨rfl, Nat.le_refl _, hzero ▸ Nat.zero_le _, herrno⟩,
    marks_fits (d := ⟨.empty, none⟩) (hunmarked ▸ hlands), htext⟩
  rw [readChunks, executeData_chunk h.httpErrno (by exact Nat.le_refl 1), scanData, hscan]
  simp only
  rw [htext]
  by_cases halive : m.keepAlive = true
  · rw [if_pos halive]
    refine (finishRead_cons (r := ⟨_, _, [], 1⟩) (by exact halive)).trans ?_
    congr 1
  · rw [if_neg halive]
    exact finishRead_closing (r := ⟨_, _, [], 1⟩) (Bool.eq_false_iff.mpr halive) rfl

/-- A read of one byte that is an error, but for a header too large. -/
theorem readChunks_error {chunks : List Bytes} {back : ℕ} (h : Ahead q none q)
    (hfeed : feed q ch = .error q' back) (herrno : q'.httpErrno ≠ some .headerOverflow) :
    readChunks q t ([ch] :: chunks) = ⟨[], some true⟩ := by
  have hfollows := h.feed ch
  rw [hfeed] at hfollows
  obtain ⟨p, hscan⟩ := hfollows.resolve_left herrno
  rw [readChunks, executeData_chunk h.httpErrno (by exact Nat.le_refl 1), scanData, hscan]
  refine finishRead_short ?_
  show 0 - back ≠ 1
  omega

/-- Two reads that differ in what `errors.read` counts. -/
theorem reconnect_ne {o : Outcome} {rs : List ReadResponse} (h : finishRead r n later = o)
    (ho : o = ⟨rs, some false⟩) : r.consumed = n := by
  by_contra hshort
  rw [finishRead_short hshort, ho] at h
  exact absurd (congrArg Outcome.reconnect h) (by simp)

/-- Behind a closing response, as much as one read can hold. -/
theorem lineEnds_of_agree {loop₁ : Option ℕ} {rest : Bytes} {rs : List ReadResponse}
    (h : Ahead q none q) (hfeed : feed q ch = .next q' loop₁ (some m))
    (halive : m.keepAlive = false)
    (hagree : ∀ chunks, Cuts (ch :: rest) chunks →
      readChunks q t (chunks ++ ending closed) = ⟨rs, some false⟩) :
    LineEnds q' (rest.take (recvbuf - 1)) := by
  obtain ⟨p, loop, hscan, rfl, hsize⟩ := next_of_feed hfeed
  have hclosing := scanByte_closing q none ch
  rw [hscan] at hclosing
  obtain ⟨hdead, rfl⟩ := hclosing halive
  have hcuts : Cuts (ch :: rest)
      ((ch :: rest.take (recvbuf - 1)) :: (rest.drop (recvbuf - 1)).map ([·])) := by
    have := (cuts_bytes (rest.drop (recvbuf - 1))).cons (ch :: rest.take (recvbuf - 1))
      (by rw [List.length_cons]; omega) (by
        rw [List.length_cons, List.length_take]
        have : 1 ≤ recvbuf := by decide
        omega)
    rwa [List.cons_append, List.take_append_drop] at this
  have hread := hagree _ hcuts
  rw [List.cons_append, readChunks, executeData_chunk h.httpErrno (by rw [List.length_cons]; omega),
    scanData, hscan] at hread
  have hfull := reconnect_ne hread rfl
  rw [List.length_cons, Nat.add_comm (rest.take (recvbuf - 1)).length] at hfull
  exact (dead_scanData _ _ (0 + 1) hdead hsize).2.mp hfull

/-- A stream that every cut reads in the same way. -/
theorem cutFree_of_agree : ∀ (stream : Bytes) {q : HttpParser} {o : Once} (t : ResponseText)
    (outcome : Outcome), Ahead q none q → BehindOnce o q none → Fits q.state t →
    Undoubled q o stream →
    (∀ chunks, Cuts stream chunks → readChunks q t (chunks ++ ending closed) = outcome) →
    CutFree closed q o stream ∧ outcome = trickle closed q t stream
  | [], q, o, t, outcome, h, _, _, _, hagree => by
      refine ⟨trivial, ?_⟩
      rw [← hagree [] ⟨rfl, nofun⟩]
      exact readChunks_ending h
  | ch :: rest, q, o, t, outcome, h, hb, hfits, hdoubled, hagree => by
      have hbyte (chunks : List Bytes) (hcuts : Cuts rest chunks) :
          readChunks q t ([ch] :: (chunks ++ ending closed)) = outcome :=
        hagree ([ch] :: chunks) (hcuts.cons [ch] (by exact Nat.le_refl 1)
          (by show 1 ≤ recvbuf; decide))
      have hbytes := hbyte _ (cuts_bytes rest)
      rw [Undoubled] at hdoubled
      rw [CutFree, trickle]
      cases hfeed : feed q ch with
      | next q' loop₁ m =>
          rw [hfeed] at hdoubled
          have hbehind := hb.feed hfeed
          obtain ⟨-, hahead, hfits', hempty⟩ := readChunks_next [] h hfits hfeed
          have hnext (chunks : List Bytes) := (readChunks_next chunks h hfits hfeed).1
          cases m with
          | none =>
              refine cutFree_of_agree rest _ outcome hahead hbehind hfits' hdoubled
                fun chunks hcuts => ?_
              rw [← hbyte chunks hcuts, hnext]
          | some m =>
              simp only at hdoubled hnext ⊢
              by_cases halive : m.keepAlive = true
              · simp only [halive, if_true] at hnext ⊢
                rw [hnext] at hbytes
                obtain ⟨hfree, htrickle⟩ := cutFree_of_agree rest .empty
                  (readChunks q' .empty (rest.map ([·]) ++ ending closed)) hahead hbehind
                  (hempty rfl) (hdoubled halive) fun chunks hcuts => by
                    have hsame := hbyte chunks hcuts
                    rw [hnext, ← hbytes] at hsame
                    exact after_injective _ hsame
                refine ⟨hfree, ?_⟩
                rw [← hbytes, htrickle]
              · rw [if_neg halive, if_neg halive]
                rw [hnext, if_neg halive] at hbytes
                refine ⟨?_, hbytes.symm⟩
                have hsame : ∀ chunks, Cuts (ch :: rest) chunks →
                    readChunks q t (chunks ++ ending closed) =
                      ⟨[(textByte q ch t).response m], some false⟩ := fun chunks hcuts => by
                  rw [hagree chunks hcuts, hbytes]
                exact lineEnds_of_agree h hfeed (Bool.eq_false_iff.mpr halive) hsame
      | leave q' m =>
          rw [hfeed] at hdoubled
          obtain ⟨-, hscan, hahead, hempty, htext⟩ := readChunks_leave [] h hfits hfeed
          have hnext (chunks : List Bytes) := (readChunks_leave chunks h hfits hfeed).1
          simp only at hdoubled hnext ⊢
          rw [hnext] at hbytes
          cases rest with
          | nil =>
              refine ⟨Or.inl rfl, ?_⟩
              rw [← hbytes, trickle, ← readChunks_ending hahead]
              rfl
          | cons c rest =>
              have hshort : readChunks q t ([ch, c] :: (rest.map ([·]) ++ ending closed)) =
                  ⟨[(textByte q ch t).response m], some true⟩ := by
                rw [readChunks, executeData_chunk h.httpErrno (by show 1 ≤ 2; decide), scanData,
                  hscan]
                simp only
                rw [htext]
                refine finishRead_short ?_
                show 0 + 1 ≠ 2
                decide
              have ho : outcome = ⟨[(textByte q ch t).response m], some true⟩ := by
                rw [← hshort]
                exact (hagree ([ch, c] :: rest.map ([·])) ((cuts_bytes rest).cons [ch, c]
                  (by show 1 ≤ 2; decide) (by show 2 ≤ recvbuf; decide))).symm
              by_cases halive : m.keepAlive = true
              · rw [if_pos halive] at hbytes ⊢
                obtain ⟨hfree, htrickle⟩ := cutFree_of_agree (c :: rest) .empty
                  ⟨[], some true⟩ hahead (behindOnce_self hahead.httpErrno) hempty (hdoubled halive)
                  fun chunks hcuts => by
                    have hsame := hbyte chunks hcuts
                    rw [hnext, if_pos halive, ho] at hsame
                    exact after_injective [(textByte q ch t).response m] hsame
                refine ⟨Or.inr ⟨halive, trickle_failing _ .empty htrickle.symm, hfree⟩, ?_⟩
                rw [ho, ← htrickle]
                rfl
              · rw [if_neg halive, ho] at hbytes
                exact absurd (congrArg Outcome.reconnect hbytes) (by simp)
      | error q' back =>
          rw [hfeed] at hdoubled
          simp only at hdoubled ⊢
          rw [← hbytes]
          by_cases hover : q'.httpErrno = some .headerOverflow
          · obtain ⟨hinner, l, back', honce⟩ := hdoubled hover
            have hfails : FailingOnce closed o (ch :: rest) := by
              rw [FailingOnce, honce]
              intro hin
              rw [hinner] at hin
              cases hin
            refine ⟨fun _ => hfails, ?_⟩
            have hcuts := (cuts_bytes rest).cons [ch] (by exact Nat.le_refl 1)
              (by show 1 ≤ recvbuf; decide)
            refine failing_readChunks ([ch] :: rest.map ([·])) t hcuts.sizes hb ?_
            rw [hcuts.flatten]
            exact hfails
          · exact ⟨fun hover' => absurd hover' hover, readChunks_error h hfeed hover⟩

/-- A stream that is read one byte at a time, with every response kept alive,
is read in the same way in any cuts. -/
theorem cutFree_of_run : ∀ (stream : Bytes) {q : HttpParser} {o : Once} {q' : HttpParser}
    {ms : List Completion},
    Scanner.run feedByte q stream = some (q', ms) → (∀ m ∈ ms, m.keepAlive = true) →
    CutFree closed q o stream ∧ Undoubled q o stream
  | [], q, o, _, ms, _, _ => ⟨trivial, trivial⟩
  | ch :: rest, q, o, _, ms, hrun, halive => by
      rw [Scanner.run] at hrun
      split at hrun
      · rename_i q₁ m hbyte
        obtain ⟨⟨q₂, ms'⟩, hrest, heq⟩ := Option.map_eq_some_iff.mp hrun
        obtain ⟨rfl, rfl⟩ := Prod.mk.inj heq
        obtain ⟨loop, hfeed⟩ := feed_of_feedByte hbyte
        obtain ⟨hfree, hdoubled⟩ := cutFree_of_run rest (o := o.pass ch) hrest fun m' hm' =>
          halive m' (List.mem_append_right _ hm')
        rw [CutFree, Undoubled, hfeed]
        cases m with
        | none => exact ⟨hfree, hdoubled⟩
        | some m =>
            simp only
            rw [if_pos (halive m (List.mem_append_left _ (List.mem_singleton_self m)))]
            exact ⟨hfree, fun _ => hdoubled⟩
      · cases hrun

end HttpParser

open HttpParser

/-- Any two cuts of a stream come to the same, if the stream is `CutFree`,
and unless bytes that count twice make one of its headers too large only
then. -/
theorem reads_independent_of_cuts (closed : Bool) (stream : Bytes) :
    (CutFree closed .init .init stream → CutsAgree closed stream) ∧
      (Undoubled .init .init stream → CutsAgree closed stream →
        CutFree closed .init .init stream) := by
  have hfits : Fits HttpParser.init.state .empty := ⟨fun _ => rfl, fun h => nomatch h⟩
  refine ⟨fun hfree chunks chunks' hcuts hcuts' => ?_, fun hdoubled hagree => ?_⟩
  · have hread (cs : List Bytes) (hcs : Cuts stream cs) :
        readStream closed cs = trickle closed .init .empty stream := by
      rw [← hcs.flatten] at hfree ⊢
      exact readChunks_trickle cs .empty hcs.sizes init_ahead init_behindOnce hfits hfree
    rw [hread chunks hcuts, hread chunks' hcuts']
  · exact (cutFree_of_agree stream .empty (readStream closed (stream.map ([·]))) init_ahead
      init_behindOnce hfits hdoubled fun chunks hcuts => hagree chunks _ hcuts
        (cuts_bytes stream)).1

/-- Two responses that keep the connection alive. -/
def aliveStream : Bytes :=
  "HTTP/1.1 200 OK\r\nContent-Length: 2\r\n\r\nhiHTTP/1.1 204 No\r\n\r\n".toUTF8.toList

theorem reads_independent_of_cuts_alive :
    CutsAgree true aliveStream ∧ CutFree true .init .init aliveStream := by
  have hrun : (Scanner.run feedByte .init aliveStream).map Prod.snd =
      some [⟨200, true⟩, ⟨204, true⟩] := by decide +kernel
  obtain ⟨⟨q, ms⟩, hrun, rfl⟩ := Option.map_eq_some_iff.mp hrun
  obtain ⟨hfree, hdoubled⟩ := cutFree_of_run aliveStream hrun (by decide)
  have hagree := (reads_independent_of_cuts true aliveStream).1 hfree
  exact ⟨hagree, (reads_independent_of_cuts true aliveStream).2 hdoubled hagree⟩

/-- An upgrade response, and a response behind it. -/
def upgradeStream : Bytes × Bytes :=
  ("HTTP/1.1 101 Upgrade\r\nUpgrade: a\r\nConnection: upgrade\r\n\r\n".toUTF8.toList,
    "HTTP/1.1 200 OK\r\nContent-Length: 0\r\n\r\n".toUTF8.toList)

theorem upgrade_cut_shows : ¬ ∀ closed stream, CutsAgree closed stream := by
  intro h
  have hagree := h false (upgradeStream.1 ++ upgradeStream.2)
    [upgradeStream.1 ++ upgradeStream.2] [upgradeStream.1, upgradeStream.2]
    ⟨by simp, by decide +kernel⟩ ⟨by simp, by decide +kernel⟩
  exact absurd (congrArg Outcome.reconnect hagree) (by decide +kernel)

end WrkQuic
