import WrkQuic.Connection

/-!
# quic.c: the callback

`quic_callback` drives a QUIC connection: picoquic calls it for each
stream and connection event. It is modelled as the new state of the
connection together with the calls it makes, in order; every clock reading
of one invocation is `now`.

picoquic itself is not part of the repository. What the code relies on is
stated where it is used: `picoquic_provide_stream_data_buffer` returns a
buffer of the size asked for, and `prepare_to_send` is called again as
long as the last call passed `is_still_active = 1`.
-/

namespace WrkQuic

/-- A connection over QUIC; its HTTP parser is never run. -/
abbrev QuicConnection := Connection Unit

/-- `picoquic_call_back_event_t`, with the data the callback reads. -/
inductive PicoquicEvent where
  | streamData (length : ℕ)
  | streamFin (length : ℕ)
  | stopSending
  | streamReset
  | statelessReset
  | close
  | applicationClose
  | versionNegotiation
  | streamGap
  /-- `length` bytes of space in the packet; `script` is what `request()`
  returns if it is called. -/
  | prepareToSend (length : ℕ) (script : Bytes)
  | almostReady
  | ready
  | other
deriving DecidableEq, Repr

/-- The data passed to `picoquic_provide_stream_data_buffer` and copied into
the buffer it returns. -/
structure Segment where
  data : Bytes
  isFin : Bool
  isStillActive : Bool
deriving DecidableEq, Repr

/-- The calls `quic_callback` makes. -/
inductive QuicCall where
  | resetStream
  | closeCnx
  | provide (segment : Segment)
  | requestCompleted (timing : ResponseTiming)
  | stop
  /-- `aeCreateTimeEvent` for `delay_recon`, after this many microseconds. -/
  | delayRecon (usec : ℕ)
  | reconnectSocket
deriving DecidableEq

/-- `quic_connect`, apart from what picoquic does. -/
def quicConnect (c : QuicConnection) : QuicConnection := { c with written := 0 }

/-- The label `restart` of `quic_callback`. -/
def quicRestart (c : QuicConnection) (now : ℕ) : QuicConnection × List QuicCall :=
  let (usec, pacer) := c.pacer.usecToNextSend now
  let c := { c with pacer := pacer }
  if usec ≠ 0 then (c, [.delayRecon usec]) else (c, [.reconnectSocket])

/-- The case `picoquic_callback_prepare_to_send`. -/
def prepareToSend (cfg : Config) (c : QuicConnection) (now length : ℕ) (script : Bytes) :
    QuicConnection × Segment :=
  let c := if c.written = 0 ∧ cfg.dynamic then { c with request := script } else c
  let buf := c.request.drop c.written
  let c := c.startBatch cfg.pipeline now
  let available := c.request.length
  let isFin := ¬length < available
  let available := if length < available then length else available
  (c, { data := buf.take available, isFin := isFin, isStillActive := ¬isFin })

def quicCallback (cfg : Config) (c : QuicConnection) (now : ℕ) :
    PicoquicEvent → QuicConnection × List QuicCall
  | .streamData _ => (c, [])
  | .streamFin _ =>
      let c := { c with hasPending := false }
      if now < cfg.stopAt then
        let c' := c.requestCompleted
        (c', [.requestCompleted (c.timing cfg now), .closeCnx])
      else (c, [.stop, .closeCnx])
  | .stopSending =>
      let (c, calls) := quicRestart c now
      (c, .resetStream :: calls)
  | .streamReset => quicRestart c now
  | .statelessReset => quicRestart c now
  | .close => quicRestart c now
  | .applicationClose => quicRestart c now
  | .versionNegotiation => (c, [])
  | .streamGap => (c, [])
  | .prepareToSend length script =>
      let (c, segment) := prepareToSend cfg c now length script
      (c, [.provide segment])
  | .almostReady => ({ c with written := 0 }, [])
  | .ready => (c, [])
  | .other => (c, [])

/-! ## Sending one request -/

/-- A stream while picoquic asks for its data. -/
structure StreamRun where
  conn : QuicConnection
  segments : List Segment
  active : Bool

namespace StreamRun

/-- The bytes supplied so far. -/
def sent (s : StreamRun) : Bytes := (s.segments.map Segment.data).flatten

/-- `is_fin = 1` was passed. -/
def finished (s : StreamRun) : Prop := ∃ segment ∈ s.segments, segment.isFin = true

end StreamRun

/-- The stream after at most `k` calls of `prepare_to_send`, the `i`-th with
`spaces i` bytes of space at clock reading `times i`; `script` is what
every call of `request()` returns. -/
def streamRun (cfg : Config) (c : QuicConnection) (script : Bytes) (spaces times : ℕ → ℕ) :
    ℕ → StreamRun
  | 0 => { conn := quicConnect c, segments := [], active := true }
  | k + 1 =>
      let s := streamRun cfg c script spaces times k
      if s.active then
        let (conn, segment) := prepareToSend cfg s.conn (times k) (spaces k) script
        { conn := conn
          segments := s.segments ++ [segment]
          active := segment.isStillActive }
      else s

/-- What is supplied is always a prefix of `request`, it is all of it
exactly when `is_fin` has been passed, and nothing follows. -/
def Segmented (request : Bytes) (run : ℕ → StreamRun) : Prop :=
  ∀ k, (run k).sent <+: request ∧ ((run k).sent = request ↔ (run k).finished) ∧
    ((run k).finished → ∀ j, k ≤ j → (run j).segments = (run k).segments)

/-! ## What one call supplies -/

/-- The request a call of `prepare_to_send` finds at offset 0. -/
def currentRequest (cfg : Config) (c : QuicConnection) (script : Bytes) : Bytes :=
  if cfg.dynamic then script else c.request

/-- What `prepare_to_send` supplies of `request` into `space` bytes. -/
def segmentOf (request : Bytes) (space : ℕ) : Segment where
  data := request.take space
  isFin := request.length ≤ space
  isStillActive := ¬request.length ≤ space

/-- A call neither advances `written` nor changes the request, and supplies
the request from its start. -/
theorem prepareToSend_spec (cfg : Config) {c : QuicConnection} (hw : c.written = 0)
    (now space : ℕ) (script : Bytes) :
    (prepareToSend cfg c now space script).1.written = 0 ∧
      currentRequest cfg (prepareToSend cfg c now space script).1 script
        = currentRequest cfg c script ∧
      (prepareToSend cfg c now space script).2
        = segmentOf (currentRequest cfg c script) space := by
  have hstart : ∀ c : QuicConnection, (c.startBatch cfg.pipeline now).request = c.request
      ∧ (c.startBatch cfg.pipeline now).written = c.written := by
    intro c
    unfold Connection.startBatch
    split
    · exact ⟨rfl, rfl⟩
    · exact ⟨rfl, rfl⟩
  have htake : ∀ (r : Bytes), r.take (if space < r.length then space else r.length)
      = r.take space := by
    intro r
    split
    · rfl
    · rename_i hle
      rw [List.take_length, List.take_of_length_le (by omega)]
  cases hd : cfg.dynamic with
  | true =>
      simp only [prepareToSend, hw, hd, currentRequest, hstart, List.drop_zero, segmentOf,
        and_self, if_true, not_lt, htake, not_le]
  | false =>
      simp only [prepareToSend, hw, hd, currentRequest, hstart, List.drop_zero, segmentOf,
        Bool.false_eq_true, and_false, if_false, not_lt, htake, not_le, and_self]

section Stream

variable {cfg : Config} {c : QuicConnection} {script : Bytes} {spaces times : ℕ → ℕ}

variable (cfg c script spaces times) in
theorem streamRun_conn (k : ℕ) :
    (streamRun cfg c script spaces times k).conn.written = 0 ∧
      currentRequest cfg (streamRun cfg c script spaces times k).conn script
        = currentRequest cfg c script := by
  induction k with
  | zero => exact ⟨rfl, rfl⟩
  | succ k ih =>
      rw [streamRun]
      split
      · obtain ⟨hw, hr⟩ := ih
        obtain ⟨hw', hr', -⟩ := prepareToSend_spec cfg hw (times k) (spaces k) script
        exact ⟨hw', hr'.trans hr⟩
      · exact ih

theorem streamRun_active {k : ℕ}
    (h : (streamRun cfg c script spaces times k).active = true) :
    (streamRun cfg c script spaces times (k + 1)).segments
        = (streamRun cfg c script spaces times k).segments
          ++ [segmentOf (currentRequest cfg c script) (spaces k)] ∧
      (streamRun cfg c script spaces times (k + 1)).active
        = decide (¬(currentRequest cfg c script).length ≤ spaces k) := by
  obtain ⟨hw, hr⟩ := streamRun_conn cfg c script spaces times k
  obtain ⟨-, -, hseg⟩ := prepareToSend_spec cfg hw (times k) (spaces k) script
  rw [hr] at hseg
  simp only [streamRun, h, if_true, hseg]
  exact ⟨trivial, rfl⟩

theorem streamRun_inactive {k : ℕ}
    (h : (streamRun cfg c script spaces times k).active = false) :
    ∀ j, k ≤ j → streamRun cfg c script spaces times j
      = streamRun cfg c script spaces times k := by
  intro j hj
  induction j, hj using Nat.le_induction with
  | base => rfl
  | succ j _ ih =>
      rw [streamRun, ih, h]
      rfl

theorem sent_succ {k : ℕ} (h : (streamRun cfg c script spaces times k).active = true) :
    (streamRun cfg c script spaces times (k + 1)).sent
      = (streamRun cfg c script spaces times k).sent
        ++ (currentRequest cfg c script).take (spaces k) := by
  rw [StreamRun.sent, (streamRun_active h).1]
  simp [StreamRun.sent, segmentOf]

/-- Once the space is as large as the request, the request has been passed
with `is_fin`. -/
theorem finished_succ {k : ℕ} (h : (streamRun cfg c script spaces times k).active = true)
    (hfit : (currentRequest cfg c script).length ≤ spaces k) :
    (streamRun cfg c script spaces times (k + 1)).finished := by
  refine ⟨segmentOf (currentRequest cfg c script) (spaces k), ?_, ?_⟩
  · rw [(streamRun_active h).1]
    simp
  · simpa [segmentOf] using hfit

/-- When the first packet is too small and the bytes are segmented all the
same, every call supplies more and none the whole request. -/
theorem sent_grows {r : Bytes} (hr : currentRequest cfg c script = r) (hne : r ≠ [])
    (hspaces : ∀ k, 1 ≤ spaces k) (hsmall : spaces 0 < r.length)
    (hseg : Segmented r (streamRun cfg c script spaces times)) :
    ∀ k, (streamRun cfg c script spaces times k).active = true ∧
      k ≤ (streamRun cfg c script spaces times k).sent.length
  | 0 => ⟨rfl, Nat.zero_le _⟩
  | k + 1 => by
      obtain ⟨hactive, hlen⟩ := sent_grows hr hne hspaces hsmall hseg k
      have hpos : 0 < r.length := List.length_pos_iff.mpr hne
      have hsent := sent_succ hactive
      have hfits : ¬r.length ≤ spaces k := by
        intro hfit
        have hall := ((hseg (k + 1)).2.1).mpr (finished_succ hactive (hr ▸ hfit))
        rw [hsent, hr, List.take_of_length_le hfit] at hall
        have hcount := congrArg List.length hall
        rw [List.length_append] at hcount
        have hk : k = 0 := by omega
        subst hk
        omega
      refine ⟨?_, ?_⟩
      · rw [(streamRun_active hactive).2, hr]
        simpa using hfits
      · have := hspaces k
        rw [hsent, hr, List.length_append, List.length_take]
        omega

/-- The request reaches the server as it is exactly when the first packet
has room for all of it. -/
theorem quic_segmented_iff (cfg : Config) (c : QuicConnection) (script : Bytes)
    (spaces times : ℕ → ℕ) (hspaces : ∀ k, 1 ≤ spaces k)
    (hne : currentRequest cfg c script ≠ []) :
    Segmented (currentRequest cfg c script) (streamRun cfg c script spaces times)
      ↔ (currentRequest cfg c script).length ≤ spaces 0 := by
  refine ⟨fun hseg => ?_, fun hfit k => ?_⟩
  · by_contra hsmall
    obtain ⟨-, hlen⟩ := sent_grows rfl hne hspaces (by omega) hseg
      ((currentRequest cfg c script).length + 1)
    have hle := (hseg ((currentRequest cfg c script).length + 1)).1.length_le
    omega
  · have hactive : (streamRun cfg c script spaces times 0).active = true := rfl
    have hsent := sent_succ hactive
    have hfin := finished_succ hactive hfit
    have hdone := (streamRun_active hactive).2
    rw [List.take_of_length_le hfit] at hsent
    rw [decide_eq_false (not_not_intro hfit)] at hdone
    have hrest := streamRun_inactive hdone
    cases k with
    | zero =>
        refine ⟨List.nil_prefix, ⟨fun h => absurd h.symm hne, fun h => ?_⟩, fun h => ?_⟩
        · obtain ⟨segment, hmem, -⟩ := h
          cases hmem
        · obtain ⟨segment, hmem, -⟩ := h
          cases hmem
    | succ k =>
        have hk := hrest (k + 1) (by omega)
        have hfirst : (streamRun cfg c script spaces times (0 + 1)).sent
            = currentRequest cfg c script := hsent
        rw [hk]
        refine ⟨hfirst ▸ List.prefix_refl _, ⟨fun _ => hfin, fun _ => hfirst⟩, fun _ j hj => ?_⟩
        rw [hrest j (by omega)]

end Stream

/-- A configuration and connection for examples: one static request. -/
def staticConfig (request : Bytes) : Config where
  connections := 1
  throughput := 1 / 1000
  pipeline := 1
  dynamic := false
  recordAllResponses := false
  stopAt := 1000000
  setsize := 13
  recvbuf := 8192
  request := request

/-- A request that fits into the first packet arrives. -/
theorem quic_segmented_iff_one_packet :
    Segmented [97, 98] (streamRun (staticConfig [97, 98])
      (Connection.initial (staticConfig [97, 98]) ()) [] (fun _ => 2) (fun _ => 0)) :=
  (quic_segmented_iff (staticConfig [97, 98]) (Connection.initial (staticConfig [97, 98]) ())
    [] (fun _ => 2) (fun _ => 0) (fun _ => by decide) (by decide)).mpr (by decide)

/-- The request `ab` in packets of one byte: `a` is supplied again and
again. -/
theorem quic_segments_repeat :
    let run := streamRun (staticConfig [97, 98])
      (Connection.initial (staticConfig [97, 98]) ()) [] (fun _ => 1) (fun _ => 0)
    (run 2).sent = [97, 97] ∧ ¬Segmented [97, 98] run := by
  intro run
  have hsent : (run 2).sent = [97, 97] := by rfl
  refine ⟨hsent, fun hseg => ?_⟩
  have hprefix := (hseg 2).1
  rw [hsent] at hprefix
  exact absurd hprefix (by decide)

end WrkQuic
