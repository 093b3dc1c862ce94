import WrkQuic.Pacing
import WrkQuic.ResponseBuffer

/-!
# The connection

`struct connection` and the parts of its life that the TCP and the QUIC
transport share: the start of a batch and the latency accounting of a
completed response (`stats_request_completed`).

The latency of a response is measured twice: from the time its batch was
really started, and from the time the schedule wanted it started. A
connection keeps the two start times in order from its first batch on
(`Connection.Timed`).
-/

namespace WrkQuic

open RateLine

/-- The options of `struct config` that the transports read, with the
per-connection throughput `thread_main` derives from the rate. -/
structure Config where
  /-- `start + n / rate` in doubles. -/
  line : ℕ → ℕ → ℚ → ℕ := exactLine
  connections : ℕ
  throughput : ℚ
  pipeline : ℕ
  dynamic : Bool
  recordAllResponses : Bool
  stopAt : ℕ
  /-- `aeCreateEventLoop(10 + cfg.connections * 3)`. -/
  setsize : ℕ
  /-- `RECVBUF`. -/
  recvbuf : ℕ
  /-- The static request. -/
  request : Bytes

/-- `struct connection`, with a parser of type `π`. The response buffers
and the fields that only debug output reads are left out. `started` is
not in the source: it says that a first batch was started. -/
structure Connection (π : Type*) where
  parser : π
  fd : ℕ
  pacer : Pacer
  request : Bytes
  written : ℕ
  pending : ℕ
  start : ℕ
  actualLatencyStart : ℕ
  completeAtLastBatchStart : ℕ
  hasPending : Bool
  started : Bool

/-- What `stats_request_completed` computes. The two latencies are the
values of the unsigned subtractions; the corrected one is then read as an
`int64_t`. -/
structure ResponseTiming where
  started : Bool
  now : ℕ
  expectedStart : ℕ
  actualStart : ℕ
  corrected : ℕ
  uncorrected : ℕ
  /-- Both latencies were passed to `hdr_record_value`. -/
  recorded : Bool
deriving DecidableEq

/-- The `int64_t` with the bits of a `uint64_t`. -/
def toInt64 (n : ℕ) : ℤ := if n < 2 ^ 63 then n else n - 2 ^ 64

theorem toInt64_of_lt {n : ℕ} (h : n < 2 ^ 63) : toInt64 n = n := if_pos h

namespace Connection

variable {π : Type*}

/-- A connection as `thread_main` sets it up in zeroed memory. -/
def initial (cfg : Config) (parser : π) : Connection π where
  parser := parser
  fd := 0
  pacer := .start cfg.line cfg.throughput 0
  request := cfg.request
  written := 0
  pending := 0
  start := 0
  actualLatencyStart := 0
  completeAtLastBatchStart := 0
  hasPending := false
  started := false

/-- A batch starts at clock reading `now`; the latency anchors move only
when no earlier batch is pending. -/
def startBatch (c : Connection π) (pipeline now : ℕ) : Connection π :=
  if c.hasPending then { c with start := now, pending := pipeline }
  else { c with
    start := now
    pending := pipeline
    actualLatencyStart := now
    completeAtLastBatchStart := c.pacer.complete
    hasPending := true
    started := true }

@[simp] theorem startBatch_fd (c : Connection π) (pipeline now : ℕ) :
    (c.startBatch pipeline now).fd = c.fd := by
  unfold startBatch
  split <;> rfl

@[simp] theorem startBatch_written (c : Connection π) (pipeline now : ℕ) :
    (c.startBatch pipeline now).written = c.written := by
  unfold startBatch
  split <;> rfl

@[simp] theorem startBatch_pending (c : Connection π) (pipeline now : ℕ) :
    (c.startBatch pipeline now).pending = pipeline := by
  unfold startBatch
  split <;> rfl

/-- `thread_start + complete_at_last_batch_start / throughput`. -/
def expectedLatencyStart (c : Connection π) : ℕ :=
  c.pacer.line c.pacer.threadStart c.completeAtLastBatchStart c.pacer.throughput

def timing (cfg : Config) (c : Connection π) (now : ℕ) : ResponseTiming where
  started := c.started
  now := now
  expectedStart := c.expectedLatencyStart
  actualStart := c.actualLatencyStart
  corrected := u64Sub now c.expectedLatencyStart
  uncorrected := u64Sub now c.actualLatencyStart
  recorded := cfg.recordAllResponses || !c.hasPending

/-- `stats_request_completed` before `stop_at`: one more response. -/
def requestCompleted (c : Connection π) : Connection π :=
  { c with pacer := { c.pacer with
      complete := c.pacer.complete + 1
      latestShouldSendTime := 0
      latestExpectedStart := 0 } }

/-! ## The latency anchors -/

/-- From the first batch on, the scheduled start of the last anchored batch
is not after its real start, and both lie in the past. -/
structure Timed (c : Connection π) (clock : ℕ) : Prop where
  pending : c.hasPending = true → c.started = true
  expected : c.started = true → c.expectedLatencyStart ≤ c.actualLatencyStart
  actual : c.started = true → c.actualLatencyStart ≤ clock

variable {c c' : Connection π} {clock now : ℕ}

theorem initial_timed (cfg : Config) (parser : π) (clock : ℕ) :
    (initial cfg parser).Timed clock where
  pending h := by cases h
  expected h := by cases h
  actual h := by cases h

theorem Timed.later (h : c.Timed clock) (hle : clock ≤ now) : c.Timed now where
  pending := h.pending
  expected := h.expected
  actual hs := (h.actual hs).trans hle

/-- The anchors and the schedule are all that `Timed` looks at. -/
theorem Timed.congr (h : c.Timed clock) (hpending : c'.hasPending = true → c.hasPending = true)
    (hstarted : c'.started = c.started)
    (hexpected : c'.expectedLatencyStart = c.expectedLatencyStart)
    (hactual : c'.actualLatencyStart = c.actualLatencyStart) : c'.Timed clock where
  pending hp := by
    rw [hstarted]
    exact h.pending (hpending hp)
  expected hs := by
    rw [hexpected, hactual]
    exact h.expected (hstarted ▸ hs)
  actual hs := by
    rw [hactual]
    exact h.actual (hstarted ▸ hs)

/-- A batch that the schedule allows may be started. -/
theorem Timed.startBatch (h : c.Timed clock) (hle : clock ≤ now) (pipeline : ℕ)
    (hschedule : c.pacer.scheduledStart ≤ now) : (c.startBatch pipeline now).Timed now := by
  unfold Connection.startBatch
  split
  · exact (h.later hle).congr (fun hp => hp) rfl rfl rfl
  · exact
      { pending := fun _ => rfl
        expected := fun _ => hschedule
        actual := fun _ => Nat.le_refl now }

theorem Timed.requestCompleted (h : c.Timed clock) : c.requestCompleted.Timed clock :=
  h.congr (fun hp => hp) rfl rfl rfl

/-- Asking for the next send time touches neither the schedule nor the
anchors. -/
theorem Timed.usecToNextSend (h : c.Timed clock) (time : ℕ) :
    ({ c with pacer := (c.pacer.usecToNextSend time).2 } : Connection π).Timed clock := by
  obtain ⟨hline, hrate, -, hstart, -⟩ := c.pacer.usecToNextSend_schedule time
  refine h.congr (fun hp => hp) rfl ?_ rfl
  simp only [expectedLatencyStart, hline, hrate, hstart]

/-- Before the first batch the schedule may still be moved. -/
theorem Timed.restart (h : c.Timed clock) (hs : c.started = false) (pacer : Pacer) :
    ({ c with pacer := pacer } : Connection π).Timed clock where
  pending := h.pending
  expected hs' := by
    rw [show c.started = true from hs'] at hs
    cases hs
  actual := h.actual

end Connection

/-- The order of the two latencies: neither subtraction wraps, and the
corrected latency is at least the uncorrected one. -/
structure ResponseTiming.Ordered (t : ResponseTiming) : Prop where
  expected : t.expectedStart ≤ t.actualStart
  actual : t.actualStart ≤ t.now
  corrected : t.corrected = t.now - t.expectedStart
  uncorrected : t.uncorrected = t.now - t.actualStart

theorem Connection.Timed.timing_ordered {π : Type*} {c : Connection π} {clock now : ℕ}
    (cfg : Config) (h : c.Timed clock) (hle : clock ≤ now) (hs : c.started = true) :
    (c.timing cfg now).Ordered := by
  have he := h.expected hs
  have ha := (h.actual hs).trans hle
  exact
    { expected := he
      actual := ha
      corrected := u64Sub_of_le (he.trans ha)
      uncorrected := u64Sub_of_le ha }

theorem ResponseTiming.Ordered.le {t : ResponseTiming} (h : t.Ordered) :
    t.uncorrected ≤ t.corrected := by
  rw [h.corrected, h.uncorrected]
  exact Nat.sub_le_sub_left h.expected _

/-- As the signed values the histogram receives, while the clock fits. -/
theorem ResponseTiming.Ordered.signed {t : ResponseTiming} (h : t.Ordered)
    (hnow : t.now < 2 ^ 63) :
    0 ≤ toInt64 t.uncorrected ∧ toInt64 t.uncorrected ≤ toInt64 t.corrected := by
  have hc : t.corrected < 2 ^ 63 := by
    rw [h.corrected]
    omega
  have hu : t.uncorrected < 2 ^ 63 := Nat.lt_of_le_of_lt h.le hc
  rw [toInt64_of_lt hc, toInt64_of_lt hu]
  exact ⟨Int.natCast_nonneg _, Int.ofNat_le.mpr h.le⟩

end WrkQuic
