import WrkQuic.Lib.Runs
import WrkQuic.Recording
import WrkQuic.Stats

/-!
# Calibration and sampling

Each thread has a timer for `calibrate`, which resets the histograms of the
thread and makes a timer for `sample_rate`; in the end `main` merges the
histograms and `print_stats` prints a mean and a standard deviation of the
latencies and of the sampled rates. Three of these computations divide by a
number of recorded values, and `sample_rate` by a number of milliseconds.

Two clocks are read: the monotonic one by `time_us`, and the wall clock, which
may be set, by the event loop. The other time events of a thread touch nothing
of this and are left out, as are the responses after the end of the run.
-/

namespace WrkQuic

open Runs HdrHistogram

/-! ## Clocks and timers -/

/-- Both clocks, in microseconds. -/
structure Clock where
  mono : ℕ
  wall : ℕ
deriving DecidableEq

inductive TimerProc where
  | calibrate
  | sampleRate
deriving DecidableEq

/-- `aeTimeEvent`. -/
structure Timer where
  id : ℕ
  whenTime : WhenTime
  timeProc : TimerProc

/-! ## The thread -/

/-- `thread` and its event loop, as far as the two timers use them. `mean` has
no value when C defines none. `recorded` is not in the source: it counts what
was recorded since the histograms were reset. -/
structure SampledThread where
  latencyHistogram : HdrHistogram
  uLatencyHistogram : HdrHistogram
  mean : Option ℕ
  interval : ℕ
  requests : ℕ
  start : ℕ
  timeEvents : List Timer
  timeEventNextId : ℕ
  lastTime : ℕ
  /-- Above the `maxId` of `processTimeEvents`. -/
  endId : ℕ
  recorded : ℕ

namespace SampledThread

def aeCreateTimeEvent (th : SampledThread) (c : Clock) (milliseconds : ℕ)
    (proc : TimerProc) : SampledThread :=
  { th with
    timeEvents := ⟨th.timeEventNextId, aeAddMillisecondsToNow c.wall milliseconds, proc⟩ ::
      th.timeEvents
    timeEventNextId := th.timeEventNextId + 1 }

/-- The end of a round of `processTimeEvents`; `none` is `AE_NOMORE`. -/
def rearm (th : SampledThread) (id : ℕ) (c : Clock) (retval : Option ℕ) : SampledThread :=
  match retval with
  | some milliseconds =>
      { th with
        timeEvents := th.timeEvents.map fun te =>
          if te.id = id then { te with whenTime := aeAddMillisecondsToNow c.wall milliseconds }
          else te }
  | none => { th with timeEvents := th.timeEvents.filter (·.id ≠ id) }

/-- `processTimeEvents` up to its loop. -/
def beginPass (th : SampledThread) (c : Clock) : SampledThread :=
  let now := c.wall / 1000000
  { th with
    timeEvents :=
      if now < th.lastTime then
        th.timeEvents.map fun te => { te with whenTime := { te.whenTime with sec := 0 } }
      else th.timeEvents
    lastTime := now
    endId := th.timeEventNextId }

/-- What `sample_rate` sets. -/
def restarted (th : SampledThread) (start : ℕ) : SampledThread := { th with requests := 0, start }

end SampledThread

/-- What the loops of `hdr_histogram.c` need at most. -/
def loopFuel : ℕ := latencyHistogram.countsLen + 1

/-- `thread_main` up to `aeMain`; `loop` is the clock when `main` made the
event loop. -/
def launchThread (connections : ℕ) (loop c0 c1 : Clock) : Option SampledThread := do
  let latencyHistogram ← hdrInit 1 maxLatency 3
  let uLatencyHistogram ← hdrInit 1 maxLatency 3
  let th : SampledThread :=
    { latencyHistogram, uLatencyHistogram
      mean := some 0
      interval := 0
      requests := 0
      start := c1.mono
      timeEvents := []
      timeEventNextId := 0
      lastTime := loop.wall / 1000000
      endId := 0
      recorded := 0 }
  some (th.aeCreateTimeEvent c0 (10000 + connections * 5) .calibrate)

/-- What `stats_request_completed` does before the end of the run.
`latencies` are what it records, if it does. -/
def requestCompleted (th : SampledThread) (latencies : Option (ℤ × ℤ)) : Option SampledThread :=
  let th := { th with requests := th.requests + 1 }
  match latencies with
  | none => some th
  | some (latency, uLatency) => do
      let (_, latencyHistogram) ← hdrRecordValue th.latencyHistogram latency
      let (_, uLatencyHistogram) ← hdrRecordValue th.uLatencyHistogram uLatency
      some { th with
        latencyHistogram
        uLatencyHistogram
        recorded := th.recorded + 1 }

/-- What `calibrate` sets when it finishes. -/
def SampledThread.calibrated (th : SampledThread) (mean : Option ℚ) (interval : ℚ) (start : ℕ) :
    SampledThread :=
  { th with
    mean := mean.map fun mean => (truncate mean).toNat
    latencyHistogram := hdrReset th.latencyHistogram
    uLatencyHistogram := hdrReset th.uLatencyHistogram
    start
    interval := (truncate interval).toNat
    requests := 0
    recorded := 0 }

/-- `c0` and `c1` are the readings of `time_us` and of `aeCreateTimeEvent`. The
mean is that of `hdr_mean`, the last part the result of `calibrate`. -/
def calibrate (th : SampledThread) (c0 c1 : Clock) :
    Option (SampledThread × Option ℚ × Option ℕ) := do
  let mean ← hdrMean loopFuel th.latencyHistogram
  let percentile ← hdrValueAtPercentile loopFuel th.latencyHistogram 90
  let latency : ℚ := percentile / 1000
  let interval : ℚ := if 10 < latency * 2 then latency * 2 else 10
  if mean = some 0 then some (th, mean, some 10000)
  else
    let th := th.calibrated mean interval c0.mono
    some (th.aeCreateTimeEvent c1 th.interval .sampleRate, mean, none)

/-- A quotient that was computed, with its denominator, or a call of
`calibrate`. -/
inductive Evaluation where
  | hdrMean (totalCount : ℕ) (mean : Option ℚ)
  | hdrStddev (totalCount : ℕ) (variance : Option ℚ)
  | sampleRate (elapsedMs : ℕ) (rate : Option ℚ)
  | calibrate (recorded : ℕ) (retried : Bool)
deriving DecidableEq

/-- No division by zero, and a retry without a latency. -/
def Evaluation.Defined : Evaluation → Prop
  | .hdrMean totalCount mean => 0 < totalCount ∧ mean ≠ none
  | .hdrStddev totalCount variance => 0 < totalCount ∧ variance ≠ none
  | .sampleRate elapsedMs rate => 0 < elapsedMs ∧ rate ≠ none
  | .calibrate recorded retried => recorded = 0 → retried = true

/-! ## The run -/

/-- `rateDisabled` is `(int64_t)cfg.rate <= 0`. -/
structure SamplingConfig where
  threads : ℕ
  connections : ℕ → ℕ
  rateDisabled : Bool

/-- `sampled` counts the calls of `sample_rate`, and `evaluated` is what was
computed, the last first; neither is in the source. -/
structure SamplingState where
  clock : Clock
  threads : ℕ → Option SampledThread
  requests : Stats
  sampled : ℕ
  evaluated : List Evaluation

/-- `undefined` is the rate that is recorded when C defines none. -/
inductive SamplingEvent where
  | tick (c : Clock)
  | launch (t : ℕ) (loop c0 c1 : Clock)
  | response (t : ℕ) (latencies : Option (ℤ × ℤ))
  | beginPass (t : ℕ)
  | fire (t id : ℕ) (c0 c1 c2 : Clock) (undefined : ℕ)
  | report

/-- `stats_summarize` and `stats_stdev` of a `stats` over a histogram. -/
def printStats (h : HdrHistogram) : Option (List Evaluation) := do
  let mean ← hdrMean loopFuel h
  let variance ← hdrStddevSquared loopFuel h
  some [.hdrStddev h.totalCount variance, .hdrMean h.totalCount mean]

namespace SamplingState

def setThread (s : SamplingState) (t : ℕ) (th : SampledThread) (c : Clock) : SamplingState :=
  { s with clock := c, threads := Function.update s.threads t (some th) }

@[simp]
theorem setThread_threads (s : SamplingState) (t : ℕ) (th : SampledThread) (c : Clock) :
    (s.setThread t th c).threads = Function.update s.threads t (some th) := rfl

/-- The loop of `processTimeEvents` reads the wall clock, which is
`s.clock`, and calls the procedure of a timer that is due. `c0`, `c1` and `c2`
are what is read then. -/
def fire (s : SamplingState) (t id : ℕ) (c0 c1 c2 : Clock) (undefined : ℕ) :
    Option SamplingState := do
  let th ← s.threads t
  let te ← th.timeEvents.find? (·.id = id)
  if id < th.endId ∧ te.whenTime.Due (aeGetTime s.clock.wall) then
    match te.timeProc with
    | .calibrate =>
        let (th', mean, retval) ← WrkQuic.calibrate th c0 c1
        some { s.setThread t (th'.rearm id c2 retval) c2 with
          evaluated := .calibrate th.recorded retval.isSome ::
            .hdrMean th.latencyHistogram.totalCount mean :: s.evaluated }
    | .sampleRate =>
        let elapsedMs := u64Sub c0.mono th.start / 1000
        let rate := (divide th.requests elapsedMs).map (· * 1000)
        let requests ← statsRecord s.requests (rate.elim undefined fun rate =>
          (truncate rate).toNat)
        let th' := (th.restarted c1.mono).rearm id c2 (some th.interval)
        some { s.setThread t th' c2 with
          requests
          sampled := s.sampled + 1
          evaluated := .sampleRate elapsedMs rate :: s.evaluated }
  else none

/-- What `main` merges and prints of the threads. -/
def report (cfg : SamplingConfig) (s : SamplingState) : Option SamplingState := do
  let threads ← (List.range cfg.threads).mapM s.threads
  let (_, latencies) ← aggregate loopFuel (threads.map fun th =>
    if cfg.rateDisabled then th.uLatencyHistogram else th.latencyHistogram)
  let requests ← s.requests.histogram
  let latencyStats ← printStats latencies
  let requestStats ← printStats requests
  some { s with evaluated := requestStats ++ latencyStats ++ s.evaluated }

/-- The monotonic clock never goes back. -/
def step (cfg : SamplingConfig) (s : SamplingState) : SamplingEvent → Option SamplingState
  | .tick c => if s.clock.mono ≤ c.mono then some { s with clock := c } else none
  | .launch t loop c0 c1 =>
      if (s.threads t).isNone ∧ s.clock.mono ≤ loop.mono ∧ loop.mono ≤ c0.mono ∧
          c0.mono ≤ c1.mono then
        (launchThread (cfg.connections t) loop c0 c1).map fun th => s.setThread t th c1
      else none
  | .response t latencies => do
      let th ← s.threads t
      let th ← requestCompleted th latencies
      some (s.setThread t th s.clock)
  | .beginPass t => (s.threads t).map fun th => s.setThread t (th.beginPass s.clock) s.clock
  | .fire t id c0 c1 c2 undefined =>
      if s.clock.mono ≤ c0.mono ∧ c0.mono ≤ c1.mono ∧ c1.mono ≤ c2.mono then
        s.fire t id c0 c1 c2 undefined
      else none
  | .report => s.report cfg

end SamplingState

/-- Before the threads are launched. -/
def SamplingState.Initial (s : SamplingState) : Prop :=
  (∀ t, s.threads t = none) ∧ statisticsRequests = some s.requests ∧ s.sampled = 0 ∧
    s.evaluated = []

def sampling (cfg : SamplingConfig) : Machine SamplingState SamplingEvent :=
  ofFun SamplingState.Initial (SamplingState.step cfg)

end WrkQuic
