import WrkQuic.Sampling

/-!
# No division by zero

The histogram of a thread holds as many values as were recorded since its
reset, the merged one as many as all of them together (`Holds`). A thread has
one of the two timers at a time; while the wall clock is not set, that of
`sample_rate` is due only when more than nine milliseconds have passed on the
monotonic clock too (`TimerOk`). So no denominator is zero in a run where the
wall clock is not set, each thread calibrates after its first latency, and a
rate and a latency are there when `main` prints them.
-/

namespace WrkQuic

open Runs HdrHistogram

/-! ## Counts -/

/-- A histogram of `n` recorded values. -/
def HdrHistogram.Holds (h : HdrHistogram) (n : ℕ) : Prop :=
  ∃ vs : Multiset ℕ, (∀ v ∈ vs, latencyHistogram.Tracks v) ∧ h = latencyHistogram.holding vs ∧
    vs.card = n

namespace HdrHistogram.Holds

variable {h h' : HdrHistogram} {n : ℕ}

theorem init : latencyHistogram.Holds 0 :=
  ⟨0, fun _ hv => absurd hv (Multiset.notMem_zero _), latencyHistogram_holding.symm, rfl⟩

theorem totalCount (hh : h.Holds n) : h.totalCount = n := by
  obtain ⟨vs, -, rfl, rfl⟩ := hh
  rw [holding, HdrHistogram.ofSlots, Multiset.card_map]

theorem record (hh : h.Holds n) {value : ℤ} {recorded : Bool}
    (hrecord : hdrRecordValue h value = some (recorded, h')) : h'.Holds (n + 1) := by
  obtain ⟨vs, hvs, rfl, rfl⟩ := hh
  obtain ⟨hpos, hlt⟩ := OfWorker.in_range ⟨_, _, rfl⟩ hrecord
  obtain ⟨v, rfl⟩ := Int.eq_ofNat_of_zero_le hpos
  have htracks : latencyHistogram.Tracks v := latencyHistogram_tracks (by omega)
  rw [show ((v : ℕ) : ℤ) = Int.ofNat v from rfl] at hrecord
  obtain ⟨-, rfl⟩ := Prod.mk.inj (Option.some.inj
    ((hdrRecordValue_holding latencyHistogram_shaped vs htracks).symm.trans hrecord))
  refine ⟨vs + {v}, ?_, rfl, by rw [Multiset.card_add, Multiset.card_singleton]⟩
  intro w hw
  rcases Multiset.mem_add.mp hw with hw | hw
  · exact hvs w hw
  · exact Multiset.mem_singleton.mp hw ▸ htracks

theorem reset (hh : h.Holds n) : (hdrReset h).Holds 0 := by
  obtain ⟨vs, hvs, rfl, rfl⟩ := hh
  rw [hdrReset_holding latencyHistogram_shaped hvs, latencyHistogram_holding]
  exact init

/-- The merged histogram. -/
theorem aggregate {hs : List HdrHistogram} {ns : List ℕ} (hall : List.Forall₂ Holds hs ns) :
    ∃ ds h, WrkQuic.aggregate loopFuel hs = some (ds, h) ∧ h.Holds ns.sum := by
  obtain ⟨vss, htracks, hsum, rfl, rfl⟩ : ∃ vss : List (Multiset ℕ),
      (∀ vs ∈ vss, ∀ v ∈ vs, latencyHistogram.Tracks v) ∧
        (∀ v ∈ vss.sum, latencyHistogram.Tracks v) ∧ hs = vss.map latencyHistogram.holding ∧
        ns = vss.map Multiset.card := by
    induction hall with
    | nil =>
        exact ⟨[], fun _ h => absurd h List.not_mem_nil,
          fun _ h => absurd h (Multiset.notMem_zero _), rfl, rfl⟩
    | cons hh _ ih =>
        obtain ⟨vs, hvs, rfl, rfl⟩ := hh
        obtain ⟨vss, htracks, hsum, rfl, rfl⟩ := ih
        refine ⟨vs :: vss, List.forall_mem_cons.mpr ⟨hvs, htracks⟩, ?_, rfl, rfl⟩
        intro v hv
        rw [List.sum_cons] at hv
        exact (Multiset.mem_add.mp hv).elim (hvs v) (hsum v)
  have hmerge := aggregate_loop latencyHistogram_shaped (Nat.lt_succ_self _) vss [] 0 htracks
  refine ⟨List.replicate vss.length 0, latencyHistogram.holding vss.sum, ?_, vss.sum, hsum, rfl,
    map_list_sum Multiset.cardHom vss⟩
  rw [zero_add, latencyHistogram_holding] at hmerge
  rw [WrkQuic.aggregate, hdrInit_latency]
  exact hmerge

end HdrHistogram.Holds

theorem divide_natCast_ne_none {x : ℚ} {n : ℕ} (hn : 0 < n) : divide x n ≠ none := by
  rw [divide, if_neg (Nat.cast_ne_zero.mpr hn.ne')]
  exact Option.some_ne_none _

section

variable {h : HdrHistogram} {r : Option ℚ}

theorem hdrMean_ne_none (hmean : hdrMean loopFuel h = some r) (hn : 0 < h.totalCount) :
    r ≠ none := by
  obtain ⟨total, -, htotal⟩ := Option.bind_eq_some_iff.mp hmean
  split at htotal
  · cases htotal
    exact divide_natCast_ne_none hn
  · cases htotal

theorem hdrStddevSquared_ne_none (hdev : hdrStddevSquared loopFuel h = some r)
    (hn : 0 < h.totalCount) : r ≠ none := by
  obtain ⟨mean, hmean, hrest⟩ := Option.bind_eq_some_iff.mp hdev
  cases mean with
  | none => exact absurd rfl (hdrMean_ne_none hmean hn)
  | some mean =>
      obtain ⟨total, -, htotal⟩ := Option.bind_eq_some_iff.mp hrest
      cases htotal
      exact divide_natCast_ne_none hn

/-- What is printed of a histogram is defined when it holds something. -/
theorem printStats_defined_iff {es : List Evaluation} (hprint : printStats h = some es) :
    (∀ e ∈ es, e.Defined) ↔ 0 < h.totalCount := by
  obtain ⟨mean, hmean, hrest⟩ := Option.bind_eq_some_iff.mp hprint
  obtain ⟨variance, hvariance, hes⟩ := Option.bind_eq_some_iff.mp hrest
  cases hes
  constructor
  · intro hall
    exact (hall _ List.mem_cons_self).1
  · intro hn e he
    rcases List.mem_pair.mp he with rfl | rfl
    · exact ⟨hn, hdrStddevSquared_ne_none hvariance hn⟩
    · exact ⟨hn, hdrMean_ne_none hmean hn⟩

end

/-! ## The thread -/

section

variable {th th' : SampledThread} {c c' c0 c1 : Clock} {id : ℕ}

/-- What `calibrate` may do: nothing yet, or finish. -/
theorem calibrate_cases {mean : Option ℚ} {retval : Option ℕ}
    (h : calibrate th c0 c1 = some (th', mean, retval)) :
    hdrMean loopFuel th.latencyHistogram = some mean ∧
      (th' = th ∧ retval = some 10000 ∨
        ∃ interval : ℚ, 10 ≤ interval ∧ retval = none ∧
          th' = (th.calibrated mean interval c0.mono).aeCreateTimeEvent c1
            (th.calibrated mean interval c0.mono).interval .sampleRate) := by
  obtain ⟨mean', hmean, hrest⟩ := Option.bind_eq_some_iff.mp h
  obtain ⟨percentile, -, hrest⟩ := Option.bind_eq_some_iff.mp hrest
  split at hrest
  · cases hrest
    exact ⟨hmean, Or.inl ⟨rfl, rfl⟩⟩
  · cases hrest
    refine ⟨hmean, Or.inr ⟨_, ?_, rfl, rfl⟩⟩
    split
    · exact le_of_lt ‹_›
    · exact le_refl _

/-- The histograms hold as many values as were recorded. -/
structure SampledThread.CountsOk (th : SampledThread) : Prop where
  latency : th.latencyHistogram.Holds th.recorded
  uLatency : th.uLatencyHistogram.Holds th.recorded

theorem launchThread_countsOk {connections : ℕ} {loop : Clock}
    (h : launchThread connections loop c0 c1 = some th) : th.CountsOk := by
  rw [launchThread, hdrInit_latency] at h
  cases h
  exact ⟨.init, .init⟩

theorem requestCompleted_countsOk (hth : th.CountsOk) {latencies : Option (ℤ × ℤ)}
    (h : requestCompleted th latencies = some th') : th'.CountsOk := by
  cases latencies with
  | none =>
      cases h
      exact ⟨hth.latency, hth.uLatency⟩
  | some latencies =>
      obtain ⟨⟨_, latency⟩, hlatency, hrest⟩ := Option.bind_eq_some_iff.mp h
      obtain ⟨⟨_, uLatency⟩, huLatency, hlast⟩ := Option.bind_eq_some_iff.mp hrest
      cases hlast
      exact ⟨hth.latency.record hlatency, hth.uLatency.record huLatency⟩

theorem SampledThread.CountsOk.rearm (hth : th.CountsOk) (retval : Option ℕ) :
    (th.rearm id c retval).CountsOk := by
  cases retval with
  | none => exact ⟨hth.latency, hth.uLatency⟩
  | some _ => exact ⟨hth.latency, hth.uLatency⟩

theorem SampledThread.CountsOk.calibrate (hth : th.CountsOk) {mean : Option ℚ}
    {retval : Option ℕ} (h : WrkQuic.calibrate th c0 c1 = some (th', mean, retval)) :
    th'.CountsOk := by
  obtain ⟨-, ⟨rfl, -⟩ | ⟨interval, -, -, rfl⟩⟩ := calibrate_cases h
  · exact hth
  · exact ⟨hth.latency.reset, hth.uLatency.reset⟩

end

/-! ## The clocks -/

/-- From `c` to `c'` the wall clock was not set: it neither goes back nor gains
on the monotonic clock. -/
def Clock.Unset (c c' : Clock) : Prop :=
  c.wall ≤ c'.wall ∧ c'.wall + c.mono ≤ c'.mono + c.wall

instance (c c' : Clock) : Decidable (c.Unset c') := inferInstanceAs (Decidable (_ ∧ _))

theorem Clock.Unset.mono {c c' : Clock} (h : c.Unset c') : c.mono ≤ c'.mono := by
  have := h.1
  have := h.2
  omega

theorem Clock.Unset.trans {c c' c'' : Clock} (h : c.Unset c') (h' : c'.Unset c'') :
    c.Unset c'' := by
  have := h.1
  have := h.2
  have := h'.1
  have := h'.2
  exact ⟨by omega, by omega⟩

/-- The timer of `sample_rate` was set after `start`, for at least ten
milliseconds. -/
def SampleTimer (th : SampledThread) (te : Timer) (c : Clock) : Prop :=
  10 ≤ th.interval ∧ ∃ wall, te.whenTime = aeAddMillisecondsToNow wall th.interval ∧
    c.wall + th.start ≤ c.mono + wall

/-- A thread has one of the two timers. -/
structure SampledThread.TimerOk (th : SampledThread) (c : Clock) : Prop where
  start : th.start ≤ c.mono
  lastTime : th.lastTime ≤ c.wall / 1000000
  timer : ∃ te, th.timeEvents = [te] ∧ te.id < th.timeEventNextId ∧
    (te.timeProc = .sampleRate → SampleTimer th te c)

section

variable {th th' : SampledThread} {te : Timer} {c c' c0 c1 c2 : Clock} {id : ℕ}

theorem SampleTimer.unset (h : SampleTimer th te c) (hc : c.Unset c') : SampleTimer th te c' := by
  obtain ⟨hinterval, wall, hwhen, hle⟩ := h
  have := hc.1
  have := hc.2
  exact ⟨hinterval, wall, hwhen, by omega⟩

/-- It is due nine milliseconds after `start`, or later. -/
theorem SampleTimer.elapsed (h : SampleTimer th te c)
    (hdue : te.whenTime.Due (aeGetTime c.wall)) : th.start + 9000 < c.mono := by
  obtain ⟨hinterval, wall, hwhen, hle⟩ := h
  rw [hwhen, due_iff] at hdue
  omega

namespace SampledThread.TimerOk

theorem unset (h : th.TimerOk c) (hc : c.Unset c') : th.TimerOk c' := by
  obtain ⟨te, hte, hid, hsample⟩ := h.timer
  exact ⟨h.start.trans hc.mono, h.lastTime.trans (Nat.div_le_div_right hc.1), te, hte, hid,
    fun hproc => (hsample hproc).unset hc⟩

theorem launch {connections : ℕ} {loop : Clock} (hloop : loop.wall ≤ c1.wall)
    (h : launchThread connections loop c0 c1 = some th) : th.TimerOk c1 := by
  rw [launchThread, hdrInit_latency] at h
  cases h
  exact ⟨le_refl _, Nat.div_le_div_right hloop, _, rfl, Nat.lt_succ_self _,
    fun hproc => by cases hproc⟩

theorem requestCompleted (hth : th.TimerOk c) {latencies : Option (ℤ × ℤ)}
    (h : WrkQuic.requestCompleted th latencies = some th') : th'.TimerOk c := by
  cases latencies with
  | none =>
      cases h
      exact ⟨hth.start, hth.lastTime, hth.timer⟩
  | some latencies =>
      obtain ⟨_, -, hrest⟩ := Option.bind_eq_some_iff.mp h
      obtain ⟨_, -, hlast⟩ := Option.bind_eq_some_iff.mp hrest
      cases hlast
      exact ⟨hth.start, hth.lastTime, hth.timer⟩

/-- The clock did not go back, so that no timer is made due. -/
theorem beginPass (hth : th.TimerOk c) : (th.beginPass c).TimerOk c := by
  refine ⟨hth.start, le_refl _, ?_⟩
  rw [SampledThread.beginPass]
  simp only [if_neg (Nat.not_lt.mpr hth.lastTime)]
  exact hth.timer

/-- The only timer is set again. -/
theorem rearm (hstart : th.start ≤ c.mono) (hlast : th.lastTime ≤ c.wall / 1000000)
    (hte : th.timeEvents = [te]) (hid : te.id < th.timeEventNextId) (milliseconds : ℕ)
    (hsample : te.timeProc = .sampleRate → 10 ≤ th.interval ∧ milliseconds = th.interval) :
    (th.rearm te.id c (some milliseconds)).TimerOk c := by
  refine ⟨hstart, hlast, { te with whenTime := aeAddMillisecondsToNow c.wall milliseconds }, ?_,
    hid, ?_⟩
  · simp [SampledThread.rearm, hte]
  · intro hproc
    obtain ⟨hinterval, rfl⟩ := hsample hproc
    refine ⟨hinterval, c.wall, rfl, ?_⟩
    rw [Nat.add_comm]
    exact Nat.add_le_add_right hstart _

/-- `calibrate` is run by the only timer, which it replaces when it finishes. -/
theorem calibrate (hth : th.TimerOk c) (hc0 : c.Unset c0) (hc1 : c0.Unset c1)
    (hc2 : c1.Unset c2) (hte : th.timeEvents = [te]) (hproc : te.timeProc = .calibrate)
    {mean : Option ℚ} {retval : Option ℕ}
    (h : WrkQuic.calibrate th c0 c1 = some (th', mean, retval)) :
    (th'.rearm te.id c2 retval).TimerOk c2 := by
  obtain ⟨te', hte', hid, -⟩ := hth.timer
  obtain rfl : te = te' := List.singleton_inj.mp (hte.symm.trans hte')
  have hc := (hc0.trans hc1).trans hc2
  obtain ⟨-, ⟨rfl, rfl⟩ | ⟨interval, hinterval, rfl, rfl⟩⟩ := calibrate_cases h
  · have hth := hth.unset hc
    refine rearm hth.start hth.lastTime hte hid _ fun hproc' => ?_
    cases hproc.symm.trans hproc'
  · have hten : 10 ≤ (truncate interval).toNat := by
      have hmono := truncate_mono hinterval
      have hten : truncate 10 = 10 := by decide +kernel
      omega
    refine ⟨(hc1.trans hc2).mono, hth.lastTime.trans (Nat.div_le_div_right hc.1),
      ⟨th.timeEventNextId, aeAddMillisecondsToNow c1.wall (truncate interval).toNat, .sampleRate⟩,
      ?_, Nat.lt_succ_self _, ?_⟩
    · simp [SampledThread.rearm, SampledThread.aeCreateTimeEvent, SampledThread.calibrated, hte,
        hid.ne']
    · intro _
      refine ⟨hten, c1.wall, rfl, ?_⟩
      have hle : c2.wall + c0.mono ≤ c2.mono + c1.wall := by
        have := hc1.mono
        have := hc2.2
        omega
      exact hle

end SampledThread.TimerOk

end

/-! ## Steps -/

theorem statsRecord_holds {s s' : Stats} {h : HdrHistogram} {n x : ℕ}
    (hs : s.histogram = some h) (hh : h.Holds n) (hrecord : statsRecord s x = some s') :
    ∃ h', s'.histogram = some h' ∧ h'.Holds (n + 1) := by
  rw [statsRecord] at hrecord
  simp only [hs] at hrecord
  obtain ⟨⟨_, h'⟩, hvalue, rfl⟩ := Option.map_eq_some_iff.mp hrecord
  exact ⟨h', rfl, hh.record hvalue⟩

theorem mem_mapM {α β : Type} {f : α → Option β} {b : β} :
    ∀ {l : List α} {bs : List β}, l.mapM f = some bs → (b ∈ bs ↔ ∃ a ∈ l, f a = some b)
  | [], bs, h => by
      cases h
      simp
  | a :: l, bs, h => by
      rw [List.mapM_cons] at h
      obtain ⟨b', hb', hrest⟩ := Option.bind_eq_some_iff.mp h
      obtain ⟨bs', hbs', hlast⟩ := Option.bind_eq_some_iff.mp hrest
      cases hlast
      rw [List.mem_cons, mem_mapM hbs', List.exists_mem_cons_iff, hb', Option.some_inj, eq_comm]

section

variable {s s' : SamplingState} {t id : ℕ} {c0 c1 c2 : Clock} {cfg : SamplingConfig}

/-- What a step changes of the threads. -/
theorem setThread_all {P : SampledThread → Prop} {th' : SampledThread} {c : Clock}
    (h : ∀ t th, s.threads t = some th → P th) (hth : P th') :
    ∀ t' th, (s.setThread t th' c).threads t' = some th → P th := by
  intro t' th hget
  rw [SamplingState.setThread_threads] at hget
  by_cases ht : t' = t
  · rw [ht, Function.update_self] at hget
    exact Option.some.inj hget ▸ hth
  · rw [Function.update_of_ne ht] at hget
    exact h t' th hget

/-- The two timers that fire. -/
theorem fire_cases {undefined : ℕ} (h : s.fire t id c0 c1 c2 undefined = some s') :
    ∃ th te, s.threads t = some th ∧ th.timeEvents.find? (·.id = id) = some te ∧
      te.whenTime.Due (aeGetTime s.clock.wall) ∧
      (te.timeProc = .calibrate ∧ (∃ th' mean retval,
          calibrate th c0 c1 = some (th', mean, retval) ∧
          s' = { s.setThread t (th'.rearm id c2 retval) c2 with
            evaluated := .calibrate th.recorded retval.isSome ::
              .hdrMean th.latencyHistogram.totalCount mean :: s.evaluated }) ∨
        te.timeProc = .sampleRate ∧ ∃ requests x,
          statsRecord s.requests x = some requests ∧
          s' = { s.setThread t ((th.restarted c1.mono).rearm id c2 (some th.interval)) c2 with
            requests
            sampled := s.sampled + 1
            evaluated := .sampleRate (u64Sub c0.mono th.start / 1000)
              ((divide th.requests (u64Sub c0.mono th.start / 1000 : ℕ)).map (· * 1000)) ::
                s.evaluated }) := by
  obtain ⟨th, hth, hrest⟩ := Option.bind_eq_some_iff.mp h
  obtain ⟨te, hte, hrest⟩ := Option.bind_eq_some_iff.mp hrest
  split at hrest
  · rename_i hguard
    refine ⟨th, te, hth, hte, hguard.2, ?_⟩
    split at hrest
    · rename_i hproc
      obtain ⟨⟨th', mean, retval⟩, hcalibrate, hlast⟩ := Option.bind_eq_some_iff.mp hrest
      cases hlast
      exact Or.inl ⟨hproc, th', mean, retval, hcalibrate, rfl⟩
    · rename_i hproc
      obtain ⟨requests, hrequests, hlast⟩ := Option.bind_eq_some_iff.mp hrest
      cases hlast
      exact Or.inr ⟨hproc, requests, _, hrequests, rfl⟩
  · cases hrest

/-- The histograms of the threads and of the sampled rates. -/
structure SamplingState.CountsOk (s : SamplingState) : Prop where
  threads : ∀ t th, s.threads t = some th → th.CountsOk
  requests : ∃ h, s.requests.histogram = some h ∧ h.Holds s.sampled

theorem countsOk_step {e : SamplingEvent} (hs : s.CountsOk) (h : s.step cfg e = some s') :
    s'.CountsOk := by
  cases e with
  | tick c =>
      rw [SamplingState.step] at h
      split at h
      · cases h
        exact ⟨hs.threads, hs.requests⟩
      · cases h
  | launch t loop c0 c1 =>
      rw [SamplingState.step] at h
      split at h
      · obtain ⟨th, hth, rfl⟩ := Option.map_eq_some_iff.mp h
        exact ⟨setThread_all hs.threads (launchThread_countsOk hth), hs.requests⟩
      · cases h
  | response t latencies =>
      obtain ⟨th, hth, hrest⟩ := Option.bind_eq_some_iff.mp h
      obtain ⟨th', hth', hlast⟩ := Option.bind_eq_some_iff.mp hrest
      cases hlast
      exact ⟨setThread_all hs.threads (requestCompleted_countsOk (hs.threads t th hth) hth'),
        hs.requests⟩
  | beginPass t =>
      obtain ⟨th, hth, rfl⟩ := Option.map_eq_some_iff.mp h
      have hok := hs.threads t th hth
      exact ⟨setThread_all hs.threads ⟨hok.latency, hok.uLatency⟩, hs.requests⟩
  | fire t id c0 c1 c2 undefined =>
      rw [SamplingState.step] at h
      split at h
      · obtain ⟨th, te, hth, -, -, ⟨-, th', mean, retval, hcalibrate, rfl⟩ |
          ⟨-, requests, x, hrequests, rfl⟩⟩ := fire_cases h
        · exact ⟨setThread_all (c := c2) hs.threads
            (((hs.threads t th hth).calibrate hcalibrate).rearm _), hs.requests⟩
        · have hok := hs.threads t th hth
          have hok' : (th.restarted c1.mono).CountsOk := ⟨hok.latency, hok.uLatency⟩
          obtain ⟨_, hhistogram, hholds⟩ := hs.requests
          exact ⟨setThread_all (c := c2) hs.threads (hok'.rearm _),
            statsRecord_holds hhistogram hholds hrequests⟩
      · cases h
  | report =>
      obtain ⟨_, -, hrest⟩ := Option.bind_eq_some_iff.mp h
      obtain ⟨_, -, hrest⟩ := Option.bind_eq_some_iff.mp hrest
      obtain ⟨_, -, hrest⟩ := Option.bind_eq_some_iff.mp hrest
      obtain ⟨_, -, hrest⟩ := Option.bind_eq_some_iff.mp hrest
      obtain ⟨_, -, hlast⟩ := Option.bind_eq_some_iff.mp hrest
      cases hlast
      exact ⟨hs.threads, hs.requests⟩

theorem initial_countsOk (hs : s.Initial) : s.CountsOk := by
  obtain ⟨hnone, hrequests, hsampled, -⟩ := hs
  refine ⟨fun t th hth => ?_, latencyHistogram, ?_, hsampled ▸ .init⟩
  · cases (hnone t).symm.trans hth
  · rw [statisticsRequests, hdrInit_latency] at hrequests
    rw [← Option.some.inj hrequests]

/-- The wall clock is not set between the readings of a step. -/
def SamplingState.ClockUnset (s : SamplingState) : SamplingEvent → Prop
  | .tick c => s.clock.Unset c
  | .launch _ loop c0 c1 => s.clock.Unset loop ∧ loop.Unset c0 ∧ c0.Unset c1
  | .fire _ _ c0 c1 c2 _ => s.clock.Unset c0 ∧ c0.Unset c1 ∧ c1.Unset c2
  | _ => True

/-- A thread has recorded a latency before it calibrates; before `main` prints
them, some thread has recorded one after it did, and a rate was sampled. -/
def SamplingState.RecordedFirst (cfg : SamplingConfig) (s : SamplingState) :
    SamplingEvent → Prop
  | .fire t id _ _ _ _ =>
      (s.threads t).all fun th => (th.timeEvents.find? (·.id = id)).all fun te =>
      te.timeProc = .calibrate → 0 < th.recorded
  | .report => (∃ t < cfg.threads, (s.threads t).any fun th => 0 < th.recorded) ∧ 0 < s.sampled
  | _ => True

instance (s : SamplingState) (e : SamplingEvent) : Decidable (s.ClockUnset e) := by
  unfold SamplingState.ClockUnset
  cases e <;> infer_instance

instance (s : SamplingState) (e : SamplingEvent) : Decidable (s.RecordedFirst cfg e) := by
  unfold SamplingState.RecordedFirst
  cases e <;> infer_instance

def SamplingState.TimersOk (s : SamplingState) : Prop :=
  ∀ t th, s.threads t = some th → th.TimerOk s.clock

theorem SamplingState.TimersOk.unset (hs : s.TimersOk) {c : Clock} (hc : s.clock.Unset c) :
    ∀ t th, s.threads t = some th → th.TimerOk c :=
  fun t th hth => (hs t th hth).unset hc

theorem find?_singleton {te te' : Timer} (h : [te'].find? (·.id = id) = some te) :
    te = te' ∧ te.id = id := by
  have hid := List.find?_some h
  have hmem := List.mem_of_find?_eq_some h
  exact ⟨List.mem_singleton.mp hmem, by simpa using hid⟩

theorem timersOk_step {e : SamplingEvent} (hs : s.TimersOk) (h : s.step cfg e = some s')
    (hok : s.ClockUnset e) : s'.TimersOk := by
  cases e with
  | tick c =>
      rw [SamplingState.step] at h
      split at h
      · cases h
        exact hs.unset hok
      · cases h
  | launch t loop c0 c1 =>
      obtain ⟨hloop, hc0, hc1⟩ := hok
      rw [SamplingState.step] at h
      split at h
      · obtain ⟨th, hth, rfl⟩ := Option.map_eq_some_iff.mp h
        exact setThread_all (hs.unset ((hloop.trans hc0).trans hc1))
          (.launch (hc0.trans hc1).1 hth)
      · cases h
  | response t latencies =>
      obtain ⟨th, hth, hrest⟩ := Option.bind_eq_some_iff.mp h
      obtain ⟨th', hth', hlast⟩ := Option.bind_eq_some_iff.mp hrest
      cases hlast
      exact setThread_all hs ((hs t th hth).requestCompleted hth')
  | beginPass t =>
      obtain ⟨th, hth, rfl⟩ := Option.map_eq_some_iff.mp h
      exact setThread_all hs (hs t th hth).beginPass
  | fire t id c0 c1 c2 undefined =>
      obtain ⟨hc0, hc1, hc2⟩ := hok
      rw [SamplingState.step] at h
      split at h
      · have hall := hs.unset ((hc0.trans hc1).trans hc2)
        obtain ⟨th, te, hth, hfind, -, hcases⟩ := fire_cases h
        have hthread := hs t th hth
        obtain ⟨te', hte, hid, hsample⟩ := hthread.timer
        obtain ⟨rfl, rfl⟩ := find?_singleton (hte ▸ hfind)
        rcases hcases with ⟨hproc, th', mean, retval, hcalibrate, rfl⟩ |
          ⟨hproc, requests, x, hrequests, rfl⟩
        · exact setThread_all (c := c2) hall (hthread.calibrate hc0 hc1 hc2 hte hproc hcalibrate)
        · obtain ⟨hinterval, -⟩ := hsample hproc
          have hstart : (th.restarted c1.mono).start ≤ c2.mono := hc2.mono
          have hlast : (th.restarted c1.mono).lastTime ≤ c2.wall / 1000000 :=
            (hthread.unset ((hc0.trans hc1).trans hc2)).lastTime
          have htimers : (th.restarted c1.mono).timeEvents = [te] := hte
          have hrearmed : ((th.restarted c1.mono).rearm te.id c2 (some th.interval)).TimerOk c2 :=
            .rearm hstart hlast htimers hid _ fun _ => ⟨hinterval, rfl⟩
          exact setThread_all (c := c2) hall hrearmed
      · cases h
  | report =>
      obtain ⟨_, -, hrest⟩ := Option.bind_eq_some_iff.mp h
      obtain ⟨_, -, hrest⟩ := Option.bind_eq_some_iff.mp hrest
      obtain ⟨_, -, hrest⟩ := Option.bind_eq_some_iff.mp hrest
      obtain ⟨_, -, hrest⟩ := Option.bind_eq_some_iff.mp hrest
      obtain ⟨_, -, hlast⟩ := Option.bind_eq_some_iff.mp hrest
      cases hlast
      exact hs

/-- What `main` prints is defined when there is a latency and a rate. -/
theorem report_evaluated_iff (hs : s.CountsOk) (h : s.report cfg = some s') :
    (∀ v ∈ s'.evaluated, v.Defined) ↔
      s.RecordedFirst cfg .report ∧ ∀ v ∈ s.evaluated, v.Defined := by
  obtain ⟨ths, hths, hrest⟩ := Option.bind_eq_some_iff.mp h
  obtain ⟨⟨ds, latencies⟩, hmerge, hrest⟩ := Option.bind_eq_some_iff.mp hrest
  obtain ⟨requests, hrequests, hrest⟩ := Option.bind_eq_some_iff.mp hrest
  obtain ⟨latencyStats, hlatencies, hrest⟩ := Option.bind_eq_some_iff.mp hrest
  obtain ⟨requestStats, hrates, hlast⟩ := Option.bind_eq_some_iff.mp hrest
  cases hlast
  have hholds : List.Forall₂ HdrHistogram.Holds
      (ths.map fun th => if cfg.rateDisabled then th.uLatencyHistogram else th.latencyHistogram)
      (ths.map SampledThread.recorded) := by
    rw [List.forall₂_map_left_iff, List.forall₂_map_right_iff, List.forall₂_same]
    intro th hth
    obtain ⟨t, -, ht⟩ := (mem_mapM hths).mp hth
    have hok := hs.threads t th ht
    split
    · exact hok.uLatency
    · exact hok.latency
  obtain ⟨ds', latencies', hmerge', hmerged⟩ := HdrHistogram.Holds.aggregate hholds
  obtain ⟨rfl, rfl⟩ := Prod.mk.inj (Option.some.inj (hmerge.symm.trans hmerge'))
  obtain ⟨requests', hrequests', hsampled⟩ := hs.requests
  obtain rfl := Option.some.inj (hrequests.symm.trans hrequests')
  simp only [List.forall_mem_append, printStats_defined_iff hlatencies,
    printStats_defined_iff hrates, hmerged.totalCount, hsampled.totalCount,
    SamplingState.RecordedFirst]
  have hsum : 0 < (ths.map SampledThread.recorded).sum ↔
      ∃ t < cfg.threads, (s.threads t).any fun th => 0 < th.recorded := by
    simp only [Option.any_eq_true, decide_eq_true_eq]
    rw [List.sum_pos_iff_exists_pos_nat]
    constructor
    · rintro ⟨_, hn, hpos⟩
      obtain ⟨th, hth, rfl⟩ := List.mem_map.mp hn
      obtain ⟨t, ht, hget⟩ := (mem_mapM hths).mp hth
      exact ⟨t, List.mem_range.mp ht, th, hget, hpos⟩
    · rintro ⟨t, ht, th, hget, hpos⟩
      exact ⟨_, List.mem_map_of_mem ((mem_mapM hths).mpr ⟨t, List.mem_range.mpr ht, hget⟩), hpos⟩
  rw [hsum, and_comm (a := 0 < s.sampled)]

/-- What a step computes. -/
theorem evaluated_step {e : SamplingEvent} (hs : s.CountsOk) (ht : s.TimersOk)
    (h : s.step cfg e = some s') (hclock : s.ClockUnset e) (hrecorded : s.RecordedFirst cfg e)
    (hall : ∀ v ∈ s.evaluated, v.Defined) : ∀ v ∈ s'.evaluated, v.Defined := by
  cases e with
  | tick c =>
      rw [SamplingState.step] at h
      split at h
      · cases h
        exact hall
      · cases h
  | launch t loop c0 c1 =>
      rw [SamplingState.step] at h
      split at h
      · obtain ⟨th, hth, rfl⟩ := Option.map_eq_some_iff.mp h
        exact hall
      · cases h
  | response t latencies =>
      obtain ⟨th, hth, hrest⟩ := Option.bind_eq_some_iff.mp h
      obtain ⟨th', hth', hlast⟩ := Option.bind_eq_some_iff.mp hrest
      cases hlast
      exact hall
  | beginPass t =>
      obtain ⟨th, hth, rfl⟩ := Option.map_eq_some_iff.mp h
      exact hall
  | fire t id c0 c1 c2 undefined =>
      obtain ⟨hc0, hc1, hc2⟩ := hclock
      rw [SamplingState.step] at h
      split at h
      · obtain ⟨th, te, hth, hfind, hdue, hcases⟩ := fire_cases h
        have hcount := (hs.threads t th hth).latency.totalCount
        have hthread := ht t th hth
        rcases hcases with ⟨hproc, th', mean, retval, hcalibrate, rfl⟩ |
          ⟨hproc, requests, x, hrequests, rfl⟩
        · have hpos : 0 < th.recorded := by
            simpa [SamplingState.RecordedFirst, hth, hfind, hproc] using hrecorded
          obtain ⟨hmean, -⟩ := calibrate_cases hcalibrate
          refine List.forall_mem_cons.mpr ⟨fun hzero => absurd hzero hpos.ne', ?_⟩
          exact List.forall_mem_cons.mpr
            ⟨⟨hcount ▸ hpos, hdrMean_ne_none hmean (hcount ▸ hpos)⟩, hall⟩
        · obtain ⟨te', hte, -, hsample⟩ := (hthread.unset hc0).timer
          obtain ⟨rfl, rfl⟩ := find?_singleton (hte ▸ hfind)
          have hstart := hthread.start
          have helapsed : 0 < u64Sub c0.mono th.start / 1000 := by
            obtain ⟨te'', hte'', -, hsample⟩ := hthread.timer
            obtain rfl : te = te'' := List.singleton_inj.mp (hte.symm.trans hte'')
            have hlate := (hsample hproc).elapsed hdue
            have := hc0.mono
            rw [u64Sub_of_le (by omega)]
            omega
          refine List.forall_mem_cons.mpr ⟨⟨helapsed, ?_⟩, hall⟩
          rw [ne_eq, Option.map_eq_none_iff]
          exact divide_natCast_ne_none helapsed
      · cases h
  | report => exact (report_evaluated_iff hs h).mpr ⟨hrecorded, hall⟩

/-- A step that leaves everything defined recorded first. -/
theorem recordedFirst_of_defined {e : SamplingEvent} (hs : s.CountsOk)
    (h : s.step cfg e = some s') (hall : ∀ v ∈ s'.evaluated, v.Defined) :
    s.RecordedFirst cfg e := by
  cases e with
  | fire t id c0 c1 c2 undefined =>
      rw [SamplingState.step] at h
      split at h
      · obtain ⟨th, te, hth, hfind, -, hcases⟩ := fire_cases h
        simp only [SamplingState.RecordedFirst, hth, hfind, Option.all_some, decide_eq_true_eq]
        intro hproc
        rcases hcases with ⟨-, _, mean, _, -, rfl⟩ | ⟨hproc', -⟩
        · have hmean := hall (.hdrMean th.latencyHistogram.totalCount mean)
            (List.mem_cons_of_mem _ List.mem_cons_self)
          exact (hs.threads t th hth).latency.totalCount ▸ hmean.1
        · cases hproc.symm.trans hproc'
      · cases h
  | report => exact ((report_evaluated_iff hs h).mp hall).1
  | _ => trivial

end

theorem sampling_countsOk {cfg : SamplingConfig} {s : SamplingState}
    (h : (sampling cfg).Reachable s) : s.CountsOk :=
  Machine.Reachable.invariant (P := SamplingState.CountsOk) (fun _ => initial_countsOk)
    (fun s e s' hs (hstep : s.step cfg e = some s') => countsOk_step hs hstep) h

/-- As long as the wall clock is not set and latencies and rates are recorded
first, nothing is divided by zero; and where they are not, something is. -/
theorem sampling_denominators (cfg : SamplingConfig) :
    (∀ s, (sampling cfg).ReachableWith
        (fun s e => s.ClockUnset e ∧ s.RecordedFirst cfg e) s → ∀ v ∈ s.evaluated, v.Defined) ∧
      ∀ s e s', (sampling cfg).Reachable s → s.step cfg e = some s' →
        (∀ v ∈ s'.evaluated, v.Defined) → s.RecordedFirst cfg e := by
  refine ⟨fun s h => ?_,
    fun s e s' hs hstep => recordedFirst_of_defined (sampling_countsOk hs) hstep⟩
  have hall : s.CountsOk ∧ s.TimersOk ∧ ∀ v ∈ s.evaluated, v.Defined := by
    refine Machine.ReachableWith.invariant
      (P := fun s => s.CountsOk ∧ s.TimersOk ∧ ∀ v ∈ s.evaluated, v.Defined) ?_ ?_ h
    · intro s hs
      refine ⟨initial_countsOk hs, fun t th hth => ?_, ?_⟩
      · cases (hs.1 t).symm.trans hth
      · rw [hs.2.2.2]
        exact fun v hv => absurd hv List.not_mem_nil
    · rintro s e s' ⟨hs, ht, hv⟩ (hstep : s.step cfg e = some s') ⟨hclock, hrecorded⟩
      exact ⟨countsOk_step hs hstep, timersOk_step ht hstep hclock,
        evaluated_step hs ht hstep hclock hrecorded hv⟩
  exact hall.2.2

/-! ## Runs -/

def oneThread : SamplingConfig := ⟨1, fun _ => 1, false⟩

def beforeLaunch : SamplingState :=
  ⟨⟨0, 50000000⟩, fun _ => none, { statsAlloc 10 with histogram := some latencyHistogram }, 0, []⟩

theorem beforeLaunch_initial : beforeLaunch.Initial := by
  refine ⟨fun _ => rfl, ?_, rfl, rfl⟩
  rw [statisticsRequests, hdrInit_latency]
  rfl

/-- A thread is launched and calibrates after ten seconds. -/
def calibratedAfter (latencies : List (ℤ × ℤ)) : List SamplingEvent :=
  let c : Clock := ⟨10005000, 60005000⟩
  .launch 0 beforeLaunch.clock beforeLaunch.clock beforeLaunch.clock ::
    (latencies.map fun l => .response 0 (some l)) ++
      [.tick c, .beginPass 0, .fire 0 0 c c c 0]

/-- Then it samples a rate at `c`. -/
def sampledAt (c : Clock) : List SamplingEvent := [.tick c, .beginPass 0, .fire 0 1 c c c 0]

theorem sampling_denominators_one : ∃ s, (sampling oneThread).ReachableWith
      (fun s e => s.ClockUnset e ∧ s.RecordedFirst oneThread e) s ∧
    s.evaluated.length = 7 ∧ ∀ v ∈ s.evaluated, v.Defined := by
  obtain ⟨s, hs, hlength⟩ : ∃ s, (sampling oneThread).ReachableWith
      (fun s e => s.ClockUnset e ∧ s.RecordedFirst oneThread e) s ∧ s.evaluated.length = 7 :=
    exists_reachableWith_of_runEvents (fun s : SamplingState => s.evaluated.length)
      (calibratedAfter [(5, 5)] ++ .response 0 (some (7, 7)) ::
        sampledAt ⟨10015000, 60015000⟩ ++ [.report])
      beforeLaunch_initial (by decide +kernel)
  exact ⟨s, hs, hlength, (sampling_denominators oneThread).1 s hs⟩

/-- A thread without a latency calibrates with a mean that is no number; after
the wall clock was set back a rate is sampled over no time; and a run of less
than ten seconds prints the mean of no rates. -/
theorem zero_denominators :
    (∃ s, (sampling oneThread).Reachable s ∧
      s.evaluated = [.calibrate 0 false, .hdrMean 0 none]) ∧
    (∃ s, (sampling oneThread).Reachable s ∧
      s.evaluated.head? = some (.sampleRate 0 none)) ∧
    ∃ s, (sampling oneThread).Reachable s ∧ s.evaluated.head? = some (.hdrStddev 0 none) := by
  refine ⟨?_, ?_, ?_⟩
  · exact exists_reachable_of_runEvents (fun s : SamplingState => s.evaluated) (calibratedAfter [])
      beforeLaunch_initial (by decide +kernel)
  · exact exists_reachable_of_runEvents (fun s : SamplingState => s.evaluated.head?)
      (calibratedAfter [(5, 5)] ++ sampledAt ⟨10005400, 40005000⟩) beforeLaunch_initial
      (by decide +kernel)
  · exact exists_reachable_of_runEvents (fun s : SamplingState => s.evaluated.head?)
      [.launch 0 beforeLaunch.clock beforeLaunch.clock beforeLaunch.clock,
        .response 0 (some (5, 5)), .report] beforeLaunch_initial (by decide +kernel)

end WrkQuic
