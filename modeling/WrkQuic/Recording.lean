import WrkQuic.HdrMerge
import WrkQuic.QuicLatency
import WrkQuic.TcpLatency

/-!
# Recording latencies

The latency histograms of a worker thread have 27 buckets of 2048 slots, so
the assertions of `counts_index` hold of the values below 2^37 and fail of
every other, a negative one included: a value that is out of range aborts
the process before `hdr_record_value` can return false.

A latency that is recorded is in range as long as the response comes within
2^37 microseconds, a little over 38 hours, of the time its batch was due
(`expected_latency_start`, whatever the doubles make of it), and over QUIC
not before it.
-/

namespace WrkQuic

open Runs LogBuckets HdrHistogram

/-! ## What a histogram can record -/

/-- A latency histogram, whatever it holds. -/
def HdrHistogram.OfWorker (h : HdrHistogram) : Prop :=
  ∃ totalCount counts,
    h = { latencyHistogram with totalCount := totalCount, counts := counts }

/-- `hdr_record_value` returns true, or false for a value above the
trackable range. -/
def Recordable (h : HdrHistogram) (value : ℤ) : Prop :=
  ∃ recorded h', hdrRecordValue h value = some (recorded, h') ∧
    (recorded = false → h.highestTrackableValue < value)

variable {h h' : HdrHistogram} {value : ℤ}

theorem HdrHistogram.OfWorker.shaped (hh : h.OfWorker) : h.Shaped := by
  obtain ⟨totalCount, counts, rfl⟩ := hh
  obtain ⟨hmask, hcount, hhalf, hbuckets, hlen⟩ := latencyHistogram_shaped
  exact ⟨hmask, hcount, hhalf, hbuckets, hlen⟩

theorem latencyHistogram_ofWorker : latencyHistogram.OfWorker := ⟨0, fun _ => 0, rfl⟩

/-- Recording a value leaves a latency histogram. -/
theorem HdrHistogram.OfWorker.record (hh : h.OfWorker) {recorded : Bool}
    (hrecord : hdrRecordValue h value = some (recorded, h')) : h'.OfWorker := by
  obtain ⟨totalCount, counts, rfl⟩ := hh
  rw [hdrRecordValue, hdrRecordValues] at hrecord
  obtain ⟨index, -, hindex⟩ := Option.bind_eq_some_iff.mp hrecord
  split at hindex
  · obtain ⟨-, rfl⟩ := Prod.mk.inj (Option.some.inj hindex)
    exact ⟨totalCount, counts, rfl⟩
  · obtain ⟨-, rfl⟩ := Prod.mk.inj (Option.some.inj hindex)
    exact ⟨_, _, rfl⟩

/-- The bucket of a negative value or one from 2^37 on does not exist. -/
theorem getBucketIndex_out_of_range (hh : h.OfWorker) (hvalue : value < 0 ∨ 2 ^ 37 ≤ value) :
    h.bucketCount ≤ getBucketIndex h value := by
  have hshaped := hh.shaped
  obtain ⟨totalCount, counts, rfl⟩ := hh
  by_cases hneg : value < 0
  · rw [getBucketIndex, if_pos hneg]
    show 27 ≤ 64 - 0 - (10 + 1)
    omega
  · obtain ⟨v, rfl⟩ := Int.eq_ofNat_of_zero_le (Int.not_lt.mp hneg)
    have hv : 2 ^ 37 ≤ v := by omega
    have hsize : 37 < Nat.size v := Nat.lt_size.mpr hv
    rw [getBucketIndex_natCast hshaped, bucket_eq mantissa_pos]
    show 27 ≤ Nat.size v - 0 - (10 + 1)
    omega

/-- What does not abort is in range. -/
theorem HdrHistogram.OfWorker.in_range (hh : h.OfWorker) {r : Bool × HdrHistogram}
    (hrecord : hdrRecordValue h value = some r) : 0 ≤ value ∧ value < 2 ^ 37 := by
  by_contra hrange
  have hbucket : h.bucketCount ≤ getBucketIndex h value :=
    getBucketIndex_out_of_range hh (by omega)
  have habort : countsIndexFor h value = none := by
    rw [countsIndexFor, countsIndex, if_neg]
    rintro ⟨hlt, -⟩
    exact absurd hlt (Nat.not_lt.mpr hbucket)
  rw [hdrRecordValue, hdrRecordValues, habort] at hrecord
  cases hrecord

theorem recordable_iff (hh : h.OfWorker) : Recordable h value ↔ 0 ≤ value ∧ value < 2 ^ 37 := by
  constructor
  · rintro ⟨recorded, h', hrecord, -⟩
    exact hh.in_range hrecord
  · rintro ⟨hpos, hlt⟩
    obtain ⟨v, rfl⟩ := Int.eq_ofNat_of_zero_le hpos
    have hshaped := hh.shaped
    have htracks : h.Tracks v := by
      obtain ⟨totalCount, counts, rfl⟩ := hh
      exact latencyHistogram_tracks (by omega)
    have hslot := slot_lt hshaped htracks
    have hindex : ¬((h.slot v : ℤ) < 0 ∨ (h.countsLen : ℤ) ≤ h.slot v) := by omega
    rw [Recordable, hdrRecordValue, hdrRecordValues, countsIndexFor_natCast hshaped hslot]
    simp only [Option.bind_eq_bind, Option.bind_some, if_neg hindex]
    exact ⟨true, _, rfl, fun hfalse => by cases hfalse⟩

/-! ## What is recorded of a response -/

/-- Both latencies can be recorded in the histograms of the thread. -/
def ResponseTiming.Recordable (t : ResponseTiming) : Prop :=
  ∀ h : HdrHistogram, h.OfWorker →
    WrkQuic.Recordable h (toInt64 t.corrected) ∧ WrkQuic.Recordable h (toInt64 t.uncorrected)

theorem ResponseTiming.recordable_iff (t : ResponseTiming) :
    t.Recordable ↔ (0 ≤ toInt64 t.corrected ∧ toInt64 t.corrected < 2 ^ 37) ∧
      0 ≤ toInt64 t.uncorrected ∧ toInt64 t.uncorrected < 2 ^ 37 := by
  constructor
  · intro hrecord
    obtain ⟨hc, hu⟩ := hrecord _ latencyHistogram_ofWorker
    exact ⟨(WrkQuic.recordable_iff latencyHistogram_ofWorker).mp hc,
      (WrkQuic.recordable_iff latencyHistogram_ofWorker).mp hu⟩
  · rintro ⟨hc, hu⟩ h hh
    exact ⟨(WrkQuic.recordable_iff hh).mpr hc, (WrkQuic.recordable_iff hh).mpr hu⟩

/-- A difference of clock readings as the value that is recorded. -/
theorem toInt64_u64Sub {a b : ℕ} (ha : a < 2 ^ 63) (hb : b < 2 ^ 63) :
    toInt64 (u64Sub a b) = (a : ℤ) - b := by
  unfold toInt64 u64Sub
  split
  · split <;> omega
  · split <;> omega

/-- The latencies are differences of clock readings, and the batch was
started in the past. -/
structure ResponseTiming.Started (t : ResponseTiming) : Prop where
  actual : t.started = true → t.actualStart ≤ t.now
  corrected : t.corrected = u64Sub t.now t.expectedStart
  uncorrected : t.uncorrected = u64Sub t.now t.actualStart

theorem ResponseTiming.Started.recordable_iff {t : ResponseTiming} (h : t.Started)
    (hstarted : t.started = true) (hnow : t.now < 2 ^ 63) (hexpected : t.expectedStart < 2 ^ 63) :
    t.Recordable ↔ t.expectedStart ≤ t.now ∧ t.now < t.expectedStart + 2 ^ 37 ∧
      t.now < t.actualStart + 2 ^ 37 := by
  have hactual := h.actual hstarted
  rw [ResponseTiming.recordable_iff, h.corrected, h.uncorrected, toInt64_u64Sub hnow hexpected,
    toInt64_u64Sub hnow (hactual.trans_lt hnow)]
  omega

theorem ResponseTiming.Ordered.toStarted {t : ResponseTiming} (h : t.Ordered) : t.Started where
  actual _ := h.actual
  corrected := by rw [h.corrected, u64Sub_of_le (h.expected.trans h.actual)]
  uncorrected := by rw [h.uncorrected, u64Sub_of_le h.actual]

/-- Over QUIC, whatever the order of the callbacks. -/
theorem started_rule (cfg : Config) : AnchorRule cfg (fun _ _ _ => True)
    (fun c clock => c.started = true → c.actualLatencyStart ≤ clock) ResponseTiming.Started where
  initial _ h := by cases h
  later _ _ _ h hle hs := (h hs).trans hle
  same _ _ _ h hsame hs := by
    rw [hsame.actual]
    exact h (hsame.started ▸ hs)
  restart _ _ _ h _ hs := h hs
  anchor _ _ _ _ _ _ _ hanchors _ := Nat.le_of_eq hanchors.actual
  measure _ _ _ h _ _ _ := ⟨h, rfl, rfl⟩

/-- In every run, for every response to a request that was sent whose
latencies are passed to `hdr_record_value`: both are recorded exactly when
the response comes less than 2^37 microseconds after the time its batch was
due; over QUIC, exactly when it also comes no earlier than that time, and
less than 2^37 microseconds after its batch was started. -/
theorem recording_iff_in_range {π : Type*} :
    (∀ (cfg : Config) (P : ResponseParser π) (s : TcpThread π),
      (tcpThread cfg P).Reachable s → ∀ c target pending t,
        .response c target pending (some t) ∈ s.trace → t.started = true → t.recorded = true →
        t.now < 2 ^ 63 → (t.Recordable ↔ t.now < t.expectedStart + 2 ^ 37)) ∧
    (∀ (cfg : Config) (s : QuicTimed), (quicTimed cfg).Reachable s → ∀ t ∈ s.counted,
        t.started = true → t.recorded = true → t.now < 2 ^ 63 → t.expectedStart < 2 ^ 63 →
        (t.Recordable ↔ t.expectedStart ≤ t.now ∧ t.now < t.expectedStart + 2 ^ 37 ∧
          t.now < t.actualStart + 2 ^ 37)) := by
  refine ⟨?_, ?_⟩
  · intro cfg P s hs c target pending t ht hstarted _ hnow
    have hordered : t.Ordered := (tcp_latencyOk hs).measured _ ht hstarted
    have hexpected := hordered.expected
    have hactual := hordered.actual
    rw [hordered.toStarted.recordable_iff hstarted hnow (by omega)]
    omega
  · intro cfg s hs t ht hstarted _ hnow hexpected
    have hcalled : (quicTimed cfg).ReachableWith (CallbacksMeet fun _ _ _ => True) s :=
      hs.mono (by rintro s (_ | _ | _ | _ | _ | _) - <;> trivial)
    have hkept := (started_rule cfg).run hcalled
    exact (hkept.counted t ht).recordable_iff hstarted hnow hexpected

/-! ## A long run without a rate -/

/-- `cfg.rate` as `parse_args` leaves it: 0, also when the option is
omitted, becomes -1. -/
def parsedRate (rate : ℕ) : ℕ := if rate = 0 then 2 ^ 64 - 1 else rate

/-- The throughput of a connection, as `main` and `thread_main` divide the
rate. -/
def connectionThroughput (rate threads connections : ℕ) : ℚ :=
  (rate : ℚ) / threads / 1000000 / (connections / threads : ℕ)

/-- `stop_at`, at clock reading `now`. -/
def stopTime (now duration : ℕ) : ℕ := (now + duration * 1000000) % 2 ^ 64

/-- `-d 40h -t 1 -c 1`, started at time 0. -/
def fortyHours : Config := { twoConnections with
  connections := 1
  throughput := connectionThroughput (parsedRate 0) 1 1
  stopAt := stopTime 0 (40 * 3600)
  setsize := 13 }

def fortyHoursStart : TcpThread HttpParser :=
  .initial fortyHours httpParser 0 (.firstOpen 4 ())

/-- The connection opens at time 5 and sends a request at time 20, which is
answered `dt` later. -/
def answeredAfter (dt : ℕ) : List TcpEvent :=
  [.timer 0 { dt := 5 }, .writable 4 { dt := 10 },
    .writable 4 { dt := 10, startDt := 5, write := .ok 18 },
    .readable 4 { reads := [.data emptyResponse [{ dt := dt }]] }]

/-- A prompt answer is recorded over both transports. -/
theorem recording_iff_in_range_one :
    (∃ (s : TcpThread HttpParser) (t : ResponseTiming),
      (tcpThread fortyHours httpParser).Reachable s ∧ t.started = true ∧ t.Recordable) ∧
    ∃ (s : QuicTimed) (t : ResponseTiming), (quicTimed everyFourMs).Reachable s ∧
      t.started = true ∧ t.Recordable := by
  obtain ⟨s, hs, hlast⟩ : ∃ s, (tcpThread fortyHours httpParser).Reachable s ∧
      s.trace.head? = some (.response 0 (some ⟨some 0, true, 1, 0, [emptyResponse]⟩) 0
        (some ⟨true, 720, 5, 20, 715, 700, true⟩)) :=
    exists_reachable_of_runEvents (fun s : TcpThread HttpParser => s.trace.head?)
      (answeredAfter 700) (s := fortyHoursStart) ⟨0, .firstOpen 4 (), rfl⟩ (by decide +kernel)
  obtain ⟨s', hs', hcounted⟩ : ∃ s, (quicTimed everyFourMs).Reachable s ∧
      s.counted.head? = some ⟨true, 1198, 998, 998, 200, 200, true⟩ :=
    exists_reachable_of_runEvents (fun s : QuicTimed => s.counted.head?) firstAnswer
      (QuicTimed.fresh_initial everyFourMs) (by decide +kernel)
  refine ⟨⟨s, ⟨true, 720, 5, 20, 715, 700, true⟩, hs, rfl, ?_⟩,
    s', ⟨true, 1198, 998, 998, 200, 200, true⟩, hs', rfl, ?_⟩
  · exact ((recording_iff_in_range.1 fortyHours httpParser s hs 0 _ 0 _
      (List.mem_of_mem_head? hlast) rfl rfl (by decide)).mpr (by decide))
  · exact ((recording_iff_in_range (π := Unit)).2 everyFourMs s' hs' _
      (List.mem_of_mem_head? hcounted) rfl rfl (by decide) (by decide)).mpr (by decide)

/-- A server that answers after 2^37 microseconds, within the 40 hours of
the test: the assertion of `counts_index` fails on the corrected latency. -/
theorem recording_aborts : ∃ (s : TcpThread HttpParser) (t : ResponseTiming),
    (tcpThread fortyHours httpParser).Reachable s ∧
    s.trace.head? = some (.response 0 (some ⟨some 0, true, 1, 0, [emptyResponse]⟩) 0 (some t)) ∧
    t.started = true ∧ t.recorded = true ∧
    ∀ h : HdrHistogram, h.OfWorker → hdrRecordValue h (toInt64 t.corrected) = none := by
  obtain ⟨s, hs, hlast⟩ : ∃ s, (tcpThread fortyHours httpParser).Reachable s ∧
      s.trace.head? = some (.response 0 (some ⟨some 0, true, 1, 0, [emptyResponse]⟩) 0
        (some ⟨true, 2 ^ 37 + 20, 5, 20, 2 ^ 37 + 15, 2 ^ 37, true⟩)) :=
    exists_reachable_of_runEvents (fun s : TcpThread HttpParser => s.trace.head?)
      (answeredAfter (2 ^ 37)) (s := fortyHoursStart) ⟨0, .firstOpen 4 (), rfl⟩
      (by decide +kernel)
  refine ⟨s, ⟨true, 2 ^ 37 + 20, 5, 20, 2 ^ 37 + 15, 2 ^ 37, true⟩, hs, hlast, rfl, rfl, ?_⟩
  intro h hh
  have hbucket : h.bucketCount ≤ getBucketIndex h (toInt64 (2 ^ 37 + 15)) :=
    getBucketIndex_out_of_range hh (Or.inr (by decide))
  rw [hdrRecordValue, hdrRecordValues, countsIndexFor, countsIndex, if_neg]
  · rfl
  · rintro ⟨hlt, -⟩
    exact absurd hlt (Nat.not_lt.mpr hbucket)

end WrkQuic
