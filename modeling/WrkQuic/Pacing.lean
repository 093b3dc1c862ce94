import Mathlib.Data.Rat.Floor
import Mathlib.Tactic.Linarith
import WrkQuic.Lib.Runs
import WrkQuic.Lib.RateLine

/-!
# Pacing: `usec_to_next_send`

The pacing state of one `connection` and the function of `wrk.h` that
decides whether the next batch may be sent now. A connection follows two
rate lines: the schedule itself (`thread_start`, `throughput`) and,
while it is behind the schedule, a catch-up line of twice the rate
anchored at the moment it fell behind (`catch_up_start_time`,
`complete_at_catch_up_start`).

A line is `start + n / rate` in doubles, converted to `uint64_t`. What the
doubles make of it is a parameter (`Pacer.line`); with exact doubles it is
`start + due rate n`, as the conversion truncates (`exactLine`). Unsigned
subtractions keep their wrap-around (`u64Sub`). `exactWait` is the same
decision in the integers, where nothing wraps: the invariant `PacerOk` of
every reachable pacing state makes the two agree (`usecToNextSend_exact`).
-/

namespace WrkQuic

open RateLine Runs

/-- Unsigned 64-bit subtraction: wraps exactly when `b` exceeds `a`. -/
def u64Sub (a b : Nat) : Nat :=
  if b ≤ a then a - b else 2 ^ 64 - (b - a)

theorem u64Sub_of_le {a b : Nat} (h : b ≤ a) : u64Sub a b = a - b :=
  if_pos h

/-! ## The state and the function -/

/-- `start + n / rate` with exact doubles. -/
def exactLine (start n : ℕ) (rate : ℚ) : ℕ := start + due rate n

/-- The fields of `connection` that `usec_to_next_send` reads and writes, and
what `start + n / rate` is in doubles. -/
structure Pacer where
  line : ℕ → ℕ → ℚ → ℕ
  throughput : ℚ
  catchUpThroughput : ℚ
  threadStart : Nat
  complete : Nat
  caughtUp : Bool
  catchUpStartTime : Nat
  completeAtCatchUpStart : Nat
  latestShouldSendTime : Nat
  latestExpectedStart : Nat

namespace Pacer

/-- The first fall-behind since the connection was last caught up
re-anchors the catch-up line at the current point. -/
def fallBehind (c : Pacer) (now : Nat) : Pacer :=
  if c.caughtUp then
    { c with
      caughtUp := false
      catchUpStartTime := now
      completeAtCatchUpStart := c.complete }
  else c

/-- The schedule's next start time. -/
def scheduledStart (c : Pacer) : Nat := c.line c.threadStart c.complete c.throughput

/-- The catch-up line's next start time. -/
def catchUpStart (c : Pacer) : Nat :=
  c.line c.catchUpStartTime (u64Sub c.complete c.completeAtCatchUpStart) c.catchUpThroughput

/-- `usec_to_next_send` at clock reading `now`: the wait (`0` is "send
now") and the updated connection. -/
def usecToNextSend (c : Pacer) (now : Nat) : Nat × Pacer :=
  let nextStartTime := c.scheduledStart
  if now < nextStartTime then
    -- on pace: indicate caught_up and don't send now
    (u64Sub nextStartTime now, { c with caughtUp := true })
  else
    let c := c.fallBehind now
    let nextStartTime := c.catchUpStart
    if now < nextStartTime then
      -- not yet time to send, even at the catch-up throughput
      (u64Sub nextStartTime now, c)
    else
      (0, { c with
        latestShouldSendTime := now
        latestExpectedStart := nextStartTime })

/-- The pacing state `thread_main` sets up and `delayed_initial_connect`
starts at clock reading `threadStart`. -/
def start (line : ℕ → ℕ → ℚ → ℕ) (throughput : ℚ) (threadStart : Nat) : Pacer where
  line := line
  throughput := throughput
  catchUpThroughput := throughput * 2
  threadStart := threadStart
  complete := 0
  caughtUp := true
  catchUpStartTime := 0
  completeAtCatchUpStart := 0
  latestShouldSendTime := 0
  latestExpectedStart := 0

/-! ## What a call keeps -/

@[simp] theorem fallBehind_line (c : Pacer) (now : Nat) :
    (c.fallBehind now).line = c.line := by
  unfold fallBehind; split <;> rfl

@[simp] theorem fallBehind_throughput (c : Pacer) (now : Nat) :
    (c.fallBehind now).throughput = c.throughput := by
  unfold fallBehind; split <;> rfl

@[simp] theorem fallBehind_catchUpThroughput (c : Pacer) (now : Nat) :
    (c.fallBehind now).catchUpThroughput = c.catchUpThroughput := by
  unfold fallBehind; split <;> rfl

@[simp] theorem fallBehind_threadStart (c : Pacer) (now : Nat) :
    (c.fallBehind now).threadStart = c.threadStart := by
  unfold fallBehind; split <;> rfl

@[simp] theorem fallBehind_complete (c : Pacer) (now : Nat) :
    (c.fallBehind now).complete = c.complete := by
  unfold fallBehind; split <;> rfl

@[simp] theorem fallBehind_caughtUp (c : Pacer) (now : Nat) :
    (c.fallBehind now).caughtUp = false := by
  unfold fallBehind
  split
  · rfl
  · rename_i h
    simpa using h

theorem usecToNextSend_cases (c : Pacer) (now : Nat) :
    (now < c.scheduledStart ∧ c.usecToNextSend now
        = (u64Sub c.scheduledStart now, { c with caughtUp := true }))
      ∨ (c.scheduledStart ≤ now ∧ now < (c.fallBehind now).catchUpStart ∧
          c.usecToNextSend now
            = (u64Sub (c.fallBehind now).catchUpStart now, c.fallBehind now))
      ∨ (c.scheduledStart ≤ now ∧ (c.fallBehind now).catchUpStart ≤ now ∧
          c.usecToNextSend now = (0, { c.fallBehind now with
            latestShouldSendTime := now
            latestExpectedStart := (c.fallBehind now).catchUpStart })) := by
  unfold usecToNextSend
  by_cases h1 : now < c.scheduledStart
  · exact Or.inl ⟨h1, by simp [h1]⟩
  · by_cases h2 : now < (c.fallBehind now).catchUpStart
    · exact Or.inr (Or.inl ⟨by omega, h2, by simp [h1, h2]⟩)
    · exact Or.inr (Or.inr ⟨by omega, by omega, by simp [h1, h2]⟩)

/-- A call changes neither the schedule nor the number of completions. -/
theorem usecToNextSend_schedule (c : Pacer) (now : Nat) :
    (c.usecToNextSend now).2.line = c.line
      ∧ (c.usecToNextSend now).2.throughput = c.throughput
      ∧ (c.usecToNextSend now).2.catchUpThroughput = c.catchUpThroughput
      ∧ (c.usecToNextSend now).2.threadStart = c.threadStart
      ∧ (c.usecToNextSend now).2.complete = c.complete := by
  rcases c.usecToNextSend_cases now with ⟨-, h⟩ | ⟨-, -, h⟩ | ⟨-, -, h⟩ <;>
    simp [h]

/-- What a call that leaves the connection behind does to the anchors. -/
theorem anchors_of_behind (c : Pacer) (now : Nat)
    (hbehind : (c.usecToNextSend now).2.caughtUp = false) :
    (c.usecToNextSend now).2.catchUpStartTime
        = (if c.caughtUp then now else c.catchUpStartTime) ∧
      (c.usecToNextSend now).2.completeAtCatchUpStart
        = if c.caughtUp then c.complete else c.completeAtCatchUpStart := by
  have hfall : (c.fallBehind now).catchUpStartTime
        = (if c.caughtUp then now else c.catchUpStartTime) ∧
      (c.fallBehind now).completeAtCatchUpStart
        = if c.caughtUp then c.complete else c.completeAtCatchUpStart := by
    unfold fallBehind
    split <;> exact ⟨rfl, rfl⟩
  rcases c.usecToNextSend_cases now with ⟨-, heq⟩ | ⟨-, -, heq⟩ | ⟨-, -, heq⟩
  · rw [heq] at hbehind
    cases hbehind
  · rw [heq]
    exact hfall
  · rw [heq]
    exact hfall

/-- A wait of `0` means the schedule's own line has been reached. -/
theorem scheduledStart_le_of_send {c : Pacer} {now : Nat}
    (h : (c.usecToNextSend now).1 = 0) : c.scheduledStart ≤ now := by
  rcases c.usecToNextSend_cases now with ⟨h1, heq⟩ | ⟨h1, -, -⟩ | ⟨h1, -, -⟩
  · rw [heq, u64Sub_of_le h1.le] at h
    omega
  · exact h1
  · exact h1

/-- A wait of `0` means the catch-up line has been reached as well. -/
theorem catchUpStart_le_of_send {c : Pacer} {now : Nat}
    (h : (c.usecToNextSend now).1 = 0) :
    (c.fallBehind now).catchUpStart ≤ now := by
  rcases c.usecToNextSend_cases now with ⟨h1, heq⟩ | ⟨-, h2, heq⟩ | ⟨-, h2, -⟩
  · rw [heq, u64Sub_of_le h1.le] at h
    omega
  · rw [heq, u64Sub_of_le h2.le] at h
    omega
  · exact h2

/-! ## The invariant -/

end Pacer

/-- What holds of a connection's pacing state at clock reading `now`: the
catch-up line of a connection that is behind is anchored in the past. The
doubles are exact. -/
structure PacerOk (t : ℚ) (c : Pacer) (now : Nat) : Prop where
  line : c.line = exactLine
  throughput : c.throughput = t
  catchUpThroughput : c.catchUpThroughput = t * 2
  threadStart_le : c.threadStart ≤ now
  catchUpStartTime_le : c.caughtUp = false → c.catchUpStartTime ≤ now
  completeAt_le : c.caughtUp = false → c.completeAtCatchUpStart ≤ c.complete

namespace PacerOk

variable {t : ℚ} {c : Pacer} {now now' : Nat}

theorem start (t : ℚ) (threadStart : Nat) :
    PacerOk t (Pacer.start exactLine t threadStart) threadStart where
  line := rfl
  throughput := rfl
  catchUpThroughput := rfl
  threadStart_le := Nat.le_refl _
  catchUpStartTime_le h := by cases h
  completeAt_le h := by cases h

theorem later (h : PacerOk t c now) (hle : now ≤ now') : PacerOk t c now' where
  line := h.line
  throughput := h.throughput
  catchUpThroughput := h.catchUpThroughput
  threadStart_le := h.threadStart_le.trans hle
  catchUpStartTime_le hb := (h.catchUpStartTime_le hb).trans hle
  completeAt_le := h.completeAt_le

theorem completeMore (h : PacerOk t c now) (k : Nat) :
    PacerOk t { c with complete := c.complete + k } now where
  line := h.line
  throughput := h.throughput
  catchUpThroughput := h.catchUpThroughput
  threadStart_le := h.threadStart_le
  catchUpStartTime_le := h.catchUpStartTime_le
  completeAt_le hb := (h.completeAt_le hb).trans (Nat.le_add_right _ _)

theorem fallBehind (h : PacerOk t c now) : PacerOk t (c.fallBehind now) now where
  line := by simpa using h.line
  throughput := by simpa using h.throughput
  catchUpThroughput := by simpa using h.catchUpThroughput
  threadStart_le := by simpa using h.threadStart_le
  catchUpStartTime_le _ := by
    unfold Pacer.fallBehind
    split
    · exact Nat.le_refl _
    · rename_i hb
      exact h.catchUpStartTime_le (by simpa using hb)
  completeAt_le _ := by
    unfold Pacer.fallBehind
    split
    · exact Nat.le_refl _
    · rename_i hb
      exact h.completeAt_le (by simpa using hb)

/-- A call keeps the invariant, whichever of its three branches it takes. -/
theorem call (h : PacerOk t c now) : PacerOk t (c.usecToNextSend now).2 now := by
  have hf := h.fallBehind
  rcases c.usecToNextSend_cases now with ⟨-, heq⟩ | ⟨-, -, heq⟩ | ⟨-, -, heq⟩
  · rw [heq]
    exact
      { line := h.line
        throughput := h.throughput
        catchUpThroughput := h.catchUpThroughput
        threadStart_le := h.threadStart_le
        catchUpStartTime_le := fun hb => by cases hb
        completeAt_le := fun hb => by cases hb }
  · rw [heq]
    exact hf
  · rw [heq]
    exact
      { line := hf.line
        throughput := hf.throughput
        catchUpThroughput := hf.catchUpThroughput
        threadStart_le := hf.threadStart_le
        catchUpStartTime_le := hf.catchUpStartTime_le
        completeAt_le := hf.completeAt_le }

end PacerOk

/-! ## The exact wait -/

/-- The wait in exact integer arithmetic: until the schedule's line, or
until the catch-up line once the schedule's line has passed. -/
def Pacer.exactWait (c : Pacer) (now : Nat) : ℤ :=
  let scheduled : ℤ := c.threadStart + ⌊(c.complete : ℚ) / c.throughput⌋
  if now < scheduled then scheduled - now
  else
    let b := c.fallBehind now
    let since : ℤ := b.complete - b.completeAtCatchUpStart
    max 0 (b.catchUpStartTime + ⌊(since : ℚ) / b.catchUpThroughput⌋ - now)

theorem due_eq_floor {r : ℚ} (hr : 0 < r) (n : ℕ) :
    ((due r n : ℕ) : ℤ) = ⌊(n : ℚ) / r⌋ := by
  rw [due, Int.natCast_floor_eq_floor (by positivity)]

/-- No unsigned operation of the function wraps: in a state satisfying
the invariant it computes the exact wait. -/
theorem usecToNextSend_exact {t : ℚ} (ht : 0 < t) {c : Pacer} {now : Nat}
    (h : PacerOk t c now) : ((c.usecToNextSend now).1 : ℤ) = c.exactWait now := by
  have hf := h.fallBehind
  have hle := hf.completeAt_le (c.fallBehind_caughtUp now)
  have hs : ((c.scheduledStart : ℕ) : ℤ)
      = c.threadStart + ⌊(c.complete : ℚ) / c.throughput⌋ := by
    rw [Pacer.scheduledStart, h.line, exactLine, Nat.cast_add, due_eq_floor (h.throughput ▸ ht)]
  have hcast : (((c.fallBehind now).complete
      - (c.fallBehind now).completeAtCatchUpStart : ℕ) : ℚ)
      = (((c.fallBehind now).complete
          - (c.fallBehind now).completeAtCatchUpStart : ℤ) : ℚ) := by
    rw [Nat.cast_sub hle]
    push_cast
    rfl
  have hc : (((c.fallBehind now).catchUpStart : ℕ) : ℤ)
      = (c.fallBehind now).catchUpStartTime
        + ⌊(((c.fallBehind now).complete
            - (c.fallBehind now).completeAtCatchUpStart : ℤ) : ℚ)
          / (c.fallBehind now).catchUpThroughput⌋ := by
    have h2 : (0 : ℚ) < (c.fallBehind now).catchUpThroughput := by
      rw [hf.catchUpThroughput]; linarith
    rw [Pacer.catchUpStart, hf.line, exactLine, u64Sub_of_le hle, Nat.cast_add, due_eq_floor h2,
      hcast]
  simp only [Pacer.exactWait, ← hs, ← hc, Nat.cast_lt]
  rcases c.usecToNextSend_cases now with ⟨h1, heq⟩ | ⟨h1, h2, heq⟩ | ⟨h1, h2, heq⟩
  · rw [heq, if_pos h1, u64Sub_of_le h1.le]
    omega
  · rw [heq, if_neg (by omega), u64Sub_of_le h2.le]
    omega
  · rw [heq, if_neg (by omega)]
    omega

/-! ## Rate bounds of a send -/

/-- A send stays below the schedule's line one microsecond ahead. -/
theorem complete_le_of_send {t : ℚ} (ht : 0 < t) {c : Pacer} {now : Nat}
    (h : PacerOk t c now) (hsend : (c.usecToNextSend now).1 = 0) :
    (c.complete : ℚ) ≤ t * (now + 1 - c.threadStart) := by
  have hle := Pacer.scheduledStart_le_of_send hsend
  have hdue : due c.throughput c.complete ≤ now - c.threadStart := by
    rw [Pacer.scheduledStart, h.line, exactLine] at hle
    omega
  have hlt := lt_of_due_le (h.throughput ▸ ht) hdue
  rw [h.throughput, Nat.cast_sub h.threadStart_le] at hlt
  have : ((now : ℚ) - c.threadStart + 1) = now + 1 - c.threadStart := by ring
  rw [← this]
  exact hlt.le

/-- A send stays below the catch-up line: at most twice the rate since
the episode started, with the anchors the call leaves behind. -/
theorem catchUp_le_of_send {t : ℚ} (ht : 0 < t) {c : Pacer} {now : Nat}
    (h : PacerOk t c now) (hsend : (c.usecToNextSend now).1 = 0) :
    ((c.usecToNextSend now).2.complete : ℚ)
        - (c.usecToNextSend now).2.completeAtCatchUpStart
      ≤ 2 * t * (now + 1 - (c.usecToNextSend now).2.catchUpStartTime) := by
  have hle := Pacer.catchUpStart_le_of_send hsend
  have hf := h.fallBehind
  have hat := hf.completeAt_le (c.fallBehind_caughtUp now)
  have hst := hf.catchUpStartTime_le (c.fallBehind_caughtUp now)
  have hpost : (c.usecToNextSend now).2.complete = (c.fallBehind now).complete
      ∧ (c.usecToNextSend now).2.completeAtCatchUpStart
          = (c.fallBehind now).completeAtCatchUpStart
      ∧ (c.usecToNextSend now).2.catchUpStartTime
          = (c.fallBehind now).catchUpStartTime := by
    rcases c.usecToNextSend_cases now with ⟨h1, -⟩ | ⟨-, h2, -⟩ | ⟨-, -, heq⟩
    · exact absurd (Pacer.scheduledStart_le_of_send hsend) (by omega)
    · exact absurd hle (by omega)
    · rw [heq]
      exact ⟨rfl, rfl, rfl⟩
  obtain ⟨e1, e2, e3⟩ := hpost
  rw [Pacer.catchUpStart, hf.line, exactLine, u64Sub_of_le hat] at hle
  have h2 : (0 : ℚ) < (c.fallBehind now).catchUpThroughput := by
    rw [hf.catchUpThroughput]; linarith
  have hdue : due (c.fallBehind now).catchUpThroughput
      ((c.fallBehind now).complete - (c.fallBehind now).completeAtCatchUpStart)
      ≤ now - (c.fallBehind now).catchUpStartTime := by omega
  have hlt := lt_of_due_le h2 hdue
  rw [Nat.cast_sub hat, Nat.cast_sub hst, hf.catchUpThroughput] at hlt
  rw [e1, e2, e3]
  linarith

/-! ## A wait is never extended -/

/-- From time `T` on (and after the last call, at `clock`) every call
sends at once. -/
structure Pacer.SendableFrom (c : Pacer) (T clock : Nat) : Prop where
  line : c.line = exactLine
  scheduled : c.scheduledStart ≤ T
  catchUp : c.caughtUp = false → c.catchUpStart ≤ max T clock

namespace Pacer

theorem fallBehind_scheduledStart (c : Pacer) (now : Nat) :
    (c.fallBehind now).scheduledStart = c.scheduledStart := by
  simp [scheduledStart]

theorem fallBehind_of_caughtUp {c : Pacer} (hline : c.line = exactLine) (h : c.caughtUp = true)
    (now : Nat) : (c.fallBehind now).catchUpStart = now := by
  simp [fallBehind, h, catchUpStart, u64Sub_of_le, hline, exactLine]

theorem fallBehind_of_behind {c : Pacer} (h : c.caughtUp = false) (now : Nat) :
    c.fallBehind now = c := by
  simp [fallBehind, h]

/-- The call that returns a wait leaves a connection that is sendable
once the wait is over. -/
theorem sendableFrom_of_call {c : Pacer} (hline : c.line = exactLine) (now : Nat) :
    (c.usecToNextSend now).2.SendableFrom (now + (c.usecToNextSend now).1) now := by
  rcases c.usecToNextSend_cases now with ⟨h1, heq⟩ | ⟨h1, h2, heq⟩ | ⟨h1, h2, heq⟩
  · rw [heq, u64Sub_of_le h1.le]
    refine ⟨hline, ?_, fun hb => by cases hb⟩
    simp only [scheduledStart] at h1 ⊢
    omega
  · rw [heq, u64Sub_of_le h2.le]
    refine ⟨(c.fallBehind_line now).trans hline, ?_, fun _ => ?_⟩
    · rw [fallBehind_scheduledStart]
      omega
    · simp only [Nat.add_sub_cancel' h2.le, le_max_iff, Nat.le_refl, true_or]
  · rw [heq]
    refine ⟨(c.fallBehind_line now).trans hline, ?_, fun _ => le_max_of_le_right h2⟩
    have := c.fallBehind_scheduledStart now
    simp only [scheduledStart] at this h1 ⊢
    omega

theorem SendableFrom.fallBehind {c : Pacer} {T clock now : Nat}
    (h : c.SendableFrom T clock) (hle : clock ≤ now) :
    (c.fallBehind now).catchUpStart ≤ max T now := by
  cases hb : c.caughtUp with
  | true => rw [fallBehind_of_caughtUp h.line hb]; exact le_max_right _ _
  | false =>
      rw [fallBehind_of_behind hb]
      exact (h.catchUp hb).trans (max_le_max (Nat.le_refl _) hle)

/-- A further call, without a completion in between, does not push the
send time back. -/
theorem SendableFrom.call {c : Pacer} {T clock now : Nat}
    (h : c.SendableFrom T clock) (hle : clock ≤ now) :
    (c.usecToNextSend now).2.SendableFrom T now := by
  have hcu := h.fallBehind hle
  have hsch := h.scheduled
  have hfs := c.fallBehind_scheduledStart now
  rcases c.usecToNextSend_cases now with ⟨h1, heq⟩ | ⟨h1, h2, heq⟩ | ⟨h1, h2, heq⟩
  · rw [heq]
    exact ⟨h.line, hsch, fun hb => by cases hb⟩
  · rw [heq]
    exact ⟨(c.fallBehind_line now).trans h.line, hfs ▸ hsch, fun _ => hcu⟩
  · rw [heq]
    refine ⟨(c.fallBehind_line now).trans h.line, ?_, fun _ => hcu⟩
    simp only [scheduledStart] at hfs hsch ⊢
    omega

theorem SendableFrom.sends {c : Pacer} {T clock now : Nat}
    (h : c.SendableFrom T clock) (hle : clock ≤ now) (hT : T ≤ now) :
    (c.usecToNextSend now).1 = 0 := by
  have hcu := h.fallBehind hle
  have hsch := h.scheduled
  rcases c.usecToNextSend_cases now with ⟨h1, -⟩ | ⟨h1, h2, -⟩ | ⟨-, -, heq⟩
  · omega
  · omega
  · rw [heq]

/-- Successive calls at the given clock readings. -/
def calls (c : Pacer) (times : List Nat) : Pacer :=
  times.foldl (fun c now => (c.usecToNextSend now).2) c

theorem SendableFrom.calls_sends {T : Nat} :
    ∀ {times : List Nat} {c : Pacer} {clock now : Nat},
      c.SendableFrom T clock → (clock :: times).IsChain (· ≤ ·) →
      (∀ time ∈ clock :: times, time ≤ now) → T ≤ now →
      ((c.calls times).usecToNextSend now).1 = 0
  | [], c, clock, now, h, _, hle, hT =>
      h.sends (hle clock (List.mem_cons_self ..)) hT
  | time :: times, c, clock, now, h, hch, hle, hT => by
      obtain ⟨hct, hch'⟩ := List.isChain_cons_cons.mp hch
      exact (h.call hct).calls_sends hch'
        (fun x hx => hle x (List.mem_cons_of_mem _ hx)) hT

end Pacer

/-! ## The pacing of a connection over whole runs -/

structure PaceState where
  pacer : Pacer
  clock : Nat

inductive PaceEvent where
  /-- `usec_to_next_send`, the clock having advanced by `dt`. -/
  | call (dt : Nat)
  /-- `k` more responses completed. -/
  | complete (k : Nat)

def paceStep (s : PaceState) : PaceEvent → Option PaceState
  | .call dt => some ⟨(s.pacer.usecToNextSend (s.clock + dt)).2, s.clock + dt⟩
  | .complete k =>
      some { s with pacer := { s.pacer with complete := s.pacer.complete + k } }

/-- Calls at non-decreasing times interleaved with completions, from the
state the thread sets up at throughput `t`. -/
def pacing (t : ℚ) : Machine PaceState PaceEvent :=
  ofFun (fun s => s.pacer = Pacer.start exactLine t s.clock) paceStep

theorem pacing_ok {t : ℚ} {s : PaceState} (h : (pacing t).Reachable s) :
    PacerOk t s.pacer s.clock := by
  refine h.invariant (P := fun s => PacerOk t s.pacer s.clock) ?_ ?_
  · intro s hs
    rw [show s.pacer = Pacer.start exactLine t s.clock from hs]
    exact PacerOk.start t s.clock
  · intro s e s' hok hstep
    cases e with
    | call dt =>
        obtain rfl := Option.some.inj hstep
        exact (hok.later (Nat.le_add_right _ _)).call
    | complete k =>
        obtain rfl := Option.some.inj hstep
        exact hok.completeMore k

/-- The connection fell behind in a call at `since`, with `complete` responses
so far, and has been behind ever after. -/
inductive BehindSince (t : ℚ) (since complete : ℕ) : PaceState → Prop where
  | fell {s s' : PaceState} {dt : ℕ} : (pacing t).Reachable s → s.pacer.caughtUp = true →
      paceStep s (.call dt) = some s' → s'.pacer.caughtUp = false → s'.clock = since →
      s'.pacer.complete = complete → BehindSince t since complete s'
  | stays {s s' : PaceState} {e : PaceEvent} : BehindSince t since complete s →
      paceStep s e = some s' → s'.pacer.caughtUp = false → BehindSince t since complete s'

/-- The catch-up line of a connection that is behind starts at the call in
which it fell behind. -/
theorem behindSince_of_reachable {t : ℚ} {s : PaceState} (h : (pacing t).Reachable s)
    (hbehind : s.pacer.caughtUp = false) :
    BehindSince t s.pacer.catchUpStartTime s.pacer.completeAtCatchUpStart s := by
  induction h with
  | @init s hinit =>
      rw [show s.pacer = Pacer.start exactLine t s.clock from hinit] at hbehind
      cases hbehind
  | @step s e s' hs hstep _ ih =>
      cases e with
      | complete k =>
          obtain rfl := Option.some.inj hstep
          exact (ih hbehind).stays (e := .complete k) rfl hbehind
      | call dt =>
          have hcall := hstep
          obtain rfl := Option.some.inj hstep
          obtain ⟨-, -, -, -, hcomplete⟩ := s.pacer.usecToNextSend_schedule (s.clock + dt)
          have hanchors := s.pacer.anchors_of_behind (s.clock + dt) hbehind
          cases hcaught : s.pacer.caughtUp with
          | true =>
              rw [hcaught, if_pos rfl] at hanchors
              exact .fell hs hcaught hcall hbehind hanchors.1.symm (hcomplete.trans hanchors.2.symm)
          | false =>
              rw [hcaught, if_neg Bool.false_ne_true] at hanchors
              dsimp only
              rw [hanchors.1, hanchors.2]
              exact (ih hcaught).stays hcall hbehind

/-- **Pacing.** In every reachable state: (a) the catch-up anchors of a
connection that is behind are those of the call in which it fell behind and
lie in the past, so a call computes the exact wait; (b) a call that says
"send" keeps the completions below both rate lines one microsecond ahead;
(c) once a call has returned a wait, every call made that much later sends,
whatever calls are made in between. -/
theorem usecToNextSend_paces {t : ℚ} (ht : 0 < t) {s : PaceState}
    (hs : (pacing t).Reachable s) :
    (s.pacer.caughtUp = false → s.pacer.catchUpStartTime ≤ s.clock
        ∧ s.pacer.completeAtCatchUpStart ≤ s.pacer.complete
        ∧ BehindSince t s.pacer.catchUpStartTime s.pacer.completeAtCatchUpStart s)
      ∧ ∀ now, s.clock ≤ now →
        ((s.pacer.usecToNextSend now).1 : ℤ) = s.pacer.exactWait now
        ∧ ((s.pacer.usecToNextSend now).1 = 0 →
            (s.pacer.complete : ℚ) ≤ t * (now + 1 - s.pacer.threadStart)
            ∧ ((s.pacer.usecToNextSend now).2.complete : ℚ)
                  - (s.pacer.usecToNextSend now).2.completeAtCatchUpStart
                ≤ 2 * t * (now + 1 - (s.pacer.usecToNextSend now).2.catchUpStartTime))
        ∧ (0 < (s.pacer.usecToNextSend now).1 →
            ∀ times later, (now :: times).IsChain (· ≤ ·) →
              (∀ time ∈ now :: times, time ≤ later) →
              now + (s.pacer.usecToNextSend now).1 ≤ later →
              (((s.pacer.usecToNextSend now).2.calls times).usecToNextSend later).1 = 0) := by
  have hok := pacing_ok hs
  refine ⟨fun hb => ⟨hok.catchUpStartTime_le hb, hok.completeAt_le hb,
    behindSince_of_reachable hs hb⟩, ?_⟩
  intro now hnow
  have hok' := hok.later hnow
  refine ⟨usecToNextSend_exact ht hok', fun hsend => ⟨complete_le_of_send ht hok' hsend,
    catchUp_le_of_send ht hok' hsend⟩, ?_⟩
  intro _ times later hch hle hlater
  exact (Pacer.sendableFrom_of_call hok.line now).calls_sends hch hle hlater

/-- Three completions at one per millisecond, right after the start: a
call at time 6 waits 2999 µs, and the call at 3005 sends even though one
at 100 came between. -/
theorem usecToNextSend_paces_three_early :
    let c := { Pacer.start exactLine (1 / 1000) 5 with complete := 3 }
    (c.usecToNextSend 6).1 = 2999
      ∧ (((c.usecToNextSend 6).2.calls [100]).usecToNextSend 3005).1 = 0 := by
  intro c
  have h0 : (pacing (1 / 1000)).Reachable ⟨Pacer.start exactLine (1 / 1000) 5, 5⟩ := .init rfl
  have hs : (pacing (1 / 1000)).Reachable ⟨c, 5⟩ := 
    h0.step (show paceStep _ (.complete 3) = some _ from rfl) trivial
  have hwait : (c.usecToNextSend 6).1 = 2999 := by decide +kernel
  refine ⟨hwait, ?_⟩
  exact ((usecToNextSend_paces (by norm_num) hs).2 6 (by decide)).2.2 (by rw [hwait]; decide)
    [100] 3005 (by simp) (by simp) (by rw [hwait])

end WrkQuic
