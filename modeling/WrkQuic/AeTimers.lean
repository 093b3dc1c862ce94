import WrkQuic.EventLoop
import WrkQuic.QuicLatency

/-!
# When timers run

The time events of `ae.c` with their times: `aeProcessEvents` sleeps until
the nearest timer, and `processTimeEvents` runs those that are due, from the
head of the list again after each one.

The sleep ends exactly when the nearest timer is due, unless that timer is
overdue already: then only its seconds are cut off at 0, and the loop sleeps
for the rest of a second (`timeMissing_milliseconds`). What this comes to for
a program is a bound over whole runs: if an iteration spends at most `h` on
its handlers, no timer runs early, and none later than a second and `3 h`
(`timers_on_time`). The invariant is that between two iterations no timer is
due at the time the last poll returned; during one it holds of the timers
that were looked at since the last handler, and of those made since.

Times are in microseconds, those of the timers in milliseconds.
-/

namespace WrkQuic

open Runs

/-! ## Times -/

namespace WhenTime

def total (w : WhenTime) : ℕ := 1000 * w.sec + w.ms

/-- `w` comes first for `aeSearchNearestTimer`. -/
def Before (w w' : WhenTime) : Prop := w.sec < w'.sec ∨ w.sec = w'.sec ∧ w.ms < w'.ms

instance (w w' : WhenTime) : Decidable (w.Before w') := inferInstanceAs (Decidable (_ ∨ _ ∧ _))

def Proper (w : WhenTime) : Prop := w.ms < 1000

variable {w w' : WhenTime}

theorem Proper.before_iff (h : w.Proper) (h' : w'.Proper) : w.Before w' ↔ w.total < w'.total := by
  unfold Proper at h h'
  unfold Before total
  omega

theorem Proper.due_iff (h : w.Proper) (h' : w'.Proper) : w.Due w' ↔ w.total ≤ w'.total := by
  unfold Proper at h h'
  unfold Due total
  omega

end WhenTime

theorem aeGetTime_proper (usec : ℕ) : (aeGetTime usec).Proper := by
  simp only [aeGetTime, WhenTime.Proper]
  omega

theorem aeGetTime_total (usec : ℕ) : (aeGetTime usec).total = usec / 1000 := by
  simp only [aeGetTime, WhenTime.total]
  omega

theorem aeAddMillisecondsToNow_proper (usec milliseconds : ℕ) :
    (aeAddMillisecondsToNow usec milliseconds).Proper :=
  (aeAddMillisecondsToNow_total usec milliseconds).1

theorem total_aeAddMillisecondsToNow (usec milliseconds : ℕ) :
    (aeAddMillisecondsToNow usec milliseconds).total = usec / 1000 + milliseconds := by
  have htotal := (aeAddMillisecondsToNow_total usec milliseconds).2
  unfold WhenTime.total
  omega

/-! ## The list of timers -/

/-- `aeTimeEvent`. -/
structure AeTimer (T D : Type) extends TimeEvent T D where
  due : WhenTime

/-- The part of `aeEventLoop` about time events. -/
structure TimerLoop (T D : Type) where
  timeEvents : List (AeTimer T D)
  timeEventNextId : ℕ
  lastTime : ℕ
  ids_decrease : (timeEvents.map (·.id)).Pairwise (· > ·)
  ids_below : ∀ te ∈ timeEvents, te.id < timeEventNextId

namespace TimerLoop

variable {F T D : Type}

/-- At the time `lastTime`. -/
def empty (lastTime : ℕ) : TimerLoop T D where
  timeEvents := []
  timeEventNextId := 0
  lastTime := lastTime
  ids_decrease := by
    rw [List.map_nil]
    exact List.Pairwise.nil
  ids_below _ hte := absurd hte List.not_mem_nil

/-- `aeCreateTimeEvent`. -/
def create (loop : TimerLoop T D) (usec milliseconds : ℕ) (proc : T) (clientData : D) :
    TimerLoop T D :=
  { loop with
    timeEvents :=
      ⟨⟨loop.timeEventNextId, proc, clientData⟩, aeAddMillisecondsToNow usec milliseconds⟩ ::
        loop.timeEvents
    timeEventNextId := loop.timeEventNextId + 1
    ids_decrease := by
      rw [List.map_cons, List.pairwise_cons]
      refine ⟨?_, loop.ids_decrease⟩
      intro id hid
      obtain ⟨te, hte, rfl⟩ := List.mem_map.mp hid
      exact loop.ids_below te hte
    ids_below := by
      intro te hte
      rcases List.mem_cons.mp hte with rfl | hte
      · exact Nat.lt_succ_self _
      · exact Nat.lt_succ_of_lt (loop.ids_below te hte) }

/-- `aeDeleteTimeEvent`. -/
def delete (loop : TimerLoop T D) (id : ℕ) : TimerLoop T D :=
  { loop with
    timeEvents := loop.timeEvents.eraseP (·.id == id)
    ids_decrease := loop.ids_decrease.sublist (List.eraseP_sublist.map _)
    ids_below te hte := loop.ids_below te (List.mem_of_mem_eraseP hte) }

/-- New times for some of the timers. -/
def reschedule (loop : TimerLoop T D) (f : AeTimer T D → WhenTime) : TimerLoop T D :=
  { loop with
    timeEvents := loop.timeEvents.map fun te => { te with due := f te }
    ids_decrease := by
      rw [List.map_map]
      exact loop.ids_decrease
    ids_below := by
      intro te hte
      obtain ⟨te', hte', rfl⟩ := List.mem_map.mp hte
      exact loop.ids_below te' hte' }

/-- A timer whose procedure returned a delay. -/
def rearm (loop : TimerLoop T D) (id usec milliseconds : ℕ) : TimerLoop T D :=
  loop.reschedule fun te =>
    if te.id = id then aeAddMillisecondsToNow usec milliseconds else te.due

/-- `te->when_sec = 0` for all timers. -/
def force (loop : TimerLoop T D) : TimerLoop T D :=
  loop.reschedule fun te => { te.due with sec := 0 }

/-- The comparison of `aeSearchNearestTimer`. -/
def nearer (nearest : Option (AeTimer T D)) (te : AeTimer T D) : Option (AeTimer T D) :=
  match nearest with
  | none => some te
  | some n => if te.due.Before n.due then some te else some n

def aeSearchNearestTimer (loop : TimerLoop T D) : Option (AeTimer T D) :=
  loop.timeEvents.foldl nearer none

/-- The same timers as those of the loop of the handlers, which does not know
their times. -/
structure Agrees (loop : TimerLoop T D) (e : EventLoop F T D) : Prop where
  timeEvents : e.timeEvents = loop.timeEvents.map AeTimer.toTimeEvent
  nextId : e.timeEventNextId = loop.timeEventNextId

variable {loop : TimerLoop T D} {e : EventLoop F T D}

theorem Agrees.create (h : loop.Agrees e) (usec milliseconds : ℕ) (proc : T) (data : D) :
    (loop.create usec milliseconds proc data).Agrees (aeCreateTimeEvent e proc data) where
  timeEvents := by
    simp only [aeCreateTimeEvent, TimerLoop.create, List.map_cons, h.timeEvents, h.nextId]
  nextId := congrArg (· + 1) h.nextId

theorem Agrees.delete (h : loop.Agrees e) (id : ℕ) :
    (loop.delete id).Agrees (aeDeleteTimeEvent e id) where
  timeEvents := by
    simp only [aeDeleteTimeEvent, TimerLoop.delete, h.timeEvents, List.eraseP_map]
    rfl
  nextId := h.nextId

theorem Agrees.reschedule (h : loop.Agrees e) (f : AeTimer T D → WhenTime) :
    (loop.reschedule f).Agrees e where
  timeEvents := by
    simp only [TimerLoop.reschedule, h.timeEvents, List.map_map]
    rfl
  nextId := h.nextId

/-! ## The sleep -/

theorem foldl_nearer_le : ∀ (l : List (AeTimer T D)) (nearest : AeTimer T D),
    nearest.due.Proper → (∀ te ∈ l, te.due.Proper) →
    ∃ te, l.foldl nearer (some nearest) = some te ∧ (te = nearest ∨ te ∈ l) ∧
      te.due.total ≤ nearest.due.total ∧ ∀ te' ∈ l, te.due.total ≤ te'.due.total
  | [], nearest, _, _ => ⟨nearest, rfl, Or.inl rfl, Nat.le_refl _, fun _ h => by cases h⟩
  | x :: l, nearest, hn, hl => by
      obtain ⟨hx, hl⟩ := List.forall_mem_cons.mp hl
      rw [List.foldl_cons, nearer]
      split
      · rename_i hbefore
        have hlt := (hx.before_iff hn).mp hbefore
        obtain ⟨te, hte, hmem, hle, hall⟩ := foldl_nearer_le l x hx hl
        refine ⟨te, hte, Or.inr ?_, by omega, List.forall_mem_cons.mpr ⟨hle, hall⟩⟩
        exact hmem.elim (fun h => h ▸ List.mem_cons_self) (List.mem_cons_of_mem x)
      · rename_i hbefore
        have hge : nearest.due.total ≤ x.due.total :=
          Nat.not_lt.mp fun hlt => hbefore ((hx.before_iff hn).mpr hlt)
        obtain ⟨te, hte, hmem, hle, hall⟩ := foldl_nearer_le l nearest hn hl
        refine ⟨te, hte, hmem.imp_right (List.mem_cons_of_mem x), hle, ?_⟩
        exact List.forall_mem_cons.mpr ⟨Nat.le_trans hle hge, hall⟩

/-- The timer that is found is there, and no other comes before it. -/
theorem aeSearchNearestTimer_spec (hproper : ∀ te ∈ loop.timeEvents, te.due.Proper)
    (hne : loop.timeEvents ≠ []) : ∃ te, loop.aeSearchNearestTimer = some te ∧
      te ∈ loop.timeEvents ∧ ∀ te' ∈ loop.timeEvents, te.due.total ≤ te'.due.total := by
  obtain ⟨x, l, hl⟩ := List.exists_cons_of_ne_nil hne
  rw [hl] at hproper
  obtain ⟨hx, hproper⟩ := List.forall_mem_cons.mp hproper
  obtain ⟨te, hte, hmem, hle, hall⟩ := foldl_nearer_le l x hx hproper
  refine ⟨te, ?_, ?_, ?_⟩
  · rw [aeSearchNearestTimer, hl]
    exact hte
  · rw [hl]
    exact hmem.elim (fun h => h ▸ List.mem_cons_self) (List.mem_cons_of_mem x)
  · rw [hl]
    exact List.forall_mem_cons.mpr ⟨hle, hall⟩

end TimerLoop

/-- `struct timeval`. -/
structure Timeval where
  sec : ℤ
  usec : ℤ
deriving DecidableEq

/-- The time missing for the nearest timer to fire, in `aeProcessEvents`. -/
def timeMissing (shortest : WhenTime) (usec : ℕ) : Timeval :=
  let now := aeGetTime usec
  let sec : ℤ := shortest.sec - now.sec
  let tv : Timeval :=
    if shortest.ms < now.ms then ⟨sec - 1, ((shortest.ms + 1000) - now.ms) * 1000⟩
    else ⟨sec, (shortest.ms - now.ms) * 1000⟩
  ⟨max tv.sec 0, max tv.usec 0⟩

/-- The timeout of `epoll_wait`. -/
def Timeval.milliseconds (tv : Timeval) : ℤ := tv.sec * 1000 + tv.usec / 1000

/-- A timer that is overdue leaves the rest of a second. -/
theorem timeMissing_milliseconds {w : WhenTime} (h : w.Proper) (usec : ℕ) :
    (timeMissing w usec).milliseconds =
      if usec / 1000 ≤ w.total then (w.total : ℤ) - (usec / 1000 : ℕ)
      else ((w.total : ℤ) - (usec / 1000 : ℕ)) % 1000 := by
  have hnow := aeGetTime_total usec
  have hproper := aeGetTime_proper usec
  simp only [timeMissing, Timeval.milliseconds]
  rw [← hnow]
  generalize aeGetTime usec = now at hproper ⊢
  unfold WhenTime.Proper at h hproper
  unfold WhenTime.total
  by_cases hle : 1000 * now.sec + now.ms ≤ 1000 * w.sec + w.ms
  · rw [if_pos hle]
    split <;> simp only <;> omega
  · rw [if_neg hle]
    split <;> simp only <;> omega

/-- Half a second before a timer, and a millisecond after it. -/
example : (timeMissing ⟨10, 500⟩ 10000000).milliseconds = 500 ∧
    (timeMissing ⟨10, 500⟩ 10501000).milliseconds = 999 := by decide

/-- The timeout of the poll at the clock reading `usec`; none is no timeout. -/
def TimerLoop.timeout {T D : Type} (loop : TimerLoop T D) (usec : ℕ) : Option ℤ :=
  loop.aeSearchNearestTimer.map fun te => (timeMissing te.due usec).milliseconds

/-! ## The loop -/

/-- What a procedure does about timers, each `dt` after the last. -/
inductive TimerCall (T D : Type) where
  | create (dt : ℕ) (milliseconds : ℕ) (proc : T) (clientData : D)
  | delete (dt : ℕ) (id : ℕ)

inductive TimerObservation where
  /-- The timer is set to `due` milliseconds. -/
  | armed (id due : ℕ)
  | ran (id now : ℕ)
deriving DecidableEq

/-- The time for which a timer was set last. -/
def lastArmed (id : ℕ) : List TimerObservation → Option ℕ
  | [] => none
  | .armed id' due :: past => if id' = id then some due else lastArmed id past
  | .ran _ _ :: past => lastArmed id past

inductive AePhase (T D : Type) where
  /-- `thread_main`, before `aeMain`. -/
  | setup
  /-- At the head of `aeProcessEvents`. -/
  | sleep
  | files
  /-- In the loop of `processTimeEvents`, at the head of the list `te`. -/
  | pass (maxId : ℤ) (te : List (AeTimer T D))

structure AeMain (T D : Type) where
  loop : TimerLoop T D
  clock : ℕ
  phase : AePhase T D
  /-- The time at which the poll returned. -/
  woke : ℕ
  /-- The last one first. -/
  trace : List TimerObservation

inductive AeEvent (T D : Type) where
  /-- Someone sets the clock. -/
  | adjust (clock : ℕ)
  | poll (dt slept : ℕ)
  | fileProc (calls : List (TimerCall T D)) (dt : ℕ)
  | processTimeEvents (dt : ℕ)
  /-- The next timer; if it runs, it makes the calls and returns the delay
  `retval`, or `AE_NOMORE`. -/
  | next (dt : ℕ) (calls : List (TimerCall T D)) (retval : Option ℕ) (dt' : ℕ)
  | finish

namespace AeMain

variable {T D : Type}

def tick (s : AeMain T D) (dt : ℕ) : AeMain T D := { s with clock := s.clock + dt }

def observe (s : AeMain T D) (o : TimerObservation) : AeMain T D := { s with trace := o :: s.trace }

def setLoop (s : AeMain T D) (loop : TimerLoop T D) : AeMain T D := { s with loop := loop }

def enter (s : AeMain T D) (phase : AePhase T D) : AeMain T D := { s with phase := phase }

def call (s : AeMain T D) : TimerCall T D → AeMain T D
  | .create dt milliseconds proc clientData =>
      let s := s.tick dt
      (s.setLoop (s.loop.create s.clock milliseconds proc clientData)).observe
        (.armed s.loop.timeEventNextId (aeAddMillisecondsToNow s.clock milliseconds).total)
  | .delete dt id =>
      let s := s.tick dt
      s.setLoop (s.loop.delete id)

def calls (s : AeMain T D) (cs : List (TimerCall T D)) : AeMain T D := cs.foldl call s

/-- What `processTimeEvents` does about the result of the procedure. A timer
that the procedure has deleted is freed, and there is nothing left to set. -/
def settle (s : AeMain T D) (id : ℕ) : Option ℕ → Option (AeMain T D)
  | none => some (s.setLoop (s.loop.delete id))
  | some milliseconds =>
      if id ∈ s.loop.timeEvents.map (·.id) then
        some ((s.setLoop (s.loop.rearm id s.clock milliseconds)).observe
          (.armed id (aeAddMillisecondsToNow s.clock milliseconds).total))
      else none

def step (s : AeMain T D) : AeEvent T D → Option (AeMain T D)
  | .adjust clock => some { s with clock := clock }
  | .poll dt slept =>
      match s.phase with
      | .setup | .sleep =>
          let s := s.tick (dt + slept)
          some { s with woke := s.clock, phase := .files }
      | _ => none
  | .fileProc cs dt =>
      match s.phase with
      | .setup | .files => some ((s.calls cs).tick dt)
      | _ => none
  | .processTimeEvents dt =>
      match s.phase with
      | .files =>
          let s := s.tick dt
          let now := s.clock / 1000000
          let loop := if now < s.loop.lastTime then s.loop.force else s.loop
          let s := s.setLoop { loop with lastTime := now }
          some (s.enter (.pass (s.loop.timeEventNextId - 1) s.loop.timeEvents))
      | _ => none
  | .next dt cs retval dt' =>
      match s.phase with
      | .pass maxId (te :: rest) =>
          if maxId < te.id then some (s.enter (.pass maxId rest))
          else
            let s := s.tick dt
            if te.due.Due (aeGetTime s.clock) then
              -- the list may have changed, so that the pass starts over
              (((((s.observe (.ran te.id s.clock)).calls cs).tick dt').settle te.id retval)).map
                fun s => s.enter (.pass maxId s.loop.timeEvents)
            else some (s.enter (.pass maxId rest))
      | _ => none
  | .finish =>
      match s.phase with
      | .pass _ [] => some (s.enter .sleep)
      | _ => none

/-- `aeCreateEventLoop` at the time `clock`. -/
def initial (clock : ℕ) : AeMain T D where
  loop := .empty (clock / 1000000)
  clock := clock
  phase := .setup
  woke := clock
  trace := []

end AeMain

/-- `thread_main` and `aeMain`. -/
def aeMain (T D : Type) : Machine (AeMain T D) (AeEvent T D) :=
  ofFun (fun s => ∃ clock, s = .initial clock) AeMain.step

namespace AeMain

variable {T D : Type}

/-- The clock is not set, an iteration has taken at most `h` when it comes to
the next poll, and the poll returns at most `h` after its timeout. The set-up
counts as an iteration. -/
def OnTime (h : ℕ) (s : AeMain T D) : AeEvent T D → Prop
  | .adjust _ => False
  | .poll dt slept => s.clock + dt ≤ s.woke + h ∧
      ∀ tv ∈ s.loop.timeout (s.clock + dt), (slept : ℤ) ≤ 1000 * tv + h
  | e => ∀ s' ∈ s.step e, s'.clock ≤ s.woke + h

instance (h : ℕ) (s : AeMain T D) (e : AeEvent T D) : Decidable (s.OnTime h e) :=
  match e with
  | .adjust _ => isFalse id
  | .poll _ _ => inferInstanceAs (Decidable (_ ∧ ∀ _ ∈ _, _))
  | .fileProc _ _ | .processTimeEvents _ | .next _ _ _ _ | .finish =>
      inferInstanceAs (Decidable (∀ _ ∈ _, _))

/-! ## The loop of the handlers -/

/-- What a call does to the loop that does not know the times. -/
def untimed {F : Type} (e : EventLoop F T D) : TimerCall T D → EventLoop F T D
  | .create _ _ proc clientData => aeCreateTimeEvent e proc clientData
  | .delete _ id => aeDeleteTimeEvent e id

theorem calls_agrees {F : Type} : ∀ (cs : List (TimerCall T D)) {s : AeMain T D}
    {e : EventLoop F T D}, s.loop.Agrees e → (s.calls cs).loop.Agrees (cs.foldl untimed e)
  | [], _, _, he => he
  | .create dt ms proc data :: cs, s, _, he =>
      calls_agrees cs (s := s.call (.create dt ms proc data))
        (he.create (s.clock + dt) ms proc data)
  | .delete dt id :: cs, s, _, he => calls_agrees cs (s := s.call (.delete dt id)) (he.delete id)

/-- Whatever the times, the list of timers only changes by the calls of the
procedures, and by the deletion of a timer that has run. -/
theorem step_agrees {F : Type} {s s' : AeMain T D} {ev : AeEvent T D} {e : EventLoop F T D}
    (he : s.loop.Agrees e) (hstep : s.step ev = some s') :
    ∃ cs : List (TimerCall T D), s'.loop.Agrees (cs.foldl untimed e) := by
  cases ev with
  | adjust clock =>
      obtain rfl := Option.some.inj hstep
      exact ⟨[], he⟩
  | poll dt slept =>
      simp only [step] at hstep
      split at hstep
      · obtain rfl := Option.some.inj hstep
        exact ⟨[], he⟩
      · obtain rfl := Option.some.inj hstep
        exact ⟨[], he⟩
      · cases hstep
  | fileProc cs dt =>
      simp only [step] at hstep
      split at hstep
      · obtain rfl := Option.some.inj hstep
        exact ⟨cs, calls_agrees cs he⟩
      · obtain rfl := Option.some.inj hstep
        exact ⟨cs, calls_agrees cs he⟩
      · cases hstep
  | processTimeEvents dt =>
      simp only [step] at hstep
      split at hstep
      · obtain rfl := Option.some.inj hstep
        have hloop : (if (s.tick dt).clock / 1000000 < s.loop.lastTime then s.loop.force
            else s.loop).Agrees e := by
          split
          · exact he.reschedule _
          · exact he
        exact ⟨[], hloop.timeEvents, hloop.nextId⟩
      · cases hstep
  | next dt cs retval dt' =>
      simp only [step] at hstep
      split at hstep
      · rename_i maxId te rest hphase
        split at hstep
        · obtain rfl := Option.some.inj hstep
          exact ⟨[], he⟩
        · split at hstep
          · obtain ⟨s₁, hsettle, rfl⟩ := Option.map_eq_some_iff.mp hstep
            have hcalls := calls_agrees cs
              (s := (s.tick dt).observe (.ran te.id (s.tick dt).clock)) he
            cases retval with
            | none =>
                obtain rfl := Option.some.inj hsettle
                refine ⟨cs ++ [.delete 0 te.id], ?_⟩
                rw [List.foldl_append]
                exact hcalls.delete te.id
            | some ms =>
                rw [settle] at hsettle
                split at hsettle
                · obtain rfl := Option.some.inj hsettle
                  exact ⟨cs, hcalls.reschedule _⟩
                · cases hsettle
          · obtain rfl := Option.some.inj hstep
            exact ⟨[], he⟩
      · cases hstep
  | finish =>
      simp only [step] at hstep
      split at hstep
      · obtain rfl := Option.some.inj hstep
        exact ⟨[], he⟩
      · cases hstep

/-! ## What a procedure keeps -/

/-- The timer is not due before the time at which the poll returned. -/
def Ahead (s : AeMain T D) (te : AeTimer T D) : Prop := s.woke < 1000 * (te.due.total + 1)

/-- What has been seen: no timer early, and none late. -/
def Punctual (h : ℕ) (trace : List TimerObservation) : Prop :=
  ∀ (id now : ℕ) past, .ran id now :: past <:+ trace → ∃ due, lastArmed id past = some due ∧
    1000 * due ≤ now ∧ now < 1000 * due + 1000000 + 3 * h

/-- What holds throughout an iteration: the timers beyond `m` are ahead, and
the others at most a second and `2 h` behind. -/
structure Kept (h : ℕ) (m : ℤ) (s : AeMain T D) : Prop where
  proper : ∀ te ∈ s.loop.timeEvents, te.due.Proper
  armed : ∀ te ∈ s.loop.timeEvents, lastArmed te.id s.trace = some te.due.total
  near : ∀ te ∈ s.loop.timeEvents, s.woke < 1000 * te.due.total + 1000000 + 2 * h
  fresh : ∀ te ∈ s.loop.timeEvents, m < te.id → s.Ahead te
  below : m < s.loop.timeEventNextId
  lastTime : s.loop.lastTime ≤ s.clock / 1000000
  clock : s.woke ≤ s.clock
  punctual : Punctual h s.trace

/-- Between two events. -/
def Timely (h : ℕ) (s : AeMain T D) : Prop :=
  match s.phase with
  | .setup | .sleep => s.Kept h (-1)
  | .files => ∃ m, s.Kept h m
  | .pass maxId rest => s.Kept h maxId ∧ rest <:+ s.loop.timeEvents ∧
      ∀ te ∈ s.loop.timeEvents, te ∈ rest ∨ s.Ahead te

variable {h : ℕ} {m : ℤ} {s s' : AeMain T D} {te : AeTimer T D} {id : ℕ}

theorem Kept.tick (hs : s.Kept h m) (dt : ℕ) : (s.tick dt).Kept h m :=
  { hs with
    lastTime := Nat.le_trans hs.lastTime (Nat.div_le_div_right (Nat.le_add_right _ _))
    clock := Nat.le_trans hs.clock (Nat.le_add_right _ _) }

theorem Punctual.armed {trace : List TimerObservation} (hp : Punctual h trace) (id due : ℕ) :
    Punctual h (.armed id due :: trace) := by
  intro id' now past hpast
  rcases List.suffix_cons_iff.mp hpast with heq | hpast
  · cases heq
  · exact hp id' now past hpast

theorem lastArmed_armed_of_ne {id' due : ℕ} {past : List TimerObservation} (hne : id' ≠ id) :
    lastArmed id (.armed id' due :: past) = lastArmed id past := by
  rw [lastArmed, if_neg hne]

/-- A delay that starts now ends after the poll returned. -/
theorem Kept.ahead_of_now (hs : s.Kept h m) {milliseconds : ℕ}
    (hdue : te.due = aeAddMillisecondsToNow s.clock milliseconds) : s.Ahead te := by
  have hclock := hs.clock
  unfold Ahead
  rw [hdue, total_aeAddMillisecondsToNow]
  omega

theorem Ahead.near (ha : s.Ahead te) (h : ℕ) :
    s.woke < 1000 * te.due.total + 1000000 + 2 * h := by
  unfold Ahead at ha
  omega

theorem Kept.delete (hs : s.Kept h m) (id : ℕ) : (s.setLoop (s.loop.delete id)).Kept h m :=
  { hs with
    proper := fun te hte => hs.proper te (List.mem_of_mem_eraseP hte)
    armed := fun te hte => hs.armed te (List.mem_of_mem_eraseP hte)
    near := fun te hte => hs.near te (List.mem_of_mem_eraseP hte)
    fresh := fun te hte => hs.fresh te (List.mem_of_mem_eraseP hte) }

theorem Kept.call (hs : s.Kept h m) (c : TimerCall T D) : (s.call c).Kept h m := by
  cases c with
  | create dt milliseconds proc clientData =>
      have hticked := hs.tick dt
      generalize hs₁ : s.tick dt = s₁ at hticked
      have hcall : s.call (.create dt milliseconds proc clientData) =
          (s₁.setLoop (s₁.loop.create s₁.clock milliseconds proc clientData)).observe
            (.armed s₁.loop.timeEventNextId
              (aeAddMillisecondsToNow s₁.clock milliseconds).total) := by
        rw [← hs₁]
        rfl
      rw [hcall]
      have hahead (te : AeTimer T D)
          (hdue : te.due = aeAddMillisecondsToNow s₁.clock milliseconds) : s₁.Ahead te :=
        hticked.ahead_of_now hdue
      exact
        { hticked with
          proper := List.forall_mem_cons.mpr ⟨aeAddMillisecondsToNow_proper _ _, hticked.proper⟩
          armed := by
            refine List.forall_mem_cons.mpr ⟨if_pos rfl, fun te hte => ?_⟩
            have hne : s₁.loop.timeEventNextId ≠ te.id :=
              Nat.ne_of_gt (s₁.loop.ids_below te hte)
            exact (lastArmed_armed_of_ne hne).trans (hticked.armed te hte)
          near := List.forall_mem_cons.mpr ⟨(hahead _ rfl).near h, hticked.near⟩
          fresh := List.forall_mem_cons.mpr ⟨fun _ => hahead _ rfl, hticked.fresh⟩
          below := Int.lt_trans hticked.below (Int.lt_succ _)
          punctual := hticked.punctual.armed _ _ }
  | delete dt id => exact (hs.tick dt).delete id

theorem Kept.calls (hs : s.Kept h m) (cs : List (TimerCall T D)) : (s.calls cs).Kept h m := by
  induction cs generalizing s with
  | nil => exact hs
  | cons c cs ih => exact ih (hs.call c)

/-- A timer that has run is set again. -/
theorem Kept.rearm (hs : s.Kept h m) (id milliseconds : ℕ) :
    ((s.setLoop (s.loop.rearm id s.clock milliseconds)).observe
      (.armed id (aeAddMillisecondsToNow s.clock milliseconds).total)).Kept h m := by
  have hcases : ∀ te' ∈ (s.loop.rearm id s.clock milliseconds).timeEvents, ∃ te ∈ s.loop.timeEvents,
      te'.id = te.id ∧ (te.id = id ∧ te'.due = aeAddMillisecondsToNow s.clock milliseconds ∨
        te.id ≠ id ∧ te'.due = te.due) := by
    intro te' hte'
    obtain ⟨te, hte, rfl⟩ := List.mem_map.mp hte'
    by_cases hid : te.id = id
    · exact ⟨te, hte, rfl, Or.inl ⟨hid, if_pos hid⟩⟩
    · exact ⟨te, hte, rfl, Or.inr ⟨hid, if_neg hid⟩⟩
  have hahead (te : AeTimer T D) (hdue : te.due = aeAddMillisecondsToNow s.clock milliseconds) :
      s.Ahead te := hs.ahead_of_now hdue
  refine { hs with
    proper := ?_, armed := ?_, near := ?_, fresh := ?_, punctual := hs.punctual.armed _ _ } <;>
    intro te' hte' <;> obtain ⟨te, hte, hid, ⟨heq, hdue⟩ | ⟨hne, hdue⟩⟩ := hcases te' hte'
  · exact hdue ▸ aeAddMillisecondsToNow_proper _ _
  · exact hdue ▸ hs.proper te hte
  · rw [hid, heq, hdue]
    exact if_pos rfl
  · rw [hid, hdue]
    exact (lastArmed_armed_of_ne (Ne.symm hne)).trans (hs.armed te hte)
  · exact (hahead te' hdue).near h
  · rw [hdue]
    exact hs.near te hte
  · exact fun _ => hahead te' hdue
  · intro hm
    have hte := hs.fresh te hte (hid ▸ hm)
    unfold Ahead at hte ⊢
    rw [hdue]
    exact hte

theorem Kept.settle (hs : s.Kept h m) {retval : Option ℕ}
    (hsettle : s.settle id retval = some s') : s'.Kept h m := by
  cases retval with
  | none =>
      obtain rfl := Option.some.inj hsettle
      exact hs.delete id
  | some ms =>
      rw [AeMain.settle] at hsettle
      split at hsettle
      · obtain rfl := Option.some.inj hsettle
        exact hs.rearm id ms
      · cases hsettle

theorem call_frame (s : AeMain T D) (c : TimerCall T D) :
    (s.call c).phase = s.phase ∧ (s.call c).woke = s.woke ∧ s.clock ≤ (s.call c).clock := by
  cases c <;> exact ⟨rfl, rfl, Nat.le_add_right _ _⟩

theorem calls_frame (s : AeMain T D) (cs : List (TimerCall T D)) :
    (s.calls cs).phase = s.phase ∧ (s.calls cs).woke = s.woke ∧ s.clock ≤ (s.calls cs).clock := by
  induction cs generalizing s with
  | nil => exact ⟨rfl, rfl, Nat.le_refl _⟩
  | cons c cs ih =>
      obtain ⟨hphase, hwoke, hclock⟩ := call_frame s c
      obtain ⟨hphase', hwoke', hclock'⟩ := ih (s.call c)
      exact ⟨hphase'.trans hphase, hwoke'.trans hwoke, Nat.le_trans hclock hclock'⟩

theorem settle_frame {retval : Option ℕ} (hsettle : s.settle id retval = some s') :
    s'.woke = s.woke ∧ s'.clock = s.clock := by
  cases retval with
  | none =>
      obtain rfl := Option.some.inj hsettle
      exact ⟨rfl, rfl⟩
  | some ms =>
      rw [AeMain.settle] at hsettle
      split at hsettle
      · obtain rfl := Option.some.inj hsettle
        exact ⟨rfl, rfl⟩
      · cases hsettle

/-! ## Steps -/

/-- All timers are ahead when the loop goes to sleep, and near when it wakes
up: before the nearest of them, or within a second if that was overdue. -/
theorem Kept.poll (hs : s.Kept h (-1)) {dt slept : ℕ} (hdt : s.clock + dt ≤ s.woke + h)
    (hslept : ∀ tv ∈ s.loop.timeout (s.clock + dt), (slept : ℤ) ≤ 1000 * tv + h) :
    { s.tick (dt + slept) with woke := (s.tick (dt + slept)).clock, phase := .files }.Kept h
      (s.loop.timeEventNextId - 1) := by
  refine { hs.tick (dt + slept) with
    near := ?_, fresh := ?_, below := Int.sub_lt_self _ (by decide), clock := Nat.le_refl _ }
  · intro te hte
    have hne : s.loop.timeEvents ≠ [] := List.ne_nil_of_mem hte
    obtain ⟨nearest, hnearest, hmem, hle⟩ :=
      TimerLoop.aeSearchNearestTimer_spec hs.proper hne
    have hahead := hs.fresh te hte (by omega)
    have hbound := hslept _ (Option.mem_map_of_mem _ hnearest)
    rw [timeMissing_milliseconds (hs.proper nearest hmem)] at hbound
    have hnext := hle te hte
    unfold Ahead at hahead
    show s.clock + (dt + slept) < 1000 * te.due.total + 1000000 + 2 * h
    split at hbound <;> omega
  · intro te hte hlt
    have hbelow := s.loop.ids_below te hte
    omega

/-- The clock has not been set back, so that no timer is forced. -/
theorem Kept.processTimeEvents (hs : s.Kept h m) {dt : ℕ}
    (hstep : s.step (.processTimeEvents dt) = some s') : s'.Timely h := by
  have hticked := hs.tick dt
  simp only [AeMain.step] at hstep
  split at hstep
  · obtain rfl := Option.some.inj hstep
    rw [if_neg (Nat.not_lt.mpr hticked.lastTime)]
    refine ⟨{ hticked with
      fresh := ?_, below := Int.sub_lt_self _ (by decide), lastTime := Nat.le_refl _ },
      List.suffix_refl _, fun te hte => Or.inl hte⟩
    intro te hte hlt
    have hbelow := s.loop.ids_below te hte
    have hlt : (s.loop.timeEventNextId : ℤ) - 1 < te.id := hlt
    omega
  · cases hstep

/-- A timer that runs is neither early nor late. -/
theorem Kept.ran (hs : s.Kept h m) (hte : te ∈ s.loop.timeEvents)
    (hdue : te.due.Due (aeGetTime s.clock)) (hclock : s.clock ≤ s.woke + h) :
    (s.observe (.ran te.id s.clock)).Kept h m := by
  refine { hs with armed := hs.armed, punctual := ?_ }
  intro id now past hpast
  rcases List.suffix_cons_iff.mp hpast with heq | hpast
  · cases heq
    have hnear := hs.near te hte
    rw [(hs.proper te hte).due_iff (aeGetTime_proper _), aeGetTime_total] at hdue
    exact ⟨te.due.total, hs.armed te hte, by omega, by omega⟩
  · exact hs.punctual id now past hpast

theorem Kept.runTimer {maxId : ℤ} (hs : s.Kept h maxId) (hte : te ∈ s.loop.timeEvents) {dt dt' : ℕ}
    (hdue : te.due.Due (aeGetTime (s.tick dt).clock)) {cs : List (TimerCall T D)}
    {retval : Option ℕ}
    (hsettle : (((((s.tick dt).observe (.ran te.id (s.tick dt).clock)).calls cs).tick
      dt').settle te.id retval) = some s') (hclock : s'.clock ≤ s.woke + h) :
    (s'.enter (.pass maxId s'.loop.timeEvents)).Timely h := by
  obtain ⟨-, -, hlater⟩ :=
    calls_frame ((s.tick dt).observe (.ran te.id (s.tick dt).clock)) cs
  have hnow : (s.tick dt).clock ≤ (s.tick dt).woke + h := by
    rw [(settle_frame hsettle).2] at hclock
    exact Nat.le_trans (Nat.le_trans hlater (Nat.le_add_right _ dt')) hclock
  have hran := (hs.tick dt).ran hte hdue hnow
  have hkept := ((hran.calls cs).tick dt').settle hsettle
  exact ⟨{ hkept with }, List.suffix_refl _, fun te hte => Or.inl hte⟩

/-- A timer that is not due is ahead, and so is one beyond `maxId`. -/
theorem Kept.pass {maxId : ℤ} {rest : List (AeTimer T D)} (hs : s.Kept h maxId)
    (hrest : te :: rest <:+ s.loop.timeEvents)
    (hall : ∀ te' ∈ s.loop.timeEvents, te' ∈ te :: rest ∨ s.Ahead te') (hahead : s.Ahead te) :
    (s.enter (.pass maxId rest)).Timely h := by
  refine ⟨{ hs with }, (List.suffix_cons te rest).trans hrest, ?_⟩
  intro te' hte'
  rcases hall te' hte' with hmem | hahead'
  · rcases List.mem_cons.mp hmem with rfl | hmem
    · exact Or.inr hahead
    · exact Or.inl hmem
  · exact Or.inr hahead'

theorem Timely.next (hs : s.Timely h) {dt dt' : ℕ} {cs : List (TimerCall T D)} {retval : Option ℕ}
    (hstep : s.step (.next dt cs retval dt') = some s')
    (hclock : s'.clock ≤ s.woke + h) : s'.Timely h := by
  simp only [AeMain.step] at hstep
  split at hstep
  · rename_i maxId te rest hphase
    unfold Timely at hs
    rw [hphase] at hs
    obtain ⟨hkept, hrest, hall⟩ := hs
    have hte : te ∈ s.loop.timeEvents := hrest.subset List.mem_cons_self
    split at hstep
    · rename_i hmax
      obtain rfl := Option.some.inj hstep
      exact hkept.pass hrest hall (hkept.fresh te hte hmax)
    · split at hstep
      · rename_i hdue
        obtain ⟨s₁, hsettle, rfl⟩ := Option.map_eq_some_iff.mp hstep
        exact hkept.runTimer hte hdue hsettle hclock
      · rename_i hdue
        obtain rfl := Option.some.inj hstep
        refine (hkept.tick dt).pass hrest hall ?_
        have hnow := (hkept.tick dt).clock
        rw [(hkept.proper te hte).due_iff (aeGetTime_proper _), aeGetTime_total] at hdue
        unfold Ahead
        omega
  · cases hstep

theorem Timely.fileProc (hs : s.Timely h) {cs : List (TimerCall T D)} {dt : ℕ}
    (hstep : s.step (.fileProc cs dt) = some s') : s'.Timely h := by
  have hphase' : ((s.calls cs).tick dt).phase = s.phase := (calls_frame s cs).1
  simp only [AeMain.step] at hstep
  unfold Timely at hs
  split at hstep
  · rename_i hphase
    rw [hphase] at hs
    obtain rfl := Option.some.inj hstep
    unfold Timely
    rw [hphase', hphase]
    exact (hs.calls cs).tick dt
  · rename_i hphase
    rw [hphase] at hs
    obtain ⟨m, hs⟩ := hs
    obtain rfl := Option.some.inj hstep
    unfold Timely
    rw [hphase', hphase]
    exact ⟨m, (hs.calls cs).tick dt⟩
  · cases hstep

theorem Timely.poll (hs : s.Timely h) {dt slept : ℕ} (hstep : s.step (.poll dt slept) = some s')
    (hdt : s.clock + dt ≤ s.woke + h)
    (hslept : ∀ tv ∈ s.loop.timeout (s.clock + dt), (slept : ℤ) ≤ 1000 * tv + h) :
    s'.Timely h := by
  have hkept : s.phase = .setup ∨ s.phase = .sleep → s.Kept h (-1) := by
    unfold Timely at hs
    rintro (hphase | hphase) <;> rw [hphase] at hs <;> exact hs
  simp only [AeMain.step] at hstep
  split at hstep
  · rename_i hphase
    obtain rfl := Option.some.inj hstep
    exact ⟨_, (hkept (Or.inl hphase)).poll hdt hslept⟩
  · rename_i hphase
    obtain rfl := Option.some.inj hstep
    exact ⟨_, (hkept (Or.inr hphase)).poll hdt hslept⟩
  · cases hstep

theorem Timely.finish (hs : s.Timely h) (hstep : s.step .finish = some s') : s'.Timely h := by
  simp only [AeMain.step] at hstep
  split at hstep
  · rename_i maxId hphase
    obtain rfl := Option.some.inj hstep
    unfold Timely at hs
    rw [hphase] at hs
    obtain ⟨hkept, -, hall⟩ := hs
    exact
      { hkept with
        fresh := fun te hte _ => (hall te hte).resolve_left fun hmem => by cases hmem
        below := Int.lt_of_lt_of_le (by decide) (Int.natCast_nonneg _) }
  · cases hstep

theorem Timely.step (hs : s.Timely h) {e : AeEvent T D} (hstep : s.step e = some s')
    (he : s.OnTime h e) : s'.Timely h := by
  cases e with
  | adjust clock => exact he.elim
  | poll dt slept => exact hs.poll hstep he.1 he.2
  | fileProc cs dt => exact hs.fileProc hstep
  | processTimeEvents dt =>
      unfold Timely at hs
      cases hphase : s.phase with
      | files =>
          rw [hphase] at hs
          obtain ⟨m, hs⟩ := hs
          exact hs.processTimeEvents hstep
      | _ =>
          simp only [AeMain.step, hphase] at hstep
          cases hstep
  | next dt cs retval dt' => exact hs.next hstep (he s' hstep)
  | finish => exact hs.finish hstep

theorem step_woke {e : AeEvent T D} (hstep : s.step e = some s')
    (hpoll : ∀ dt slept, e ≠ .poll dt slept) : s'.woke = s.woke := by
  cases e with
  | adjust clock =>
      obtain rfl := Option.some.inj hstep
      rfl
  | poll dt slept => exact absurd rfl (hpoll dt slept)
  | fileProc cs dt =>
      have hcalls := (calls_frame s cs).2.1
      simp only [AeMain.step] at hstep
      split at hstep
      · obtain rfl := Option.some.inj hstep
        exact hcalls
      · obtain rfl := Option.some.inj hstep
        exact hcalls
      · cases hstep
  | processTimeEvents dt =>
      simp only [AeMain.step] at hstep
      split at hstep
      · obtain rfl := Option.some.inj hstep
        rfl
      · cases hstep
  | next dt cs retval dt' =>
      simp only [AeMain.step] at hstep
      split at hstep
      · rename_i maxId te rest hphase
        split at hstep
        · obtain rfl := Option.some.inj hstep
          rfl
        · split at hstep
          · obtain ⟨s₁, hsettle, rfl⟩ := Option.map_eq_some_iff.mp hstep
            exact (settle_frame hsettle).1.trans
              (calls_frame ((s.tick dt).observe (.ran te.id (s.tick dt).clock)) cs).2.1
          · obtain rfl := Option.some.inj hstep
            rfl
      · cases hstep
  | finish =>
      simp only [AeMain.step] at hstep
      split at hstep
      · obtain rfl := Option.some.inj hstep
        rfl
      · cases hstep

/-- No iteration takes more than `h`. -/
theorem clock_le {e : AeEvent T D} (hstep : s.step e = some s') (he : s.OnTime h e) :
    s'.clock ≤ s'.woke + h := by
  by_cases hpoll : ∃ dt slept, e = .poll dt slept
  · obtain ⟨dt, slept, rfl⟩ := hpoll
    simp only [AeMain.step] at hstep
    split at hstep
    · obtain rfl := Option.some.inj hstep
      exact Nat.le_add_right _ _
    · obtain rfl := Option.some.inj hstep
      exact Nat.le_add_right _ _
    · cases hstep
  · push Not at hpoll
    rw [step_woke hstep hpoll]
    cases e with
    | adjust clock => exact he.elim
    | poll dt slept => exact absurd rfl (hpoll dt slept)
    | fileProc cs dt => exact he s' hstep
    | processTimeEvents dt => exact he s' hstep
    | next dt cs retval dt' => exact he s' hstep
    | finish => exact he s' hstep

theorem initial_timely (h clock : ℕ) : (AeMain.initial clock : AeMain T D).Timely h where
  proper te hte := by cases hte
  armed te hte := by cases hte
  near te hte := by cases hte
  fresh te hte := by cases hte
  below := Int.lt_of_lt_of_le (by decide) (Int.natCast_nonneg _)
  lastTime := Nat.le_refl _
  clock := Nat.le_refl _
  punctual id now past hpast := by cases List.suffix_nil.mp hpast

theorem Timely.kept (hs : s.Timely h) : ∃ m, s.Kept h m := by
  unfold Timely at hs
  split at hs
  · exact ⟨_, hs⟩
  · exact ⟨_, hs⟩
  · exact hs
  · exact ⟨_, hs.1⟩

end AeMain

/-- In every run in which the clock is not set back, no iteration spends more
than `h` on its handlers, and the kernel wakes the loop at most `h` after the
timeout: each timer runs at the time for which it was set last or later, by
less than a second and `3 h`, and no timer waits longer than that. -/
theorem timers_on_time {T D : Type} (h : ℕ) {s : AeMain T D}
    (hs : (aeMain T D).ReachableWith (AeMain.OnTime h) s) :
    (∀ (id now : ℕ) (past : List TimerObservation), .ran id now :: past <:+ s.trace →
      ∃ due, lastArmed id past = some due ∧
        1000 * due ≤ now ∧ now < 1000 * due + 1000000 + 3 * h) ∧
    ∀ te ∈ s.loop.timeEvents, lastArmed te.id s.trace = some te.due.total ∧
      s.clock < 1000 * te.due.total + 1000000 + 3 * h := by
  obtain ⟨htimely, hclock⟩ : s.Timely h ∧ s.clock ≤ s.woke + h := by
    refine hs.invariant (P := fun s => s.Timely h ∧ s.clock ≤ s.woke + h) ?_ ?_
    · rintro s ⟨clock, rfl⟩
      exact ⟨AeMain.initial_timely h clock, Nat.le_add_right _ _⟩
    · exact fun s e s' hs hstep he => ⟨hs.1.step hstep he, AeMain.clock_le hstep he⟩
  obtain ⟨m, hkept⟩ := htimely.kept
  refine ⟨hkept.punctual, fun te hte => ⟨hkept.armed te hte, ?_⟩⟩
  have hnear := hkept.near te hte
  omega

/-- A timer set to 5 ms is looked at a little too early. The next poll comes a
millisecond after it, and so it runs a second late, though no iteration takes
longer than 2 ms. -/
def oversleep : List (AeEvent Unit Unit) :=
  [.fileProc [.create 0 5 () ()] 0, .poll 0 4500, .processTimeEvents 100, .next 300 [] none 0,
    .finish, .poll 1100 999000, .processTimeEvents 0, .next 0 [] none 0]

theorem timers_on_time_late : ∃ s, (aeMain Unit Unit).ReachableWith (AeMain.OnTime 2000) s ∧
    s.trace = [.ran 0 1005000, .armed 0 5] ∧
    ∃ due, lastArmed 0 [.armed 0 5] = some due ∧
      1000 * due ≤ 1005000 ∧ 1005000 < 1000 * due + 1000000 + 3 * 2000 := by
  obtain ⟨s, hs, htrace⟩ : ∃ s, (aeMain Unit Unit).ReachableWith (AeMain.OnTime 2000) s ∧
      s.trace = [.ran 0 1005000, .armed 0 5] :=
    exists_reachableWith_of_runEvents (fun s : AeMain Unit Unit => s.trace) oversleep
      ⟨0, rfl⟩ (by decide +kernel)
  exact ⟨s, hs, htrace,
    (timers_on_time 2000 hs).1 0 1005000 [.armed 0 5] (htrace ▸ List.suffix_refl _)⟩

end WrkQuic
