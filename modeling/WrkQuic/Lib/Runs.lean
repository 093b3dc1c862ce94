import Mathlib.Logic.Basic

/-!
# Machines and their runs

A machine is a set of initial states and a step relation labelled by
events. `ReachableWith ok` are the states of the runs whose every step
meets the side condition `ok` (a condition on the state before and the
event): an environment assumption, or the exact circumstance under which
a defective step is harmless. `Reachable` is the unrestricted case.

`ReachableWith.invariant` packages the one induction over runs that
every safety result needs. `runEvents` replays a concrete list of events
of a machine given by a step *function*, so that an explicit run can be
evaluated and turned into a reachable state.
-/

namespace Runs

variable {σ ε : Type*}

structure Machine (σ ε : Type*) where
  init : σ → Prop
  step : σ → ε → σ → Prop

namespace Machine

/-- States reached from an initial state by steps that all meet `ok`. -/
inductive ReachableWith (M : Machine σ ε) (ok : σ → ε → Prop) : σ → Prop where
  | init {s : σ} : M.init s → ReachableWith M ok s
  | step {s : σ} {e : ε} {s' : σ} : ReachableWith M ok s → M.step s e s' →
      ok s e → ReachableWith M ok s'

def Reachable (M : Machine σ ε) : σ → Prop :=
  M.ReachableWith fun _ _ => True

variable {M : Machine σ ε} {ok ok' : σ → ε → Prop} {P : σ → Prop}

/-- The invariant rule: what holds initially and is preserved by every
step meeting `ok` holds in every state of such a run. -/
theorem ReachableWith.invariant (h0 : ∀ s, M.init s → P s)
    (hstep : ∀ s e s', P s → M.step s e s' → ok s e → P s') {s : σ}
    (h : M.ReachableWith ok s) : P s := by
  induction h with
  | init hi => exact h0 _ hi
  | step _ hs hok ih => exact hstep _ _ _ ih hs hok

/-- A run that meets the stronger condition meets the weaker one. -/
theorem ReachableWith.mono (himp : ∀ s e, ok s e → ok' s e) {s : σ}
    (h : M.ReachableWith ok s) : M.ReachableWith ok' s := by
  induction h with
  | init hi => exact .init hi
  | step _ hs hok ih => exact .step ih hs (himp _ _ hok)

theorem Reachable.invariant (h0 : ∀ s, M.init s → P s)
    (hstep : ∀ s e s', P s → M.step s e s' → P s') {s : σ}
    (h : M.Reachable s) : P s :=
  ReachableWith.invariant h0 (fun s e s' hp hs _ => hstep s e s' hp hs) h

/-- The refinement rule: when every step of a run is a step of another
machine, under a function of the states and one of the events, the run is
one of that machine. -/
theorem ReachableWith.refines {τ δ : Type*} {N : Machine τ δ} (r : σ → τ) (l : ε → δ)
    (h0 : ∀ s, M.init s → N.init (r s))
    (hstep : ∀ s e s', M.ReachableWith ok s → M.step s e s' → ok s e → N.step (r s) (l e) (r s'))
    {s : σ} (h : M.ReachableWith ok s) : N.Reachable (r s) := by
  induction h with
  | init hi => exact .init (h0 _ hi)
  | step hs hstep' hok ih => exact .step ih (hstep _ _ _ hs hstep' hok) trivial

/-! ## History variables -/

/-- The machine with a value that every event updates and no step reads. -/
def withHistory {α : Type*} (M : Machine σ ε) (a₀ : α) (f : α → ε → α) : Machine (σ × α) ε where
  init s := M.init s.1 ∧ s.2 = a₀
  step s e s' := M.step s.1 e s'.1 ∧ s'.2 = f s.2 e

theorem ReachableWith.of_withHistory {α : Type*} {a₀ : α} {f : α → ε → α} {s : σ × α}
    (h : (M.withHistory a₀ f).ReachableWith (fun s e => ok s.1 e) s) : M.ReachableWith ok s.1 := by
  induction h with
  | init hi => exact .init hi.1
  | step _ hs hok ih => exact .step ih hs.1 hok

end Machine

/-! ## Machines given by a step function -/

/-- The machine of a partial step function: an event with no successor
is not possible in that state. -/
def ofFun (init : σ → Prop) (step : σ → ε → Option σ) : Machine σ ε where
  init := init
  step s e s' := step s e = some s'

/-- Replay a list of events. -/
def runEvents (step : σ → ε → Option σ) : σ → List ε → Option σ
  | s, [] => some s
  | s, e :: es =>
      match step s e with
      | some s' => runEvents step s' es
      | none => none

/-- A step function restricted to the steps that meet `ok`. -/
def guarded (ok : σ → ε → Prop) [∀ s e, Decidable (ok s e)] (step : σ → ε → Option σ) :
    σ → ε → Option σ :=
  fun s e => if ok s e then step s e else none

variable {α : Type*} {init : σ → Prop} {step : σ → ε → Option σ} {ok : σ → ε → Prop}

theorem reachableWith_of_runEvents [∀ s e, Decidable (ok s e)] :
    ∀ {es : List ε} {s s' : σ}, (ofFun init step).ReachableWith ok s →
      runEvents (guarded ok step) s es = some s' → (ofFun init step).ReachableWith ok s'
  | [], s, s', hs, h => by
      obtain rfl := Option.some.inj h
      exact hs
  | e :: es, s, s', hs, h => by
      rw [runEvents, guarded] at h
      by_cases hok : ok s e
      · rw [if_pos hok] at h
        split at h
        · rename_i s₁ hstep
          exact reachableWith_of_runEvents (.step hs hstep hok) h
        · cases h
      · rw [if_neg hok] at h
        cases h

/-- A replayed run that ends in an observation `a` reaches a state with it. -/
theorem exists_reachableWith_of_runEvents [∀ s e, Decidable (ok s e)] {s : σ} (f : σ → α)
    (es : List ε) {a : α} (hs : init s)
    (h : (runEvents (guarded ok step) s es).map f = some a) :
    ∃ s', (ofFun init step).ReachableWith ok s' ∧ f s' = a := by
  obtain ⟨s', hrun, hf⟩ := Option.map_eq_some_iff.mp h
  exact ⟨s', reachableWith_of_runEvents (.init hs) hrun, hf⟩

theorem reachable_of_runEvents {s s' : σ} {es : List ε} (hs : init s)
    (h : runEvents step s es = some s') : (ofFun init step).Reachable s' := by
  rw [show step = guarded (fun _ _ => True) step from
    (funext₂ fun s e => if_pos trivial).symm] at h
  exact reachableWith_of_runEvents (.init hs) h

theorem exists_reachable_of_runEvents {s : σ} (f : σ → α) (es : List ε) {a : α} (hs : init s)
    (h : (runEvents step s es).map f = some a) :
    ∃ s', (ofFun init step).Reachable s' ∧ f s' = a := by
  obtain ⟨s', hrun, hf⟩ := Option.map_eq_some_iff.mp h
  exact ⟨s', reachable_of_runEvents hs hrun, hf⟩

end Runs
