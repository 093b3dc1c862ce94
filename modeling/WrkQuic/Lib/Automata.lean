import Mathlib.Data.List.Basic

/-!
# Runs of an automaton

A partial automaton reads a list symbol by symbol. From the list that it
accepts, `run_peel` takes off the symbols on which its state stays the same;
what is left starts with a symbol on which it goes on, or is empty.
-/

namespace Automaton

variable {σ β : Type*} {step : σ → β → Option σ} {s s' t : σ} {u v l : List β}

def run (step : σ → β → Option σ) : σ → List β → Option σ
  | s, [] => some s
  | s, b :: bs => (step s b).bind fun s' => run step s' bs

theorem run_cons_iff {b : β} : run step s (b :: l) = some t ↔
    ∃ s', step s b = some s' ∧ run step s' l = some t := by
  rw [run, Option.bind_eq_some_iff]

theorem run_append_iff :
    run step s (u ++ v) = some t ↔ ∃ s', run step s u = some s' ∧ run step s' v = some t := by
  induction u generalizing s with
  | nil => simp [run]
  | cons b u ih =>
      rw [List.cons_append, run_cons_iff]
      constructor
      · rintro ⟨s₁, hb, h⟩
        obtain ⟨s', hu, hv⟩ := ih.mp h
        exact ⟨s', run_cons_iff.mpr ⟨s₁, hb, hu⟩, hv⟩
      · rintro ⟨s', hu, hv⟩
        obtain ⟨s₁, hb, hu⟩ := run_cons_iff.mp hu
        exact ⟨s₁, hb, ih.mpr ⟨s', hu, hv⟩⟩

theorem run_peel (C : β → Bool) (hloop : ∀ b s', C b = true → step s b = some s' → s' = s)
    (h : run step s l = some t) : ∃ u v, l = u ++ v ∧ (∀ b ∈ u, C b = true) ∧
      (∀ b ∈ v.head?, C b = false) ∧ run step s v = some t := by
  induction l with
  | nil =>
      refine ⟨[], [], rfl, List.forall_mem_nil _, ?_, h⟩
      intro b hb
      cases hb
  | cons b l ih =>
      by_cases hb : C b = true
      · obtain ⟨s', hstep, hrest⟩ := run_cons_iff.mp h
        rw [hloop b s' hb hstep] at hrest
        obtain ⟨u, v, rfl, hu, hv, hend⟩ := ih hrest
        exact ⟨b :: u, v, rfl, List.forall_mem_cons.mpr ⟨hb, hu⟩, hv, hend⟩
      · refine ⟨[], b :: l, rfl, List.forall_mem_nil _, ?_, h⟩
        intro b' hb'
        obtain rfl := Option.some.inj hb'
        exact Bool.eq_false_iff.mpr hb

/-- A list all of whose symbols are looped on. -/
theorem run_peel_all (C : β → Bool) (hloop : ∀ b s', C b = true → step s b = some s' → s' = s)
    (hstop : ∀ b, C b = false → step s b = none) (h : run step s l = some t) :
    ∀ b ∈ l, C b = true := by
  obtain ⟨u, v, rfl, hu, hv, h⟩ := run_peel C hloop h
  cases v with
  | nil =>
      rw [List.append_nil]
      exact hu
  | cons b v =>
      obtain ⟨s', hb, -⟩ := run_cons_iff.mp h
      rw [hstop b (hv b rfl)] at hb
      cases hb

end Automaton
