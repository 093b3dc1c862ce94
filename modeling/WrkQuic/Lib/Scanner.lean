import Mathlib.Data.List.Infix

/-!
# Scanners

A scanner reads symbols one at a time; each may complete a message.
`Frames` are consecutive stretches of input of which each completes one
message with its last symbol. `run_frames` counts the messages that any
initial part of such an input completes.
-/

namespace Scanner

variable {σ β μ : Type*} {step : σ → β → Option (σ × Option μ)} {s s' q : σ} {b : β} {m : μ}
  {ms : List μ} {u v w : List β} {ws : List (List β)} {n : ℕ}

/-- The state after the input, with the messages it completes. -/
def run (step : σ → β → Option (σ × Option μ)) : σ → List β → Option (σ × List μ)
  | s, [] => some (s, [])
  | s, b :: bs =>
      match step s b with
      | some (s, m) => (run step s bs).map fun r => (r.1, m.toList ++ r.2)
      | none => none

theorem run_append (u v : List β) : ∀ s : σ, run step s (u ++ v) =
    (run step s u).bind fun r => (run step r.1 v).map fun r' => (r'.1, r.2 ++ r'.2) := by
  induction u with
  | nil =>
      intro s
      simp [run]
  | cons b bs ih =>
      intro s
      rw [List.cons_append, run, run]
      cases step s b with
      | none => rfl
      | some r =>
          simp only [ih r.1]
          cases run step r.1 bs with
          | none => rfl
          | some r' =>
              cases h : run step r'.1 v with
              | none => simp [h]
              | some r'' => simp [h]

theorem run_append_of_some (h : run step s u = some (q, ms)) (v : List β) :
    run step s (u ++ v) = (run step q v).map fun r => (r.1, ms ++ r.2) := by
  rw [run_append, h, Option.bind_some]

/-- An initial part of a run completes the first of its messages. -/
theorem run_of_append (h : run step s (u ++ v) = some (q, ms)) :
    ∃ q' ms' ms'', run step s u = some (q', ms') ∧ run step q' v = some (q, ms'') ∧
      ms = ms' ++ ms'' := by
  rw [run_append] at h
  obtain ⟨⟨q', ms'⟩, hu, h⟩ := Option.bind_eq_some_iff.mp h
  obtain ⟨⟨q'', ms''⟩, hv, h⟩ := Option.map_eq_some_iff.mp h
  obtain ⟨rfl, rfl⟩ := Prod.mk.inj h
  exact ⟨q', ms', ms'', hu, hv, rfl⟩

/-- The input `w` completes `m`, and nothing before its last symbol. -/
def Completes (step : σ → β → Option (σ × Option μ)) (s : σ) (w : List β) (m : μ) (s' : σ) :
    Prop :=
  ∃ u b q, w = u ++ [b] ∧ run step s u = some (q, []) ∧ step q b = some (s', some m)

theorem Completes.run_eq (h : Completes step s w m s') : run step s w = some (s', [m]) := by
  obtain ⟨u, b, q, rfl, hu, hb⟩ := h
  rw [run_append_of_some hu]
  simp [run, hb]

/-- A silent stretch before a frame belongs to it. -/
theorem Completes.prepend (hu : run step s u = some (q, [])) (h : Completes step q w m s') :
    Completes step s (u ++ w) m s' := by
  obtain ⟨w', b, q', rfl, hw, hb⟩ := h
  refine ⟨u ++ w', b, q', (List.append_assoc u w' [b]).symm, ?_, hb⟩
  rw [run_append_of_some hu, hw]
  rfl

/-- Less than a frame completes nothing. -/
theorem Completes.run_prefix (h : Completes step s w m s') (hu : u <+: w)
    (hlt : u.length < w.length) : ∃ q, run step s u = some (q, []) := by
  obtain ⟨w', b, q, rfl, hw, -⟩ := h
  have hle : u.length ≤ w'.length := by
    rw [List.length_append, List.length_singleton] at hlt
    omega
  obtain ⟨v, rfl⟩ := List.prefix_of_prefix_length_le hu (List.prefix_append w' [b]) hle
  obtain ⟨q', ms', ms'', hrun, -, hnil⟩ := run_of_append hw
  rw [(List.append_eq_nil_iff.mp hnil.symm).1] at hrun
  exact ⟨q', hrun⟩

/-- Consecutive frames. -/
inductive Frames (step : σ → β → Option (σ × Option μ)) : σ → List (List β) → σ → Prop where
  | nil (s : σ) : Frames step s [] s
  | cons {s s' s'' : σ} {w : List β} {m : μ} {ws : List (List β)} :
      Completes step s w m s' → Frames step s' ws s'' → Frames step s (w :: ws) s''

theorem Frames.run_eq (h : Frames step s ws s') :
    ∃ ms, run step s ws.flatten = some (s', ms) ∧ ms.length = ws.length := by
  induction h with
  | nil s => exact ⟨[], rfl, rfl⟩
  | @cons _ _ _ w m ws hw hws ih =>
      obtain ⟨ms, hrun, hlength⟩ := ih
      refine ⟨m :: ms, ?_, by rw [List.length_cons, hlength, List.length_cons]⟩
      rw [List.flatten_cons, run_append_of_some hw.run_eq, hrun]
      rfl

/-- The frames that the first `n` symbols contain. -/
def framesIn : List (List β) → ℕ → ℕ
  | [], _ => 0
  | w :: ws, n => if w.length ≤ n then framesIn ws (n - w.length) + 1 else 0

theorem framesIn_le : ∀ (ws : List (List β)) (n : ℕ), framesIn ws n ≤ ws.length
  | [], _ => Nat.le_refl 0
  | w :: ws, n => by
      rw [framesIn]
      split
      · exact Nat.succ_le_succ (framesIn_le ws _)
      · exact Nat.zero_le _

/-- The input ends after the last frame with something that completes
nothing. -/
theorem run_frames {tail : List β} (h : Frames step s ws s')
    (htail : run step s' tail = some (q, [])) (hu : u <+: ws.flatten ++ tail) :
    ∃ q' ms, run step s u = some (q', ms) ∧ ms.length = framesIn ws u.length := by
  induction h generalizing u with
  | nil s =>
      obtain ⟨v, rfl⟩ := hu
      obtain ⟨q', ms', ms'', hrun, -, hnil⟩ := run_of_append htail
      rw [(List.append_eq_nil_iff.mp hnil.symm).1] at hrun
      exact ⟨q', [], hrun, rfl⟩
  | @cons _ _ _ w m ws hw hws ih =>
      rw [List.flatten_cons, List.append_assoc] at hu
      rw [framesIn]
      split
      · rename_i hle
        obtain ⟨v, rfl⟩ := List.prefix_of_prefix_length_le (List.prefix_append w _) hu hle
        obtain ⟨q', ms, hrun, hlength⟩ := ih htail ((List.prefix_append_right_inj w).mp hu)
        refine ⟨q', [m] ++ ms, ?_, ?_⟩
        · rw [run_append_of_some hw.run_eq, hrun]
          rfl
        · rw [List.singleton_append, List.length_cons, hlength, List.length_append,
            Nat.add_sub_cancel_left]
      · rename_i hlt
        have hprefix : u <+: w :=
          List.prefix_of_prefix_length_le hu (List.prefix_append w _) (by omega)
        obtain ⟨q', hrun⟩ := hw.run_prefix hprefix (Nat.not_le.mp hlt)
        exact ⟨q', [], hrun, rfl⟩

end Scanner
