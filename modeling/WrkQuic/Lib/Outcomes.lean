import Mathlib.Logic.Basic

/-!
# Outcomes of programs that can fail

`Ensures allowed x P` says that the program `x` either ends with a result that
meets `P` or fails with an error that is allowed: partial correctness when
every error is, total correctness when none is. The rules are those of a Hoare
logic; a sequence is verified one program at a time.
-/

namespace Outcomes

variable {ε α β : Type} {allowed : ε → Prop} {P : α → Prop} {Q : β → Prop}

def Ensures (allowed : ε → Prop) (x : Except ε α) (P : α → Prop) : Prop :=
  match x with
  | .ok a => P a
  | .error e => allowed e

namespace Ensures

theorem of_ok {x : Except ε α} {a : α} (h : Ensures allowed x P) (hx : x = .ok a) : P a := by
  subst hx
  exact h

theorem of_error {x : Except ε α} {e : ε} (h : Ensures allowed x P) (hx : x = .error e) :
    allowed e := by
  subst hx
  exact h

theorem of_eq {x : Except ε α} {a : α} (hx : x = .ok a) : Ensures allowed x (· = a) := by
  subst hx
  exact rfl

/-- Without an error that is allowed there is a result. -/
theorem exists_ok {x : Except ε α} (h : Ensures (fun _ => False) x P) : ∃ a, x = .ok a ∧ P a := by
  cases x with
  | ok a => exact ⟨a, rfl, h⟩
  | error e => exact h.elim

theorem mono {x : Except ε α} {P' : α → Prop} (h : Ensures allowed x P)
    (himp : ∀ a, P a → P' a) : Ensures allowed x P' := by
  cases x with
  | ok a => exact himp a h
  | error e => exact h

/-- A program may be allowed more errors than it has. -/
theorem relax {x : Except ε α} {allowed' : ε → Prop} (h : Ensures allowed x P)
    (himp : ∀ e, allowed e → allowed' e) : Ensures allowed' x P := by
  cases x with
  | ok a => exact h
  | error e => exact himp e h

/-- A program that has no error may be allowed any. -/
theorem of_total {x : Except ε α} (h : Ensures (fun _ => False) x P) : Ensures allowed x P :=
  h.relax fun _ => False.elim

/-- What follows is verified for every result that meets `P`. -/
theorem bind {x : Except ε α} {f : α → Except ε β} (hx : Ensures allowed x P)
    (hf : ∀ a, P a → Ensures allowed (f a) Q) : Ensures allowed (x >>= f) Q := by
  cases x with
  | ok a => exact hf a hx
  | error e => exact hx

theorem map {x : Except ε α} {f : α → β} (hx : Ensures allowed x P)
    (hf : ∀ a, P a → Q (f a)) : Ensures allowed (x.map f) Q := by
  cases x with
  | ok a => exact hf a hx
  | error e => exact hx

/-- The errors of a part, told apart by its caller. -/
theorem mapError {ε' : Type} {x : Except ε α} {f : ε → ε'} {allowed' : ε' → Prop}
    (h : Ensures allowed x P) (hf : ∀ e, allowed e → allowed' (f e)) :
    Ensures allowed' (x.mapError f) P := by
  cases x with
  | ok a => exact h
  | error e => exact hf e h

/-- A loop keeps what each pass keeps. -/
theorem foldlM {f : α → β → Except ε α} (hf : ∀ a b, P a → Ensures allowed (f a b) P) :
    ∀ (l : List β) {a : α}, P a → Ensures allowed (l.foldlM f a) P
  | [], _, h => h
  | b :: l, a, h => by
      rw [List.foldlM_cons]
      exact (hf a b h).bind fun a' h' => foldlM hf l h'

end Ensures

end Outcomes
