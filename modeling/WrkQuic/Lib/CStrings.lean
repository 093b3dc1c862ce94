import Mathlib.Data.List.Basic

/-!
# Terminated strings

Sequences of strings laid out one after the other, each ended by a
terminator `z`. `strings` reads a layout back; it is the inverse of
`terminated` on strings without a terminator (`strings_terminated`) and,
the other way, on layouts that end in one (`terminated_strings`), which
hold as many strings as terminators (`length_strings`).
-/

namespace CStrings

variable {α β : Type*} {z : α}

def terminated (z : α) (ss : List (List α)) : List α :=
  ss.flatMap fun s => s ++ [z]

/-- Consecutive elements, two by two. -/
def pairUp : List β → List (β × β)
  | a :: b :: rest => (a, b) :: pairUp rest
  | _ => []

theorem terminated_cons (s : List α) (ss : List (List α)) :
    terminated z (s :: ss) = s ++ z :: terminated z ss := by
  simp [terminated]

/-- A layout is empty or ends in the terminator. -/
def EndsTerminated (z : α) (bs : List α) : Prop := bs = [] ∨ bs.getLast? = some z

theorem EndsTerminated.tail {b : α} {bs : List α} (h : EndsTerminated z (b :: bs)) :
    EndsTerminated z bs := by
  rcases h with h | h
  · cases h
  · cases bs with
    | nil => exact Or.inl rfl
    | cons c cs => exact Or.inr (by rwa [List.getLast?_cons_cons] at h)

theorem endsTerminated_terminated (ss : List (List α)) :
    EndsTerminated z (terminated z ss) := by
  rcases List.eq_nil_or_concat ss with rfl | ⟨init, s, rfl⟩
  · exact Or.inl rfl
  · right
    simp [terminated]

section Strings

variable [DecidableEq α]

/-- The terminated strings of a layout; an unfinished last one is dropped. -/
def strings (z : α) : List α → List (List α)
  | [] => []
  | b :: bs =>
      if b = z then [] :: strings z bs
      else match strings z bs with
        | [] => []
        | s :: ss => (b :: s) :: ss

theorem terminated_strings :
    ∀ {bs : List α}, EndsTerminated z bs → terminated z (strings z bs) = bs
  | [], _ => rfl
  | b :: bs, h => by
      have ih := terminated_strings h.tail
      unfold strings
      split
      · rename_i hb
        rw [terminated_cons, ih, hb, List.nil_append]
      · rename_i hb
        split
        · rename_i hnil
          rw [hnil] at ih
          have hbs : bs = [] := ih.symm
          subst hbs
          rcases h with h | h
          · cases h
          · exact absurd (Option.some.inj h) hb
        · rename_i s ss hcons
          rw [hcons, terminated_cons] at ih
          rw [terminated_cons, List.cons_append, ih]

theorem not_mem_of_mem_strings :
    ∀ {bs : List α} {s : List α}, s ∈ strings z bs → z ∉ s
  | [], s, h => by cases h
  | b :: bs, s, h => by
      unfold strings at h
      split at h
      · rcases List.mem_cons.mp h with rfl | h
        · exact List.not_mem_nil
        · exact not_mem_of_mem_strings h
      · rename_i hb
        split at h
        · cases h
        · rename_i t ts hcons
          rcases List.mem_cons.mp h with rfl | h
          · intro hmem
            rcases List.mem_cons.mp hmem with rfl | hmem
            · exact hb rfl
            · have ht : t ∈ strings z bs := by rw [hcons]; exact List.mem_cons_self
              exact not_mem_of_mem_strings ht hmem
          · have hs : s ∈ strings z bs := by rw [hcons]; exact List.mem_cons_of_mem _ h
            exact not_mem_of_mem_strings hs

theorem strings_append {s : List α} (hs : z ∉ s) (bs : List α) :
    strings z (s ++ z :: bs) = s :: strings z bs := by
  induction s with
  | nil => simp [strings]
  | cons b s ih =>
      rw [List.mem_cons, not_or] at hs
      rw [List.cons_append, strings, if_neg (Ne.symm hs.1), ih hs.2]

theorem strings_terminated {ss : List (List α)} (h : ∀ s ∈ ss, z ∉ s) :
    strings z (terminated z ss) = ss := by
  induction ss with
  | nil => rfl
  | cons s ss ih =>
      rw [terminated_cons, strings_append (h s List.mem_cons_self),
        ih fun t ht => h t (List.mem_cons_of_mem _ ht)]

theorem length_strings {bs : List α} (h : EndsTerminated z bs) :
    (strings z bs).length = bs.count z := by
  have hcount : ∀ ss : List (List α), (∀ s ∈ ss, z ∉ s) →
      (terminated z ss).count z = ss.length := by
    intro ss hss
    induction ss with
    | nil => rfl
    | cons s ss ih =>
        rw [terminated_cons, List.count_append, List.count_cons_self,
          List.count_eq_zero_of_not_mem (hss s List.mem_cons_self),
          ih fun t ht => hss t (List.mem_cons_of_mem _ ht), List.length_cons, Nat.zero_add]
  have hlen := hcount (strings z bs) fun s hs => not_mem_of_mem_strings hs
  rw [terminated_strings h] at hlen
  exact hlen.symm

end Strings

end CStrings
