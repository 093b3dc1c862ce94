import Mathlib.Data.List.Basic
import Mathlib.Tactic.Cases

/-!
# Lines of a text

A line ends at a carriage return, at a line feed, or at the two of them.
Lines that are put together with one of these between them are read back as
they were (`splitLines_join`), up to the first text that is not one line.
-/

namespace TextLines

variable {a b rest : List UInt8} {ls xs : List (List UInt8)} {ch : UInt8}

/-- Carriage return and line feed. -/
def IsBreak (ch : UInt8) : Prop := ch = 13 ∨ ch = 10

instance (ch : UInt8) : Decidable (IsBreak ch) := inferInstanceAs (Decidable (_ ∨ _))

/-- The text is one line. -/
def OneLine (s : List UInt8) : Prop := ∀ ch ∈ s, ¬ IsBreak ch

instance (s : List UInt8) : Decidable (OneLine s) := inferInstanceAs (Decidable (∀ ch ∈ s, _))

def splitLines : List UInt8 → List (List UInt8)
  | [] => [[]]
  | 13 :: 10 :: rest => [] :: splitLines rest
  | ch :: rest =>
      if IsBreak ch then [] :: splitLines rest else (splitLines rest).modifyHead (ch :: ·)

theorem oneLine_nil : OneLine [] := fun _ hch => (List.not_mem_nil hch).elim

theorem OneLine.append (ha : OneLine a) (hb : OneLine b) : OneLine (a ++ b) := by
  intro ch hch
  rcases List.mem_append.mp hch with hch | hch
  · exact ha ch hch
  · exact hb ch hch

theorem splitLines_cons_of_not_break (h : ¬ IsBreak ch) :
    splitLines (ch :: rest) = (splitLines rest).modifyHead (ch :: ·) := by
  rw [splitLines, if_neg h]
  rintro rest rfl -
  exact h (Or.inl rfl)

/-- A text up to its first line break. -/
theorem splitLines_append (ha : OneLine a) :
    splitLines (a ++ b) = (splitLines b).modifyHead (a ++ ·) := by
  induction a with
  | nil =>
      rw [List.nil_append]
      cases splitLines b <;> rfl
  | cons ch a ih =>
      obtain ⟨hch, ha⟩ := List.forall_mem_cons.mp ha
      rw [List.cons_append, splitLines_cons_of_not_break hch, ih ha]
      cases splitLines b <;> rfl

/-- The first line is the text before the first line break. -/
theorem splitLines_break (h : IsBreak ch) (rest : List UInt8) :
    ∃ more, splitLines (ch :: rest) = [] :: more := by
  unfold splitLines
  split
  · exact ⟨_, rfl⟩
  · exact ⟨_, rfl⟩
  · rename_i heq
    obtain ⟨rfl, rfl⟩ := List.cons.inj heq
    rw [if_pos h]
    exact ⟨_, rfl⟩

theorem exists_break (h : ¬ OneLine a) :
    ∃ line ch rest, OneLine line ∧ IsBreak ch ∧ a = line ++ ch :: rest := by
  induction a with
  | nil => exact absurd oneLine_nil h
  | cons c a ih =>
      by_cases hc : IsBreak c
      · exact ⟨[], c, a, oneLine_nil, hc, rfl⟩
      · have ha : ¬ OneLine a := fun ha => h (List.forall_mem_cons.mpr ⟨hc, ha⟩)
        obtain ⟨line, ch, rest, hline, hch, rfl⟩ := ih ha
        exact ⟨c :: line, ch, rest, List.forall_mem_cons.mpr ⟨hc, hline⟩, hch, rfl⟩

/-- What is read back is lines. -/
theorem oneLine_of_mem_splitLines {line : List UInt8} (h : line ∈ splitLines a) : OneLine line := by
  fun_induction splitLines a generalizing line with
  | case1 =>
      rw [List.mem_singleton.mp h]
      exact oneLine_nil
  | case2 rest ih =>
      rcases List.mem_cons.mp h with rfl | h
      · exact oneLine_nil
      · exact ih h
  | case3 ch rest _ hch ih =>
      rcases List.mem_cons.mp h with rfl | h
      · exact oneLine_nil
      · exact ih h
  | case4 ch rest _ hch ih =>
      cases hsplit : splitLines rest with
      | nil =>
          rw [hsplit] at h
          cases h
      | cons first more =>
          rw [hsplit] at h ih
          rcases List.mem_cons.mp h with rfl | h
          · exact List.forall_mem_cons.mpr ⟨hch, ih List.mem_cons_self⟩
          · exact ih (List.mem_cons_of_mem _ h)

/-- Lines, then a text that may be more than one. -/
theorem splitLines_join (hls : ∀ l ∈ ls, OneLine l) (a : List UInt8) (xs : List (List UInt8)) :
    splitLines (List.intercalate [13, 10] (ls ++ a :: xs)) =
      ls ++ splitLines (List.intercalate [13, 10] (a :: xs)) := by
  induction ls with
  | nil => rfl
  | cons l ls ih =>
      obtain ⟨hl, hls⟩ := List.forall_mem_cons.mp hls
      rw [List.cons_append, List.intercalate_cons_of_ne_nil (by simp), List.append_assoc,
        splitLines_append hl, List.cons_append, List.cons_append, List.nil_append, splitLines,
        ih hls]
      show (l ++ []) :: _ = _
      rw [List.append_nil]
      rfl

end TextLines
