import Mathlib.Data.Finset.Card
import WrkQuic.HttpData

/-!
# The marks of the parser

The five pointers of `http_parser_execute` that say where data begins. The
code sets and clears each of them on its own, and asserts behind its loop
that at most one is set. `MarkedText` has one mark, with the data from it on;
here the five are followed next to it, and each that is set is that one
(`scanByte_tracked`), so that the assertion holds (`Tracked.card_le_one`).
-/

namespace WrkQuic

/-- `header_field_mark`, `header_value_mark`, `url_mark`, `body_mark` and
`status_mark`. -/
inductive Mark where
  | headerField
  | headerValue
  | url
  | body
  | status
deriving DecidableEq

def DataCallback.toMark : DataCallback → Mark
  | .headerField => .headerField
  | .headerValue => .headerValue
  | .responseBody => .body

namespace HttpParser

/-- The marks that are set before the first byte of a chunk. -/
def startMarks (p : HttpParser) : Finset Mark :=
  match p.state with
  | .headerField => {.headerField}
  | .headerValue => {.headerValue}
  | .resStatus => {.status}
  | _ => ∅

def fieldStartMarks (marks : Finset Mark) (ch : UInt8) : Finset Mark :=
  if ch = cr ∨ ch = lf then marks else insert .headerField marks

/-- The marks after a byte that is passed: `MARK` sets one, and
`CALLBACK_DATA` clears one. -/
def markByte (p : HttpParser) (ch : UInt8) (marks : Finset Mark) : Finset Mark :=
  match p.state with
  | .resStatusStart => if ch = cr ∨ ch = lf then marks else insert .status marks
  | .resStatus => if ch = cr ∨ ch = lf then marks.erase .status else marks
  | .headerFieldStart => fieldStartMarks marks ch
  | .headerField => if token ch ≠ 0 then marks else marks.erase .headerField
  | .headerValueDiscardWs =>
      if (ch = space ∨ ch = tab) ∨ ch = cr ∨ ch = lf then marks else insert .headerValue marks
  | .headerValueDiscardLws =>
      if ch = space ∨ ch = tab then marks
      else fieldStartMarks ((insert .headerValue marks).erase .headerValue) ch
  | .headerValueStart => insert .headerValue marks
  | .headerValue => if ch = cr ∨ ch = lf then marks.erase .headerValue else marks
  | .headerValueLws =>
      if ch = space ∨ ch = tab then insert .headerValue marks else fieldStartMarks marks ch
  | .bodyIdentity =>
      if p.contentLength - 1 = 0 then (insert .body marks).erase .body else insert .body marks
  | .bodyIdentityEof | .chunkData => insert .body marks
  | .chunkDataAlmostDone => marks.erase .body
  | _ => marks

end HttpParser

/-! ## The mark that is set -/

/-- Every mark is that of `mark`. -/
def Mirrors (marks : Finset Mark) (mark : Option DataMark) : Prop :=
  ∀ x ∈ marks, ∃ m, mark = some m ∧ x = m.callback.toMark

/-- Every mark is that of `mark`, or that of the status text, which no
callback of a response is for. -/
def Tracked (state : ParserState) (marks : Finset Mark) (mark : Option DataMark) : Prop :=
  ∀ x ∈ marks, x = .status ∧ state = .resStatus ∨ ∃ m, mark = some m ∧ x = m.callback.toMark

variable {state : ParserState} {marks : Finset Mark} {mark : Option DataMark} {d : MarkedText}
  {callback : DataCallback} {ch : UInt8}

theorem Mirrors.tracked (h : Mirrors marks mark) : Tracked state marks mark :=
  fun x hx => Or.inr (h x hx)

theorem Tracked.mirrors (h : Tracked state marks mark) (hstate : state ≠ .resStatus) :
    Mirrors marks mark :=
  fun x hx => (h x hx).resolve_left fun hstatus => hstate hstatus.2

theorem Mirrors.eq_empty (h : Mirrors marks none) : marks = ∅ :=
  Finset.eq_empty_of_forall_notMem fun x hx => by
    obtain ⟨m, hm, -⟩ := h x hx
    cases hm

theorem mirrors_empty : Mirrors ∅ mark := fun _ hx => by cases hx

/-- `MARK`, where no mark or the same one is set. -/
theorem Mirrors.take (h : Mirrors marks d.mark) (callback : DataCallback)
    (hsame : ∀ m, d.mark = some m → m.callback = callback) :
    Mirrors (insert callback.toMark marks) (d.take callback ch).mark := by
  intro x hx
  refine ⟨_, rfl, ?_⟩
  rcases Finset.mem_insert.mp hx with rfl | hx
  · rfl
  · obtain ⟨m, hm, rfl⟩ := h x hx
    rw [hsame m hm]

/-- A byte behind the mark that is set. -/
theorem Mirrors.pass (h : Mirrors marks d.mark)
    (hsame : ∀ m, d.mark = some m → m.callback = callback) :
    Mirrors marks (d.take callback ch).mark :=
  fun x hx => h.take _ hsame x (Finset.mem_insert_of_mem hx)

/-- `CALLBACK_DATA` of the mark that is set. -/
theorem Mirrors.call (h : Mirrors marks d.mark) (callback : DataCallback)
    (hsame : ∀ m, d.mark = some m → m.callback = callback) :
    Mirrors (marks.erase callback.toMark) d.call.mark := by
  intro x hx
  obtain ⟨hne, hx⟩ := Finset.mem_erase.mp hx
  obtain ⟨m, hm, rfl⟩ := h x hx
  exact absurd (congrArg DataCallback.toMark (hsame m hm)) hne

theorem Mirrors.fieldStart (h : Mirrors marks d.mark) (hnone : d.mark = none) :
    Mirrors (HttpParser.fieldStartMarks marks ch) (HttpParser.fieldStartData d ch).mark := by
  unfold HttpParser.fieldStartMarks HttpParser.fieldStartData
  split
  · exact h
  · exact h.take .headerField fun m hm => by rw [hnone] at hm; cases hm

/-- At most one of the five is set. -/
theorem Tracked.card_le_one (h : Tracked state marks mark) (hmark : Marks state mark) :
    marks.card ≤ 1 := by
  refine Finset.card_le_one.mpr fun x hx y hy => ?_
  have hstatus {m : DataMark} (hm : mark = some m) : state ≠ .resStatus := fun heq => by
    have hcallback := hmark.callback m hm
    rw [heq] at hcallback
    cases hcallback
  rcases h x hx with ⟨rfl, hstate⟩ | ⟨m, hm, rfl⟩ <;>
    rcases h y hy with ⟨rfl, hstate'⟩ | ⟨m', hm', rfl⟩
  · rfl
  · exact absurd hstate (hstatus hm')
  · exact absurd hstate' (hstatus hm)
  · rw [Option.some.inj (hm.symm.trans hm')]

namespace HttpParser

variable {p q : HttpParser} {loop loop' : Option ℕ} {m : Option Completion}

theorem startMarks_tracked (p : HttpParser) (t : ResponseText) :
    Tracked p.state p.startMarks (chunkStart p t).mark := by
  intro x hx
  unfold startMarks at hx
  unfold chunkStart
  split at hx
  · rename_i hstate
    obtain rfl := Finset.mem_singleton.mp hx
    rw [hstate]
    exact Or.inr ⟨_, rfl, rfl⟩
  · rename_i hstate
    obtain rfl := Finset.mem_singleton.mp hx
    rw [hstate]
    exact Or.inr ⟨_, rfl, rfl⟩
  · rename_i hstate
    exact Or.inl ⟨Finset.mem_singleton.mp hx, hstate⟩
  · cases hx

/-- Outside the status text, the marks move as the one does. -/
theorem markByte_mirrors (h : Mirrors marks d.mark) (hmark : Marks p.state d.mark)
    (hstart : p.state ≠ .resStatusStart) (hstatus : p.state ≠ .resStatus) :
    Mirrors (markByte p ch marks) (dataByte p ch d).mark := by
  have hsame {c : DataCallback} (hc : p.state.marked = some c) :
      ∀ m, d.mark = some m → m.callback = c :=
    fun m hm => Option.some.inj ((hmark.callback m hm).symm.trans hc)
  have hnone {c : DataCallback} (hstate : p.state.marked = none) :
      ∀ m, d.mark = some m → m.callback = c := fun m hm => by
    rw [hmark.eq_none hstate] at hm
    cases hm
  unfold markByte dataByte
  cases hp : p.state with
  | resStatusStart => exact absurd hp hstart
  | resStatus => exact absurd hp hstatus
  | headerFieldStart => exact h.fieldStart (hmark.eq_none (by rw [hp]; rfl))
  | headerField =>
      have hfield := hsame (c := .headerField) (by rw [hp]; rfl)
      simp only
      split
      · exact h.pass hfield
      · exact h.call _ hfield
  | headerValueDiscardWs =>
      simp only
      split
      · exact h
      · exact h.take .headerValue (hnone (by rw [hp]; rfl))
  | headerValueDiscardLws =>
      simp only
      split
      · exact h
      · rw [hmark.eq_none (by rw [hp]; rfl)] at h
        rw [h.eq_empty]
        refine Mirrors.fieldStart ?_ (MarkedText.call_mark _)
        exact mirrors_empty
  | headerValueStart => exact h.take .headerValue (hnone (by rw [hp]; rfl))
  | headerValue =>
      have hvalue := hsame (c := .headerValue) (by rw [hp]; rfl)
      simp only
      split
      · exact h.call _ hvalue
      · exact h.pass hvalue
  | headerValueLws =>
      simp only
      split
      · exact h.take .headerValue (hnone (by rw [hp]; rfl))
      · exact h.fieldStart (hmark.eq_none (by rw [hp]; rfl))
  | bodyIdentity =>
      have hbody : Mirrors (insert .body marks) (d.take .responseBody ch).mark :=
        h.take .responseBody (hsame (by rw [hp]; rfl))
      simp only
      split
      · refine hbody.call .responseBody fun m hm => ?_
        obtain rfl := Option.some.inj hm
        rfl
      · exact hbody
  | bodyIdentityEof => exact h.take .responseBody (hsame (by rw [hp]; rfl))
  | chunkData => exact h.take .responseBody (hsame (by rw [hp]; rfl))
  | chunkDataAlmostDone => exact h.call .responseBody (hsame (by rw [hp]; rfl))
  | _ => exact h

/-- The status text: it begins with its mark and ends with its callback. -/
theorem status_lands :
    Lands (fun state => ¬ (ch = cr ∨ ch = lf) → state = .resStatus) (resStatusStart p ch) ∧
    (p.state = .resStatus →
      Lands (fun state => ¬ (ch = cr ∨ ch = lf) → state = .resStatus) (resStatus p ch)) := by
  unfold resStatusStart resStatus
  refine ⟨?_, fun hstate => ?_⟩
  · split
    · exact fun hne => absurd (Or.inl ‹_›) hne
    · split
      · exact fun hne => absurd (Or.inr ‹_›) hne
      · exact fun _ => rfl
  · split
    · exact fun hne => absurd (Or.inl ‹_›) hne
    · split
      · exact fun hne => absurd (Or.inr ‹_›) hne
      · exact fun _ => hstate

/-- One byte that is passed. -/
theorem scanByte_tracked (h : Tracked p.state marks d.mark) (hmark : Marks p.state d.mark)
    (hbyte : scanByte p loop ch = .next q loop' m) :
    Tracked q.state (markByte p ch marks) (dataByte p ch d).mark := by
  by_cases hstart : p.state = .resStatusStart
  · have hmirrors : Mirrors marks none := by
      have := h.mirrors (by rw [hstart]; exact fun heq => by cases heq)
      rwa [hmark.eq_none (by rw [hstart]; rfl)] at this
    have hlands : Lands (fun state => ¬ (ch = cr ∨ ch = lf) → state = .resStatus)
        (scanByte p loop ch) := by
      unfold scanByte
      simp only [hstart]
      refine loopHead_lands fun n => ?_
      rw [scanState, show (p.setNread n).state = .resStatusStart from hstart]
      exact status_lands.1
    rw [hbyte] at hlands
    rw [hmirrors.eq_empty, markByte]
    simp only [hstart]
    split
    · exact mirrors_empty.tracked
    · rename_i hne
      exact fun x hx => Or.inl ⟨by simpa using hx, hlands hne⟩
  by_cases hstatus : p.state = .resStatus
  · have hnone := hmark.eq_none (by rw [hstatus]; rfl)
    have hall : ∀ x ∈ marks, x = .status := by
      intro x hx
      rcases h x hx with ⟨hx, -⟩ | ⟨m, hm, -⟩
      · exact hx
      · rw [hnone] at hm
        cases hm
    have hlands : Lands (fun state => ¬ (ch = cr ∨ ch = lf) → state = .resStatus)
        (scanByte p loop ch) := by
      unfold scanByte
      simp only [hstatus]
      refine loopHead_lands fun n => ?_
      rw [scanState, show (p.setNread n).state = .resStatus from hstatus]
      exact status_lands.2 hstatus
    rw [hbyte] at hlands
    rw [markByte]
    simp only [hstatus]
    split
    · intro x hx
      obtain ⟨hne, hx⟩ := Finset.mem_erase.mp hx
      exact absurd (hall x hx) hne
    · rename_i hne
      exact fun x hx => Or.inl ⟨hall x hx, hlands hne⟩
  · exact (markByte_mirrors (h.mirrors hstatus) hmark hstart hstatus).tracked

end HttpParser

end WrkQuic
