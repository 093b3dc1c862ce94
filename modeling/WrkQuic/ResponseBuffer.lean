import Mathlib.Algebra.Group.Nat.Even
import WrkQuic.Lib.CStrings

/-!
# Header and body buffers

The growing buffers of script.c and the parser callbacks that fill them.
The header buffer is a sequence of C strings, name and value in turn,
each NUL written when the next part begins (`header_field`,
`header_value`) or the response ends.

A buffer keeps its allocation when it is reset, with whatever bytes an
earlier response left there; bytes never written are `none`. A store past
the allocation, and a read of a byte that was never written or lies
outside of it, make the function return `none`.
-/

namespace WrkQuic

abbrev Bytes := List UInt8

/-- `cursor` is an offset from the start; the null pointer is the buffer of
length 0. -/
structure Buffer where
  mem : ℕ → Option UInt8
  length : ℕ
  cursor : ℕ

/-- A buffer in a `zcalloc`ed connection. -/
def Buffer.zeroed : Buffer where
  mem := fun _ => none
  length := 0
  cursor := 0

/-- Stores at the cursor and advances it. -/
def Buffer.store (b : Buffer) (data : Bytes) : Option Buffer :=
  if b.cursor + data.length ≤ b.length then
    some { b with
      mem := fun i =>
        if b.cursor ≤ i ∧ i < b.cursor + data.length then data[i - b.cursor]?
        else b.mem i
      cursor := b.cursor + data.length }
  else none

/-- The `while` loop of `buffer_append`: `realloc` keeps the old bytes. -/
def growBuffer (used len : ℕ) : ℕ → Buffer → Buffer
  | 0, b => b
  | fuel + 1, b =>
      if b.length ≤ used + len + 1 then
        growBuffer used len fuel { b with
          length := b.length + 1024
          mem := fun i => if i < b.length then b.mem i else none }
      else b

def bufferAppend (b : Buffer) (data : Bytes) : Option Buffer :=
  let used := b.cursor
  (growBuffer used data.length (used + data.length + 2) b).store data

def bufferReset (b : Buffer) : Buffer := { b with cursor := 0 }

/-- `strchr(start, 0)`: the string at `start` and the offset of its NUL. -/
def strchr (b : Buffer) : ℕ → ℕ → Option (Bytes × ℕ)
  | 0, _ => none
  | fuel + 1, start =>
      match b.mem start with
      | none => none
      | some byte =>
          if byte = 0 then some ([], start)
          else (strchr b fuel (start + 1)).map fun r => (byte :: r.1, r.2)

/-- The string pushed and the offset past its NUL. -/
def bufferPushlstring (b : Buffer) (start : ℕ) : Option (Bytes × ℕ) :=
  (strchr b (b.length - start) start).map fun r => (r.1, r.2 + 1)

/-- The `n` bytes from `start`, as `lua_pushlstring` copies them. -/
def readBytes (b : Buffer) : ℕ → ℕ → Option Bytes
  | 0, _ => some []
  | n + 1, start => do
      let byte ← b.mem start
      let rest ← readBytes b n (start + 1)
      some (byte :: rest)

/-! ## A connection's buffers -/

inductive HeaderState where
  | field
  | value
deriving DecidableEq, Repr

/-- The arguments of one call of the script's `response`: `headers` are the
`lua_rawset`s that fill the table, in order. -/
structure ResponseCall where
  status : ℕ
  headers : List (Bytes × Bytes)
  body : Bytes
  request : Bytes
deriving DecidableEq, Repr

/-- The part of `connection` that carries response data to the script, and
the calls of `response` made so far. -/
structure Slot where
  headers : Buffer
  body : Buffer
  state : HeaderState
  calls : List ResponseCall

def Slot.initial : Slot where
  headers := .zeroed
  body := .zeroed
  state := .field
  calls := []

def headerField (c : Slot) (data : Bytes) : Option Slot := do
  let headers ← if c.state = .value then c.headers.store [0] else some c.headers
  let headers ← bufferAppend headers data
  some { c with headers := headers, state := .field }

def headerValue (c : Slot) (data : Bytes) : Option Slot := do
  let headers ← if c.state = .field then c.headers.store [0] else some c.headers
  let headers ← bufferAppend headers data
  some { c with headers := headers, state := .value }

def responseBody (c : Slot) (data : Bytes) : Option Slot := do
  let body ← bufferAppend c.body data
  some { c with body := body }

/-- The loop of `script_response` that fills the headers table. -/
def headerPairs (b : Buffer) : ℕ → ℕ → Option (List (Bytes × Bytes))
  | 0, _ => none
  | fuel + 1, c =>
      if c < b.cursor then do
        let (key, c) ← bufferPushlstring b c
        let (value, c) ← bufferPushlstring b c
        let rest ← headerPairs b fuel c
        some ((key, value) :: rest)
      else some []

/-- `request` is the connection's `user` string. -/
def scriptResponse (c : Slot) (status : ℕ) (request : Bytes) : Option Slot := do
  let headers ← headerPairs c.headers (c.headers.cursor + 1) 0
  let body ← readBytes c.body c.body.cursor 0
  some { c with
    calls := c.calls ++ [⟨status, headers, body, request⟩]
    headers := bufferReset c.headers
    body := bufferReset c.body }

/-- The part of `response_complete` that concerns the script. -/
def responseToScript (c : Slot) (status : ℕ) (user : Bytes) : Option Slot :=
  if c.headers.length ≠ 0 then do
    let headers ← c.headers.store [0]
    let c ← scriptResponse { c with headers := headers } status user
    some { c with state := .field }
  else some c

/-- What reaches a connection's buffers: the parser's callbacks, and
`reconnect`, which replaces the socket and touches none of them. -/
inductive SlotEvent where
  | headerField (data : Bytes)
  | headerValue (data : Bytes)
  | body (data : Bytes)
  | complete (status : ℕ) (user : Bytes)
  | reconnect
deriving DecidableEq, Repr

def slotStep (c : Slot) : SlotEvent → Option Slot
  | .headerField data => headerField c data
  | .headerValue data => headerValue c data
  | .body data => responseBody c data
  | .complete status user => responseToScript c status user
  | .reconnect => some c

/-! ## What a buffer holds -/

/-- The bytes before the cursor are `bs`. -/
structure Buffer.Holds (b : Buffer) (bs : Bytes) : Prop where
  cursor : b.cursor = bs.length
  bytes : ∀ i, i < bs.length → b.mem i = bs[i]?
  within : bs.length ≤ b.length

/-- There is room for one more byte, which `buffer_append` ensures. -/
def Buffer.Room (b : Buffer) : Prop := b.cursor < b.length

theorem Buffer.holds_zeroed : Buffer.zeroed.Holds [] where
  cursor := rfl
  bytes := fun i h => absurd h (Nat.not_lt_zero i)
  within := Nat.le_refl 0

theorem Buffer.holds_reset (b : Buffer) : (bufferReset b).Holds [] where
  cursor := rfl
  bytes := fun i h => absurd h (Nat.not_lt_zero i)
  within := Nat.zero_le _

theorem Buffer.Holds.store {b : Buffer} {bs : Bytes} (h : b.Holds bs) (data : Bytes)
    (hfit : bs.length + data.length ≤ b.length) :
    ∃ b', b.store data = some b' ∧ b'.Holds (bs ++ data) ∧ b'.length = b.length := by
  obtain ⟨hcursor, hbytes, -⟩ := h
  unfold Buffer.store
  rw [if_pos (by omega)]
  refine ⟨_, rfl, ⟨?_, fun i hi => ?_, ?_⟩, rfl⟩
  · rw [List.length_append, hcursor]
  · rw [List.length_append] at hi
    simp only [hcursor]
    by_cases hold : i < bs.length
    · rw [if_neg (by omega), hbytes i hold, List.getElem?_append_left hold]
    · rw [if_pos (by omega), List.getElem?_append_right (by omega)]
  · rw [List.length_append]
    exact hfit

/-- The `while` loop of `buffer_append` ends with room for the data and one
more byte, and keeps what the buffer holds. -/
theorem growBuffer_spec {bs : Bytes} (len : ℕ) :
    ∀ (fuel : ℕ) {b : Buffer}, b.Holds bs → bs.length + len + 2 ≤ b.length + fuel →
      (growBuffer bs.length len fuel b).Holds bs ∧
      bs.length + len + 1 < (growBuffer bs.length len fuel b).length
  | 0, b, h, hfuel => ⟨h, by unfold growBuffer; omega⟩
  | fuel + 1, b, h, hfuel => by
      unfold growBuffer
      split
      · refine growBuffer_spec len fuel ⟨h.cursor, fun i hi => ?_, ?_⟩ (by simp only; omega)
        · have := h.within
          simp only
          rw [if_pos (by omega), h.bytes i hi]
        · exact Nat.le_add_right_of_le h.within
      · exact ⟨h, by omega⟩

theorem bufferAppend_holds {b : Buffer} {bs : Bytes} (h : b.Holds bs) (data : Bytes) :
    ∃ b', bufferAppend b data = some b' ∧ b'.Holds (bs ++ data) ∧ b'.Room := by
  obtain ⟨hgrown, hroom⟩ := growBuffer_spec data.length (bs.length + data.length + 2)
    h (by omega)
  obtain ⟨b', hstore, hholds, hlen⟩ := hgrown.store data (by omega)
  refine ⟨b', ?_, hholds, ?_⟩
  · simp only [bufferAppend, h.cursor]
    exact hstore
  · have hcursor := hholds.cursor
    rw [List.length_append] at hcursor
    rw [Buffer.Room, hlen]
    omega

theorem Buffer.Holds.putNul {b : Buffer} {bs : Bytes} (h : b.Holds bs) (hroom : b.Room) :
    ∃ b', b.store [0] = some b' ∧ b'.Holds (bs ++ [0]) ∧ b'.length = b.length := by
  have hcursor := h.cursor
  rw [Buffer.Room] at hroom
  exact h.store [0] (by simp only [List.length_singleton]; omega)

/-! ## Reading a buffer back -/

theorem Buffer.Holds.mem_append {b : Buffer} {pre bs : Bytes} {byte : UInt8}
    (h : b.Holds (pre ++ byte :: bs)) : b.mem pre.length = some byte := by
  rw [h.bytes _ (by simp)]
  simp

/-- Moving the first byte of the rest to the prefix. -/
theorem Buffer.Holds.shift {b : Buffer} {pre bs : Bytes} {byte : UInt8}
    (h : b.Holds (pre ++ byte :: bs)) : b.Holds (pre ++ [byte] ++ bs) := by
  rwa [List.append_assoc, List.singleton_append]

theorem strchr_string {b : Buffer} {s post : Bytes} (hs : 0 ∉ s) :
    ∀ {fuel : ℕ} {pre : Bytes}, b.Holds (pre ++ (s ++ 0 :: post)) → s.length < fuel →
      strchr b fuel pre.length = some (s, pre.length + s.length) := by
  induction s with
  | nil =>
      intro fuel pre h hfuel
      cases fuel with
      | zero => exact absurd hfuel (Nat.not_lt_zero _)
      | succ fuel =>
          rw [List.nil_append] at h
          simp only [strchr, h.mem_append]
          rfl
  | cons byte s ih =>
      intro fuel pre h hfuel
      rw [List.mem_cons, not_or] at hs
      cases fuel with
      | zero => exact absurd hfuel (Nat.not_lt_zero _)
      | succ fuel =>
          rw [List.length_cons] at hfuel
          rw [List.cons_append] at h
          have hrest := ih hs.2 h.shift (Nat.lt_of_succ_lt_succ hfuel)
          rw [List.length_append, List.length_singleton] at hrest
          simp only [strchr, h.mem_append]
          rw [if_neg (Ne.symm hs.1), hrest, Option.map_some, List.length_cons]
          simp only [Option.some.injEq, Prod.mk.injEq, true_and]
          omega

theorem bufferPushlstring_string {b : Buffer} {pre s post : Bytes} (hs : 0 ∉ s)
    (h : b.Holds (pre ++ (s ++ 0 :: post))) :
    bufferPushlstring b pre.length = some (s, (pre ++ s ++ [0]).length) := by
  have hwithin := h.within
  simp only [List.length_append, List.length_cons] at hwithin
  rw [bufferPushlstring, strchr_string hs h (by omega)]
  simp [Nat.add_assoc]

theorem readBytes_holds {b : Buffer} : ∀ {bs pre : Bytes}, b.Holds (pre ++ bs) →
    readBytes b bs.length pre.length = some bs
  | [], _, _ => rfl
  | byte :: bs, pre, h => by
      have hrest := readBytes_holds h.shift
      rw [List.length_append, List.length_singleton] at hrest
      simp only [List.length_cons, readBytes, h.mem_append, hrest, Option.bind_eq_bind,
        Option.bind_some]

open CStrings

/-- The table loop reads an even number of strings as pairs. -/
theorem headerPairs_strings {b : Buffer} : ∀ {ss : List Bytes} {pre : Bytes} {fuel : ℕ},
    b.Holds (pre ++ terminated 0 ss) → (∀ s ∈ ss, 0 ∉ s) → Even ss.length →
      ss.length < fuel → headerPairs b fuel pre.length = some (pairUp ss)
  | _, _, 0, _, _, _, hfuel => absurd hfuel (Nat.not_lt_zero _)
  | [], pre, fuel + 1, h, _, _, _ => by
      have hcursor := h.cursor
      rw [terminated, List.flatMap_nil, List.append_nil] at hcursor
      rw [headerPairs, if_neg (by omega)]
      rfl
  | [s], _, _ + 1, _, _, heven, _ => by
      rw [List.length_singleton] at heven
      exact absurd heven (by decide)
  | key :: value :: ss, pre, fuel + 1, h, hnul, heven, hfuel => by
      have hcursor := h.cursor
      rw [terminated_cons] at h
      have hkey := bufferPushlstring_string (hnul key List.mem_cons_self) h
      have hafter : b.Holds (pre ++ key ++ [0] ++ (value ++ 0 :: terminated 0 ss)) := by
        rw [terminated_cons] at h
        simpa using h
      have hvalue := bufferPushlstring_string
        (hnul value (List.mem_cons_of_mem _ List.mem_cons_self)) hafter
      have hlast : b.Holds (pre ++ key ++ [0] ++ value ++ [0] ++ terminated 0 ss) := by
        simpa using hafter
      have heven' : Even ss.length := by
        rw [List.length_cons, List.length_cons] at heven
        obtain ⟨k, hk⟩ := heven
        exact ⟨k - 1, by omega⟩
      have hfuel' : ss.length < fuel := by
        rw [List.length_cons, List.length_cons] at hfuel
        omega
      have hrest := headerPairs_strings hlast
        (fun s hs => hnul s (List.mem_cons_of_mem _ (List.mem_cons_of_mem _ hs))) heven' hfuel'
      have hlt : pre.length < b.cursor := by
        rw [hcursor, terminated_cons, List.length_append, List.length_append, List.length_cons]
        omega
      rw [headerPairs, if_pos hlt]
      simp only [hkey, hvalue, hrest, Option.bind_eq_bind, Option.bind_some, pairUp]

end WrkQuic
