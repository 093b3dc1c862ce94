import WrkQuic.HttpScan
import WrkQuic.ResponseBuffer

/-!
# The data callbacks

What `http_parser_execute` hands over of a response. Each of `header_field`,
`header_value` and `response_body` gets the bytes from a mark to the byte
that ends them, or to the end of the chunk; a chunk that begins inside a
header field or value begins with its mark. At most one mark is set at any
time.

How the text is cut does not show in the buffers: a byte adds the same to
what has been handed over and what is marked, in any chunk (`dataByte_text`).
-/

namespace WrkQuic

/-! ## The buffers -/

inductive DataCallback where
  | headerField
  | headerValue
  | responseBody
deriving DecidableEq

/-- What the callbacks have stored of a response: the bytes of the header
buffer, `c->state`, and the bytes of the body buffer. -/
structure ResponseText where
  headers : Bytes
  state : HeaderState
  body : Bytes
deriving DecidableEq

namespace ResponseText

def empty : ResponseText := ⟨[], .field, []⟩

/-- A name or a value that follows the other begins with a NUL. -/
def add (t : ResponseText) (callback : DataCallback) (data : Bytes) : ResponseText :=
  match callback with
  | .headerField =>
      { t with
        headers := t.headers ++ (if t.state = .value then [0] else []) ++ data
        state := .field }
  | .headerValue =>
      { t with
        headers := t.headers ++ (if t.state = .field then [0] else []) ++ data
        state := .value }
  | .responseBody => { t with body := t.body ++ data }

theorem add_append (t : ResponseText) (callback : DataCallback) (u v : Bytes) :
    (t.add callback u).add callback v = t.add callback (u ++ v) := by
  cases callback <;> simp [add]

end ResponseText

def DataCallback.event (callback : DataCallback) (data : Bytes) : SlotEvent :=
  match callback with
  | .headerField => .headerField data
  | .headerValue => .headerValue data
  | .responseBody => .body data

/-- The buffers of the connection hold the text. -/
structure Slot.Stores (c : Slot) (t : ResponseText) : Prop where
  headers : c.headers.Holds t.headers
  state : c.state = t.state
  body : c.body.Holds t.body

/-- The callbacks of `wrk.c` do to the buffers what `add` does to the text,
where the buffer has room for the NUL, as it has after a name or a value. -/
theorem slotStep_stores {c : Slot} {t : ResponseText} (h : c.Stores t) (callback : DataCallback)
    (data : Bytes)
    (hroom : callback ≠ .responseBody → t.state = .value ∨ callback = .headerValue →
      c.headers.Room) :
    ∃ c', slotStep c (callback.event data) = some c' ∧ c'.Stores (t.add callback data) ∧
      (callback ≠ .responseBody → c'.headers.Room) := by
  obtain ⟨hheaders, hstate, hbody⟩ := h
  cases callback with
  | headerField =>
      by_cases hvalue : t.state = .value
      · obtain ⟨b, hput, hnul, -⟩ := hheaders.putNul (hroom (by decide) (Or.inl hvalue))
        obtain ⟨b', happend, hdata, hroom'⟩ := bufferAppend_holds hnul data
        refine ⟨{ c with headers := b', state := .field }, ?_, ⟨?_, rfl, hbody⟩, fun _ => hroom'⟩
        · simp [slotStep, DataCallback.event, headerField, hstate, hvalue, hput, happend]
        · simpa [ResponseText.add, hvalue] using hdata
      · obtain ⟨b', happend, hdata, hroom'⟩ := bufferAppend_holds hheaders data
        refine ⟨{ c with headers := b', state := .field }, ?_, ⟨?_, rfl, hbody⟩, fun _ => hroom'⟩
        · simp [slotStep, DataCallback.event, headerField, hstate, hvalue, happend]
        · simpa [ResponseText.add, hvalue] using hdata
  | headerValue =>
      by_cases hfield : t.state = .field
      · obtain ⟨b, hput, hnul, -⟩ := hheaders.putNul (hroom (by decide) (Or.inr rfl))
        obtain ⟨b', happend, hdata, hroom'⟩ := bufferAppend_holds hnul data
        refine ⟨{ c with headers := b', state := .value }, ?_, ⟨?_, rfl, hbody⟩, fun _ => hroom'⟩
        · simp [slotStep, DataCallback.event, headerValue, hstate, hfield, hput, happend]
        · simpa [ResponseText.add, hfield] using hdata
      · obtain ⟨b', happend, hdata, hroom'⟩ := bufferAppend_holds hheaders data
        refine ⟨{ c with headers := b', state := .value }, ?_, ⟨?_, rfl, hbody⟩, fun _ => hroom'⟩
        · simp [slotStep, DataCallback.event, headerValue, hstate, hfield, happend]
        · simpa [ResponseText.add, hfield] using hdata
  | responseBody =>
      obtain ⟨b', happend, hdata, -⟩ := bufferAppend_holds hbody data
      refine ⟨{ c with body := b' }, ?_, ⟨hheaders, hstate, hdata⟩, fun h => absurd rfl h⟩
      simp [slotStep, DataCallback.event, responseBody, happend]

/-! ## Marks -/

/-- A mark that is set, with the bytes from it on. -/
structure DataMark where
  callback : DataCallback
  data : Bytes
deriving DecidableEq

/-- What has been handed over, and what is still marked. -/
structure MarkedText where
  text : ResponseText
  mark : Option DataMark
deriving DecidableEq

namespace MarkedText

/-- `MARK` at the byte, or the byte passed behind a mark that is set. -/
def take (d : MarkedText) (callback : DataCallback) (ch : UInt8) : MarkedText :=
  { d with mark := some ⟨callback, (d.mark.elim [] DataMark.data) ++ [ch]⟩ }

/-- `CALLBACK_DATA` for the mark that is set. -/
def call (d : MarkedText) : MarkedText :=
  match d.mark with
  | some m => ⟨d.text.add m.callback m.data, none⟩
  | none => d

theorem call_mark (d : MarkedText) : d.call.mark = none := by
  unfold call
  split
  · rfl
  · assumption

/-- What would be handed over at the end of the chunk. -/
def all (d : MarkedText) : ResponseText := d.call.text

end MarkedText

namespace HttpParser

/-- The mark at the start of a chunk. -/
def chunkStart (p : HttpParser) (t : ResponseText) : MarkedText :=
  match p.state with
  | .headerField => ⟨t, some ⟨.headerField, []⟩⟩
  | .headerValue => ⟨t, some ⟨.headerValue, []⟩⟩
  | _ => ⟨t, none⟩

def fieldStartData (d : MarkedText) (ch : UInt8) : MarkedText :=
  if ch = cr ∨ ch = lf then d else d.take .headerField ch

/-- The marks and data callbacks of `http_parser_execute` at a byte that it
passes. -/
def dataByte (p : HttpParser) (ch : UInt8) (d : MarkedText) : MarkedText :=
  match p.state with
  | .headerFieldStart => fieldStartData d ch
  | .headerField => if token ch ≠ 0 then d.take .headerField ch else d.call
  | .headerValueDiscardWs =>
      if (ch = space ∨ ch = tab) ∨ ch = cr ∨ ch = lf then d else d.take .headerValue ch
  | .headerValueDiscardLws =>
      -- the value was empty
      if ch = space ∨ ch = tab then d
      else fieldStartData ({ d with mark := some ⟨.headerValue, []⟩ } : MarkedText).call ch
  | .headerValueStart => d.take .headerValue ch
  | .headerValue => if ch = cr ∨ ch = lf then d.call else d.take .headerValue ch
  | .headerValueLws =>
      if ch = space ∨ ch = tab then d.take .headerValue ch else fieldStartData d ch
  | .bodyIdentity =>
      let d := d.take .responseBody ch
      if p.contentLength - 1 = 0 then d.call else d
  | .bodyIdentityEof | .chunkData => d.take .responseBody ch
  | .chunkDataAlmostDone => d.call
  | _ => d

end HttpParser

/-! ## A chunk with its data -/

/-- A response as `response_complete` finds it. -/
structure ReadResponse where
  status : ℕ
  headers : Bytes
  body : Bytes
  /-- `http_should_keep_alive`. -/
  keepAlive : Bool
deriving DecidableEq

def ReadResponse.completion (r : ReadResponse) : Completion := ⟨r.status, r.keepAlive⟩

def ResponseText.response (t : ResponseText) (m : Completion) : ReadResponse :=
  ⟨m.status, t.headers, t.body, m.keepAlive⟩

/-- `Parsed` with the responses that are complete and the text of the next. -/
structure DataParsed where
  parser : HttpParser
  text : ResponseText
  responses : List ReadResponse
  consumed : ℕ

namespace HttpParser

/-- `scan` with its data callbacks. After an error the text is not looked
at. -/
def scanData (p : HttpParser) (loop : Option ℕ) (d : MarkedText) (done : ℕ) : Bytes → DataParsed
  | [] =>
      let r := scan p loop done []
      ⟨r.parser, d.all, [], r.consumed⟩
  | ch :: rest =>
      match scanByte p loop ch with
      | .next p' loop none => scanData p' loop (dataByte p ch d) (done + 1) rest
      | .next p' loop (some m) =>
          let d := dataByte p ch d
          let r := scanData p' loop { d with text := .empty } (done + 1) rest
          { r with responses := d.text.response m :: r.responses }
      | .error p' back => ⟨p', d.text, [], done - back⟩
      | .leave p' m => ⟨p', .empty, [(dataByte p ch d).text.response m], done + 1⟩

/-- `execute` with its data callbacks. -/
def executeData (p : HttpParser) (t : ResponseText) (chunk : Bytes) : DataParsed :=
  if p.httpErrno.isSome then ⟨p, t, [], 0⟩
  else if chunk = [] then
    let r := scanEof p
    ⟨r.parser, if r.completions = [] then t else .empty, r.completions.map t.response, r.consumed⟩
  else scanData p none (chunkStart p t) 0 chunk

theorem scanData_scan : ∀ (chunk : Bytes) (p : HttpParser) (loop : Option ℕ) (d : MarkedText)
    (done : ℕ), (scanData p loop d done chunk).parser = (scan p loop done chunk).parser ∧
      (scanData p loop d done chunk).consumed = (scan p loop done chunk).consumed ∧
      (scanData p loop d done chunk).responses.map ReadResponse.completion =
        (scan p loop done chunk).completions
  | [], p, loop, d, done => by
      refine ⟨rfl, rfl, ?_⟩
      rw [scan]
      split <;> rfl
  | ch :: rest, p, loop, d, done => by
      rw [scanData, scan]
      cases scanByte p loop ch with
      | next p' loop' m =>
          cases m with
          | none => exact scanData_scan rest p' loop' (dataByte p ch d) (done + 1)
          | some m =>
              obtain ⟨hparser, hconsumed, hresponses⟩ :=
                scanData_scan rest p' loop' { dataByte p ch d with text := .empty } (done + 1)
              refine ⟨hparser, hconsumed, ?_⟩
              simp only [List.map_cons, hresponses]
              rfl
      | error p' back => exact ⟨rfl, rfl, rfl⟩
      | leave p' m => exact ⟨rfl, rfl, rfl⟩

/-- The data callbacks change nothing in the parser. -/
theorem executeData_execute (p : HttpParser) (t : ResponseText) (chunk : Bytes) :
    (executeData p t chunk).parser = (execute p chunk).parser ∧
      (executeData p t chunk).consumed = (execute p chunk).consumed ∧
      (executeData p t chunk).responses.map ReadResponse.completion =
        (execute p chunk).completions := by
  unfold executeData execute
  split
  · exact ⟨rfl, rfl, rfl⟩
  · split
    · refine ⟨rfl, rfl, ?_⟩
      simp only [List.map_map]
      exact List.map_id' _
    · exact scanData_scan chunk p none (chunkStart p t) 0

end HttpParser

/-! ## Which mark is set -/

/-- The data that a state is in the middle of. -/
def ParserState.marked : ParserState → Option DataCallback
  | .headerField => some .headerField
  | .headerValue => some .headerValue
  | .bodyIdentity | .bodyIdentityEof | .chunkData | .chunkDataAlmostDone => some .responseBody
  | _ => none

/-- A header field or value is marked whenever the parser is inside of it. -/
def ParserState.inLoop (state : ParserState) : Prop := state = .headerField ∨ state = .headerValue

structure Marks (state : ParserState) (mark : Option DataMark) : Prop where
  callback : ∀ m, mark = some m → state.marked = some m.callback
  isSome : state.inLoop → mark.isSome = true

theorem Marks.unset {state : ParserState} (h : ¬ state.inLoop) : Marks state none :=
  ⟨fun _ hm => (nomatch hm), fun hloop => absurd hloop h⟩

theorem Marks.set {state : ParserState} {m : DataMark} (h : state.marked = some m.callback) :
    Marks state (some m) := by
  refine ⟨?_, fun _ => rfl⟩
  rintro m' ⟨⟩
  exact h

theorem Marks.eq_none {state : ParserState} {mark : Option DataMark} (h : Marks state mark)
    (hstate : state.marked = none) : mark = none := by
  cases mark with
  | none => rfl
  | some m =>
      have := h.callback m rfl
      rw [hstate] at this
      cases this

namespace HttpParser

/-- The state after a byte that is passed. -/
def Lands (S : ParserState → Prop) : Scanned → Prop
  | .next p _ _ => S p.state
  | .leave p _ => S p.state
  | .error _ _ => True

variable {p p' : HttpParser} {ch c : UInt8} {k : HttpParser → Scanned} {loop : Option ℕ}
  {m : Option Completion} {S : ParserState → Prop}

theorem countHeaderSize_lands {n : ℕ} (hk : ∀ n, Lands S (k (p.setNread n))) :
    Lands S (countHeaderSize p n k) := by
  unfold countHeaderSize
  simp only
  split
  · trivial
  · exact hk _

theorem loopHead_lands (hk : ∀ n, Lands S (k (p.setNread n))) : Lands S (loopHead p k) := by
  unfold loopHead
  split
  · exact countHeaderSize_lands hk
  · exact hk p.nread

theorem strictCheck_lands {k : Scanned} (hk : Lands S k) : Lands S (strictCheck p ch c k) := by
  unfold strictCheck
  split
  · trivial
  · exact hk

theorem newMessage_inLoop (p : HttpParser) : ¬ (newMessage p).state.inLoop := by
  unfold newMessage
  split
  · rintro (h | h) <;> cases h
  · rintro (h | h) <;> cases h

theorem messageComplete_lands : Lands (¬ ·.inLoop) (messageComplete p) := newMessage_inLoop p

theorem headersDone_lands : Lands (¬ ·.inLoop) (headersDone p ch) := by
  refine strictCheck_lands ?_
  simp only
  split
  · exact newMessage_inLoop _
  · split
    · rintro (h | h) <;> cases h
    · split
      · exact messageComplete_lands
      · split
        · rintro (h | h) <;> cases h
        · split
          · exact messageComplete_lands
          · rintro (h | h) <;> cases h

theorem headersAlmostDone_lands : Lands (¬ ·.inLoop) (headersAlmostDone p ch) := by
  refine strictCheck_lands ?_
  split
  · exact messageComplete_lands
  · exact loopHead_lands fun _ => headersDone_lands

theorem headerFieldStart_lands :
    Lands (fun state => if ch = cr ∨ ch = lf then ¬ state.inLoop else state = .headerField)
      (headerFieldStart p ch) := by
  unfold headerFieldStart
  by_cases hcr : ch = cr
  · rw [if_pos hcr]
    simp only [hcr, true_or, if_true]
    rintro (h | h) <;> cases h
  · rw [if_neg hcr]
    by_cases hlf : ch = lf
    · rw [if_pos hlf]
      simp only [hlf, or_true, if_true]
      exact loopHead_lands fun _ => headersAlmostDone_lands
    · rw [if_neg hlf]
      simp only [hcr, hlf, or_self, if_false]
      split
      · trivial
      · rfl

theorem headerValueStart_lands : Lands (· = .headerValue) (headerValueStart p ch) := by
  unfold headerValueStart
  simp only
  split
  · rfl
  · rfl
  · split
    · rfl
    · trivial
  · rfl
  · rfl
  · rfl

/-- The states of the status line and of the chunk sizes. -/
theorem quiet_lands (p : HttpParser) (hp : ¬ p.state.inLoop) (ch : UInt8) :
    Lands (¬ ·.inLoop) (startRes p ch) ∧ Lands (¬ ·.inLoop) (resFirstHttpMajor p ch) ∧
      Lands (¬ ·.inLoop) (resHttpMajor p ch) ∧ Lands (¬ ·.inLoop) (resFirstHttpMinor p ch) ∧
      Lands (¬ ·.inLoop) (resHttpMinor p ch) ∧ Lands (¬ ·.inLoop) (resFirstStatusCode p ch) ∧
      Lands (¬ ·.inLoop) (resStatusCode p ch) ∧ Lands (¬ ·.inLoop) (resStatusStart p ch) ∧
      Lands (¬ ·.inLoop) (resStatus p ch) ∧ Lands (¬ ·.inLoop) (chunkSizeStart p ch) ∧
      Lands (¬ ·.inLoop) (chunkSize p ch) ∧ Lands (¬ ·.inLoop) (chunkParameters p ch) ∧
      Lands (¬ ·.inLoop) (chunkSizeAlmostDone p ch) ∧ Lands (¬ ·.inLoop) (chunkDataDone p ch) := by
  simp only [startRes, resFirstHttpMajor, resHttpMajor, resFirstHttpMinor, resHttpMinor,
    resFirstStatusCode, resStatusCode, resStatusStart, resStatus, chunkSizeStart, chunkSize,
    chunkParameters, chunkSizeAlmostDone, chunkDataDone, strictCheck]
  refine ⟨?_, ?_, ?_, ?_, ?_, ?_, ?_, ?_, ?_, ?_, ?_, ?_, ?_, ?_⟩
  all_goals
    repeat' split
    all_goals first
      | trivial
      | exact hp
      | (rintro (h | h) <;> cases h)

theorem Lands.imp {T : ParserState → Prop} {r : Scanned} (h : Lands S r)
    (himp : ∀ state, S state → T state) : Lands T r := by
  cases r with
  | next q loop m => exact himp q.state h
  | error q back => trivial
  | leave q m => exact himp q.state h

variable {d : MarkedText}

theorem fieldStartData_lands (h : d.mark = none) :
    Lands (fun state => Marks state (fieldStartData d ch).mark) (headerFieldStart p ch) := by
  refine headerFieldStart_lands.imp fun state hstate => ?_
  unfold fieldStartData
  split
  · rename_i hch
    rw [if_pos hch] at hstate
    rw [h]
    exact Marks.unset hstate
  · rename_i hch
    rw [if_neg hch] at hstate
    exact Marks.set (hstate ▸ rfl)

theorem headerField_lands {n : ℕ} (hstate : p.state = .headerField) :
    Lands (fun state => Marks state
      (if token ch ≠ 0 then d.take .headerField ch else d.call).mark) (headerField p n ch) := by
  unfold headerField
  by_cases htoken : token ch ≠ 0
  · rw [if_pos htoken, if_pos htoken]
    exact Marks.set (congrArg ParserState.marked hstate)
  · rw [if_neg htoken, if_neg htoken, d.call_mark]
    refine countHeaderSize_lands fun k => ?_
    split
    · exact Marks.unset fun h => by rcases h with h | h <;> cases h
    · trivial

theorem headerValue_lands {n : ℕ} (hstate : p.state = .headerValue) :
    Lands (fun state => Marks state
      (if ch = cr ∨ ch = lf then d.call else d.take .headerValue ch).mark)
      (headerValue p n ch) := by
  have hend {q : HttpParser} (hq : q.state = .headerAlmostDone ∨ q.state = .headerValueLws) :
      Marks q.state d.call.mark := by
    rw [d.call_mark]
    refine Marks.unset fun h => ?_
    rcases hq with hq | hq <;> rcases h with h | h <;> rw [hq] at h <;> cases h
  unfold headerValue
  by_cases hcr : ch = cr
  · rw [if_pos hcr, if_pos (Or.inl hcr)]
    exact countHeaderSize_lands fun k => hend (Or.inl rfl)
  · by_cases hlf : ch = lf
    · rw [if_neg hcr, if_pos hlf, if_pos (Or.inr hlf)]
      refine countHeaderSize_lands fun k => ?_
      simp only
      split
      · trivial
      · exact loopHead_lands fun k => strictCheck_lands (hend (Or.inr rfl))
    · rw [if_neg hcr, if_neg hlf, if_neg fun h => h.elim hcr hlf]
      split
      · split
        · exact Marks.set (congrArg ParserState.marked hstate)
        · trivial
      · exact Marks.set (congrArg ParserState.marked hstate)

/-- The start of a value at the byte, or behind blanks. -/
theorem headerValueStart_marks :
    Lands (fun state => Marks state (d.take .headerValue ch).mark) (headerValueStart p ch) :=
  headerValueStart_lands.imp fun _ hstate => Marks.set (hstate ▸ rfl)

theorem bodyIdentity_lands (hstate : p.state = .bodyIdentity) :
    Lands (fun state => Marks state
      (if p.contentLength - 1 = 0 then (d.take .responseBody ch).call
        else d.take .responseBody ch).mark) (bodyIdentity p ch) := by
  unfold bodyIdentity
  by_cases hlength : p.contentLength - 1 = 0
  · rw [if_pos hlength, if_pos (by exact hlength), MarkedText.call_mark]
    exact messageComplete_lands.imp fun _ => Marks.unset
  · rw [if_neg hlength, if_neg (by exact hlength)]
    exact Marks.set (congrArg ParserState.marked hstate)

theorem not_inLoop {state : ParserState} (h : state.marked = none) : ¬ state.inLoop := by
  rintro (hstate | hstate) <;> rw [hstate] at h <;> cases h

theorem scanState_lands (h : Marks p.state d.mark) :
    Lands (fun state => Marks state (dataByte p ch d).mark) (scanState p ch) := by
  have hquiet {r : Scanned} (hmarked : p.state.marked = none) (hr : Lands (¬ ·.inLoop) r) :
      Lands (fun state => Marks state d.mark) r := by
    rw [h.eq_none hmarked]
    exact hr.imp fun _ => Marks.unset
  have hexpect {c : UInt8} {next : ParserState} (hmarked : p.state.marked = none)
      (hnext : next.marked = none) : Lands (fun state => Marks state d.mark) (expect p ch c next) :=
    hquiet hmarked (strictCheck_lands (not_inLoop hnext))
  unfold scanState dataByte
  cases hstate : p.state with
  | headerFieldStart => exact fieldStartData_lands (h.eq_none (by rw [hstate]; rfl))
  | headerField => exact headerField_lands hstate
  | headerValueStart => exact headerValueStart_marks
  | headerValue => exact headerValue_lands hstate
  | headerValueDiscardWs =>
      have hmarked : p.state.marked = none := by
        rw [hstate]
        rfl
      simp only [headerValueDiscardWs]
      by_cases hblank : ch = space ∨ ch = tab
      · rw [if_pos hblank, if_pos (Or.inl hblank)]
        exact h
      · by_cases hcr : ch = cr
        · rw [if_neg hblank, if_pos hcr, if_pos (Or.inr (Or.inl hcr)), h.eq_none hmarked]
          exact Marks.unset (not_inLoop rfl)
        · by_cases hlf : ch = lf
          · rw [if_neg hblank, if_neg hcr, if_pos hlf, if_pos (Or.inr (Or.inr hlf)),
              h.eq_none hmarked]
            exact Marks.unset (not_inLoop rfl)
          · rw [if_neg hblank, if_neg hcr, if_neg hlf,
              if_neg fun h => h.elim hblank fun h => h.elim hcr hlf]
            exact headerValueStart_marks
  | headerValueDiscardLws =>
      have hmarked : p.state.marked = none := by
        rw [hstate]
        rfl
      simp only [headerValueDiscardLws]
      split
      · rw [h.eq_none hmarked]
        exact Marks.unset (not_inLoop rfl)
      · exact loopHead_lands fun _ => fieldStartData_lands (MarkedText.call_mark _)
  | headerValueLws =>
      have hmarked : p.state.marked = none := by
        rw [hstate]
        rfl
      simp only [headerValueLws]
      split
      · exact loopHead_lands fun _ => headerValueStart_marks
      · exact loopHead_lands fun _ => fieldStartData_lands (h.eq_none hmarked)
  | bodyIdentity => exact bodyIdentity_lands hstate
  | bodyIdentityEof => exact Marks.set (congrArg ParserState.marked hstate)
  | chunkData =>
      simp only [chunkData]
      split
      · exact Marks.set rfl
      · exact Marks.set (congrArg ParserState.marked hstate)
  | chunkDataAlmostDone =>
      simp only [MarkedText.call_mark]
      exact strictCheck_lands (Marks.unset (not_inLoop rfl))
  | dead =>
      have hmarked : p.state.marked = none := by
        rw [hstate]
        rfl
      refine hquiet hmarked ?_
      simp only
      split
      · exact not_inLoop hmarked
      · trivial
  | _ =>
      have hmarked : p.state.marked = none := by
        rw [hstate]
        rfl
      obtain ⟨hstart, hmajor, hmajor', hminor, hminor', hstatus, hstatus', hreason, hreason', hsize,
        hsize', hparam, hsizeDone, hdataDone⟩ := quiet_lands p (not_inLoop hmarked) ch
      first
        | exact hexpect hmarked rfl
        | exact hquiet hmarked (by assumption)
        | exact hquiet hmarked headersAlmostDone_lands
        | exact hquiet hmarked headersDone_lands
        | exact hquiet hmarked messageComplete_lands
        | trivial

theorem scanByte_lands (loop : Option ℕ) (ch : UInt8) (h : Marks p.state d.mark) :
    Lands (fun state => Marks state (dataByte p ch d).mark) (scanByte p loop ch) := by
  unfold scanByte
  split
  · rename_i n hstate
    unfold dataByte
    rw [hstate]
    exact headerField_lands hstate
  · rename_i n hstate
    unfold dataByte
    rw [hstate]
    exact headerValue_lands hstate
  · exact loopHead_lands fun n => scanState_lands (p := p.setNread n) h

/-! ## No mark at the end of a response -/

/-- A byte that completes a response leaves no mark. -/
def Unmarked (mark : Option DataMark) : Scanned → Prop
  | .next _ _ (some _) => mark = none
  | .leave _ _ => mark = none
  | _ => True

theorem unmarked_of_none {mark : Option DataMark} {r : Scanned} (h : mark = none) :
    Unmarked mark r := by
  cases r with
  | next q loop m => cases m <;> first | exact h | trivial
  | error q back => trivial
  | leave q m => exact h

variable {mark : Option DataMark}

theorem countHeaderSize_unmarked {n : ℕ} (hk : ∀ n, Unmarked mark (k (p.setNread n))) :
    Unmarked mark (countHeaderSize p n k) := by
  unfold countHeaderSize
  simp only
  split
  · trivial
  · exact hk _

theorem loopHead_unmarked (hk : ∀ n, Unmarked mark (k (p.setNread n))) :
    Unmarked mark (loopHead p k) := by
  unfold loopHead
  split
  · exact countHeaderSize_unmarked hk
  · exact hk p.nread

theorem expect_unmarked {next : ParserState} : Unmarked mark (expect p ch c next) := by
  unfold expect strictCheck
  split <;> trivial

theorem fieldStartData_unmarked (h : d.mark = none) :
    Unmarked (fieldStartData d ch).mark (headerFieldStart p ch) := by
  unfold fieldStartData
  split
  · exact unmarked_of_none h
  · rename_i hch
    rw [not_or] at hch
    rw [headerFieldStart, if_neg hch.1, if_neg hch.2]
    split <;> trivial

theorem headerField_unmarked {n : ℕ} : Unmarked mark (headerField p n ch) := by
  unfold headerField
  split
  · trivial
  · refine countHeaderSize_unmarked fun n => ?_
    split <;> trivial

theorem headerValueStart_unmarked : Unmarked mark (headerValueStart p ch) := by
  unfold headerValueStart
  simp only
  split
  · trivial
  · trivial
  · split <;> trivial
  · trivial
  · trivial
  · trivial

theorem headerValue_unmarked {n : ℕ} : Unmarked mark (headerValue p n ch) := by
  unfold headerValue
  split
  · exact countHeaderSize_unmarked fun n => trivial
  · split
    · refine countHeaderSize_unmarked fun n => ?_
      simp only
      split
      · trivial
      · exact loopHead_unmarked fun n => expect_unmarked
    · split
      · split <;> trivial
      · trivial

theorem scanState_unmarked (h : Marks p.state d.mark) :
    Unmarked (dataByte p ch d).mark (scanState p ch) := by
  unfold scanState dataByte
  cases hstate : p.state with
  | headerFieldStart => exact fieldStartData_unmarked (h.eq_none (by rw [hstate]; rfl))
  | headerField => exact headerField_unmarked
  | headerValueStart => exact headerValueStart_unmarked
  | headerValue => exact headerValue_unmarked
  | headerValueDiscardWs =>
      simp only [headerValueDiscardWs]
      by_cases hend : (ch = space ∨ ch = tab) ∨ ch = cr ∨ ch = lf
      · rw [if_pos hend]
        exact unmarked_of_none (h.eq_none (by rw [hstate]; rfl))
      · rw [if_neg hend, if_neg fun h => hend (Or.inl h), if_neg fun h => hend (Or.inr (Or.inl h)),
          if_neg fun h => hend (Or.inr (Or.inr h))]
        exact headerValueStart_unmarked
  | headerValueDiscardLws =>
      simp only [headerValueDiscardLws]
      split
      · trivial
      · exact loopHead_unmarked fun _ => fieldStartData_unmarked (MarkedText.call_mark _)
  | headerValueLws =>
      simp only [headerValueLws]
      split
      · exact loopHead_unmarked fun _ => headerValueStart_unmarked
      · exact loopHead_unmarked fun _ => fieldStartData_unmarked (h.eq_none (by rw [hstate]; rfl))
  | bodyIdentity =>
      simp only [bodyIdentity]
      split
      · exact unmarked_of_none (MarkedText.call_mark _)
      · trivial
  | bodyIdentityEof => trivial
  | chunkData =>
      simp only [chunkData]
      split <;> trivial
  | chunkDataAlmostDone => exact expect_unmarked
  | _ => exact unmarked_of_none (h.eq_none (by rw [hstate]; rfl))

theorem scanByte_unmarked (loop : Option ℕ) (ch : UInt8) (h : Marks p.state d.mark) :
    Unmarked (dataByte p ch d).mark (scanByte p loop ch) := by
  unfold scanByte
  split
  · exact headerField_unmarked
  · exact headerValue_unmarked
  · exact loopHead_unmarked fun n => scanState_unmarked (p := p.setNread n) h

/-! ## What a byte adds -/

/-- What a byte adds to the text, if nothing is marked. -/
def textByte (p : HttpParser) (ch : UInt8) (t : ResponseText) : ResponseText :=
  (dataByte p ch ⟨t, none⟩).all

theorem all_take {callback : DataCallback} (h : ∀ m, d.mark = some m → m.callback = callback) :
    (d.take callback ch).all = d.all.add callback [ch] := by
  obtain ⟨t, mark⟩ := d
  cases mark with
  | none => rfl
  | some m =>
      obtain rfl := h m rfl
      exact (t.add_append m.callback m.data [ch]).symm

theorem all_call (d : MarkedText) : d.call.all = d.all := by
  rw [MarkedText.all, MarkedText.call, d.call_mark]
  rfl

theorem all_unmarked (d : MarkedText) (h : d.mark = none) : (⟨d.all, none⟩ : MarkedText) = d := by
  obtain ⟨t, mark⟩ := d
  cases h
  rfl

/-- A byte adds the same to the text, whatever is marked before it. -/
theorem dataByte_text (ch : UInt8) (h : Marks p.state d.mark) :
    (dataByte p ch d).all = textByte p ch d.all := by
  have hmarked {callback : DataCallback} (hstate : p.state.marked = some callback) :
      (d.take callback ch).all = d.all.add callback [ch] := by
    refine all_take fun m hm => ?_
    have := h.callback m hm
    rw [hstate] at this
    exact (Option.some.inj this).symm
  have hunmarked (hstate : p.state.marked = none) :
      (dataByte p ch d).all = textByte p ch d.all := by
    rw [textByte, all_unmarked d (h.eq_none hstate)]
  unfold textByte dataByte
  unfold textByte dataByte at hunmarked
  cases hstate : p.state with
  | headerField =>
      simp only
      split
      · exact hmarked (by rw [hstate]; rfl)
      · exact all_call d
  | headerValue =>
      simp only
      split
      · exact all_call d
      · exact hmarked (by rw [hstate]; rfl)
  | bodyIdentity =>
      simp only
      split
      · exact (all_call _).trans (hmarked (by rw [hstate]; rfl))
      · exact hmarked (by rw [hstate]; rfl)
  | bodyIdentityEof => exact hmarked (by rw [hstate]; rfl)
  | chunkData => exact hmarked (by rw [hstate]; rfl)
  | chunkDataAlmostDone => exact all_call d
  | _ =>
      rw [hstate] at hunmarked
      exact hunmarked rfl

/-- Inside a header field or value the header buffer ends with a part of
it. -/
def Fits (state : ParserState) (t : ResponseText) : Prop :=
  (state = .headerField → t.state = .field) ∧ (state = .headerValue → t.state = .value)

theorem marks_fits {state : ParserState} (h : Marks state d.mark) : Fits state d.all := by
  obtain ⟨t, mark⟩ := d
  refine ⟨?_, ?_⟩
  · rintro rfl
    obtain ⟨m, rfl⟩ := Option.isSome_iff_exists.mp (h.isSome (Or.inl rfl))
    obtain ⟨callback, data⟩ := m
    cases h.callback _ rfl
    rfl
  · rintro rfl
    obtain ⟨m, rfl⟩ := Option.isSome_iff_exists.mp (h.isSome (Or.inr rfl))
    obtain ⟨callback, data⟩ := m
    cases h.callback _ rfl
    rfl

theorem chunkStart_marks (p : HttpParser) (t : ResponseText) :
    Marks p.state (chunkStart p t).mark := by
  unfold chunkStart
  split
  · rename_i hstate
    rw [hstate]
    exact Marks.set rfl
  · rename_i hstate
    rw [hstate]
    exact Marks.set rfl
  · rename_i hfield hvalue
    exact Marks.unset fun h => h.elim hfield hvalue

/-- An empty part of a field or value that is continued adds nothing. -/
theorem chunkStart_all {t : ResponseText} (h : Fits p.state t) : (chunkStart p t).all = t := by
  unfold chunkStart
  split
  · rename_i hstate
    simp [MarkedText.all, MarkedText.call, ResponseText.add, h.1 hstate]
    rw [← h.1 hstate]
  · rename_i hstate
    simp [MarkedText.all, MarkedText.call, ResponseText.add, h.2 hstate]
    rw [← h.2 hstate]
  · rfl

end HttpParser

end WrkQuic
