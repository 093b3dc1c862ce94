import Mathlib.Algebra.BigOperators.Group.List.Basic
import Mathlib.Algebra.Ring.Parity
import WrkQuic.ResponseBuffer

/-!
# Responses and their neighbours

What the script's `response` receives, over runs of responses on one
connection slot. The parser delivers a header's name and value in one or
more calls each (a fragment may be empty when the data ends just before a
delimiter), the body in any number of calls, and `message_complete` at
the end; the socket may be replaced after any number of these calls.

The buffers are emptied on the path through `script_response` only. So
the arguments of `response` are a function of the response's own headers
and body, whatever came before, as long as
- every completed response has a header: without one, `response` is not
  called at all while no header has ever arrived, and afterwards the loop
  reads past the single NUL into what an earlier response left;
- the NUL bytes in its names and values are even in number: otherwise the
  last value is read past the cursor;
- a response is abandoned only before its first header or body byte.
-/

namespace WrkQuic

open CStrings

/-! ## Deliveries -/

/-- A text delivered in at least one call. -/
structure Fragments where
  first : Bytes
  rest : List Bytes
deriving DecidableEq, Repr

def Fragments.text (f : Fragments) : Bytes := f.first ++ f.rest.flatten

structure DeliveredHeader where
  name : Fragments
  value : Fragments
deriving DecidableEq, Repr

def DeliveredHeader.events (h : DeliveredHeader) : List SlotEvent :=
  .headerField h.name.first :: h.name.rest.map .headerField ++
    .headerValue h.value.first :: h.value.rest.map .headerValue

def DeliveredHeader.pair (h : DeliveredHeader) : Bytes × Bytes :=
  (h.name.text, h.value.text)

/-- A response as the parser delivers it; `user` is the request string that
`response` gets as its last argument. -/
structure DeliveredResponse where
  status : ℕ
  headers : List DeliveredHeader
  body : List Bytes
  trailers : List DeliveredHeader
  keepAlive : Bool
  user : Bytes
deriving DecidableEq, Repr

namespace DeliveredResponse

/-- The calls before `message_complete`. -/
def dataEvents (r : DeliveredResponse) : List SlotEvent :=
  r.headers.flatMap DeliveredHeader.events ++ r.body.map .body ++
    r.trailers.flatMap DeliveredHeader.events

def headerList (r : DeliveredResponse) : List (Bytes × Bytes) :=
  (r.headers ++ r.trailers).map DeliveredHeader.pair

def bodyText (r : DeliveredResponse) : Bytes := r.body.flatten

end DeliveredResponse

/-- A response that completes, or one whose first `n` calls are followed by
a new socket. -/
inductive Delivery where
  | completed (r : DeliveredResponse)
  | abandoned (r : DeliveredResponse) (n : ℕ)
deriving DecidableEq, Repr

def Delivery.events : Delivery → List SlotEvent
  | .completed r =>
      r.dataEvents ++ .complete r.status r.user :: if r.keepAlive then [] else [.reconnect]
  | .abandoned r n => r.dataEvents.take n ++ [.reconnect]

def completedResponses : List Delivery → List DeliveredResponse
  | [] => []
  | .completed r :: run => r :: completedResponses run
  | .abandoned _ _ :: run => completedResponses run

def runSlot (c : Slot) (events : List SlotEvent) : Option Slot :=
  events.foldlM slotStep c

/-! ## What `response` should get -/

/-- The layout of a header list in the header buffer. -/
def encodeHeaders (hs : List (Bytes × Bytes)) : Bytes :=
  terminated 0 (hs.flatMap fun h => [h.1, h.2])

/-- The table a header list gives: the `lua_rawset`s in order. -/
def tableOf (hs : List (Bytes × Bytes)) : List (Bytes × Bytes) :=
  pairUp (strings 0 (encodeHeaders hs))

/-- The one call of `response` a completed response causes. -/
def callOf (r : DeliveredResponse) : ResponseCall :=
  ⟨r.status, tableOf r.headerList, r.bodyText, r.user⟩

def nulCount (hs : List (Bytes × Bytes)) : ℕ :=
  (hs.map fun h => h.1.count 0 + h.2.count 0).sum

/-- The deliveries that reach none of the paths on which the buffers are
left filled or read past their end. -/
def Delivery.Tidy : Delivery → Prop
  | .completed r => r.headerList ≠ [] ∧ Even (nulCount r.headerList)
  | .abandoned r n => r.dataEvents.take n = []

theorem pairUp_flatMap (hs : List (Bytes × Bytes)) :
    pairUp (hs.flatMap fun h => [h.1, h.2]) = hs := by
  induction hs with
  | nil => rfl
  | cons h hs ih =>
      rw [List.flatMap_cons, List.cons_append, List.cons_append, List.nil_append, pairUp, ih]

/-- Without NUL bytes the table is the header list. -/
theorem tableOf_nulFree {hs : List (Bytes × Bytes)} (h : ∀ p ∈ hs, 0 ∉ p.1 ∧ 0 ∉ p.2) :
    tableOf hs = hs := by
  rw [tableOf, encodeHeaders, strings_terminated, pairUp_flatMap]
  intro s hs'
  obtain ⟨p, hp, hmem⟩ := List.mem_flatMap.mp hs'
  rcases List.mem_cons.mp hmem with rfl | hmem
  · exact (h p hp).1
  · rw [List.mem_singleton] at hmem
    exact hmem ▸ (h p hp).2

theorem encodeHeaders_append (hs : List (Bytes × Bytes)) (p : Bytes × Bytes) :
    encodeHeaders (hs ++ [p]) = encodeHeaders hs ++ p.1 ++ [0] ++ p.2 ++ [0] := by
  simp [encodeHeaders, terminated, List.flatMap_append]

theorem count_encodeHeaders (hs : List (Bytes × Bytes)) :
    (encodeHeaders hs).count 0 = nulCount hs + 2 * hs.length := by
  induction hs with
  | nil => rfl
  | cons p hs ih =>
      have hcons : encodeHeaders (p :: hs)
          = p.1 ++ 0 :: (p.2 ++ 0 :: encodeHeaders hs) := by
        rw [encodeHeaders, List.flatMap_cons, List.cons_append, List.cons_append,
          List.nil_append, terminated_cons, terminated_cons]
        rfl
      rw [hcons, nulCount, List.map_cons, List.sum_cons, ← nulCount]
      simp only [List.count_append, List.count_cons_self, ih, List.length_cons]
      omega

/-! ## Filling the buffers -/

/-- Between two headers: the buffer holds the headers `hs` so far, the NUL
of the last value still to be written, and `text` of the body. -/
structure Slot.Filling (c : Slot) (hs : List (Bytes × Bytes)) (text : Bytes) : Prop where
  headers : (hs = [] ∧ c.state = .field ∧ c.headers.Holds []) ∨
    (c.state = .value ∧ c.headers.Room ∧
      ∃ unended, encodeHeaders hs = unended ++ [0] ∧ c.headers.Holds unended)
  body : c.body.Holds text

theorem Slot.initial_filling : Slot.initial.Filling [] [] where
  headers := Or.inl ⟨rfl, rfl, Buffer.holds_zeroed⟩
  body := Buffer.holds_zeroed

/-- A step that touches the header buffer only, which then holds `bs`. -/
structure HeaderStep (c c' : Slot) (state : HeaderState) (bs : Bytes) : Prop where
  state : c'.state = state
  holds : c'.headers.Holds bs
  room : c'.headers.Room
  body : c'.body = c.body
  calls : c'.calls = c.calls

theorem HeaderStep.trans {c c' c'' : Slot} {s s' : HeaderState} {bs bs' : Bytes}
    (h : HeaderStep c c' s bs) (h' : HeaderStep c' c'' s' bs') :
    HeaderStep c c'' s' bs' :=
  ⟨h'.state, h'.holds, h'.room, h'.body.trans h.body, h'.calls.trans h.calls⟩

theorem headerField_inside {c : Slot} {bs : Bytes} (hstate : c.state = .field)
    (h : c.headers.Holds bs) (data : Bytes) :
    ∃ c', headerField c data = some c' ∧ HeaderStep c c' .field (bs ++ data) := by
  obtain ⟨b, happend, hholds, hroom⟩ := bufferAppend_holds h data
  refine ⟨{ c with headers := b, state := .field }, ?_, ⟨rfl, hholds, hroom, rfl, rfl⟩⟩
  simp [headerField, hstate, happend]

theorem headerField_first {c : Slot} {hs : List (Bytes × Bytes)} {text : Bytes}
    (h : c.Filling hs text) (data : Bytes) :
    ∃ c', headerField c data = some c' ∧
      HeaderStep c c' .field (encodeHeaders hs ++ data) := by
  rcases h.headers with ⟨rfl, hstate, hholds⟩ | ⟨hstate, hroom, unended, hopen, hholds⟩
  · exact headerField_inside hstate hholds data
  · obtain ⟨b, hput, hnul, -⟩ := hholds.putNul hroom
    obtain ⟨b', happend, hdata, hroom'⟩ := bufferAppend_holds hnul data
    rw [← hopen] at hdata
    refine ⟨{ c with headers := b', state := .field }, ?_, ⟨rfl, hdata, hroom', rfl, rfl⟩⟩
    simp [headerField, hstate, hput, happend]

theorem headerValue_inside {c : Slot} {bs : Bytes} (hstate : c.state = .value)
    (h : c.headers.Holds bs) (data : Bytes) :
    ∃ c', headerValue c data = some c' ∧ HeaderStep c c' .value (bs ++ data) := by
  obtain ⟨b, happend, hholds, hroom⟩ := bufferAppend_holds h data
  refine ⟨{ c with headers := b, state := .value }, ?_, ⟨rfl, hholds, hroom, rfl, rfl⟩⟩
  simp [headerValue, hstate, happend]

theorem headerValue_first {c : Slot} {bs : Bytes} (hstate : c.state = .field)
    (h : c.headers.Holds bs) (hroom : c.headers.Room) (data : Bytes) :
    ∃ c', headerValue c data = some c' ∧ HeaderStep c c' .value (bs ++ [0] ++ data) := by
  obtain ⟨b, hput, hnul, -⟩ := h.putNul hroom
  obtain ⟨b', happend, hdata, hroom'⟩ := bufferAppend_holds hnul data
  refine ⟨{ c with headers := b', state := .value }, ?_, ⟨rfl, hdata, hroom', rfl, rfl⟩⟩
  simp [headerValue, hstate, hput, happend]

theorem runSlot_cons (c : Slot) (e : SlotEvent) (es : List SlotEvent) :
    runSlot c (e :: es) = (slotStep c e).bind fun c' => runSlot c' es := rfl

theorem runSlot_append (c : Slot) (es es' : List SlotEvent) :
    runSlot c (es ++ es') = (runSlot c es).bind fun c' => runSlot c' es' :=
  List.foldlM_append

theorem headerField_rest : ∀ (fragments : List Bytes) {c : Slot} {bs : Bytes},
    c.state = .field → c.headers.Holds bs → c.headers.Room →
    ∃ c', runSlot c (fragments.map .headerField) = some c' ∧
      HeaderStep c c' .field (bs ++ fragments.flatten)
  | [], c, bs, hstate, hholds, hroom => by
      refine ⟨c, rfl, ⟨hstate, ?_, hroom, rfl, rfl⟩⟩
      rwa [List.flatten_nil, List.append_nil]
  | f :: fragments, c, bs, hstate, hholds, _ => by
      obtain ⟨c₁, hstep, h₁⟩ := headerField_inside hstate hholds f
      obtain ⟨c₂, hrun, h₂⟩ := headerField_rest fragments h₁.state h₁.holds h₁.room
      rw [List.append_assoc, ← List.flatten_cons] at h₂
      refine ⟨c₂, ?_, h₁.trans h₂⟩
      rw [List.map_cons, runSlot_cons, slotStep, hstep, Option.bind_some, hrun]

theorem headerValue_rest : ∀ (fragments : List Bytes) {c : Slot} {bs : Bytes},
    c.state = .value → c.headers.Holds bs → c.headers.Room →
    ∃ c', runSlot c (fragments.map .headerValue) = some c' ∧
      HeaderStep c c' .value (bs ++ fragments.flatten)
  | [], c, bs, hstate, hholds, hroom => by
      refine ⟨c, rfl, ⟨hstate, ?_, hroom, rfl, rfl⟩⟩
      rwa [List.flatten_nil, List.append_nil]
  | f :: fragments, c, bs, hstate, hholds, _ => by
      obtain ⟨c₁, hstep, h₁⟩ := headerValue_inside hstate hholds f
      obtain ⟨c₂, hrun, h₂⟩ := headerValue_rest fragments h₁.state h₁.holds h₁.room
      rw [List.append_assoc, ← List.flatten_cons] at h₂
      refine ⟨c₂, ?_, h₁.trans h₂⟩
      rw [List.map_cons, runSlot_cons, slotStep, hstep, Option.bind_some, hrun]

theorem deliverHeader {c : Slot} {hs : List (Bytes × Bytes)} {text : Bytes}
    (h : c.Filling hs text) (d : DeliveredHeader) :
    ∃ c', runSlot c d.events = some c' ∧ c'.Filling (hs ++ [d.pair]) text ∧
      c'.calls = c.calls := by
  obtain ⟨c₁, hfirst, h₁⟩ := headerField_first h d.name.first
  obtain ⟨c₂, hname, h₂⟩ := headerField_rest d.name.rest h₁.state h₁.holds h₁.room
  obtain ⟨c₃, hvalue, h₃⟩ := headerValue_first h₂.state h₂.holds h₂.room d.value.first
  obtain ⟨c₄, hrest, h₄⟩ := headerValue_rest d.value.rest h₃.state h₃.holds h₃.room
  have hall := ((h₁.trans h₂).trans h₃).trans h₄
  refine ⟨c₄, ?_, ⟨Or.inr ⟨hall.state, hall.room, _, ?_, hall.holds⟩, ?_⟩, hall.calls⟩
  · rw [DeliveredHeader.events, List.cons_append, runSlot_cons, slotStep, hfirst,
      Option.bind_some, runSlot_append, hname, Option.bind_some, runSlot_cons, slotStep,
      hvalue, Option.bind_some, hrest]
  · rw [encodeHeaders_append]
    simp [DeliveredHeader.pair, Fragments.text]
  · rw [hall.body]
    exact h.body

theorem deliverHeaders : ∀ (ds : List DeliveredHeader) {c : Slot}
    {hs : List (Bytes × Bytes)} {text : Bytes}, c.Filling hs text →
    ∃ c', runSlot c (ds.flatMap DeliveredHeader.events) = some c' ∧
      c'.Filling (hs ++ ds.map DeliveredHeader.pair) text ∧ c'.calls = c.calls
  | [], c, hs, text, h => by
      refine ⟨c, rfl, ?_, rfl⟩
      rwa [List.map_nil, List.append_nil]
  | d :: ds, c, hs, text, h => by
      obtain ⟨c₁, hd, h₁, hcalls₁⟩ := deliverHeader h d
      obtain ⟨c₂, hds, h₂, hcalls₂⟩ := deliverHeaders ds h₁
      rw [List.append_assoc, List.singleton_append, ← List.map_cons] at h₂
      refine ⟨c₂, ?_, h₂, hcalls₂.trans hcalls₁⟩
      rw [List.flatMap_cons, runSlot_append, hd, Option.bind_some, hds]

theorem deliverBody : ∀ (fragments : List Bytes) {c : Slot} {hs : List (Bytes × Bytes)}
    {text : Bytes}, c.Filling hs text →
    ∃ c', runSlot c (fragments.map .body) = some c' ∧
      c'.Filling hs (text ++ fragments.flatten) ∧ c'.calls = c.calls
  | [], c, hs, text, h => by
      refine ⟨c, rfl, ?_, rfl⟩
      rwa [List.flatten_nil, List.append_nil]
  | f :: fragments, c, hs, text, h => by
      obtain ⟨b, happend, hholds, -⟩ := bufferAppend_holds h.body f
      have hstep : slotStep c (.body f) = some { c with body := b } := by
        simp [slotStep, responseBody, happend]
      have hfill : ({ c with body := b } : Slot).Filling hs (text ++ f) := ⟨h.headers, hholds⟩
      obtain ⟨c', hrun, h', hcalls⟩ := deliverBody fragments hfill
      rw [List.append_assoc, ← List.flatten_cons] at h'
      refine ⟨c', ?_, h', hcalls⟩
      rw [List.map_cons, runSlot_cons, hstep, Option.bind_some, hrun]

theorem deliverData {c : Slot} (h : c.Filling [] []) (r : DeliveredResponse) :
    ∃ c', runSlot c r.dataEvents = some c' ∧ c'.Filling r.headerList r.bodyText ∧
      c'.calls = c.calls := by
  obtain ⟨c₁, hheaders, h₁, hcalls₁⟩ := deliverHeaders r.headers h
  obtain ⟨c₂, hbody, h₂, hcalls₂⟩ := deliverBody r.body h₁
  obtain ⟨c₃, htrailers, h₃, hcalls₃⟩ := deliverHeaders r.trailers h₂
  rw [List.nil_append, List.nil_append, ← List.map_append] at h₃
  refine ⟨c₃, ?_, h₃, hcalls₃.trans (hcalls₂.trans hcalls₁)⟩
  rw [DeliveredResponse.dataEvents, runSlot_append, runSlot_append, hheaders,
    Option.bind_some, hbody, Option.bind_some, htrailers]

/-! ## Completing a response -/

theorem headerPairs_encoded {b : Buffer} {hs : List (Bytes × Bytes)}
    (h : b.Holds (encodeHeaders hs)) (heven : Even (nulCount hs)) :
    headerPairs b (b.cursor + 1) 0 = some (tableOf hs) := by
  have hends : EndsTerminated 0 (encodeHeaders hs) := endsTerminated_terminated _
  have hlen := length_strings hends
  rw [count_encodeHeaders] at hlen
  have hparity : Even (strings 0 (encodeHeaders hs)).length := by
    rw [hlen]
    exact heven.add (even_two_mul _)
  have hfuel : (strings 0 (encodeHeaders hs)).length < b.cursor + 1 := by
    rw [length_strings hends, h.cursor]
    exact Nat.lt_succ_of_le List.count_le_length
  rw [← terminated_strings hends] at h
  have hstart : b.Holds ([] ++ terminated 0 (strings 0 (encodeHeaders hs))) := h
  exact headerPairs_strings hstart (fun s hs => not_mem_of_mem_strings hs) hparity hfuel

/-- Completing a response with a header calls `response` once and leaves
empty buffers. -/
theorem responseToScript_filling {c : Slot} {hs : List (Bytes × Bytes)} {text : Bytes}
    (h : c.Filling hs text) (hne : hs ≠ []) (heven : Even (nulCount hs)) (status : ℕ)
    (user : Bytes) :
    ∃ c', responseToScript c status user = some c' ∧ c'.Filling [] [] ∧
      c'.calls = c.calls ++ [⟨status, tableOf hs, text, user⟩] := by
  rcases h.headers with ⟨hnil, -⟩ | ⟨-, hroom, unended, hopen, hholds⟩
  · exact absurd hnil hne
  · obtain ⟨b, hput, hnul, hlen⟩ := hholds.putNul hroom
    rw [← hopen] at hnul
    have hpairs := headerPairs_encoded hnul heven
    have hbody : readBytes c.body c.body.cursor 0 = some text := by
      have hstart : c.body.Holds ([] ++ text) := h.body
      rw [h.body.cursor]
      exact readBytes_holds hstart
    have hpos : c.headers.length ≠ 0 := by
      rw [Buffer.Room] at hroom
      omega
    refine ⟨{ c with
      calls := c.calls ++ [⟨status, tableOf hs, text, user⟩]
      headers := bufferReset b
      body := bufferReset c.body
      state := .field }, ?_, ⟨Or.inl ⟨rfl, rfl, Buffer.holds_reset b⟩,
        Buffer.holds_reset c.body⟩, rfl⟩
    rw [responseToScript, if_pos hpos]
    simp [hput, scriptResponse, hpairs, hbody]

/-! ## Runs -/

theorem deliver_completed {c : Slot} (h : c.Filling [] []) {r : DeliveredResponse}
    (htidy : (Delivery.completed r).Tidy) :
    ∃ c', runSlot c (Delivery.completed r).events = some c' ∧ c'.Filling [] [] ∧
      c'.calls = c.calls ++ [callOf r] := by
  obtain ⟨hne, heven⟩ := htidy
  obtain ⟨c₁, hdata, h₁, hcalls₁⟩ := deliverData h r
  obtain ⟨c₂, hcomplete, h₂, hcalls₂⟩ :=
    responseToScript_filling h₁ hne heven r.status r.user
  rw [hcalls₁] at hcalls₂
  refine ⟨c₂, ?_, h₂, hcalls₂⟩
  rw [Delivery.events, runSlot_append, hdata, Option.bind_some, runSlot_cons, slotStep,
    hcomplete, Option.bind_some]
  cases r.keepAlive with
  | true => rfl
  | false => rfl

theorem deliver_abandoned {c : Slot} {r : DeliveredResponse} {n : ℕ}
    (htidy : (Delivery.abandoned r n).Tidy) :
    runSlot c (Delivery.abandoned r n).events = some c := by
  have hnone : r.dataEvents.take n = [] := htidy
  rw [Delivery.events, hnone]
  rfl

theorem runSlot_tidy : ∀ {run : List Delivery} {c : Slot}, c.Filling [] [] →
    (∀ d ∈ run, d.Tidy) →
    ∃ c', runSlot c (run.flatMap Delivery.events) = some c' ∧ c'.Filling [] [] ∧
      c'.calls = c.calls ++ (completedResponses run).map callOf
  | [], c, h, _ => ⟨c, rfl, h, (List.append_nil _).symm⟩
  | .completed r :: run, c, h, htidy => by
      obtain ⟨c₁, hd, h₁, hcalls₁⟩ := deliver_completed h (htidy _ List.mem_cons_self)
      obtain ⟨c₂, hrun, h₂, hcalls₂⟩ :=
        runSlot_tidy h₁ fun d hd => htidy d (List.mem_cons_of_mem _ hd)
      rw [hcalls₁, List.append_assoc, List.singleton_append] at hcalls₂
      refine ⟨c₂, ?_, h₂, hcalls₂⟩
      rw [List.flatMap_cons, runSlot_append, hd, Option.bind_some, hrun]
  | .abandoned r n :: run, c, h, htidy => by
      have hd := deliver_abandoned (c := c) (htidy _ List.mem_cons_self)
      obtain ⟨c₂, hrun, h₂, hcalls₂⟩ :=
        runSlot_tidy h fun d hd => htidy d (List.mem_cons_of_mem _ hd)
      refine ⟨c₂, ?_, h₂, hcalls₂⟩
      rw [List.flatMap_cons, runSlot_append, hd, Option.bind_some, hrun]

/-- In every run of tidy deliveries, `response` is called exactly once for
each completed response, with arguments that depend on that response
alone. -/
theorem responses_do_not_leak (run : List Delivery) (htidy : ∀ d ∈ run, d.Tidy) :
    ∃ c, runSlot Slot.initial (run.flatMap Delivery.events) = some c ∧
      c.calls = (completedResponses run).map callOf := by
  obtain ⟨c, hrun, -, hcalls⟩ := runSlot_tidy Slot.initial_filling htidy
  exact ⟨c, hrun, hcalls⟩

/-- A two-response run with nothing but tidy deliveries. -/
theorem responses_do_not_leak_one_header :
    ∃ c, runSlot Slot.initial ([Delivery.abandoned ⟨200, [], [], [], true, []⟩ 3,
        .completed ⟨200, [⟨⟨[65], []⟩, ⟨[], [[120]]⟩⟩], [[104], [105]], [], false, []⟩].flatMap
          Delivery.events) = some c ∧
      c.calls = [⟨200, [([65], [120])], [104, 105], []⟩] :=
  responses_do_not_leak
    [.abandoned ⟨200, [], [], [], true, []⟩ 3,
      .completed ⟨200, [⟨⟨[65], []⟩, ⟨[], [[120]]⟩⟩], [[104], [105]], [], false, []⟩]
    (by
      intro d hd
      rcases List.mem_cons.mp hd with rfl | hd
      · rfl
      · rw [List.mem_singleton] at hd
        subst hd
        exact ⟨by decide, by decide⟩)

/-! ## The untidy cases -/

/-- A response without headers after one with the header `name: x`. -/
def headerlessAfter (name : Bytes) : List Delivery :=
  [.completed ⟨200, [⟨⟨name, []⟩, ⟨[120], []⟩⟩], [], [], true, []⟩,
    .completed ⟨204, [], [], [], true, []⟩]

/-- What `response` gets is no function of the completed response: the same
headerless response is reported with the tail of an earlier header's name
as the value of an empty key, and not reported at all when it comes
first. A header name cut off by a reconnect becomes part of the next
response's. -/
theorem responses_leak :
    (runSlot Slot.initial ((headerlessAfter [65, 66]).flatMap Delivery.events)).map Slot.calls
      = some [⟨200, [([65, 66], [120])], [], []⟩, ⟨204, [([], [66])], [], []⟩] ∧
    (runSlot Slot.initial ((headerlessAfter [65, 67]).flatMap Delivery.events)).map Slot.calls
      = some [⟨200, [([65, 67], [120])], [], []⟩, ⟨204, [([], [67])], [], []⟩] ∧
    (runSlot Slot.initial ([Delivery.completed ⟨204, [], [], [], true, []⟩].flatMap
      Delivery.events)).map Slot.calls = some [] ∧
    (runSlot Slot.initial ([Delivery.abandoned
        ⟨200, [⟨⟨[65], []⟩, ⟨[120], []⟩⟩], [], [], true, []⟩ 1,
      .completed ⟨200, [⟨⟨[66], []⟩, ⟨[121], []⟩⟩], [], [], true, []⟩].flatMap
      Delivery.events)).map Slot.calls = some [⟨200, [([65, 66], [121])], [], []⟩] ∧
    ¬∃ f : DeliveredResponse → ResponseCall, ∀ run : List Delivery,
      (runSlot Slot.initial (run.flatMap Delivery.events)).map Slot.calls
        = some ((completedResponses run).map f) := by
  refine ⟨by decide, by decide, by decide, by decide, ?_⟩
  rintro ⟨f, hf⟩
  have hfirst := hf [.completed ⟨204, [], [], [], true, []⟩]
  exact absurd hfirst (by simp [Delivery.events, runSlot, completedResponses, slotStep,
    DeliveredResponse.dataEvents, responseToScript, Slot.initial, Buffer.zeroed])

end WrkQuic
