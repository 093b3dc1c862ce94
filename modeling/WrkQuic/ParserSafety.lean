import WrkQuic.HttpHeaders
import WrkQuic.HttpMarks
import WrkQuic.ReadBoundaries
import WrkQuic.TcpSimulation

/-!
# What the response parser asserts

`http_parser.c` is compiled with its assertions, so that one that fails
ends the process, and it keeps its numbers in narrow fields: `index` in 8
bits, the versions and the status code in 16, `nread` in 32. The parser
that checks both (`executeChecked`) stops at no byte that a server can send,
in whatever reads it comes.

Most assertions speak of one state each, but what makes them true is set up
in earlier ones: `Prepared` says what holds between two bytes. The others
are those of the callbacks, that there is no error yet, and the one behind
the loop, that at most one of the marks is set. An `index` stays
small as it only grows while it points into one of the words; the assertion
of the chunk size, that the loop head has counted exactly one byte, rests on
every way into the state setting `nread` to 0.
-/

namespace WrkQuic

namespace HttpParser

/-! ## The checks -/

/-- The numbers fit the fields of `struct http_parser`. -/
structure InFields (p : HttpParser) : Prop where
  index : p.index < 2 ^ 8
  nread : p.nread < 2 ^ 32
  contentLength : p.contentLength ≤ ullongMax
  httpMajor : p.httpMajor < 2 ^ 16
  httpMinor : p.httpMinor < 2 ^ 16
  statusCode : p.statusCode < 2 ^ 16

instance (p : HttpParser) : Decidable p.InFields :=
  decidable_of_iff (p.index < 2 ^ 8 ∧ p.nread < 2 ^ 32 ∧ p.contentLength ≤ ullongMax ∧
      p.httpMajor < 2 ^ 16 ∧ p.httpMinor < 2 ^ 16 ∧ p.statusCode < 2 ^ 16)
    ⟨fun ⟨h₁, h₂, h₃, h₄, h₅, h₆⟩ => ⟨h₁, h₂, h₃, h₄, h₅, h₆⟩,
      fun h => ⟨h.index, h.nread, h.contentLength, h.httpMajor, h.httpMinor, h.statusCode⟩⟩

/-- The inner switch of `s_header_field` has a case for the state. -/
def knownInField : HeaderStates → Bool
  | .general | .C | .CO | .CON | .matchingConnection | .matchingProxyConnection
  | .matchingContentLength | .matchingTransferEncoding | .matchingUpgrade | .connection
  | .contentLength | .transferEncoding | .upgrade => true
  | _ => false

/-- The inner switch of `s_header_value` can get there. -/
def knownInValue : HeaderStates → Bool
  | .connection | .transferEncoding => false
  | _ => true

/-- The assertions of the state on the byte `ch`, before the loop head has
counted it. They are checked here even where the loop head finds the header
too large. -/
def asserts (p : HttpParser) (ch : UInt8) : Bool :=
  match p.state with
  | .unset => false
  | .headerField => token ch = 0 || knownInField p.headerState
  | .headerValue => ch = cr || ch = lf || knownInValue p.headerState
  | .bodyIdentity => p.contentLength ≠ 0 && p.contentLength ≠ ullongMax
  | .chunkSizeStart => p.nread + 1 = 1 && p.flags.chunked
  | .chunkSize | .chunkParameters | .chunkSizeAlmostDone | .chunkDataDone => p.flags.chunked
  | .chunkData => p.flags.chunked && (p.contentLength ≠ 0 && p.contentLength ≠ ullongMax)
  | .chunkDataAlmostDone => p.flags.chunked && p.contentLength = 0
  | _ => true

end HttpParser

/-- Nothing is asserted in the state. -/
def ParserState.plain : ParserState → Bool
  | .unset | .headerField | .headerValue | .bodyIdentity | .chunkSizeStart | .chunkSize
  | .chunkParameters | .chunkSizeAlmostDone | .chunkData | .chunkDataAlmostDone
  | .chunkDataDone => false
  | _ => true

def Scanned.parser : Scanned → HttpParser
  | .next p _ _ | .error p _ | .leave p _ => p

namespace HttpParser

/-- `scan` with the checks: none if an assertion fails, or if a number does
not fit its field. The assertion of the callbacks is checked at every byte,
and behind the loop with the one on the marks, which an error skips. -/
def scanChecked (p : HttpParser) (loop : Option ℕ) (marks : Finset Mark) (done : ℕ) :
    Bytes → Option (Parsed HttpParser)
  | [] =>
      let r := scan p loop done []
      if p.httpErrno = none ∧ (r.parser.httpErrno.isSome = true ∨ marks.card ≤ 1) ∧
          r.parser.InFields then some r
      else none
  | ch :: rest =>
      if p.httpErrno = none ∧ p.asserts ch ∧ (scanByte p loop ch).parser.InFields then
        match scanByte p loop ch with
        | .next p' loop m =>
            (scanChecked p' loop (markByte p ch marks) (done + 1) rest).map fun r =>
              { r with completions := m.toList ++ r.completions }
        | .error p back => some ⟨p, [], done - back⟩
        | .leave p m => some ⟨p, [m], done + 1⟩
      else none

/-- `http_parser_execute` with the checks. -/
def executeChecked (p : HttpParser) (chunk : Bytes) : Option (Parsed HttpParser) :=
  if p.httpErrno.isSome then some ⟨p, [], 0⟩
  else if chunk = [] then some (scanEof p)
  else scanChecked p none p.startMarks 0 chunk

/-- The reads of a connection with the checks. -/
def readChecked (p : HttpParser) : List Bytes → Option HttpParser
  | [] => some p
  | chunk :: chunks => (executeChecked p chunk).bind fun r => readChecked r.parser chunks

/-! ## What holds between two bytes -/

/-- The parser is in the middle of the word `word`. -/
def Inside (word : Bytes) (index : ℕ) : Prop := index + 1 < word.length

instance (word : Bytes) (index : ℕ) : Decidable (Inside word index) :=
  inferInstanceAs (Decidable (_ < _))

/-- How far `s_header_field` has matched the name. -/
def FieldOk (h : HeaderStates) (index : ℕ) : Prop :=
  match h with
  | .general | .connection | .contentLength | .transferEncoding | .upgrade => True
  | .C => index = 0
  | .CO => index = 1
  | .CON => index = 2
  | .matchingConnection => Inside connectionWord index
  | .matchingProxyConnection => Inside proxyConnectionWord index
  | .matchingContentLength => Inside contentLengthWord index
  | .matchingTransferEncoding => Inside transferEncodingWord index
  | .matchingUpgrade => Inside upgradeWord index
  | _ => False

/-- How far `s_header_value` has matched the value. -/
def ValueOk (h : HeaderStates) (index : ℕ) : Prop :=
  match h with
  | .connection | .transferEncoding => False
  | .matchingTransferEncodingChunked => Inside chunkedWord index
  | .matchingConnectionTokenStart => index = 0
  | .matchingConnectionKeepAlive => Inside keepAliveWord index
  | .matchingConnectionClose => Inside closeWord index
  | .matchingConnectionUpgrade => Inside upgradeWord index
  | _ => True

/-- What the states before `p.state` have set up. -/
def StateOk (p : HttpParser) : Prop :=
  match p.state with
  | .unset => False
  | .headerField => FieldOk p.headerState p.index
  | .headerValue => ValueOk p.headerState p.index
  | .bodyIdentity => p.contentLength ≠ 0 ∧ p.contentLength ≠ ullongMax
  | .chunkSizeStart => p.nread = 0 ∧ p.flags.chunked = true
  | .chunkSize | .chunkParameters | .chunkSizeAlmostDone =>
      p.flags.chunked = true ∧ p.contentLength ≠ ullongMax
  | .chunkData => p.flags.chunked = true ∧ p.contentLength ≠ 0 ∧ p.contentLength ≠ ullongMax
  | .chunkDataAlmostDone => p.flags.chunked = true ∧ p.contentLength = 0
  | .chunkDataDone => p.flags.chunked = true
  | _ => True

/-- The numbers are small: at most `extra` bytes are counted beyond the
largest header, and no version or status code is over `limit`. -/
structure Bounded (extra limit : ℕ) (p : HttpParser) : Prop where
  index : p.index ≤ 17
  nread : p.nread ≤ httpMaxHeaderSize + extra
  contentLength : p.contentLength ≤ ullongMax
  httpMajor : p.httpMajor ≤ limit
  httpMinor : p.httpMinor ≤ limit
  statusCode : p.statusCode ≤ limit

/-- Between two bytes without an error. -/
structure Prepared (p : HttpParser) : Prop where
  bounded : p.Bounded 0 999
  stateOk : p.StateOk

/-- What becomes of the byte after `n` others of the chunk: the parser stays
ready, or the numbers are not far beyond their bounds. -/
def Keeps (n : ℕ) : Scanned → Prop
  | .next p loop _ => Prepared p ∧
      ∀ k ∈ loop, (p.state = .headerField ∨ p.state = .headerValue) ∧ k ≤ n + 1
  | .error p _ => p.httpErrno.isSome = true ∧ p.Bounded (n + 2) 9999
  | .leave p _ => Prepared p

variable {p : HttpParser} {ch : UInt8} {n : ℕ}

theorem Bounded.mono {extra extra' limit limit' : ℕ} (h : p.Bounded extra limit)
    (hextra : extra ≤ extra') (hlimit : limit ≤ limit') : p.Bounded extra' limit' :=
  { h with
    nread := le_trans h.nread (Nat.add_le_add_left hextra _)
    httpMajor := le_trans h.httpMajor hlimit
    httpMinor := le_trans h.httpMinor hlimit
    statusCode := le_trans h.statusCode hlimit }

theorem Bounded.inFields {extra limit : ℕ} (h : p.Bounded extra limit) (hextra : extra < 2 ^ 31)
    (hlimit : limit < 2 ^ 16) : p.InFields where
  index := Nat.lt_of_le_of_lt h.index (by decide)
  nread := by
    have hnread := h.nread
    simp only [httpMaxHeaderSize] at hnread
    omega
  contentLength := h.contentLength
  httpMajor := Nat.lt_of_le_of_lt h.httpMajor hlimit
  httpMinor := Nat.lt_of_le_of_lt h.httpMinor hlimit
  statusCode := Nat.lt_of_le_of_lt h.statusCode hlimit

/-- What the earlier states have set up is what the state asserts. -/
theorem Prepared.asserts (h : p.Prepared) (ch : UInt8) : p.asserts ch = true := by
  have hstate := h.stateOk
  unfold StateOk at hstate
  unfold HttpParser.asserts
  split at hstate <;> rename_i hp <;> simp only [hp]
  · exact hstate.elim
  · have hknown : knownInField p.headerState = true := by
      unfold FieldOk at hstate
      unfold knownInField
      split at hstate <;> simp_all
    simp [hknown]
  · have hknown : knownInValue p.headerState = true := by
      unfold ValueOk at hstate
      unfold knownInValue
      split at hstate <;> simp_all
    simp [hknown]
  all_goals simp [hstate]

/-! ## Rules -/

theorem pass_keeps (h : p.Bounded 0 999) (hstate : p.StateOk) : Keeps n (pass p) :=
  ⟨⟨h, hstate⟩, fun _ hk => by cases hk⟩

theorem fail_keeps (h : p.Bounded (n + 2) 9999) (e : HttpErrno) : Keeps n (fail p e) :=
  ⟨rfl, { h with }⟩

theorem Bounded.wide (h : p.Bounded 0 999) : p.Bounded (n + 2) 9999 :=
  h.mono (Nat.zero_le _) (by decide)

theorem Bounded.fail (h : p.Bounded 0 999) (e : HttpErrno) : Keeps n (fail p e) :=
  fail_keeps h.wide e

/-- `COUNT_HEADER_SIZE` of as many bytes as the chunk has had. -/
theorem countHeaderSize_keeps {k : HttpParser → Scanned} {m : ℕ} (h : p.Bounded 0 999)
    (hm : m ≤ n + 1) (hk : ∀ nread, { p with nread := nread }.Bounded 0 999 →
      Keeps n (k { p with nread := nread })) : Keeps n (countHeaderSize p m k) := by
  have hnread := h.nread
  unfold countHeaderSize
  simp only
  split
  · refine fail_keeps ?_ .headerOverflow
    have hcounted : p.nread + m ≤ httpMaxHeaderSize + (n + 2) := by omega
    exact { h.wide (n := n) with nread := hcounted }
  · rename_i hle
    exact hk _ { h with nread := Nat.le_of_not_lt hle }

theorem loopHead_keeps {k : HttpParser → Scanned} (h : p.Bounded 0 999)
    (hk : ∀ nread, { p with nread := nread }.Bounded 0 999 →
      Keeps n (k { p with nread := nread })) : Keeps n (loopHead p k) := by
  unfold loopHead
  split
  · exact countHeaderSize_keeps h (Nat.le_add_left 1 n) hk
  · exact hk p.nread { h with }

theorem strictCheck_keeps {c : UInt8} {k : Scanned} (h : p.Bounded 0 999) (hk : Keeps n k) :
    Keeps n (strictCheck p ch c k) := by
  unfold strictCheck
  split
  · exact h.fail .strict
  · exact hk

theorem expect_keeps {c : UInt8} {next : ParserState} (h : p.Bounded 0 999)
    (hstate : { p with state := next }.StateOk) : Keeps n (expect p ch c next) :=
  strictCheck_keeps h (pass_keeps { h with } hstate)

theorem zeroed_bounded : zeroed.Bounded 0 999 := by constructor <;> decide

theorem init_prepared : Prepared init := ⟨{ zeroed_bounded with }, trivial⟩

theorem newMessage_prepared (h : p.Bounded 0 999) : Prepared (newMessage p) := by
  unfold newMessage
  split
  · exact init_prepared
  · exact ⟨{ h with }, trivial⟩

theorem messageComplete_keeps (h : p.Bounded 0 999) : Keeps n (messageComplete p) :=
  ⟨newMessage_prepared h, fun _ hk => by cases hk⟩

theorem plain_stateOk (h : p.state.plain = true) : p.StateOk := by
  unfold StateOk
  revert h
  cases p.state <;> first | exact fun _ => trivial | exact fun h => by cases h

/-! ## The status line -/

theorem next_digit_le {k : ℕ} (hk : k ≤ 999) (h : isNum ch = true) :
    k * 10 + digit ch ≤ 9999 := by
  have hdigit := digit_le h
  omega

theorem startRes_keeps (h : p.Bounded 0 999) (hp : p.state.plain = true) :
    Keeps n (startRes p ch) := by
  have hreset : { p with flags := .none, contentLength := ullongMax }.Bounded 0 999 :=
    { h with contentLength := le_rfl }
  unfold startRes
  simp only
  split
  · exact pass_keeps { hreset with } trivial
  · split
    · exact pass_keeps hreset (plain_stateOk hp)
    · exact hreset.fail _

theorem resFirstHttpMajor_keeps (h : p.Bounded 0 999) : Keeps n (resFirstHttpMajor p ch) := by
  unfold resFirstHttpMajor
  split
  · rename_i hnum
    exact pass_keeps { h with httpMajor := le_trans (digit_le hnum) (by decide) } trivial
  · exact h.fail _

theorem resHttpMajor_keeps (h : p.Bounded 0 999) (hp : p.state.plain = true) :
    Keeps n (resHttpMajor p ch) := by
  unfold resHttpMajor
  split
  · exact pass_keeps { h with } trivial
  · split
    · rename_i hnum
      simp only
      split
      · refine fail_keeps ?_ .invalidVersion
        exact { h.wide with httpMajor := next_digit_le h.httpMajor hnum }
      · rename_i hle
        exact pass_keeps { h with httpMajor := Nat.le_of_not_lt hle } (plain_stateOk hp)
    · exact h.fail _

theorem resFirstHttpMinor_keeps (h : p.Bounded 0 999) : Keeps n (resFirstHttpMinor p ch) := by
  unfold resFirstHttpMinor
  split
  · rename_i hnum
    exact pass_keeps { h with httpMinor := le_trans (digit_le hnum) (by decide) } trivial
  · exact h.fail _

theorem resHttpMinor_keeps (h : p.Bounded 0 999) (hp : p.state.plain = true) :
    Keeps n (resHttpMinor p ch) := by
  unfold resHttpMinor
  split
  · exact pass_keeps { h with } trivial
  · split
    · rename_i hnum
      simp only
      split
      · refine fail_keeps ?_ .invalidVersion
        exact { h.wide with httpMinor := next_digit_le h.httpMinor hnum }
      · rename_i hle
        exact pass_keeps { h with httpMinor := Nat.le_of_not_lt hle } (plain_stateOk hp)
    · exact h.fail _

theorem resFirstStatusCode_keeps (h : p.Bounded 0 999) (hp : p.state.plain = true) :
    Keeps n (resFirstStatusCode p ch) := by
  unfold resFirstStatusCode
  split
  · rename_i hnum
    exact pass_keeps { h with statusCode := le_trans (digit_le hnum) (by decide) } trivial
  · split
    · exact pass_keeps h (plain_stateOk hp)
    · exact h.fail _

theorem resStatusCode_keeps (h : p.Bounded 0 999) (hp : p.state.plain = true) :
    Keeps n (resStatusCode p ch) := by
  unfold resStatusCode
  split
  · rename_i hnum
    simp only
    split
    · refine fail_keeps ?_ .invalidStatus
      exact { h.wide with statusCode := next_digit_le h.statusCode hnum }
    · rename_i hle
      exact pass_keeps { h with statusCode := Nat.le_of_not_lt hle } (plain_stateOk hp)
  · split
    · exact pass_keeps { h with } trivial
    · split
      · exact pass_keeps { h with } trivial
      · split
        · exact pass_keeps { h with } trivial
        · exact h.fail _

theorem resStatusStart_keeps (h : p.Bounded 0 999) : Keeps n (resStatusStart p ch) := by
  unfold resStatusStart
  split
  · exact pass_keeps { h with } trivial
  · split
    · exact pass_keeps { h with } trivial
    · exact pass_keeps { h with index := Nat.zero_le _ } trivial

theorem resStatus_keeps (h : p.Bounded 0 999) (hp : p.state.plain = true) :
    Keeps n (resStatus p ch) := by
  unfold resStatus
  split
  · exact pass_keeps { h with } trivial
  · split
    · exact pass_keeps { h with } trivial
    · exact pass_keeps h (plain_stateOk hp)

/-! ## The end of the headers -/

theorem headersDone_keeps (h : p.Bounded 0 999) : Keeps n (headersDone p ch) := by
  have hcounted : { p with nread := 0 }.Bounded 0 999 := { h with nread := Nat.zero_le _ }
  refine strictCheck_keeps h ?_
  simp only
  split
  · exact newMessage_prepared hcounted
  · split
    · rename_i hchunked
      exact pass_keeps { hcounted with } ⟨rfl, hchunked⟩
    · split
      · exact messageComplete_keeps hcounted
      · split
        · rename_i hzero hmax
          exact pass_keeps { hcounted with } ⟨hzero, hmax⟩
        · split
          · exact messageComplete_keeps hcounted
          · exact pass_keeps { hcounted with } trivial

theorem headersAlmostDone_keeps (h : p.Bounded 0 999) : Keeps n (headersAlmostDone p ch) := by
  refine strictCheck_keeps h ?_
  split
  · exact messageComplete_keeps h
  · exact loopHead_keeps { h with } fun _ hcounted => headersDone_keeps hcounted

/-! ## Header fields -/

theorem firstHeaderState_ok (c : UInt8) : FieldOk (firstHeaderState c) 0 := by
  have hproxy : Inside proxyConnectionWord 0 := by decide +kernel
  have hencoding : Inside transferEncodingWord 0 := by decide +kernel
  have hupgrade : Inside upgradeWord 0 := by decide +kernel
  unfold firstHeaderState
  repeat' split
  all_goals first | assumption | trivial

theorem headerFieldStart_keeps (h : p.Bounded 0 999) : Keeps n (headerFieldStart p ch) := by
  unfold headerFieldStart
  split
  · exact pass_keeps { h with } trivial
  · split
    · exact loopHead_keeps { h with } fun _ hcounted => headersAlmostDone_keeps hcounted
    · split
      · exact h.fail _
      · exact pass_keeps { h with index := Nat.zero_le _ } (firstHeaderState_ok (token ch))

/-- Of the three ways a word goes on, it stays inside the word only if
another character follows. -/
theorem matchWord_rule {Q : HeaderStates → Prop} {word : Bytes} {i : ℕ} {c : UInt8}
    {mismatch same done : HeaderStates} (hmismatch : Q mismatch)
    (hsame : Inside word i → Q same) (hdone : Q done) :
    Q (matchWord word i c mismatch same done) := by
  unfold matchWord
  split
  · exact hmismatch
  · rename_i hget
    have hlt : i < word.length := (List.getElem?_eq_some_iff.mp (not_not.mp hget)).1
    split
    · exact hdone
    · rename_i hlast
      exact hsame (Nat.lt_of_le_of_ne hlt hlast)

theorem words_length : connectionWord.length = 10 ∧ proxyConnectionWord.length = 16 ∧
    contentLengthWord.length = 14 ∧ transferEncodingWord.length = 17 ∧ upgradeWord.length = 7 ∧
    chunkedWord.length = 7 ∧ keepAliveWord.length = 10 ∧ closeWord.length = 5 := by
  decide +kernel

/-- A state in which a word is matched, on its next character. -/
theorem matchWord_ok {Q : HeaderStates → ℕ → Prop} {word : Bytes} {index : ℕ} {c : UInt8}
    {mismatch same done : HeaderStates} (hinside : Inside word index) (hword : word.length ≤ 17)
    (hmismatch : Q mismatch (index + 1)) (hsame : Inside word (index + 1) → Q same (index + 1))
    (hdone : Q done (index + 1)) :
    Q (matchWord word (index + 1) c mismatch same done) (index + 1) ∧ index + 1 ≤ 17 :=
  ⟨matchWord_rule (Q := (Q · (index + 1))) hmismatch hsame hdone,
    le_of_lt (Nat.lt_of_lt_of_le hinside hword)⟩

theorem fieldChar_ok {h : HeaderStates} {index : ℕ} (hok : FieldOk h index)
    (hindex : index ≤ 17) (ch : UInt8) :
    FieldOk (fieldChar h index ch).1 (fieldChar h index ch).2 ∧ (fieldChar h index ch).2 ≤ 17 := by
  obtain ⟨hconnection, hproxy, hlength, hencoding, hupgrade, -⟩ := words_length
  cases h
  case C =>
    obtain rfl : index = 0 := hok
    simp only [fieldChar]
    split <;> exact ⟨by trivial, by decide⟩
  case CO =>
    obtain rfl : index = 1 := hok
    simp only [fieldChar]
    split <;> exact ⟨by trivial, by decide⟩
  case CON =>
    obtain rfl : index = 2 := hok
    have hconnection : Inside connectionWord 3 := by decide +kernel
    have hlength : Inside contentLengthWord 3 := by decide +kernel
    simp only [fieldChar]
    split
    · exact ⟨hconnection, by decide⟩
    · split
      · exact ⟨hlength, by decide⟩
      · exact ⟨trivial, by decide⟩
  case matchingConnection =>
    exact matchWord_ok (Q := FieldOk) hok (by omega) trivial id trivial
  case matchingProxyConnection =>
    exact matchWord_ok (Q := FieldOk) hok (by omega) trivial id trivial
  case matchingContentLength =>
    exact matchWord_ok (Q := FieldOk) hok (by omega) trivial id trivial
  case matchingTransferEncoding =>
    exact matchWord_ok (Q := FieldOk) hok (by omega) trivial id trivial
  case matchingUpgrade =>
    exact matchWord_ok (Q := FieldOk) hok (by omega) trivial id trivial
  case general => exact ⟨trivial, hindex⟩
  case connection | contentLength | transferEncoding | upgrade =>
    simp only [fieldChar]
    split <;> exact ⟨trivial, hindex⟩
  all_goals exact hok.elim

/-- A byte of the inner loop, which has passed at most `n` bytes before. -/
theorem headerField_keeps {loop : ℕ} (h : p.Bounded 0 999) (hp : p.state = .headerField)
    (hok : FieldOk p.headerState p.index) (hloop : loop ≤ n) : Keeps n (headerField p loop ch) := by
  unfold headerField
  split
  · obtain ⟨hnext, hindex⟩ := fieldChar_ok hok h.index ch
    refine ⟨⟨{ h with index := hindex }, ?_⟩, ?_⟩
    · show StateOk _
      unfold StateOk
      simp only [hp]
      exact hnext
    · intro k hk
      obtain rfl := Option.some.inj hk
      exact ⟨Or.inl hp, Nat.succ_le_succ hloop⟩
  · refine countHeaderSize_keeps h (Nat.le_succ_of_le hloop) ?_
    intro nread hcounted
    simp only
    split
    · exact pass_keeps { hcounted with } trivial
    · exact hcounted.fail _

/-! ## Header values -/

theorem headerValueStart_keeps (h : p.Bounded 0 999) : Keeps n (headerValueStart p ch) := by
  have hstart : { p with state := .headerValue, index := 0 }.Bounded 0 999 :=
    { h with index := Nat.zero_le _ }
  have hchunked : Inside chunkedWord 0 := by decide +kernel
  have hkeepAlive : Inside keepAliveWord 0 := by decide +kernel
  have hclose : Inside closeWord 0 := by decide +kernel
  have hupgrade : Inside upgradeWord 0 := by decide +kernel
  unfold headerValueStart
  simp only
  split
  · exact pass_keeps { hstart with } trivial
  · refine pass_keeps { hstart with } ?_
    simp only [StateOk]
    split
    · exact hchunked
    · trivial
  · rename_i hlength
    split
    · rename_i hnum
      refine pass_keeps { hstart with contentLength := ?_ } ?_
      · exact le_trans (digit_le hnum) (by decide)
      · simp only [StateOk, hlength]
        trivial
    · exact hstart.fail _
  · refine pass_keeps { hstart with } ?_
    simp only [StateOk]
    split
    · exact hkeepAlive
    · split
      · exact hclose
      · split
        · exact hupgrade
        · trivial
  · rename_i hstart'
    refine pass_keeps hstart ?_
    simp only [StateOk, hstart']
    rfl
  · exact pass_keeps { hstart with } trivial

theorem headerValueDiscardWs_keeps (h : p.Bounded 0 999) (hp : p.state.plain = true) :
    Keeps n (headerValueDiscardWs p ch) := by
  unfold headerValueDiscardWs
  split
  · exact pass_keeps h (plain_stateOk hp)
  · split
    · exact pass_keeps { h with } trivial
    · split
      · exact pass_keeps { h with } trivial
      · exact headerValueStart_keeps h

theorem finishHeader_bounded (h : p.Bounded 0 999) : (finishHeader p).Bounded 0 999 := by
  unfold finishHeader
  split <;> exact { h with }

theorem nextLine_keeps (h : p.Bounded 0 999) :
    Keeps n (loopHead { finishHeader p with state := .headerFieldStart }
      (headerFieldStart · ch)) :=
  loopHead_keeps { finishHeader_bounded h with } fun _ hcounted => headerFieldStart_keeps hcounted

theorem headerValueDiscardLws_keeps (h : p.Bounded 0 999) :
    Keeps n (headerValueDiscardLws p ch) := by
  unfold headerValueDiscardLws
  split
  · exact pass_keeps { h with } trivial
  · exact nextLine_keeps h

theorem headerValueLws_keeps (h : p.Bounded 0 999) : Keeps n (headerValueLws p ch) := by
  unfold headerValueLws
  split
  · exact loopHead_keeps { h with } fun _ hcounted => headerValueStart_keeps hcounted
  · exact nextLine_keeps h

theorem lengthChar_le {k k' : ℕ} (hk : k ≤ ullongMax) (h : lengthChar k ch = some k') :
    k' ≤ ullongMax := by
  unfold lengthChar at h
  split at h
  · exact Option.some.inj h ▸ hk
  · split at h
    · cases h
    · rename_i hnum
      have hdigit := digit_le (not_not.mp hnum)
      split at h
      · cases h
      · rename_i hle
        obtain rfl := Option.some.inj h
        simp only [ullongMax] at hle ⊢
        omega

theorem optionStart_ok (c : UInt8) : ValueOk (optionStart c) 0 := by
  have hkeepAlive : Inside keepAliveWord 0 := by decide +kernel
  have hclose : Inside closeWord 0 := by decide +kernel
  have hupgrade : Inside upgradeWord 0 := by decide +kernel
  unfold optionStart
  repeat' split
  all_goals first | assumption | trivial

theorem valueChar_ok {h : HeaderStates} {index : ℕ} (hok : ValueOk h index) (hindex : index ≤ 17)
    (flags : ParserFlags) (ch : UInt8) :
    ValueOk (valueChar h index flags ch).1 (valueChar h index flags ch).2.1 ∧
      (valueChar h index flags ch).2.1 ≤ 17 := by
  obtain ⟨-, -, -, -, hupgrade, hchunked, hkeepAlive, hclose⟩ := words_length
  cases h
  case matchingTransferEncodingChunked =>
    exact matchWord_ok (Q := ValueOk) hok (by omega) trivial id trivial
  case matchingConnectionKeepAlive =>
    exact matchWord_ok (Q := ValueOk) hok (by omega) trivial id trivial
  case matchingConnectionClose =>
    exact matchWord_ok (Q := ValueOk) hok (by omega) trivial id trivial
  case matchingConnectionUpgrade =>
    exact matchWord_ok (Q := ValueOk) hok (by omega) trivial id trivial
  case matchingConnectionTokenStart =>
    obtain rfl : index = 0 := hok
    exact ⟨optionStart_ok _, hindex⟩
  case matchingConnectionToken =>
    simp only [valueChar]
    split
    · exact ⟨rfl, Nat.zero_le _⟩
    · exact ⟨trivial, hindex⟩
  case transferEncodingChunked =>
    simp only [valueChar]
    split <;> exact ⟨trivial, hindex⟩
  case connectionKeepAlive | connectionClose | connectionUpgrade =>
    simp only [valueChar]
    split
    · exact ⟨rfl, Nat.zero_le _⟩
    · split <;> exact ⟨trivial, hindex⟩
  all_goals exact ⟨trivial, hindex⟩

/-- Also where a line feed is counted again: the byte before the second count
is at most the largest header. -/
theorem headerValue_keeps {loop : ℕ} (h : p.Bounded 0 999) (hp : p.state = .headerValue)
    (hok : ValueOk p.headerState p.index) (hloop : loop ≤ n) : Keeps n (headerValue p loop ch) := by
  have hloops : ∀ k ∈ some (loop + 1),
      (p.state = .headerField ∨ p.state = .headerValue) ∧ k ≤ n + 1 := by
    intro k hk
    obtain rfl := Option.some.inj hk
    exact ⟨Or.inr hp, Nat.succ_le_succ hloop⟩
  unfold headerValue
  split
  · exact countHeaderSize_keeps { h with } (Nat.le_succ_of_le hloop) fun _ hcounted =>
      pass_keeps hcounted trivial
  · split
    · refine countHeaderSize_keeps { h with } (Nat.le_succ_of_le hloop) ?_
      intro nread hcounted
      have hnread : nread ≤ httpMaxHeaderSize + 0 := hcounted.nread
      simp only
      split
      · have htwice : nread + loop - 1 ≤ httpMaxHeaderSize + (n + 2) := by omega
        exact ⟨rfl, { hcounted.wide (n := n) with nread := htwice }⟩
      · rename_i hle
        exact loopHead_keeps { hcounted with nread := Nat.le_of_not_lt hle } fun _ hcounted' =>
          expect_keeps hcounted' trivial
    · split
      · rename_i hlength
        split
        · rename_i k hk
          refine ⟨⟨{ h with contentLength := lengthChar_le h.contentLength hk }, ?_⟩, hloops⟩
          unfold StateOk
          simp only [hp]
          exact hok
        · exact h.fail _
      · obtain ⟨hnext, hindex⟩ := valueChar_ok hok h.index p.flags ch
        refine ⟨⟨{ h with index := hindex }, ?_⟩, hloops⟩
        unfold StateOk
        simp only [hp]
        exact hnext

/-! ## The body -/

theorem unhex_le {v : ℕ} (h : unhex ch = some v) : v ≤ 15 := by
  unfold unhex at h
  split at h
  · rename_i hnum
    exact Option.some.inj h ▸ le_trans (digit_le hnum) (by decide)
  · split at h
    · rename_i hupper
      obtain rfl := Option.some.inj h
      have h70 : ch.toNat ≤ 70 := UInt8.le_iff_toNat_le.mp hupper.2
      omega
    · split at h
      · rename_i hlower
        obtain rfl := Option.some.inj h
        have h102 : ch.toNat ≤ 102 := UInt8.le_iff_toNat_le.mp hlower.2
        omega
      · split at h
        · exact Option.some.inj h ▸ Nat.zero_le _
        · cases h

theorem chunkSizeStart_keeps (h : p.Bounded 0 999) (hchunked : p.flags.chunked = true) :
    Keeps n (chunkSizeStart p ch) := by
  unfold chunkSizeStart
  split
  · rename_i v hv
    have hv15 := unhex_le hv
    have hmax : v < ullongMax := Nat.lt_of_le_of_lt hv15 (by decide)
    exact pass_keeps { h with contentLength := hmax.le } ⟨hchunked, hmax.ne⟩
  · exact h.fail _

theorem chunkSize_keeps (h : p.Bounded 0 999) (hp : p.state = .chunkSize)
    (hchunked : p.flags.chunked = true) (hlength : p.contentLength ≠ ullongMax) :
    Keeps n (chunkSize p ch) := by
  unfold chunkSize
  split
  · exact pass_keeps { h with } ⟨hchunked, hlength⟩
  · split
    · rename_i v hv
      have hv15 := unhex_le hv
      split
      · exact h.fail _
      · rename_i hle
        have hmax : p.contentLength * 16 + v < ullongMax := by
          simp only [ullongMax] at hle ⊢
          omega
        refine pass_keeps { h with contentLength := hmax.le } ?_
        simp only [StateOk, hp]
        exact ⟨hchunked, hmax.ne⟩
    · split
      · exact pass_keeps { h with } ⟨hchunked, hlength⟩
      · exact h.fail _

theorem chunkParameters_keeps (h : p.Bounded 0 999) (hok : p.StateOk)
    (hchunked : p.flags.chunked = true) (hlength : p.contentLength ≠ ullongMax) :
    Keeps n (chunkParameters p ch) := by
  unfold chunkParameters
  split
  · exact pass_keeps { h with } ⟨hchunked, hlength⟩
  · exact pass_keeps h hok

theorem chunkSizeAlmostDone_keeps (h : p.Bounded 0 999) (hchunked : p.flags.chunked = true)
    (hlength : p.contentLength ≠ ullongMax) : Keeps n (chunkSizeAlmostDone p ch) := by
  refine strictCheck_keeps h ?_
  simp only
  split
  · exact pass_keeps { h with nread := Nat.zero_le _ } trivial
  · rename_i hzero
    exact pass_keeps { h with nread := Nat.zero_le _ } ⟨hchunked, hzero, hlength⟩

theorem rest_ne {k : ℕ} (hk : k ≤ ullongMax) : k - 1 ≠ ullongMax := by
  simp only [ullongMax] at hk ⊢
  omega

theorem chunkData_keeps (h : p.Bounded 0 999) (hp : p.state = .chunkData)
    (hchunked : p.flags.chunked = true) : Keeps n (chunkData p ch) := by
  have hrest : { p with contentLength := p.contentLength - 1 }.Bounded 0 999 :=
    { h with contentLength := le_trans (Nat.sub_le _ _) h.contentLength }
  unfold chunkData
  simp only
  split
  · rename_i hdone
    exact pass_keeps { hrest with } ⟨hchunked, hdone⟩
  · rename_i hmore
    refine pass_keeps hrest ?_
    simp only [StateOk, hp]
    exact ⟨hchunked, hmore, rest_ne h.contentLength⟩

theorem chunkDataDone_keeps (h : p.Bounded 0 999) (hchunked : p.flags.chunked = true) :
    Keeps n (chunkDataDone p ch) :=
  strictCheck_keeps h (pass_keeps { h with nread := Nat.zero_le _ } ⟨rfl, hchunked⟩)

theorem bodyIdentity_keeps (h : p.Bounded 0 999) (hp : p.state = .bodyIdentity) :
    Keeps n (bodyIdentity p ch) := by
  have hrest : { p with contentLength := p.contentLength - 1 }.Bounded 0 999 :=
    { h with contentLength := le_trans (Nat.sub_le _ _) h.contentLength }
  unfold bodyIdentity
  simp only
  split
  · exact messageComplete_keeps { hrest with }
  · rename_i hmore
    refine pass_keeps hrest ?_
    simp only [StateOk, hp]
    exact ⟨hmore, rest_ne h.contentLength⟩

/-! ## A byte -/

/-- `nread` may have been counted since the state was set up. -/
theorem scanState_keeps (h : p.Bounded 0 999) {nread : ℕ}
    (hok : { p with nread := nread }.StateOk) : Keeps n (scanState p ch) := by
  unfold scanState
  cases hp : p.state <;> simp only [StateOk, hp] at hok ⊢
  case dead =>
    split
    · exact pass_keeps h (plain_stateOk (by rw [hp]; rfl))
    · exact h.fail _
  case startRes => exact startRes_keeps h (by rw [hp]; rfl)
  case resFirstHttpMajor => exact resFirstHttpMajor_keeps h
  case resHttpMajor => exact resHttpMajor_keeps h (by rw [hp]; rfl)
  case resFirstHttpMinor => exact resFirstHttpMinor_keeps h
  case resHttpMinor => exact resHttpMinor_keeps h (by rw [hp]; rfl)
  case resFirstStatusCode => exact resFirstStatusCode_keeps h (by rw [hp]; rfl)
  case resStatusCode => exact resStatusCode_keeps h (by rw [hp]; rfl)
  case resStatusStart => exact resStatusStart_keeps h
  case resStatus => exact resStatus_keeps h (by rw [hp]; rfl)
  case headerFieldStart => exact headerFieldStart_keeps h
  case headerField => exact headerField_keeps h hp hok (Nat.zero_le _)
  case headerValueDiscardWs => exact headerValueDiscardWs_keeps h (by rw [hp]; rfl)
  case headerValueDiscardLws => exact headerValueDiscardLws_keeps h
  case headerValueStart => exact headerValueStart_keeps h
  case headerValue => exact headerValue_keeps h hp hok (Nat.zero_le _)
  case headerValueLws => exact headerValueLws_keeps h
  case headersAlmostDone => exact headersAlmostDone_keeps h
  case headersDone => exact headersDone_keeps h
  case chunkSizeStart => exact chunkSizeStart_keeps h hok.2
  case chunkSize => exact chunkSize_keeps h hp hok.1 hok.2
  case chunkParameters =>
    exact chunkParameters_keeps h (by simpa only [StateOk, hp] using hok) hok.1 hok.2
  case chunkSizeAlmostDone => exact chunkSizeAlmostDone_keeps h hok.1 hok.2
  case chunkData => exact chunkData_keeps h hp hok.1
  case chunkDataAlmostDone => exact expect_keeps h hok.1
  case chunkDataDone => exact chunkDataDone_keeps h hok
  case bodyIdentity => exact bodyIdentity_keeps h hp
  case bodyIdentityEof => exact pass_keeps h (plain_stateOk (by rw [hp]; rfl))
  case messageDone => exact messageComplete_keeps h
  all_goals exact expect_keeps h trivial

/-- What one byte keeps: the byte after `n` others of its chunk, of which an
inner loop has passed no more than `n`. -/
theorem Prepared.scanByte {loop : Option ℕ} (h : p.Prepared) (hloop : ∀ k ∈ loop, k ≤ n)
    (ch : UInt8) : Keeps n (scanByte p loop ch) := by
  have hok := h.stateOk
  unfold HttpParser.scanByte
  split
  · rename_i k hp
    unfold StateOk at hok
    simp only [hp] at hok
    exact headerField_keeps h.bounded hp hok (hloop k rfl)
  · rename_i k hp
    unfold StateOk at hok
    simp only [hp] at hok
    exact headerValue_keeps h.bounded hp hok (hloop k rfl)
  · refine loopHead_keeps h.bounded ?_
    intro nread hcounted
    exact scanState_keeps hcounted (show { p with nread := p.nread }.StateOk from hok)

/-- A byte that is passed sets no error. -/
def NoErrno : Scanned → Prop
  | .next p _ _ | .leave p _ => p.httpErrno = none
  | .error _ _ => True

theorem Agrees.noErrno {r r' : Scanned} (h : Agrees r r') : NoErrno r := by
  cases r with
  | next q loop m => exact h.1
  | error q back => trivial
  | leave q m => exact h.1

theorem headerField_noErrno (herrno : p.httpErrno = none) (k : ℕ) :
    NoErrno (headerField p k ch) := by
  unfold headerField countHeaderSize
  simp only
  repeat' split
  all_goals first
    | exact herrno
    | trivial

theorem headerValue_noErrno (herrno : p.httpErrno = none) (k : ℕ) :
    NoErrno (headerValue p k ch) := by
  have hline (nread : ℕ) : NoErrno (loopHead
      { p with state := .headerAlmostDone, nread := nread } (headerAlmostDone · ch)) :=
    (expect_countsOnly.loopHead.self (by exact herrno)).noErrno
  unfold headerValue countHeaderSize
  simp only
  repeat' split
  all_goals first
    | exact herrno
    | trivial
    | exact hline _

theorem scanByte_noErrno (herrno : p.httpErrno = none) (loop : Option ℕ) (ch : UInt8) :
    NoErrno (scanByte p loop ch) := by
  unfold scanByte
  split
  · exact headerField_noErrno herrno _
  · exact headerValue_noErrno herrno _
  · exact (scanState_countsOnly.loopHead.self herrno).noErrno

/-! ## A chunk -/

/-- What is left when a chunk ends in an inner loop. -/
theorem Prepared.chunkEnd {loop : Option ℕ} (h : p.Prepared)
    (hloop : ∀ k ∈ loop, (p.state = .headerField ∨ p.state = .headerValue) ∧ k ≤ n) (done : ℕ) :
    let r := scan p loop done []
    (r.parser.httpErrno.isSome = true ∨ r.parser.Prepared) ∧ r.parser.Bounded (n + 2) 9999 := by
  have hnread := h.bounded.nread
  cases loop with
  | none =>
      have hscan : scan p none done [] = ⟨p, [], done⟩ := by
        simp only [scan, Option.getD_none, Nat.add_zero, Option.isSome_none, Bool.false_eq_true,
          and_false, if_false]
      simp only [hscan]
      exact ⟨Or.inr h, h.bounded.wide⟩
  | some k =>
      obtain ⟨hstate, hk⟩ := hloop k rfl
      have hcounted : p.nread + k ≤ httpMaxHeaderSize + (n + 2) := by omega
      simp only [scan, Option.getD_some, Option.isSome_some, and_true]
      split
      · exact ⟨Or.inl rfl, { h.bounded.wide (n := n) with nread := hcounted }⟩
      · rename_i hle
        refine ⟨Or.inr ⟨{ h.bounded with nread := Nat.le_of_not_lt hle }, ?_⟩,
          { h.bounded.wide (n := n) with nread := hcounted }⟩
        have hok := h.stateOk
        unfold StateOk at hok ⊢
        rcases hstate with hp | hp <;> simp only [hp] at hok ⊢ <;> exact hok

/-- The parser stays ready, or has an error, whatever the chunk holds, and no
check fails unless the chunk is larger than any buffer. -/
theorem Prepared.scan : ∀ (chunk : Bytes) {p : HttpParser} {loop : Option ℕ} {done : ℕ}
    {marks : Finset Mark} {d : MarkedText}, p.Prepared → p.httpErrno = none →
    (∀ k ∈ loop, (p.state = .headerField ∨ p.state = .headerValue) ∧ k ≤ done) →
    Tracked p.state marks d.mark → Marks p.state d.mark →
    ((scan p loop done chunk).parser.httpErrno.isSome = true ∨
      (scan p loop done chunk).parser.Prepared) ∧
    (done + chunk.length ≤ recvbuf →
      scanChecked p loop marks done chunk = some (HttpParser.scan p loop done chunk))
  | [], p, loop, done, marks, d, h, herrno, hloop, htracked, hmark => by
      obtain ⟨hkept, hbounded⟩ := h.chunkEnd hloop done
      refine ⟨hkept, fun hlen => ?_⟩
      have hfields := hbounded.inFields (by simp only [recvbuf] at hlen; omega) (by decide)
      exact if_pos ⟨herrno, Or.inr (htracked.card_le_one hmark), hfields⟩
  | ch :: rest, p, loop, done, marks, d, h, herrno, hloop, htracked, hmark => by
      have hkeeps := h.scanByte (fun k hk => (hloop k hk).2) ch
      have hasserts := h.asserts ch
      have hquiet := scanByte_noErrno herrno loop ch
      have hlands := scanByte_lands loop ch hmark
      rw [HttpParser.scan, scanChecked]
      cases hbyte : HttpParser.scanByte p loop ch with
      | next q loop' m =>
          rw [hbyte] at hkeeps hquiet hlands
          obtain ⟨hprepared, hloop'⟩ := hkeeps
          obtain ⟨hkept, hchecked⟩ := Prepared.scan rest hprepared hquiet hloop'
            (scanByte_tracked htracked hmark hbyte) hlands
          refine ⟨hkept, fun hlen => ?_⟩
          rw [List.length_cons] at hlen
          have hfields : q.InFields := hprepared.bounded.inFields (by decide) (by decide)
          rw [if_pos ⟨herrno, hasserts, hfields⟩]
          simp only
          rw [hchecked (by omega), Option.map_some]
      | error q back =>
          rw [hbyte] at hkeeps
          obtain ⟨herror, hbounded⟩ := hkeeps
          refine ⟨Or.inl herror, fun hlen => ?_⟩
          have hfields : q.InFields :=
            hbounded.inFields (by simp only [recvbuf, List.length_cons] at hlen; omega) (by decide)
          exact if_pos ⟨herrno, hasserts, hfields⟩
      | leave q m =>
          rw [hbyte] at hkeeps
          have hfields : q.InFields := hkeeps.bounded.inFields (by decide) (by decide)
          exact ⟨Or.inr hkeeps, fun _ => if_pos ⟨herrno, hasserts, hfields⟩⟩

/-- Between two reads. -/
def Usable (p : HttpParser) : Prop := p.httpErrno.isSome = true ∨ p.Prepared

theorem scanEof_usable (h : p.Prepared) : (scanEof p).parser.Usable := by
  unfold scanEof
  split
  · simp only
    split
    · exact Or.inr init_prepared
    · exact Or.inr h
  · exact Or.inr h
  · exact Or.inr h
  · exact Or.inl rfl

/-- What one read keeps, of any length; and a read into the buffer of the
connection passes every check. -/
theorem Usable.execute (h : p.Usable) (chunk : Bytes) :
    (execute p chunk).parser.Usable ∧
      (chunk.length ≤ recvbuf → executeChecked p chunk = some (HttpParser.execute p chunk)) := by
  unfold HttpParser.execute executeChecked
  by_cases herrno : p.httpErrno.isSome = true
  · rw [if_pos herrno, if_pos herrno]
    exact ⟨h, fun _ => rfl⟩
  · have hprepared : p.Prepared := h.resolve_left herrno
    rw [if_neg herrno, if_neg herrno]
    by_cases hempty : chunk = []
    · rw [if_pos hempty, if_pos hempty]
      exact ⟨scanEof_usable hprepared, fun _ => rfl⟩
    · rw [if_neg hempty, if_neg hempty]
      have hloop : ∀ k ∈ (none : Option ℕ),
          (p.state = .headerField ∨ p.state = .headerValue) ∧ k ≤ 0 := fun k hk => by cases hk
      have hnone : p.httpErrno = none := Option.not_isSome_iff_eq_none.mp herrno
      obtain ⟨hkept, hchecked⟩ := hprepared.scan chunk hnone hloop
        (startMarks_tracked p .empty) (chunkStart_marks p .empty)
      exact ⟨hkept, fun hlen => hchecked (by omega)⟩

theorem Usable.readChecked (h : p.Usable) {chunks : List Bytes}
    (hsizes : ∀ chunk ∈ chunks, chunk.length ≤ recvbuf) :
    readChecked p chunks =
      some (chunks.foldl (fun p chunk => (HttpParser.execute p chunk).parser) p) := by
  induction chunks generalizing p with
  | nil => rfl
  | cons chunk chunks ih =>
      obtain ⟨hchunk, hsizes⟩ := List.forall_mem_cons.mp hsizes
      obtain ⟨hkept, hchecked⟩ := h.execute chunk
      rw [HttpParser.readChecked, hchecked hchunk, Option.bind_some, ih hkept hsizes]
      rfl

end HttpParser

end WrkQuic
