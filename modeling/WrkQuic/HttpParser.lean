import WrkQuic.Tcp

/-!
# The response parser

`http_parser_execute` of `http_parser.c` on responses, as `wrk.c` uses it:
type `HTTP_RESPONSE`, `HTTP_PARSER_STRICT`, and the callback
`response_complete`, which starts the parser over after every response
that keeps the connection alive. The data callbacks change nothing in the
parser and are left out, as are `method`, which stays 0, and `F_SKIPBODY`,
which only `on_headers_complete` could set.

The source walks through a chunk with a pointer; here one byte is scanned
at a time. `REEXECUTE` is a call of the next state on the same byte. The
two inner loops, over a header field and over a header value, count their
bytes only when they are left: `loop` is the number of bytes such a loop
has passed. A chunk is at most `RECVBUF` bytes long, so that the limit of
`memchr` in a header value is not reached.
-/

namespace WrkQuic

/-! ## Characters -/

def cr : UInt8 := 13

def lf : UInt8 := 10

def space : UInt8 := 32

def tab : UInt8 := 9

/-- `IS_NUM`. -/
def isNum (ch : UInt8) : Bool := 48 ≤ ch && ch ≤ 57

/-- `ch - '0'`. -/
def digit (ch : UInt8) : ℕ := ch.toNat - 48

/-- `LOWER`. -/
def lower (ch : UInt8) : UInt8 := ch ||| 32

/-- The table `tokens`: the lower case of a token character, and 0 for any
other. -/
def token (ch : UInt8) : UInt8 :=
  if 65 ≤ ch ∧ ch ≤ 90 then ch + 32
  else if isNum ch ∨ 97 ≤ ch ∧ ch ≤ 122 then ch
  else if ch ∈ "!#$%&'*+-.^_`|~".toUTF8.toList then ch
  else 0

/-- The table `unhex`. Its second half is not initialised and thus 0. -/
def unhex (ch : UInt8) : Option ℕ :=
  if isNum ch then some (digit ch)
  else if 65 ≤ ch ∧ ch ≤ 70 then some (ch.toNat - 55)
  else if 97 ≤ ch ∧ ch ≤ 102 then some (ch.toNat - 87)
  else if 128 ≤ ch then some 0
  else none

/-! ## State -/

/-- The states of `enum state` that a response goes through. `unset` is the
0 of zeroed memory. -/
inductive ParserState where
  | unset
  | dead
  | startRes
  | resH
  | resHT
  | resHTT
  | resHTTP
  | resFirstHttpMajor
  | resHttpMajor
  | resFirstHttpMinor
  | resHttpMinor
  | resFirstStatusCode
  | resStatusCode
  | resStatusStart
  | resStatus
  | resLineAlmostDone
  | headerFieldStart
  | headerField
  | headerValueDiscardWs
  | headerValueDiscardWsAlmostDone
  | headerValueDiscardLws
  | headerValueStart
  | headerValue
  | headerValueLws
  | headerAlmostDone
  | chunkSizeStart
  | chunkSize
  | chunkParameters
  | chunkSizeAlmostDone
  | headersAlmostDone
  | headersDone
  | chunkData
  | chunkDataAlmostDone
  | chunkDataDone
  | bodyIdentity
  | bodyIdentityEof
  | messageDone
deriving DecidableEq

/-- `PARSING_HEADER`. -/
def ParserState.parsingHeader : ParserState → Bool
  | .chunkData | .chunkDataAlmostDone | .chunkDataDone | .bodyIdentity | .bodyIdentityEof
  | .messageDone => false
  | _ => true

/-- `enum header_states`. -/
inductive HeaderStates where
  | general
  | C
  | CO
  | CON
  | matchingConnection
  | matchingProxyConnection
  | matchingContentLength
  | matchingTransferEncoding
  | matchingUpgrade
  | connection
  | contentLength
  | transferEncoding
  | upgrade
  | matchingTransferEncodingChunked
  | matchingConnectionTokenStart
  | matchingConnectionKeepAlive
  | matchingConnectionClose
  | matchingConnectionUpgrade
  | matchingConnectionToken
  | transferEncodingChunked
  | connectionKeepAlive
  | connectionClose
  | connectionUpgrade
deriving DecidableEq

structure ParserFlags where
  chunked : Bool
  connectionKeepAlive : Bool
  connectionClose : Bool
  connectionUpgrade : Bool
  trailing : Bool
  upgrade : Bool
deriving DecidableEq

inductive HttpErrno where
  | invalidEofState
  | headerOverflow
  | closedConnection
  | invalidVersion
  | invalidStatus
  | invalidHeaderToken
  | invalidContentLength
  | invalidChunkSize
  | invalidConstant
  | invalidInternalState
  | strict
deriving DecidableEq

/-- `struct http_parser`; `httpErrno` is `none` for `HPE_OK`. -/
structure HttpParser where
  flags : ParserFlags
  state : ParserState
  headerState : HeaderStates
  index : ℕ
  nread : ℕ
  contentLength : ℕ
  httpMajor : ℕ
  httpMinor : ℕ
  statusCode : ℕ
  httpErrno : Option HttpErrno
  upgrade : Bool
deriving DecidableEq

def ullongMax : ℕ := 2 ^ 64 - 1

/-- `HTTP_MAX_HEADER_SIZE`. -/
def httpMaxHeaderSize : ℕ := 80 * 1024

def ParserFlags.none : ParserFlags := ⟨false, false, false, false, false, false⟩

namespace HttpParser

def zeroed : HttpParser where
  flags := .none
  state := .unset
  headerState := .general
  index := 0
  nread := 0
  contentLength := 0
  httpMajor := 0
  httpMinor := 0
  statusCode := 0
  httpErrno := none
  upgrade := false

/-- `http_parser_init`. -/
def init : HttpParser := { zeroed with state := .startRes }

/-- `http_message_needs_eof`. -/
def messageNeedsEof (p : HttpParser) : Bool :=
  if p.statusCode / 100 = 1 ∨ p.statusCode = 204 ∨ p.statusCode = 304 then false
  else if p.flags.chunked ∨ p.contentLength ≠ ullongMax then false
  else true

/-- `http_should_keep_alive`. -/
def shouldKeepAlive (p : HttpParser) : Bool :=
  if 0 < p.httpMajor ∧ 0 < p.httpMinor then
    if p.flags.connectionClose then false else !p.messageNeedsEof
  else if !p.flags.connectionKeepAlive then false
  else !p.messageNeedsEof

/-- The response that is complete. -/
def completion (p : HttpParser) : Completion := ⟨p.statusCode, p.shouldKeepAlive⟩

end HttpParser

/-- What becomes of a byte: it is passed, with the response it completes,
or it is an error, reported `back` bytes before it, or it ends the parser's
part of the connection. -/
inductive Scanned where
  | next (p : HttpParser) (loop : Option ℕ) (m : Option Completion)
  | error (p : HttpParser) (back : ℕ)
  | leave (p : HttpParser) (m : Completion)

namespace HttpParser

/-- `SET_ERRNO` and `goto error`. -/
def fail (p : HttpParser) (e : HttpErrno) : Scanned := .error { p with httpErrno := some e } 0

/-- On to the next byte. -/
def pass (p : HttpParser) : Scanned := .next p none none

/-- `COUNT_HEADER_SIZE`. -/
def countHeaderSize (p : HttpParser) (n : ℕ) (k : HttpParser → Scanned) : Scanned :=
  let p := { p with nread := p.nread + n }
  if httpMaxHeaderSize < p.nread then fail p .headerOverflow else k p

/-- The loop head of `http_parser_execute`, on to the state `k`. -/
def loopHead (p : HttpParser) (k : HttpParser → Scanned) : Scanned :=
  if p.state.parsingHeader then countHeaderSize p 1 k else k p

/-- `STRICT_CHECK(ch != c)`. -/
def strictCheck (p : HttpParser) (ch c : UInt8) (k : Scanned) : Scanned :=
  if ch ≠ c then fail p .strict else k

/-- `UPDATE_STATE(NEW_MESSAGE())` and `response_complete`. -/
def newMessage (p : HttpParser) : HttpParser :=
  if p.shouldKeepAlive then .init else { p with state := .dead }

def messageComplete (p : HttpParser) : Scanned := .next (newMessage p) none (some p.completion)

/-! ## The status line -/

def startRes (p : HttpParser) (ch : UInt8) : Scanned :=
  let p := { p with flags := .none, contentLength := ullongMax }
  if ch = 72 then pass { p with state := .resH }
  else if ch = cr ∨ ch = lf then pass p
  else fail p .invalidConstant

/-- `s_res_H` to `s_res_HTTP`, and the other states that wait for `c`. -/
def expect (p : HttpParser) (ch c : UInt8) (next : ParserState) : Scanned :=
  strictCheck p ch c (pass { p with state := next })

def resFirstHttpMajor (p : HttpParser) (ch : UInt8) : Scanned :=
  if isNum ch then pass { p with httpMajor := digit ch, state := .resHttpMajor }
  else fail p .invalidVersion

def resHttpMajor (p : HttpParser) (ch : UInt8) : Scanned :=
  if ch = 46 then pass { p with state := .resFirstHttpMinor }
  else if isNum ch then
    let p := { p with httpMajor := p.httpMajor * 10 + digit ch }
    if 999 < p.httpMajor then fail p .invalidVersion else pass p
  else fail p .invalidVersion

def resFirstHttpMinor (p : HttpParser) (ch : UInt8) : Scanned :=
  if isNum ch then pass { p with httpMinor := digit ch, state := .resHttpMinor }
  else fail p .invalidVersion

def resHttpMinor (p : HttpParser) (ch : UInt8) : Scanned :=
  if ch = space then pass { p with state := .resFirstStatusCode }
  else if isNum ch then
    let p := { p with httpMinor := p.httpMinor * 10 + digit ch }
    if 999 < p.httpMinor then fail p .invalidVersion else pass p
  else fail p .invalidVersion

def resFirstStatusCode (p : HttpParser) (ch : UInt8) : Scanned :=
  if isNum ch then pass { p with statusCode := digit ch, state := .resStatusCode }
  else if ch = space then pass p
  else fail p .invalidStatus

def resStatusCode (p : HttpParser) (ch : UInt8) : Scanned :=
  if isNum ch then
    let p := { p with statusCode := p.statusCode * 10 + digit ch }
    if 999 < p.statusCode then fail p .invalidStatus else pass p
  else if ch = space then pass { p with state := .resStatusStart }
  else if ch = cr then pass { p with state := .resLineAlmostDone }
  else if ch = lf then pass { p with state := .headerFieldStart }
  else fail p .invalidStatus

def resStatusStart (p : HttpParser) (ch : UInt8) : Scanned :=
  if ch = cr then pass { p with state := .resLineAlmostDone }
  else if ch = lf then pass { p with state := .headerFieldStart }
  else pass { p with state := .resStatus, index := 0 }

def resStatus (p : HttpParser) (ch : UInt8) : Scanned :=
  if ch = cr then pass { p with state := .resLineAlmostDone }
  else if ch = lf then pass { p with state := .headerFieldStart }
  else pass p

/-! ## The end of the headers -/

def headersDone (p : HttpParser) (ch : UInt8) : Scanned :=
  strictCheck p ch lf <|
    let p := { p with nread := 0 }
    if p.upgrade then .leave (newMessage p) p.completion
    else if p.flags.chunked then pass { p with state := .chunkSizeStart }
    else if p.contentLength = 0 then messageComplete p
    else if p.contentLength ≠ ullongMax then pass { p with state := .bodyIdentity }
    else if !p.messageNeedsEof then messageComplete p
    else pass { p with state := .bodyIdentityEof }

def headersAlmostDone (p : HttpParser) (ch : UInt8) : Scanned :=
  strictCheck p ch lf <|
    if p.flags.trailing then messageComplete p
    else
      loopHead { p with
        state := .headersDone
        upgrade := p.flags.upgrade && p.flags.connectionUpgrade } (headersDone · ch)

/-! ## Header fields -/

def firstHeaderState (c : UInt8) : HeaderStates :=
  if c = 99 then .C
  else if c = 112 then .matchingProxyConnection
  else if c = 116 then .matchingTransferEncoding
  else if c = 117 then .matchingUpgrade
  else .general

def headerFieldStart (p : HttpParser) (ch : UInt8) : Scanned :=
  if ch = cr then pass { p with state := .headersAlmostDone }
  else if ch = lf then
    loopHead { p with state := .headersAlmostDone } (headersAlmostDone · ch)
  else if token ch = 0 then fail p .invalidHeaderToken
  else
    pass { p with
      index := 0
      state := .headerField
      headerState := firstHeaderState (token ch) }

def connectionWord : Bytes := "connection".toUTF8.toList

def proxyConnectionWord : Bytes := "proxy-connection".toUTF8.toList

def contentLengthWord : Bytes := "content-length".toUTF8.toList

def transferEncodingWord : Bytes := "transfer-encoding".toUTF8.toList

def upgradeWord : Bytes := "upgrade".toUTF8.toList

def chunkedWord : Bytes := "chunked".toUTF8.toList

def keepAliveWord : Bytes := "keep-alive".toUTF8.toList

def closeWord : Bytes := "close".toUTF8.toList

/-- The state after the character at `index` of a name or value that has
matched `word` so far. -/
def matchWord (word : Bytes) (index : ℕ) (c : UInt8) (mismatch same done : HeaderStates) :
    HeaderStates :=
  if word[index]? ≠ some c then mismatch
  else if index + 1 = word.length then done
  else same

/-- The inner switch of `s_header_field`, with the new `index`. -/
def fieldChar (h : HeaderStates) (index : ℕ) (ch : UInt8) : HeaderStates × ℕ :=
  let c := token ch
  match h with
  | .C => (if c = 111 then .CO else .general, index + 1)
  | .CO => (if c = 110 then .CON else .general, index + 1)
  | .CON =>
      (if c = 110 then .matchingConnection
        else if c = 116 then .matchingContentLength else .general, index + 1)
  | .matchingConnection =>
      (matchWord connectionWord (index + 1) c .general .matchingConnection .connection, index + 1)
  | .matchingProxyConnection =>
      (matchWord proxyConnectionWord (index + 1) c .general .matchingProxyConnection
        .connection, index + 1)
  | .matchingContentLength =>
      (matchWord contentLengthWord (index + 1) c .general .matchingContentLength
        .contentLength, index + 1)
  | .matchingTransferEncoding =>
      (matchWord transferEncodingWord (index + 1) c .general .matchingTransferEncoding
        .transferEncoding, index + 1)
  | .matchingUpgrade =>
      (matchWord upgradeWord (index + 1) c .general .matchingUpgrade .upgrade, index + 1)
  | .connection | .contentLength | .transferEncoding | .upgrade =>
      (if ch ≠ space then .general else h, index)
  | _ => (h, index)

/-- A byte in the loop of `s_header_field`. -/
def headerField (p : HttpParser) (loop : ℕ) (ch : UInt8) : Scanned :=
  if token ch ≠ 0 then
    let r := fieldChar p.headerState p.index ch
    .next { p with headerState := r.1, index := r.2 } (some (loop + 1)) none
  else
    countHeaderSize p loop fun p =>
      if ch = 58 then pass { p with state := .headerValueDiscardWs }
      else fail p .invalidHeaderToken

/-! ## Header values -/

def headerValueStart (p : HttpParser) (ch : UInt8) : Scanned :=
  let p := { p with state := .headerValue, index := 0 }
  let c := lower ch
  match p.headerState with
  | .upgrade => pass { p with flags := { p.flags with upgrade := true }, headerState := .general }
  | .transferEncoding =>
      pass { p with headerState :=
        if c = 99 then .matchingTransferEncodingChunked else .general }
  | .contentLength =>
      if isNum ch then pass { p with contentLength := digit ch }
      else fail p .invalidContentLength
  | .connection =>
      pass { p with headerState :=
        if c = 107 then .matchingConnectionKeepAlive
        else if c = 99 then .matchingConnectionClose
        else if c = 117 then .matchingConnectionUpgrade
        else .matchingConnectionToken }
  | .matchingConnectionTokenStart => pass p
  | _ => pass { p with headerState := .general }

def headerValueDiscardWs (p : HttpParser) (ch : UInt8) : Scanned :=
  if ch = space ∨ ch = tab then pass p
  else if ch = cr then pass { p with state := .headerValueDiscardWsAlmostDone }
  else if ch = lf then pass { p with state := .headerValueDiscardLws }
  else headerValueStart p ch

/-- The flag a finished header sets. -/
def finishHeader (p : HttpParser) : HttpParser :=
  match p.headerState with
  | .connectionKeepAlive => { p with flags := { p.flags with connectionKeepAlive := true } }
  | .connectionClose => { p with flags := { p.flags with connectionClose := true } }
  | .transferEncodingChunked => { p with flags := { p.flags with chunked := true } }
  | .connectionUpgrade => { p with flags := { p.flags with connectionUpgrade := true } }
  | _ => p

def headerValueDiscardLws (p : HttpParser) (ch : UInt8) : Scanned :=
  if ch = space ∨ ch = tab then pass { p with state := .headerValueDiscardWs }
  else loopHead { finishHeader p with state := .headerFieldStart } (headerFieldStart · ch)

def headerValueLws (p : HttpParser) (ch : UInt8) : Scanned :=
  if ch = space ∨ ch = tab then
    loopHead { p with state := .headerValueStart } (headerValueStart · ch)
  else loopHead { finishHeader p with state := .headerFieldStart } (headerFieldStart · ch)

def headerAlmostDone (p : HttpParser) (ch : UInt8) : Scanned :=
  expect p ch lf .headerValueLws

/-- A character of a `Content-Length` value, unless the number grows too
large. -/
def lengthChar (contentLength : ℕ) (ch : UInt8) : Option ℕ :=
  if ch = space then some contentLength
  else if ¬ isNum ch then none
  else if (ullongMax - 10) / 10 < contentLength then none
  else some (contentLength * 10 + digit ch)

/-- The state of a `Connection` value at the start of an option. -/
def optionStart (c : UInt8) : HeaderStates :=
  if c = 107 then .matchingConnectionKeepAlive
  else if c = 99 then .matchingConnectionClose
  else if c = 117 then .matchingConnectionUpgrade
  else if token c ≠ 0 then .matchingConnectionToken
  else if c = space ∨ c = tab then .matchingConnectionTokenStart
  else .general

/-- The inner switch of `s_header_value` but for `Content-Length`: the new
state, index and flags. -/
def valueChar (h : HeaderStates) (index : ℕ) (flags : ParserFlags) (ch : UInt8) :
    HeaderStates × ℕ × ParserFlags :=
  let c := lower ch
  match h with
  | .matchingTransferEncodingChunked =>
      (matchWord chunkedWord (index + 1) c .general .matchingTransferEncodingChunked
        .transferEncodingChunked, index + 1, flags)
  | .matchingConnectionTokenStart => (optionStart c, index, flags)
  | .matchingConnectionKeepAlive =>
      (matchWord keepAliveWord (index + 1) c .matchingConnectionToken
        .matchingConnectionKeepAlive .connectionKeepAlive, index + 1, flags)
  | .matchingConnectionClose =>
      (matchWord closeWord (index + 1) c .matchingConnectionToken
        .matchingConnectionClose .connectionClose, index + 1, flags)
  | .matchingConnectionUpgrade =>
      (matchWord upgradeWord (index + 1) c .matchingConnectionToken
        .matchingConnectionUpgrade .connectionUpgrade, index + 1, flags)
  | .matchingConnectionToken =>
      if ch = 44 then (.matchingConnectionTokenStart, 0, flags) else (h, index, flags)
  | .transferEncodingChunked => (if ch ≠ space then .general else h, index, flags)
  | .connectionKeepAlive =>
      if ch = 44 then
        (.matchingConnectionTokenStart, 0, { flags with connectionKeepAlive := true })
      else (if ch ≠ space then .matchingConnectionToken else h, index, flags)
  | .connectionClose =>
      if ch = 44 then
        (.matchingConnectionTokenStart, 0, { flags with connectionClose := true })
      else (if ch ≠ space then .matchingConnectionToken else h, index, flags)
  | .connectionUpgrade =>
      if ch = 44 then
        (.matchingConnectionTokenStart, 0, { flags with connectionUpgrade := true })
      else (if ch ≠ space then .matchingConnectionToken else h, index, flags)
  | _ => (.general, index, flags)

/-- A byte in the loop of `s_header_value`. A line feed leaves the loop
twice, the second time one byte back. -/
def headerValue (p : HttpParser) (loop : ℕ) (ch : UInt8) : Scanned :=
  if ch = cr then countHeaderSize { p with state := .headerAlmostDone } loop pass
  else if ch = lf then
    countHeaderSize { p with state := .headerAlmostDone } loop fun p =>
      let p := { p with nread := p.nread + loop - 1 }
      if httpMaxHeaderSize < p.nread then
        .error { p with httpErrno := some .headerOverflow } 1
      else loopHead p (headerAlmostDone · ch)
  else if p.headerState = .contentLength then
    match lengthChar p.contentLength ch with
    | some n => .next { p with contentLength := n } (some (loop + 1)) none
    | none => fail p .invalidContentLength
  else
    let r := valueChar p.headerState p.index p.flags ch
    .next { p with headerState := r.1, index := r.2.1, flags := r.2.2 } (some (loop + 1)) none

/-! ## The body -/

def chunkSizeStart (p : HttpParser) (ch : UInt8) : Scanned :=
  match unhex ch with
  | some v => pass { p with contentLength := v, state := .chunkSize }
  | none => fail p .invalidChunkSize

def chunkSize (p : HttpParser) (ch : UInt8) : Scanned :=
  if ch = cr then pass { p with state := .chunkSizeAlmostDone }
  else
    match unhex ch with
    | some v =>
        if (ullongMax - 16) / 16 < p.contentLength then fail p .invalidContentLength
        else pass { p with contentLength := p.contentLength * 16 + v }
    | none =>
        if ch = 59 ∨ ch = space then pass { p with state := .chunkParameters }
        else fail p .invalidChunkSize

def chunkParameters (p : HttpParser) (ch : UInt8) : Scanned :=
  if ch = cr then pass { p with state := .chunkSizeAlmostDone } else pass p

def chunkSizeAlmostDone (p : HttpParser) (ch : UInt8) : Scanned :=
  strictCheck p ch lf <|
    let p := { p with nread := 0 }
    if p.contentLength = 0 then
      pass { p with flags := { p.flags with trailing := true }, state := .headerFieldStart }
    else pass { p with state := .chunkData }

def chunkData (p : HttpParser) (_ : UInt8) : Scanned :=
  let p := { p with contentLength := p.contentLength - 1 }
  if p.contentLength = 0 then pass { p with state := .chunkDataAlmostDone } else pass p

def chunkDataDone (p : HttpParser) (ch : UInt8) : Scanned :=
  strictCheck p ch lf (pass { p with nread := 0, state := .chunkSizeStart })

/-- The last byte of the body is looked at again in `s_message_done`. -/
def bodyIdentity (p : HttpParser) (_ : UInt8) : Scanned :=
  let p := { p with contentLength := p.contentLength - 1 }
  if p.contentLength = 0 then messageComplete { p with state := .messageDone } else pass p

/-! ## A chunk -/

/-- The switch of `http_parser_execute`. -/
def scanState (p : HttpParser) (ch : UInt8) : Scanned :=
  match p.state with
  | .unset => fail p .invalidInternalState
  | .dead => if ch = cr ∨ ch = lf then pass p else fail p .closedConnection
  | .startRes => startRes p ch
  | .resH => expect p ch 84 .resHT
  | .resHT => expect p ch 84 .resHTT
  | .resHTT => expect p ch 80 .resHTTP
  | .resHTTP => expect p ch 47 .resFirstHttpMajor
  | .resFirstHttpMajor => resFirstHttpMajor p ch
  | .resHttpMajor => resHttpMajor p ch
  | .resFirstHttpMinor => resFirstHttpMinor p ch
  | .resHttpMinor => resHttpMinor p ch
  | .resFirstStatusCode => resFirstStatusCode p ch
  | .resStatusCode => resStatusCode p ch
  | .resStatusStart => resStatusStart p ch
  | .resStatus => resStatus p ch
  | .resLineAlmostDone => expect p ch lf .headerFieldStart
  | .headerFieldStart => headerFieldStart p ch
  | .headerField => headerField p 0 ch
  | .headerValueDiscardWs => headerValueDiscardWs p ch
  | .headerValueDiscardWsAlmostDone => expect p ch lf .headerValueDiscardLws
  | .headerValueDiscardLws => headerValueDiscardLws p ch
  | .headerValueStart => headerValueStart p ch
  | .headerValue => headerValue p 0 ch
  | .headerValueLws => headerValueLws p ch
  | .headerAlmostDone => headerAlmostDone p ch
  | .chunkSizeStart => chunkSizeStart p ch
  | .chunkSize => chunkSize p ch
  | .chunkParameters => chunkParameters p ch
  | .chunkSizeAlmostDone => chunkSizeAlmostDone p ch
  | .headersAlmostDone => headersAlmostDone p ch
  | .headersDone => headersDone p ch
  | .chunkData => chunkData p ch
  | .chunkDataAlmostDone => expect p ch cr .chunkDataDone
  | .chunkDataDone => chunkDataDone p ch
  | .bodyIdentity => bodyIdentity p ch
  | .bodyIdentityEof => pass p
  | .messageDone => messageComplete p

/-- One byte, in an inner loop or at the head of the outer one. -/
def scanByte (p : HttpParser) (loop : Option ℕ) (ch : UInt8) : Scanned :=
  match loop, p.state with
  | some n, .headerField => headerField p n ch
  | some n, .headerValue => headerValue p n ch
  | _, _ => loopHead p (scanState · ch)

/-- The bytes of a chunk, `done` of which have been passed. An inner loop
that reaches the end of the chunk counts its bytes there. -/
def scan (p : HttpParser) (loop : Option ℕ) (done : ℕ) : Bytes → Parsed HttpParser
  | [] =>
      let p := { p with nread := p.nread + loop.getD 0 }
      if httpMaxHeaderSize < p.nread ∧ loop.isSome then
        ⟨{ p with httpErrno := some .headerOverflow }, [], done⟩
      else ⟨p, [], done⟩
  | ch :: rest =>
      match scanByte p loop ch with
      | .next p loop m =>
          let r := scan p loop (done + 1) rest
          { r with completions := m.toList ++ r.completions }
      | .error p back => ⟨p, [], done - back⟩
      | .leave p m => ⟨p, [m], done + 1⟩

/-- The end of the stream, `len == 0`. -/
def scanEof (p : HttpParser) : Parsed HttpParser :=
  match p.state with
  | .bodyIdentityEof => ⟨if p.shouldKeepAlive then .init else p, [p.completion], 0⟩
  | .dead | .startRes => ⟨p, [], 0⟩
  | _ => ⟨{ p with httpErrno := some .invalidEofState }, [], 1⟩

/-- `http_parser_execute`. -/
def execute (p : HttpParser) (chunk : Bytes) : Parsed HttpParser :=
  if p.httpErrno.isSome then ⟨p, [], 0⟩
  else if chunk = [] then scanEof p
  else scan p none 0 chunk

/-! ## After a response that closes the connection -/

/-- A response that does not keep the connection alive leaves the parser
dead, and an error is remembered. -/
def Closing : Scanned → Prop
  | .next p loop (some m) => m.keepAlive = false → p.state = .dead ∧ loop = none
  | .leave p m => m.keepAlive = false → p.state = .dead
  | .error p _ => p.httpErrno.isSome = true
  | .next _ _ none => True

variable {p : HttpParser} {ch : UInt8}

theorem countHeaderSize_closing {n : ℕ} {k : HttpParser → Scanned} (hk : ∀ p, Closing (k p)) :
    Closing (countHeaderSize p n k) := by
  unfold countHeaderSize
  simp only
  split
  · trivial
  · exact hk _

theorem loopHead_closing {k : HttpParser → Scanned} (hk : ∀ p, Closing (k p)) :
    Closing (loopHead p k) := by
  unfold loopHead
  split
  · exact countHeaderSize_closing hk
  · exact hk p

theorem strictCheck_closing {c : UInt8} {k : Scanned} (hk : Closing k) :
    Closing (strictCheck p ch c k) := by
  unfold strictCheck
  split
  · trivial
  · exact hk

theorem newMessage_dead (h : p.shouldKeepAlive = false) : p.newMessage.state = .dead := by
  simp only [newMessage, h, Bool.false_eq_true, if_false]

theorem messageComplete_closing : Closing (messageComplete p) := fun h => ⟨newMessage_dead h, rfl⟩

theorem expect_closing {c : UInt8} {next : ParserState} : Closing (expect p ch c next) :=
  strictCheck_closing trivial

theorem headersDone_closing : Closing (headersDone p ch) := by
  refine strictCheck_closing ?_
  simp only
  split
  · exact newMessage_dead
  · split
    · trivial
    · split
      · exact messageComplete_closing
      · split
        · trivial
        · split
          · exact messageComplete_closing
          · trivial

theorem headersAlmostDone_closing : Closing (headersAlmostDone p ch) := by
  refine strictCheck_closing ?_
  split
  · exact messageComplete_closing
  · exact loopHead_closing fun _ => headersDone_closing

theorem headerFieldStart_closing : Closing (headerFieldStart p ch) := by
  unfold headerFieldStart
  split
  · trivial
  · split
    · exact loopHead_closing fun _ => headersAlmostDone_closing
    · split <;> trivial

theorem headerField_closing {n : ℕ} : Closing (headerField p n ch) := by
  unfold headerField
  split
  · trivial
  · refine countHeaderSize_closing ?_
    intro p
    split <;> trivial

theorem headerValueStart_closing : Closing (headerValueStart p ch) := by
  unfold headerValueStart
  simp only
  split
  · trivial
  · trivial
  · split <;> trivial
  · trivial
  · trivial
  · trivial

theorem headerValueDiscardWs_closing : Closing (headerValueDiscardWs p ch) := by
  unfold headerValueDiscardWs
  split
  · trivial
  · split
    · trivial
    · split
      · trivial
      · exact headerValueStart_closing

theorem headerValueDiscardLws_closing : Closing (headerValueDiscardLws p ch) := by
  unfold headerValueDiscardLws
  split
  · trivial
  · exact loopHead_closing fun _ => headerFieldStart_closing

theorem headerValueLws_closing : Closing (headerValueLws p ch) := by
  unfold headerValueLws
  split
  · exact loopHead_closing fun _ => headerValueStart_closing
  · exact loopHead_closing fun _ => headerFieldStart_closing

theorem headerValue_closing {n : ℕ} : Closing (headerValue p n ch) := by
  unfold headerValue
  split
  · exact countHeaderSize_closing fun _ => trivial
  · split
    · refine countHeaderSize_closing ?_
      intro p
      simp only
      split
      · trivial
      · exact loopHead_closing fun _ => expect_closing
    · split
      · split <;> trivial
      · trivial

theorem bodyIdentity_closing : Closing (bodyIdentity p ch) := by
  unfold bodyIdentity
  simp only
  split
  · exact messageComplete_closing
  · trivial

/-- The states of the status line and of the chunk sizes complete nothing. -/
theorem quiet_closing (p : HttpParser) (ch : UInt8) :
    Closing (startRes p ch) ∧ Closing (resFirstHttpMajor p ch) ∧ Closing (resHttpMajor p ch) ∧
      Closing (resFirstHttpMinor p ch) ∧ Closing (resHttpMinor p ch) ∧
      Closing (resFirstStatusCode p ch) ∧ Closing (resStatusCode p ch) ∧
      Closing (resStatusStart p ch) ∧ Closing (resStatus p ch) ∧
      Closing (chunkSizeStart p ch) ∧ Closing (chunkSize p ch) ∧
      Closing (chunkParameters p ch) ∧ Closing (chunkSizeAlmostDone p ch) ∧
      Closing (chunkData p ch) ∧ Closing (chunkDataDone p ch) := by
  simp only [startRes, resFirstHttpMajor, resHttpMajor, resFirstHttpMinor, resHttpMinor,
    resFirstStatusCode, resStatusCode, resStatusStart, resStatus, chunkSizeStart, chunkSize,
    chunkParameters, chunkSizeAlmostDone, chunkData, chunkDataDone, strictCheck]
  refine ⟨?_, ?_, ?_, ?_, ?_, ?_, ?_, ?_, ?_, ?_, ?_, ?_, ?_, ?_, ?_⟩
  all_goals
    repeat' split
    all_goals trivial

theorem scanState_closing : Closing (scanState p ch) := by
  obtain ⟨hstart, hmajor, hmajor', hminor, hminor', hstatus, hstatus', hreason, hreason', hsize,
    hsize', hparam, hsizeDone, hdata, hdataDone⟩ := quiet_closing p ch
  unfold scanState
  split
  case h_2 => split <;> trivial
  all_goals first
    | assumption
    | exact expect_closing
    | exact headerFieldStart_closing
    | exact headerField_closing
    | exact headerValueDiscardWs_closing
    | exact headerValueDiscardLws_closing
    | exact headerValueStart_closing
    | exact headerValue_closing
    | exact headerValueLws_closing
    | exact headersAlmostDone_closing
    | exact headersDone_closing
    | exact bodyIdentity_closing
    | exact messageComplete_closing
    | trivial

theorem scanByte_none : scanByte p none ch = loopHead p (scanState · ch) := by
  unfold scanByte
  split <;> first | rfl | contradiction

theorem scanByte_closing (p : HttpParser) (loop : Option ℕ) (ch : UInt8) :
    Closing (scanByte p loop ch) := by
  unfold scanByte
  split
  · exact headerField_closing
  · exact headerValue_closing
  · exact loopHead_closing fun _ => scanState_closing

/-- A dead parser skips line ends and stops at anything else. -/
theorem dead_scanByte (h : p.state = .dead) (ch : UInt8) :
    (∃ p', scanByte p none ch = .next p' none none ∧ p'.state = .dead) ∨
      ∃ p' back, scanByte p none ch = .error p' back := by
  have hheader : p.state.parsingHeader = true := by
    rw [h]
    rfl
  rw [scanByte_none, loopHead, if_pos hheader, countHeaderSize]
  simp only
  split
  · exact Or.inr ⟨_, _, rfl⟩
  · simp only [scanState, h]
    split
    · exact Or.inl ⟨_, rfl, rfl⟩
    · exact Or.inr ⟨_, _, rfl⟩

theorem dead_scan : ∀ (chunk : Bytes) (p : HttpParser) (done : ℕ), p.state = .dead →
    (scan p none done chunk).completions = []
  | [], p, done, _ => by
      rw [scan]
      split <;> rfl
  | ch :: rest, p, done, hdead => by
      rw [scan]
      rcases dead_scanByte hdead ch with ⟨p', h, hdead'⟩ | ⟨p', back, h⟩
      · rw [h]
        exact dead_scan rest p' (done + 1) hdead'
      · rw [h]

/-- Only the last response of a chunk can close the connection. -/
theorem scan_closing : ∀ (chunk : Bytes) (p : HttpParser) (loop : Option ℕ) (done : ℕ),
    ∀ m ∈ (scan p loop done chunk).completions.dropLast, m.keepAlive = true
  | [], p, loop, done => by
      rw [scan]
      split <;> exact fun m hm => by cases hm
  | ch :: rest, p, loop, done => by
      have hclosing := scanByte_closing p loop ch
      rw [scan]
      split
      · rename_i p' loop' m hnext
        have hrest := scan_closing rest p' loop' (done + 1)
        rw [hnext] at hclosing
        cases m with
        | none => exact hrest
        | some m =>
            simp only [Option.toList_some, List.singleton_append]
            cases hms : (scan p' loop' (done + 1) rest).completions with
            | nil => exact fun m' hm' => by cases hm'
            | cons m₁ ms =>
                intro m' hm'
                rw [List.dropLast_cons_cons] at hm'
                rcases List.mem_cons.mp hm' with rfl | hm'
                · by_contra hclose
                  obtain ⟨hdead, rfl⟩ := hclosing (Bool.eq_false_iff.mpr hclose)
                  rw [dead_scan rest p' (done + 1) hdead] at hms
                  cases hms
                · exact hrest m' (hms ▸ hm')
      · exact fun m hm => by cases hm
      · exact fun m hm => by cases hm

/-- After a response that closes the connection, or after an error, the
parser reads nothing any more. -/
def Finished (p : HttpParser) : Prop := p.state = .dead ∨ p.httpErrno.isSome = true

theorem dead_scan_finished : ∀ (chunk : Bytes) (p : HttpParser) (done : ℕ), p.state = .dead →
    Finished (scan p none done chunk).parser
  | [], p, done, hdead => by
      rw [scan]
      split
      · exact Or.inr rfl
      · exact Or.inl hdead
  | ch :: rest, p, done, hdead => by
      have herror := scanByte_closing p none ch
      rw [scan]
      rcases dead_scanByte hdead ch with ⟨p', h, hdead'⟩ | ⟨p', back, h⟩
      · rw [h]
        exact dead_scan_finished rest p' (done + 1) hdead'
      · rw [h] at herror ⊢
        exact Or.inr herror

theorem scan_finished : ∀ (chunk : Bytes) (p : HttpParser) (loop : Option ℕ) (done : ℕ),
    (∃ m ∈ (scan p loop done chunk).completions, m.keepAlive = false) →
      Finished (scan p loop done chunk).parser
  | [], p, loop, done => by
      rw [scan]
      split
      · rintro ⟨m, hm, -⟩
        cases hm
      · rintro ⟨m, hm, -⟩
        cases hm
  | ch :: rest, p, loop, done => by
      have hclosing := scanByte_closing p loop ch
      rw [scan]
      split
      · rename_i p' loop' m hnext
        rw [hnext] at hclosing
        rintro ⟨m', hm', hclose⟩
        rcases List.mem_append.mp hm' with hfirst | hlater
        · cases m with
          | none => cases hfirst
          | some m =>
              obtain rfl := List.mem_singleton.mp hfirst
              obtain ⟨hdead, rfl⟩ := hclosing hclose
              exact dead_scan_finished rest p' (done + 1) hdead
        · exact scan_finished rest p' loop' (done + 1) ⟨m', hlater, hclose⟩
      · rintro ⟨m, hm, -⟩
        cases hm
      · rename_i p' m hleave
        rw [hleave] at hclosing
        rintro ⟨m', hm', hclose⟩
        obtain rfl := List.mem_singleton.mp hm'
        exact Or.inl (hclosing hclose)

theorem execute_closes {chunk : Bytes} (hchunk : chunk ≠ [])
    (h : ∃ m ∈ (execute p chunk).completions, m.keepAlive = false) :
    Finished (execute p chunk).parser := by
  rw [execute, if_neg hchunk] at h ⊢
  split
  · rename_i herrno
    exact Or.inr herrno
  · rename_i herrno
    rw [if_neg herrno] at h
    exact scan_finished chunk p none 0 h

theorem Finished.execute (h : Finished p) (chunk : Bytes) :
    (execute p chunk).completions = [] ∧ Finished (execute p chunk).parser := by
  unfold HttpParser.execute
  split
  · exact ⟨rfl, h⟩
  · rename_i herrno
    have hdead : p.state = .dead := h.resolve_right herrno
    split
    · unfold scanEof
      rw [hdead]
      exact ⟨rfl, Or.inl hdead⟩
    · exact ⟨dead_scan chunk p 0 hdead, dead_scan_finished chunk p 0 hdead⟩

theorem execute_closing (p : HttpParser) (chunk : Bytes) :
    ∀ m ∈ (execute p chunk).completions.dropLast, m.keepAlive = true := by
  unfold execute
  split
  · exact fun m hm => by cases hm
  · split
    · unfold scanEof
      split <;> exact fun m hm => by cases hm
    · exact scan_closing chunk p none 0

end HttpParser

/-- The parser of a TCP connection. -/
def httpParser : ResponseParser HttpParser where
  zeroed := .zeroed
  init := .init
  execute := HttpParser.execute
  closing_last := HttpParser.execute_closing

end WrkQuic
