import WrkQuic.HttpScan

/-!
# The request parser

`http_parser_execute` of `http_parser.c` on requests, as
`script_verify_request` of `script.c` uses it: one chunk, type
`HTTP_REQUEST`, `HTTP_PARSER_STRICT`, and a callback that counts the
messages. In the header fields and in a chunked body a request is read like
a response; the functions of the response parser are used there, but not
where a message may end, because `response_complete` starts that parser
over. A field value is read byte by byte: `memchr` looks no further than
`HTTP_MAX_HEADER_SIZE`, but where a value is that long, the request is refused
either way (only the place that is printed with it is the end of the chunk).
-/

namespace WrkQuic

/-! ## Methods -/

/-- `enum http_method`. -/
inductive HttpMethod where
  | delete
  | get
  | head
  | post
  | put
  | connect
  | options
  | trace
  | copy
  | lock
  | mkcol
  | move
  | propfind
  | proppatch
  | search
  | unlock
  | report
  | mkactivity
  | checkout
  | merge
  | msearch
  | notify
  | subscribe
  | unsubscribe
  | patch
  | purge
  | mkcalendar
deriving DecidableEq

/-- `method_strings`. -/
def methodStrings : HttpMethod → Bytes
  | .delete => "DELETE".toUTF8.toList
  | .get => "GET".toUTF8.toList
  | .head => "HEAD".toUTF8.toList
  | .post => "POST".toUTF8.toList
  | .put => "PUT".toUTF8.toList
  | .connect => "CONNECT".toUTF8.toList
  | .options => "OPTIONS".toUTF8.toList
  | .trace => "TRACE".toUTF8.toList
  | .copy => "COPY".toUTF8.toList
  | .lock => "LOCK".toUTF8.toList
  | .mkcol => "MKCOL".toUTF8.toList
  | .move => "MOVE".toUTF8.toList
  | .propfind => "PROPFIND".toUTF8.toList
  | .proppatch => "PROPPATCH".toUTF8.toList
  | .search => "SEARCH".toUTF8.toList
  | .unlock => "UNLOCK".toUTF8.toList
  | .report => "REPORT".toUTF8.toList
  | .mkactivity => "MKACTIVITY".toUTF8.toList
  | .checkout => "CHECKOUT".toUTF8.toList
  | .merge => "MERGE".toUTF8.toList
  | .msearch => "M-SEARCH".toUTF8.toList
  | .notify => "NOTIFY".toUTF8.toList
  | .subscribe => "SUBSCRIBE".toUTF8.toList
  | .unsubscribe => "UNSUBSCRIBE".toUTF8.toList
  | .patch => "PATCH".toUTF8.toList
  | .purge => "PURGE".toUTF8.toList
  | .mkcalendar => "MKCALENDAR".toUTF8.toList

/-- The method that the first character stands for, for the time being. -/
def firstMethod (ch : UInt8) : Option HttpMethod :=
  if ch = 67 then some .connect
  else if ch = 68 then some .delete
  else if ch = 71 then some .get
  else if ch = 72 then some .head
  else if ch = 76 then some .lock
  else if ch = 77 then some .mkcol
  else if ch = 78 then some .notify
  else if ch = 79 then some .options
  else if ch = 80 then some .post
  else if ch = 82 then some .report
  else if ch = 83 then some .subscribe
  else if ch = 84 then some .trace
  else if ch = 85 then some .unlock
  else none

/-- The method after one more character, at `index`. -/
def methodChar (method : HttpMethod) (index : ℕ) (ch : UInt8) : Option HttpMethod :=
  if (methodStrings method)[index]? = some ch then some method
  else if method = .connect then
    if index = 1 ∧ ch = 72 then some .checkout
    else if index = 2 ∧ ch = 80 then some .copy
    else none
  else if method = .mkcol then
    if index = 1 ∧ ch = 79 then some .move
    else if index = 1 ∧ ch = 69 then some .merge
    else if index = 1 ∧ ch = 45 then some .msearch
    else if index = 2 ∧ ch = 65 then some .mkactivity
    else if index = 3 ∧ ch = 65 then some .mkcalendar
    else none
  else if method = .subscribe then
    if index = 1 ∧ ch = 69 then some .search else none
  else if index = 1 ∧ method = .post then
    if ch = 82 then some .propfind
    else if ch = 85 then some .put
    else if ch = 65 then some .patch
    else none
  else if index = 2 then
    if method = .put then if ch = 82 then some .purge else none
    else if method = .unlock then if ch = 83 then some .unsubscribe else none
    else none
  else if index = 4 ∧ method = .propfind ∧ ch = 80 then some .proppatch
  else none

/-! ## URLs -/

/-- The states of `enum state` before the header fields of a request. -/
inductive RequestState where
  | startReq
  | reqMethod
  | reqSpacesBeforeUrl
  | reqSchema
  | reqSchemaSlash
  | reqSchemaSlashSlash
  | reqServerStart
  | reqServer
  | reqServerWithAt
  | reqPath
  | reqQueryStringStart
  | reqQueryString
  | reqFragmentStart
  | reqFragment
  | reqHttpStart
  | reqHttpH
  | reqHttpHT
  | reqHttpHTT
  | reqHttpHTTP
  | reqFirstHttpMajor
  | reqHttpMajor
  | reqFirstHttpMinor
  | reqHttpMinor
  | reqLineAlmostDone
deriving DecidableEq

/-- `IS_ALPHA`. -/
def isAlpha (ch : UInt8) : Bool := 97 ≤ lower ch && lower ch ≤ 122

/-- `IS_MARK`. -/
def isMark (ch : UInt8) : Bool := ch ∈ "-_.!~*'()".toUTF8.toList

/-- `IS_USERINFO_CHAR`. -/
def isUserinfoChar (ch : UInt8) : Bool :=
  isAlpha ch || isNum ch || isMark ch || ch ∈ "%;:&=+$,".toUTF8.toList

/-- `IS_URL_CHAR`, the bits of `normal_url_char`. -/
def isUrlChar (ch : UInt8) : Bool := 33 ≤ ch && ch ≤ 126 && ch ≠ 35 && ch ≠ 63

/-- The switch of `parse_url_char`; `none` is `s_dead`. -/
def urlChar (s : RequestState) (ch : UInt8) : Option RequestState :=
  match s with
  | .reqSpacesBeforeUrl =>
      if ch = 47 ∨ ch = 42 then some .reqPath
      else if isAlpha ch then some .reqSchema
      else none
  | .reqSchema =>
      if isAlpha ch then some .reqSchema
      else if ch = 58 then some .reqSchemaSlash
      else none
  | .reqSchemaSlash => if ch = 47 then some .reqSchemaSlashSlash else none
  | .reqSchemaSlashSlash => if ch = 47 then some .reqServerStart else none
  | .reqServerWithAt | .reqServerStart | .reqServer =>
      if s = .reqServerWithAt ∧ ch = 64 then none
      else if ch = 47 then some .reqPath
      else if ch = 63 then some .reqQueryStringStart
      else if ch = 64 then some .reqServerWithAt
      else if isUserinfoChar ch ∨ ch = 91 ∨ ch = 93 then some .reqServer
      else none
  | .reqPath =>
      if isUrlChar ch then some .reqPath
      else if ch = 63 then some .reqQueryStringStart
      else if ch = 35 then some .reqFragmentStart
      else none
  | .reqQueryStringStart | .reqQueryString =>
      if isUrlChar ch then some .reqQueryString
      else if ch = 63 then some .reqQueryString
      else if ch = 35 then some .reqFragmentStart
      else none
  | .reqFragmentStart =>
      if isUrlChar ch then some .reqFragment
      else if ch = 63 then some .reqFragment
      else if ch = 35 then some .reqFragmentStart
      else none
  | .reqFragment => if isUrlChar ch ∨ ch = 63 ∨ ch = 35 then some .reqFragment else none
  | _ => none

/-- `parse_url_char`. -/
def parseUrlChar (s : RequestState) (ch : UInt8) : Option RequestState :=
  if ch = space ∨ ch = cr ∨ ch = lf ∨ ch = tab ∨ ch = 12 then none else urlChar s ch

/-! ## State -/

/-- The error numbers of the response parser, and those of the request line. -/
inductive RequestErrno where
  | common (e : HttpErrno)
  | invalidMethod
  | invalidUrl
  | lfExpected
  | unknown
deriving DecidableEq

/-- `http_errno_description`. -/
def RequestErrno.description : RequestErrno → String
  | .common .invalidEofState => "stream ended at an unexpected time"
  | .common .headerOverflow => "too many header bytes seen; overflow detected"
  | .common .closedConnection => "data received after completed connection: close message"
  | .common .invalidVersion => "invalid HTTP version"
  | .common .invalidStatus => "invalid HTTP status code"
  | .common .invalidHeaderToken => "invalid character in header"
  | .common .invalidContentLength => "invalid character in content-length header"
  | .common .invalidChunkSize => "invalid character in chunk size header"
  | .common .invalidConstant => "invalid constant string"
  | .common .invalidInternalState => "encountered unexpected internal state"
  | .common .strict => "strict mode assertion failed"
  | .invalidMethod => "invalid HTTP method"
  | .invalidUrl => "invalid URL"
  | .lfExpected => "LF character expected"
  | .unknown => "an unknown error occurred"

/-- `struct http_parser` of a request. The state is `line` as long as there
is one, and that of `parser` otherwise. -/
structure RequestParser where
  line : Option RequestState
  method : HttpMethod
  parser : HttpParser
deriving DecidableEq

/-- What becomes of a byte of a request. -/
inductive RequestScanned where
  | next (r : RequestParser) (loop : Option ℕ) (complete : Bool)
  | error (e : RequestErrno) (back : ℕ)
  | leave

namespace RequestParser

/-- `http_parser_init`. -/
def init : RequestParser where
  line := some .startReq
  method := .delete
  parser := .zeroed

/-- `http_should_keep_alive`; a request never needs an end of the stream. -/
def shouldKeepAlive (r : RequestParser) : Bool :=
  if 0 < r.parser.httpMajor ∧ 0 < r.parser.httpMinor then !r.parser.flags.connectionClose
  else r.parser.flags.connectionKeepAlive

/-- On to the next byte. -/
def pass (r : RequestParser) : RequestScanned := .next r none false

/-- `SET_ERRNO` and `goto error`. -/
def fail (e : RequestErrno) : RequestScanned := .error e 0

/-- On to the next byte, in the state `s` of the request line. -/
def enter (r : RequestParser) (s : RequestState) : RequestScanned := pass { r with line := some s }

/-- On to the next byte, in a state that responses have as well. -/
def leaveLine (r : RequestParser) (s : ParserState) : RequestScanned :=
  pass { r with line := none, parser := { r.parser with state := s } }

/-- `COUNT_HEADER_SIZE`. -/
def countHeaderSize (r : RequestParser) (n : ℕ) (k : RequestParser → RequestScanned) :
    RequestScanned :=
  if httpMaxHeaderSize < r.parser.nread + n then fail (.common .headerOverflow)
  else k { r with parser := r.parser.setNread (r.parser.nread + n) }

/-- The loop head of `http_parser_execute`, on to the state `k`. -/
def loopHead (r : RequestParser) (k : RequestParser → RequestScanned) : RequestScanned :=
  if r.line.isSome ∨ r.parser.state.parsingHeader then countHeaderSize r 1 k else k r

/-- `UPDATE_STATE(NEW_MESSAGE())`. -/
def newMessage (r : RequestParser) : RequestParser :=
  if r.shouldKeepAlive then { r with line := some .startReq }
  else { r with line := none, parser := { r.parser with state := .dead } }

def messageComplete (r : RequestParser) : RequestScanned := .next (newMessage r) none true

/-! ## The request line -/

def startReq (r : RequestParser) (ch : UInt8) : RequestScanned :=
  if ch = cr ∨ ch = lf then pass r
  else if !isAlpha ch then fail .invalidMethod
  else
    match firstMethod ch with
    | some method =>
        enter { r with
          method := method
          parser := { r.parser with flags := .none, contentLength := ullongMax, index := 1 } }
          .reqMethod
    | none => fail .invalidMethod

def reqMethod (r : RequestParser) (ch : UInt8) : RequestScanned :=
  let next : RequestParser := { r with parser := { r.parser with index := r.parser.index + 1 } }
  if ch = 0 then fail .invalidMethod
  else if ch = space ∧ r.parser.index = (methodStrings r.method).length then
    enter next .reqSpacesBeforeUrl
  else
    match methodChar r.method r.parser.index ch with
    | some method => pass { next with method := method }
    | none => fail .invalidMethod

/-- A character of the URL. -/
def reqUrl (r : RequestParser) (s : RequestState) (ch : UInt8) : RequestScanned :=
  match parseUrlChar s ch with
  | some s' => enter r s'
  | none => fail .invalidUrl

def reqSpacesBeforeUrl (r : RequestParser) (ch : UInt8) : RequestScanned :=
  if ch = space then pass r
  else if r.method = .connect then reqUrl r .reqServerStart ch
  else reqUrl r .reqSpacesBeforeUrl ch

/-- The states in which the URL may end. -/
def reqUrlEnd (r : RequestParser) (s : RequestState) (ch : UInt8) : RequestScanned :=
  if ch = space then enter r .reqHttpStart
  else if ch = cr ∨ ch = lf then
    let r : RequestParser := { r with parser := { r.parser with httpMajor := 0, httpMinor := 9 } }
    if ch = cr then enter r .reqLineAlmostDone else leaveLine r .headerFieldStart
  else reqUrl r s ch

def reqHttpStart (r : RequestParser) (ch : UInt8) : RequestScanned :=
  if ch = 72 then enter r .reqHttpH
  else if ch = space then pass r
  else fail (.common .invalidConstant)

/-- `s_req_http_H` to `s_req_http_HTTP`. -/
def expect (r : RequestParser) (ch c : UInt8) (next : RequestState) : RequestScanned :=
  if ch ≠ c then fail (.common .strict) else enter r next

def reqFirstHttpMajor (r : RequestParser) (ch : UInt8) : RequestScanned :=
  if ch < 49 ∨ 57 < ch then fail (.common .invalidVersion)
  else enter { r with parser := { r.parser with httpMajor := digit ch } } .reqHttpMajor

def reqHttpMajor (r : RequestParser) (ch : UInt8) : RequestScanned :=
  if ch = 46 then enter r .reqFirstHttpMinor
  else if !isNum ch then fail (.common .invalidVersion)
  else
    let major := r.parser.httpMajor * 10 + digit ch
    if 999 < major then fail (.common .invalidVersion)
    else pass { r with parser := { r.parser with httpMajor := major } }

def reqFirstHttpMinor (r : RequestParser) (ch : UInt8) : RequestScanned :=
  if !isNum ch then fail (.common .invalidVersion)
  else enter { r with parser := { r.parser with httpMinor := digit ch } } .reqHttpMinor

def reqHttpMinor (r : RequestParser) (ch : UInt8) : RequestScanned :=
  if ch = cr then enter r .reqLineAlmostDone
  else if ch = lf then leaveLine r .headerFieldStart
  else if !isNum ch then fail (.common .invalidVersion)
  else
    let minor := r.parser.httpMinor * 10 + digit ch
    if 999 < minor then fail (.common .invalidVersion)
    else pass { r with parser := { r.parser with httpMinor := minor } }

def reqLineAlmostDone (r : RequestParser) (ch : UInt8) : RequestScanned :=
  if ch ≠ lf then fail .lfExpected else leaveLine r .headerFieldStart

/-- The switch of `http_parser_execute`, up to the header fields. -/
def lineState (s : RequestState) (r : RequestParser) (ch : UInt8) : RequestScanned :=
  match s with
  | .startReq => startReq r ch
  | .reqMethod => reqMethod r ch
  | .reqSpacesBeforeUrl => reqSpacesBeforeUrl r ch
  | .reqSchema | .reqSchemaSlash | .reqSchemaSlashSlash | .reqServerStart => reqUrl r s ch
  | .reqServer | .reqServerWithAt | .reqPath | .reqQueryStringStart | .reqQueryString
  | .reqFragmentStart | .reqFragment => reqUrlEnd r s ch
  | .reqHttpStart => reqHttpStart r ch
  | .reqHttpH => expect r ch 84 .reqHttpHT
  | .reqHttpHT => expect r ch 84 .reqHttpHTT
  | .reqHttpHTT => expect r ch 80 .reqHttpHTTP
  | .reqHttpHTTP => expect r ch 47 .reqFirstHttpMajor
  | .reqFirstHttpMajor => reqFirstHttpMajor r ch
  | .reqHttpMajor => reqHttpMajor r ch
  | .reqFirstHttpMinor => reqFirstHttpMinor r ch
  | .reqHttpMinor => reqHttpMinor r ch
  | .reqLineAlmostDone => reqLineAlmostDone r ch

/-! ## Header fields and body -/

/-- A byte that is no end of a message is read as in a response. -/
def common (r : RequestParser) : Scanned → RequestScanned
  | .next p loop _ => .next { r with parser := p } loop false
  | .error p back => .error ((p.httpErrno.map .common).getD .unknown) back
  | .leave _ _ => .leave

def headersDone (r : RequestParser) (ch : UInt8) : RequestScanned :=
  if ch ≠ lf then fail (.common .strict)
  else
    let r : RequestParser := { r with parser := r.parser.setNread 0 }
    if r.parser.upgrade then .leave
    else if r.parser.flags.chunked then leaveLine r .chunkSizeStart
    else if r.parser.contentLength = 0 then messageComplete r
    else if r.parser.contentLength ≠ ullongMax then leaveLine r .bodyIdentity
    else messageComplete r

def headersAlmostDone (r : RequestParser) (ch : UInt8) : RequestScanned :=
  if ch ≠ lf then fail (.common .strict)
  else if r.parser.flags.trailing then messageComplete r
  else
    loopHead { r with parser := { r.parser with
      state := .headersDone
      upgrade := r.parser.flags.upgrade && r.parser.flags.connectionUpgrade ||
        r.method = .connect } } (headersDone · ch)

/-- The states in which a line feed ends the header fields. -/
def headerFieldStart (r : RequestParser) (ch : UInt8) : RequestScanned :=
  if ch = lf then
    loopHead { r with parser := { r.parser with state := .headersAlmostDone } }
      (headersAlmostDone · ch)
  else common r (r.parser.headerFieldStart ch)

def headerValueDiscardLws (r : RequestParser) (ch : UInt8) : RequestScanned :=
  if ch = lf then
    loopHead { r with parser := { r.parser.finishHeader with state := .headerFieldStart } }
      (headerFieldStart · ch)
  else common r (r.parser.headerValueDiscardLws ch)

def headerValueLws (r : RequestParser) (ch : UInt8) : RequestScanned :=
  if ch = lf then
    loopHead { r with parser := { r.parser.finishHeader with state := .headerFieldStart } }
      (headerFieldStart · ch)
  else common r (r.parser.headerValueLws ch)

def bodyIdentity (r : RequestParser) : RequestScanned :=
  let r : RequestParser := { r with parser := { r.parser with
    contentLength := r.parser.contentLength - 1 } }
  if r.parser.contentLength = 0 then
    messageComplete { r with parser := { r.parser with state := .messageDone } }
  else pass r

/-- The rest of the switch of `http_parser_execute`. -/
def commonState (r : RequestParser) (ch : UInt8) : RequestScanned :=
  match r.parser.state with
  | .headerFieldStart => headerFieldStart r ch
  | .headerValueDiscardLws => headerValueDiscardLws r ch
  | .headerValueLws => headerValueLws r ch
  | .headersAlmostDone => headersAlmostDone r ch
  | .headersDone => headersDone r ch
  | .bodyIdentity => bodyIdentity r
  | .messageDone => messageComplete r
  | _ => common r (r.parser.scanState ch)

/-! ## The chunk -/

/-- One byte, in an inner loop or at the head of the outer one. -/
def scanByte (r : RequestParser) (loop : Option ℕ) (ch : UInt8) : RequestScanned :=
  match r.line with
  | some s => loopHead r (lineState s · ch)
  | none =>
      match loop, r.parser.state with
      | some n, .headerField => common r (r.parser.headerField n ch)
      | some n, .headerValue => common r (r.parser.headerValue n ch)
      | _, _ => loopHead r (commonState · ch)

end RequestParser

/-- What `http_parser_execute` returns, the messages that it has counted,
and its error. -/
structure RequestParsed where
  consumed : ℕ
  count : ℕ
  errno : Option RequestErrno
deriving DecidableEq

namespace RequestParser

/-- The bytes of the chunk, `done` of which have been passed, with `count`
messages. -/
def scan (r : RequestParser) (loop : Option ℕ) (done count : ℕ) : Bytes → RequestParsed
  | [] =>
      if httpMaxHeaderSize < r.parser.nread + loop.getD 0 ∧ loop.isSome then
        ⟨done, count, some (.common .headerOverflow)⟩
      else ⟨done, count, none⟩
  | ch :: rest =>
      match scanByte r loop ch with
      | .next r loop complete => scan r loop (done + 1) (count + complete.toNat) rest
      | .error e back => ⟨done - back, count, some e⟩
      | .leave => ⟨done + 1, count + 1, none⟩

end RequestParser

/-! ## The check of a request -/

/-- What `script_verify_request` prints before it exits. -/
structure VerifyFailure where
  msg : String
  line : ℕ
  column : ℕ
deriving DecidableEq

/-- The place after these bytes, from the first line and column on. -/
def textPosition (request : Bytes) : ℕ × ℕ :=
  request.foldl (fun at_ c => if c = lf then (at_.1 + 1, 1) else (at_.1, at_.2 + 1)) (1, 1)

/-- `script_verify_request` on what `request` returns. -/
def scriptVerifyRequest (request : Bytes) : Except VerifyFailure ℕ :=
  let parsed := RequestParser.init.scan none 0 0 request
  if parsed.consumed ≠ request.length ∨ parsed.count = 0 then
    let place := textPosition (request.take parsed.consumed)
    .error {
      msg := (parsed.errno.map RequestErrno.description).getD "incomplete request"
      line := place.1
      column := place.2 }
  else .ok parsed.count

/-- `cfg.pipeline`, as `main` sets it for the first thread. -/
def cfgPipeline (httpVersion : ℤ) (request : Bytes) : Except VerifyFailure ℕ :=
  if 0 ≤ httpVersion then scriptVerifyRequest request else .ok 1

end WrkQuic
