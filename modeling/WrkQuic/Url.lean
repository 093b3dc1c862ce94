import WrkQuic.HttpResponse
import WrkQuic.RequestParser

/-!
# URLs

`http_parser_parse_url` of `http_parser.c`, as `script_parse_url` calls it:
it runs the URL automaton of the request parser over the argument and notes
in which bytes each field was read. Offsets and lengths are 16 bits wide.
-/

namespace WrkQuic

/-! ## Fields -/

/-- `enum http_parser_url_fields`. -/
inductive UrlField where
  | schema
  | host
  | port
  | path
  | query
  | fragment
  | userinfo
deriving DecidableEq

/-- A number in a `uint16_t`. -/
def u16 (n : ℕ) : ℕ := n % 2 ^ 16

structure FieldData where
  off : ℕ
  len : ℕ

/-- `struct http_parser_url`. -/
structure HttpParserUrl where
  fieldSet : UrlField → Bool
  port : ℕ
  fieldData : UrlField → FieldData

namespace HttpParserUrl

/-- Zeroed memory. -/
def zeroed : HttpParserUrl := ⟨fun _ => false, 0, fun _ => ⟨0, 0⟩⟩

def setData (u : HttpParserUrl) (uf : UrlField) (data : FieldData) : HttpParserUrl :=
  { u with fieldData := Function.update u.fieldData uf data }

/-- `u->field_set |= (1 << uf)`. -/
def setField (u : HttpParserUrl) (uf : UrlField) : HttpParserUrl :=
  { u with fieldSet := Function.update u.fieldSet uf true }

/-- `u->field_data[uf].len++`. -/
def extend (u : HttpParserUrl) (uf : UrlField) : HttpParserUrl :=
  u.setData uf ⟨(u.fieldData uf).off, u16 ((u.fieldData uf).len + 1)⟩

/-- The bytes of a field. -/
def bytes (u : HttpParserUrl) (url : Bytes) (uf : UrlField) : Bytes :=
  (url.drop (u.fieldData uf).off).take (u.fieldData uf).len

end HttpParserUrl

/-! ## `http_parse_host` -/

/-- `enum http_host_state`, less `s_http_host_dead`. -/
inductive HostState where
  | userinfoStart
  | userinfo
  | hostStart
  | hostV6Start
  | host
  | hostV6
  | hostV6End
  | hostPortStart
  | hostPort
deriving DecidableEq

/-- `IS_HOST_CHAR`. -/
def isHostChar (ch : UInt8) : Bool := isAlpha ch || isNum ch || ch = 46 || ch = 45

/-- `http_parse_host_char`; `none` is `s_http_host_dead`. -/
def httpParseHostChar (s : HostState) (ch : UInt8) : Option HostState :=
  match s with
  | .userinfo | .userinfoStart =>
      if ch = 64 then some .hostStart
      else if isUserinfoChar ch then some .userinfo
      else none
  | .hostStart =>
      if ch = 91 then some .hostV6Start
      else if isHostChar ch then some .host
      else none
  | .host | .hostV6End =>
      if s = .host ∧ isHostChar ch then some .host
      else if ch = 58 then some .hostPortStart
      else none
  | .hostV6 | .hostV6Start =>
      if s = .hostV6 ∧ ch = 93 then some .hostV6End
      else if isHex ch ∨ ch = 58 ∨ ch = 46 then some .hostV6
      else none
  | .hostPort | .hostPortStart => if isNum ch then some .hostPort else none

/-- The field that a byte belongs to which leads to a state, and whether its
length starts from 0 there. -/
def hostField : HostState → Option (UrlField × Bool)
  | .host | .hostV6 => some (.host, false)
  | .hostPort => some (.port, true)
  | .userinfo => some (.userinfo, true)
  | _ => none

/-- One step of the loop of `http_parse_host`, from state `s` to `new` at
offset `i`. -/
def hostStep (i : ℕ) (s new : HostState) (u : HttpParserUrl) : HttpParserUrl :=
  match hostField new with
  | none => u
  | some (uf, starts) =>
      let u :=
        if s ≠ new then
          if starts then (u.setData uf ⟨u16 i, 0⟩).setField uf
          else u.setData uf ⟨u16 i, (u.fieldData uf).len⟩
        else u
      u.extend uf

/-- The loop of `http_parse_host`. -/
def hostLoop : ℕ → Bytes → HostState → HttpParserUrl → Option (HostState × HttpParserUrl)
  | _, [], s, u => some (s, u)
  | i, ch :: rest, s, u => do
      let new ← httpParseHostChar s ch
      hostLoop (i + 1) rest new (hostStep i s new u)

/-- `http_parse_host`; `none` is the result 1. -/
def httpParseHost (url : Bytes) (u : HttpParserUrl) (foundAt : Bool) : Option HttpParserUrl := do
  let host := u.bytes url .host
  let off := (u.fieldData .host).off
  let u := u.setData .host ⟨off, 0⟩
  let (s, u) ← hostLoop off host (if foundAt then .userinfoStart else .hostStart) u
  match s with
  | .hostStart | .hostV6Start | .hostV6 | .hostPortStart | .userinfo | .userinfoStart => none
  | _ => some u

/-! ## `http_parser_parse_url` -/

/-- `strtoul(_, NULL, 10)`, where there is no space. -/
def strtoul (s : Bytes) : ℕ :=
  let digits (s : Bytes) : ℕ :=
    (s.takeWhile isNum).foldl (fun n ch => 10 * n + (ch.toNat - 48)) 0
  match s with
  | 43 :: s => min (digits s) (2 ^ 64 - 1)
  -- a number out of range is ULONG_MAX with a minus sign as well
  | 45 :: s => if digits s < 2 ^ 64 then u64Sub 0 (digits s) else 2 ^ 64 - 1
  | s => min (digits s) (2 ^ 64 - 1)

/-- The variables of the loop. -/
structure UrlScan where
  state : RequestState
  url : HttpParserUrl
  /-- `none` is `UF_MAX`. -/
  oldUf : Option UrlField
  foundAt : Bool

def UrlScan.initial : UrlScan := ⟨.reqSpacesBeforeUrl, .zeroed, none, false⟩

/-- What the switch does in a state: skip the byte, or count it for a field;
`none` is an unexpected state. -/
def urlField : RequestState → Option (Option UrlField)
  | .reqSchemaSlash | .reqSchemaSlashSlash | .reqServerStart | .reqQueryStringStart
  | .reqFragmentStart => some none
  | .reqSchema => some (some .schema)
  | .reqServerWithAt | .reqServer => some (some .host)
  | .reqPath => some (some .path)
  | .reqQueryString => some (some .query)
  | .reqFragment => some (some .fragment)
  | _ => none

/-- The byte at offset `i` belongs to `uf`. -/
def UrlScan.count (p : UrlScan) (i : ℕ) (uf : UrlField) : UrlScan :=
  if p.oldUf = some uf then { p with url := p.url.extend uf }
  else { p with url := (p.url.setData uf ⟨u16 i, 1⟩).setField uf, oldUf := some uf }

/-- One step of the loop; `none` is the result 1. -/
def scanUrlChar (i : ℕ) (ch : UInt8) (p : UrlScan) : Option UrlScan := do
  let s ← parseUrlChar p.state ch
  let p := { p with state := s, foundAt := p.foundAt || s = .reqServerWithAt }
  match ← urlField s with
  | none => some p
  | some uf => some (p.count i uf)

def scanUrl : ℕ → Bytes → UrlScan → Option UrlScan
  | _, [], p => some p
  | i, ch :: rest, p => (scanUrlChar i ch p).bind (scanUrl (i + 1) rest)

/-- The port as a number. -/
def parsePort (url : Bytes) (u : HttpParserUrl) : Option HttpParserUrl :=
  if u.fieldSet .port then
    let v := strtoul (url.drop (u.fieldData .port).off)
    if 0xffff < v then none else some { u with port := v }
  else some u

/-- `http_parser_parse_url`, which is never called for `CONNECT`; `none` is
the result 1. -/
def httpParserParseUrl (url : Bytes) : Option HttpParserUrl := do
  let p ← scanUrl 0 url .initial
  let u := p.url
  let parsed :=
    if u.fieldSet .schema ∨ u.fieldSet .host then httpParseHost url u p.foundAt else some u
  parsed.bind (parsePort url)

/-- `script_parse_url`. -/
def scriptParseUrl (url : Bytes) : Option HttpParserUrl := do
  let u ← httpParserParseUrl url
  if u.fieldSet .schema ∧ u.fieldSet .host then some u else none

end WrkQuic
