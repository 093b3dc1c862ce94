import WrkQuic.HttpScan

/-!
# Responses on the wire

The responses of a server, as it sends them: final HTTP/1.1 responses whose
headers announce the body in a way that the parser follows, with any chunk
sizes, extensions and trailers. A value of these types is well formed.

What the parser cannot follow is no `Response`: an interim response, a
response without the body that its headers announce (to `HEAD`, or with
status 304), a transfer coding other than `chunked`, a protocol that is
offered with `Upgrade`, and a header section that takes more than half of
`HTTP_MAX_HEADER_SIZE`, since a byte of a name or value that is cut off by
the end of a chunk counts twice.
-/

namespace WrkQuic

open Scanner

open HttpParser (connectionWord proxyConnectionWord contentLengthWord transferEncodingWord
  upgradeWord chunkedWord closeWord)

def crlf : Bytes := [cr, lf]

def colon : UInt8 := 58

def comma : UInt8 := 44

/-- The ASCII letters in lower case. -/
def lowercase (ch : UInt8) : UInt8 := if 65 ≤ ch ∧ ch ≤ 90 then ch + 32 else ch

/-- Space and tab. -/
def isBlank (ch : UInt8) : Bool := ch = space || ch = tab

/-- The characters of a header value: all but the control characters. -/
def isText (ch : UInt8) : Bool := ch = tab || 32 ≤ ch && ch ≠ 127

/-- The hexadecimal digits. -/
def isHex (ch : UInt8) : Bool := isNum ch || 65 ≤ ch && ch ≤ 70 || 97 ≤ ch && ch ≤ 102

def decimal (digits : Bytes) : ℕ := digits.foldl (fun n ch => n * 10 + digit ch) 0

def hexadecimal (digits : Bytes) : ℕ :=
  digits.foldl (fun n ch => n * 16 + (unhex ch).getD 0) 0

/-! ## Header fields -/

/-- `value` is all that stands between the colon and the end of the line. -/
structure Field where
  name : Bytes
  value : Bytes
  name_ne_nil : name ≠ []
  name_token : ∀ ch ∈ name, token ch ≠ 0
  value_text : ∀ ch ∈ value, isText ch = true

/-- The value holds `word`, in any case, between two commas. -/
def HasOption (value word : Bytes) : Prop :=
  ∃ before lead option trail after, value = before ++ lead ++ option ++ trail ++ after ∧
    (before = [] ∨ ∃ u, before = u ++ [comma]) ∧ (after = [] ∨ ∃ u, after = comma :: u) ∧
    (∀ ch ∈ lead, isBlank ch = true) ∧ (∀ ch ∈ trail, isBlank ch = true) ∧
    option.map lowercase = word

namespace Field

def encode (f : Field) : Bytes := f.name ++ colon :: f.value ++ crlf

/-- The name is `word`, in any case. -/
def Named (f : Field) (word : Bytes) : Prop := f.name.map lowercase = word

instance (f : Field) (word : Bytes) : Decidable (f.Named word) :=
  inferInstanceAs (Decidable (_ = _))

/-- A connection option. -/
def Connection (f : Field) (word : Bytes) : Prop :=
  (f.Named connectionWord ∨ f.Named proxyConnectionWord) ∧ HasOption f.value word

/-- The value is `word` in any case, or the digits of a number, between
blanks. The parser takes no tab after it. -/
def Holds (f : Field) (content : Bytes) : Prop :=
  ∃ lead trail, f.value = lead ++ content ++ trail ∧ (∀ ch ∈ lead, isBlank ch = true) ∧
    ∀ ch ∈ trail, ch = space

/-- A content length that the parser accepts. -/
def Announces (f : Field) (n : ℕ) : Prop :=
  ∃ digits, f.Holds digits ∧ digits ≠ [] ∧ (∀ ch ∈ digits, isNum ch = true) ∧
    decimal digits = n ∧ n / 10 ≤ (ullongMax - 10) / 10

def Chunked (f : Field) : Prop := ∃ word, f.Holds word ∧ word.map lowercase = chunkedWord

end Field

/-! ## Bodies -/

/-- The line before a chunk of `n` bytes. -/
structure ChunkLine (n : ℕ) where
  digits : Bytes
  extension : Bytes
  digits_ne_nil : digits ≠ []
  digits_hex : ∀ ch ∈ digits, isHex ch = true
  value : hexadecimal digits = n
  fits : n / 16 ≤ (ullongMax - 16) / 16
  extension_start : ∀ ch ∈ extension.head?, ch = 59 ∨ ch = space
  extension_text : ∀ ch ∈ extension, isText ch = true
  short : digits.length + extension.length + 2 ≤ httpMaxHeaderSize

def ChunkLine.encode {n : ℕ} (line : ChunkLine n) : Bytes :=
  line.digits ++ line.extension ++ crlf

structure Chunk where
  data : Bytes
  line : ChunkLine data.length
  data_ne_nil : data ≠ []

def Chunk.encode (c : Chunk) : Bytes := c.line.encode ++ c.data ++ crlf

inductive Framing where
  | none
  | length (body : Bytes)
  | chunked (chunks : List Chunk) (last : ChunkLine 0) (trailers : List Field)
  /-- The body ends where the server closes the connection. -/
  | close (body : Bytes)

def Framing.encode : Framing → Bytes
  | .none => []
  | .length body => body
  | .chunked chunks last trailers =>
      chunks.flatMap Chunk.encode ++ last.encode ++ trailers.flatMap Field.encode ++ crlf
  | .close body => body

def Framing.trailers : Framing → List Field
  | .chunked _ _ trailers => trailers
  | _ => []

/-- The header fields, of a response with this status, announce the body. -/
def Framing.Announced (status : ℕ) (fields : List Field) : Framing → Prop
  | .none => (status = 204 ∨ status = 304) ∧
      ∀ f ∈ fields, ¬ f.Named contentLengthWord ∧ ¬ f.Named transferEncodingWord
  | .length body => (∃ f ∈ fields, f.Named contentLengthWord) ∧
      ∀ f ∈ fields, (f.Named contentLengthWord → f.Announces body.length) ∧
        ¬ f.Named transferEncodingWord
  | .chunked _ _ trailers => (∃ f ∈ fields, f.Named transferEncodingWord) ∧
      (∀ f ∈ fields, (f.Named transferEncodingWord → f.Chunked) ∧ ¬ f.Named contentLengthWord) ∧
      (∀ f ∈ trailers, ¬ f.Named contentLengthWord ∧ ¬ f.Named transferEncodingWord) ∧
      2 * ((trailers.flatMap Field.encode).length + 2) ≤ httpMaxHeaderSize
  | .close _ => status ≠ 204 ∧ status ≠ 304 ∧
      ∀ f ∈ fields, ¬ f.Named contentLengthWord ∧ ¬ f.Named transferEncodingWord

/-! ## Responses -/

def httpVersion : Bytes := "HTTP/1.1 ".toUTF8.toList

/-- The status line and the header fields, with the empty line after them. -/
def encodeHead (status reason : Bytes) (fields : List Field) : Bytes :=
  httpVersion ++ status ++ space :: reason ++ crlf ++ fields.flatMap Field.encode ++ crlf

/-- A final response. -/
structure Response where
  status : Bytes
  reason : Bytes
  fields : List Field
  framing : Framing
  status_length : status.length = 3
  status_digits : ∀ ch ∈ status, isNum ch = true
  final : 200 ≤ decimal status
  reason_text : ∀ ch ∈ reason, isText ch = true
  announced : framing.Announced (decimal status) fields
  no_upgrade : (∃ f ∈ fields, f.Named upgradeWord) →
    ∀ f ∈ fields, ¬ f.Connection upgradeWord
  short : 2 * (encodeHead status reason fields).length ≤ httpMaxHeaderSize

namespace Response

def encode (r : Response) : Bytes := encodeHead r.status r.reason r.fields ++ r.framing.encode

/-- The response tells where it ends. -/
def delimited (r : Response) : Bool :=
  match r.framing with
  | .close _ => false
  | _ => true

/-- The response leaves the connection open. -/
def Persistent (r : Response) : Prop :=
  r.delimited = true ∧ ∀ f ∈ r.fields ++ r.framing.trailers, ¬ f.Connection closeWord

end Response

/-! ## Streams -/

/-- A stream of responses: only the last may close the connection. -/
structure Stream where
  responses : List Response
  persistent : ∀ r ∈ responses.dropLast, r.Persistent

namespace Stream

def encode (s : Stream) : Bytes := s.responses.flatMap Response.encode

/-- `chunks` are what was read of the stream; an empty chunk is its end. -/
structure Delivers (s : Stream) (chunks : List Bytes) : Prop where
  data : chunks.flatten <+: s.encode
  eof : ∀ before after, chunks = before ++ [] :: after → before.flatten = s.encode

/-- The responses that `chunks` completes. A response that does not tell
where it ends is completed by the end of the stream. -/
def completed (s : Stream) (chunks : List Bytes) : ℕ :=
  if [] ∈ chunks then s.responses.length
  else framesIn ((s.responses.filter Response.delimited).map Response.encode)
    chunks.flatten.length

end Stream

end WrkQuic
