import WrkQuic.HttpResponse

/-!
# The requests of `wrk.lua`

The table `wrk` and its function `wrk.format`. A header table is a finite
map from names; `pairs` goes through it in an order that the script cannot
know, so that every call brings an order of its own.
-/

namespace WrkQuic

open HttpParser (connectionWord proxyConnectionWord)

/-! ## Strings -/

/-- `LJ_MAX_STR`. -/
def ljMaxStr : ℕ := 0x7fffff00

/-- What `lj_str_new` makes: longer strings are an error. -/
abbrev LuaString := { bytes : Bytes // bytes.length < ljMaxStr }

/-! ## Header tables -/

/-- The digits that `%s` writes for the length of a string, which is far too
short for an exponent. -/
def decimalDigits (n : ℕ) : Bytes :=
  if n < 10 then [48 + UInt8.ofNat n]
  else decimalDigits (n / 10) ++ [48 + UInt8.ofNat (n % 10)]
decreasing_by omega

/-- A value of `wrk.headers`: a string, or the length of a body. -/
inductive HeaderValue where
  | string (bytes : Bytes)
  | length (n : ℕ)
deriving DecidableEq

/-- `%s` of `string.format`. -/
def HeaderValue.format : HeaderValue → Bytes
  | .string bytes => bytes
  | .length n => decimalDigits n

abbrev HeaderEntry := Bytes × HeaderValue

/-- The name is `word`, in any case. -/
def HeaderEntry.Named (e : HeaderEntry) (word : Bytes) : Prop := e.1.map lowercase = word

instance (e : HeaderEntry) (word : Bytes) : Decidable (e.Named word) :=
  inferInstanceAs (Decidable (_ = _))

/-- A Lua table of headers. -/
structure HeaderTable where
  entries : List HeaderEntry
  nodup : (entries.map Prod.fst).Nodup

namespace HeaderTable

/-- `headers[name]`. -/
def get (t : HeaderTable) (name : Bytes) : Option HeaderValue :=
  (t.entries.find? (·.1 = name)).map Prod.snd

/-- The entries but for that of `name`. -/
def without (t : HeaderTable) (name : Bytes) : List HeaderEntry :=
  t.entries.filter (·.1 ≠ name)

theorem entries_perm (t : HeaderTable) : t.entries.Perm t.entries := List.Perm.refl _

theorem without_nodup (t : HeaderTable) (name : Bytes) :
    ((t.without name).map Prod.fst).Nodup :=
  t.nodup.sublist (List.Sublist.map _ List.filter_sublist)

/-- `headers[name] = value`; `nil` removes the entry. -/
def assign (t : HeaderTable) (name : Bytes) (value : Option HeaderValue) : HeaderTable where
  entries := value.toList.map (name, ·) ++ t.without name
  nodup := by
    cases value with
    | none => exact t.without_nodup name
    | some v =>
        refine List.nodup_cons.mpr ⟨?_, t.without_nodup name⟩
        simp [without]

theorem mem_assign {t : HeaderTable} {name : Bytes} {value : Option HeaderValue}
    {e : HeaderEntry} : e ∈ (t.assign name value).entries ↔
      (e.1 = name ∧ value = some e.2) ∨ (e ∈ t.entries ∧ e.1 ≠ name) := by
  obtain ⟨n, v⟩ := e
  cases value with
  | none => simp [assign, without]
  | some v' => simp [assign, without, eq_comm (a := v')]

theorem get_eq_none {t : HeaderTable} {name : Bytes} :
    t.get name = none ↔ ∀ e ∈ t.entries, e.1 ≠ name := by
  simp [get]

/-- An entry that asks for `word` about the connection, as it is sent. -/
def Asks (t : HeaderTable) (word : Bytes) : Prop :=
  ∃ e ∈ t.entries, (e.Named connectionWord ∨ e.Named proxyConnectionWord) ∧
    HasOption (space :: e.2.format) word

end HeaderTable

/-! ## `wrk.format` -/

def hostName : Bytes := "Host".toUTF8.toList

def contentLengthName : Bytes := "Content-Length".toUTF8.toList

def connectionName : Bytes := "Connection".toUTF8.toList

/-- The fields of `wrk` that `wrk.format` reads. -/
structure Wrk where
  method : Bytes
  path : Bytes
  headers : HeaderTable
  body : Option LuaString

/-- The arguments of `wrk.format`, and the order of `pairs` in the call. -/
structure FormatCall where
  method : Option Bytes
  path : Option Bytes
  headers : Option HeaderTable
  body : Option LuaString
  pairs : HeaderTable → List HeaderEntry
  pairs_perm : ∀ t, (pairs t).Perm t.entries

/-- What `wrk.format` puts together; `fields` are the headers as `pairs` has
gone through them. -/
structure Formatted where
  method : Bytes
  path : Bytes
  headers : HeaderTable
  fields : List HeaderEntry
  body : Option LuaString
  fields_perm : fields.Perm headers.entries

/-- `body or ""`. -/
def Formatted.content (f : Formatted) : Bytes := f.body.elim [] Subtype.val

/-- The lines, with `\r\n` between them. -/
def Formatted.text (f : Formatted) : Bytes :=
  crlf.intercalate
    ((f.method ++ " ".toUTF8.toList ++ f.path ++ " HTTP/1.1".toUTF8.toList) ::
      f.fields.map (fun e => e.1 ++ ": ".toUTF8.toList ++ e.2.format) ++ [[], f.content])

namespace Wrk

/-- The headers that `wrk.format` adds. -/
def formatHeaders (w : Wrk) (headers : HeaderTable) (body : Option LuaString) : HeaderTable :=
  let headers :=
    if headers.get hostName = none then headers.assign hostName (w.headers.get hostName)
    else headers
  let headers := headers.assign contentLengthName (body.map fun b => .length b.1.length)
  if headers.get connectionName = none then
    headers.assign connectionName (some (.string "close".toUTF8.toList))
  else headers

/-- `wrk.format`. -/
def format (w : Wrk) (c : FormatCall) : Formatted :=
  let body := c.body.or w.body
  let headers := w.formatHeaders (c.headers.getD w.headers) body
  { method := c.method.getD w.method
    path := c.path.getD w.path
    headers := headers
    fields := c.pairs headers
    body := body
    fields_perm := c.pairs_perm headers }

/-- `wrk` after the call: without a table of its own it changes `wrk.headers`. -/
def afterFormat (w : Wrk) (c : FormatCall) : Wrk :=
  match c.headers with
  | none => { w with headers := (w.format c).headers }
  | some _ => w

/-- The requests of successive calls. -/
def formats (w : Wrk) : List FormatCall → List Formatted
  | [] => []
  | c :: calls => w.format c :: (w.afterFormat c).formats calls

/-- `table.concat` of the requests, as in `scripts/pipeline.lua`. -/
def pipeline (w : Wrk) (calls : List FormatCall) : Bytes :=
  (w.formats calls).flatMap Formatted.text

end Wrk

end WrkQuic
