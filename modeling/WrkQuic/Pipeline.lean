import WrkQuic.RequestScan
import WrkQuic.WrkFormat

/-!
# Pipelines of requests

`script_verify_request` on a concatenation of requests that `wrk.format` has
put together with the default headers. The headers that it adds by itself
decide whether a request may be followed by another one: without a
`Connection` entry in the table every request asks to close the connection.
-/

namespace WrkQuic

open HttpParser (connectionWord proxyConnectionWord contentLengthWord transferEncodingWord
  upgradeWord closeWord)

/-! ## Lengths -/

theorem decimalDigits_spec (n : ℕ) : decimalDigits n ≠ [] ∧
    (∀ ch ∈ decimalDigits n, isNum ch = true) ∧ decimal (decimalDigits n) = n := by
  have hdigit : ∀ k < 10, isNum (48 + UInt8.ofNat k) = true ∧ digit (48 + UInt8.ofNat k) = k := by
    decide +kernel
  induction n using decimalDigits.induct with
  | case1 n hn =>
      obtain ⟨hnum, hvalue⟩ := hdigit n hn
      rw [decimalDigits, if_pos hn]
      refine ⟨by simp, by simpa using hnum, ?_⟩
      simpa [decimal] using hvalue
  | case2 n hn ih =>
      obtain ⟨-, hrest, hvalue⟩ := ih
      obtain ⟨hnum, hlast⟩ := hdigit (n % 10) (Nat.mod_lt n (by decide))
      rw [decimalDigits, if_neg hn]
      refine ⟨by simp, ?_, ?_⟩
      · intro ch hch
        rcases List.mem_append.mp hch with hch | hch
        · exact hrest ch hch
        · rw [List.mem_singleton.mp hch]
          exact hnum
      · rw [decimal, List.foldl_append]
        show decimal (decimalDigits (n / 10)) * 10 + digit _ = n
        rw [hvalue, hlast]
        omega

/-! ## Entries -/

/-- A name that is a token, and a value without CR, LF and NUL. -/
structure ValidEntry (e : HeaderEntry) : Prop where
  name_ne_nil : e.1 ≠ []
  name_token : ∀ ch ∈ e.1, token ch ≠ 0
  value_inline : ∀ ch ∈ e.2.format, isInline ch = true

instance (e : HeaderEntry) : Decidable (ValidEntry e) :=
  decidable_of_iff
    (e.1 ≠ [] ∧ (e.1.all fun ch => token ch ≠ 0) = true ∧ e.2.format.all isInline = true) <| by
      simp only [List.all_eq_true, decide_eq_true_eq]
      exact ⟨fun ⟨h, h', h''⟩ => ⟨h, h', h''⟩, fun ⟨h, h', h''⟩ => ⟨h, h', h''⟩⟩

/-- The line of an entry. -/
def ValidEntry.line {e : HeaderEntry} (h : ValidEntry e) : HeaderLine where
  name := e.1
  value := space :: e.2.format
  name_ne_nil := h.name_ne_nil
  name_token := h.name_token
  value_inline := by
    intro ch hch
    rcases List.mem_cons.mp hch with rfl | hch
    · decide
    · exact h.value_inline ch hch

theorem pmap_encode : ∀ (fields : List HeaderEntry) (h : ∀ e ∈ fields, ValidEntry e),
    (fields.pmap (fun _ he => ValidEntry.line he) h).flatMap HeaderLine.encode =
      fields.flatMap fun e => e.1 ++ colon :: space :: e.2.format ++ crlf
  | [], _ => rfl
  | e :: fields, h => by
      rw [List.pmap_cons, List.flatMap_cons, List.flatMap_cons, pmap_encode fields]
      rfl

/-- The value is `chunked`. -/
def HeaderEntry.Chunked (e : HeaderEntry) : Prop := ∃ h : ValidEntry e, h.line.Chunked

/-- The value is a content length that the parser accepts. -/
def HeaderEntry.Announces (e : HeaderEntry) (n : ℕ) : Prop :=
  ∃ h : ValidEntry e, h.line.Announces n

/-- The entry that says how long a body is. -/
theorem announces_length (b : LuaString) :
    HeaderEntry.Announces (contentLengthName, .length b.1.length) b.1.length := by
  obtain ⟨hne, hdigits, hdecimal⟩ := decimalDigits_spec b.1.length
  have hname : contentLengthName ≠ [] ∧ ∀ ch ∈ contentLengthName, token ch ≠ 0 := by
    decide +kernel
  have hvalid : ValidEntry (contentLengthName, .length b.1.length) :=
    ⟨hname.1, hname.2, fun ch hch => (HttpParser.isNum_inline (hdigits ch hch)).1⟩
  refine ⟨hvalid, decimalDigits b.1.length, ⟨[space], [], ?_, by decide +kernel, by simp⟩, hne,
    hdigits, hdecimal, ?_⟩
  · simp [ValidEntry.line, HeaderValue.format]
  · have hshort := b.2
    simp only [ljMaxStr, ullongMax] at hshort ⊢
    omega

/-- The entry that `wrk.format` adds to a table without a `Connection`. -/
def closeEntry : HeaderEntry := (connectionName, .string "close".toUTF8.toList)

/-- The names of the entries that `wrk.format` makes. -/
theorem added_names : connectionName.map lowercase = connectionWord ∧
    contentLengthName.map lowercase = contentLengthWord := by
  decide +kernel

theorem closeEntry_valid : ValidEntry closeEntry :=
  ⟨by decide +kernel, by decide +kernel, by decide +kernel⟩

namespace Formatted

/-- The bytes that count for the header section. -/
def headSize (f : Formatted) : ℕ :=
  f.text.length - f.content.length + f.fields.length + 1

/-- The rest of the connection is for another protocol. -/
def HandsOver (f : Formatted) : Prop :=
  f.method = methodStrings .connect ∨
    (∃ e ∈ f.headers.entries, e.Named upgradeWord) ∧ f.headers.Asks upgradeWord

theorem text_fields (fields : List HeaderEntry) (body : Bytes) :
    crlf.intercalate (fields.map (fun e => e.1 ++ ": ".toUTF8.toList ++ e.2.format) ++
      [[], body]) =
      (fields.flatMap fun e => e.1 ++ colon :: space :: e.2.format ++ crlf) ++ crlf ++ body := by
  have hcolon : ": ".toUTF8.toList = [colon, space] := by decide +kernel
  induction fields with
  | nil => simp [List.intercalate_cons_cons]
  | cons e fields ih =>
      rw [List.map_cons, List.cons_append, List.intercalate_cons_of_ne_nil (by simp), ih, hcolon,
        List.flatMap_cons]
      simp

theorem text_eq (f : Formatted) :
    f.text = f.method ++ space :: f.path ++ RequestParser.httpTail ++
      (f.fields.flatMap fun e => e.1 ++ colon :: space :: e.2.format ++ crlf) ++ crlf ++
        f.content := by
  have hspace : " ".toUTF8.toList = [space] := by decide +kernel
  have htail : RequestParser.httpTail = " HTTP/1.1".toUTF8.toList ++ crlf := by decide +kernel
  rw [text, List.cons_append, List.intercalate_cons_of_ne_nil (by simp), text_fields, hspace,
    htail]
  simp

/-- A method that the parser knows, and a path. -/
structure Known (f : Formatted) : Prop where
  method : ∃ method, f.method = methodStrings method
  path : ∃ path, f.path = 47 :: path ∧ ∀ ch ∈ path, RequestParser.isVisible ch = true

theorem Known.get {f : Formatted} (h : f.method = methodStrings .get ∧ f.path.head? = some 47 ∧
    ∀ ch ∈ f.path.tail, RequestParser.isVisible ch = true) : f.Known where
  method := ⟨.get, h.1⟩
  path := ⟨f.path.tail, List.eq_cons_of_mem_head? h.2.1, h.2.2⟩

/-- The headers say how long the body is, and they are not too long. -/
structure Framed (f : Formatted) : Prop where
  valid : ∀ e ∈ f.headers.entries, ValidEntry e
  transfer : ∀ e ∈ f.headers.entries, e.Named transferEncodingWord → ¬ e.Chunked
  length : ∀ e ∈ f.headers.entries, e.Named contentLengthWord → e.Announces f.content.length
  announced : f.content ≠ [] → ∃ e ∈ f.headers.entries, e.Named contentLengthWord
  short : f.headSize ≤ httpMaxHeaderSize

/-- The parser reads the text of `f` as the message `m`. -/
structure Sends (f : Formatted) (m : RequestMessage) : Prop where
  text : m.text = f.text
  body : m.body = f.content
  asks : m.AsksToClose → f.headers.Asks closeWord
  hands : m.HandsOver → f.HandsOver
  closes : closeEntry ∈ f.headers.entries → ∃ l ∈ m.lines, l.Closes

theorem exists_message {f : Formatted} (hf : f.Known) (hframed : f.Framed) :
    ∃ m, f.Sends m := by
  obtain ⟨method, hmethod⟩ := hf.method
  obtain ⟨path, hpath, hvisible⟩ := hf.path
  have hvalid : ∀ e ∈ f.fields, ValidEntry e :=
    fun e he => hframed.valid e (f.fields_perm.mem_iff.mp he)
  let lines := f.fields.pmap (fun _ he => ValidEntry.line he) hvalid
  have hlines : ∀ l ∈ lines, ∃ e ∈ f.headers.entries, ∃ he : ValidEntry e, l = he.line := by
    intro l hl
    obtain ⟨e, he, rfl⟩ := List.mem_pmap.mp hl
    exact ⟨e, f.fields_perm.mem_iff.mp he, hvalid e he, rfl⟩
  have hline {e : HeaderEntry} (he : e ∈ f.headers.entries) :
      ∃ l ∈ lines, ∃ hvalid : ValidEntry e, l = hvalid.line := by
    have hmem := f.fields_perm.mem_iff.mpr he
    exact ⟨_, List.mem_pmap.mpr ⟨e, hmem, rfl⟩, hvalid e hmem, rfl⟩
  have hencode : lines.flatMap HeaderLine.encode =
      f.fields.flatMap fun e => e.1 ++ colon :: space :: e.2.format ++ crlf :=
    pmap_encode f.fields hvalid
  have htext : f.text = methodStrings method ++ space :: 47 :: path ++ RequestParser.httpTail ++
      lines.flatMap HeaderLine.encode ++ crlf ++ f.content := by
    rw [f.text_eq, hmethod, hpath, hencode]
  have hasks {word : Bytes} (h : ∃ l ∈ lines, l.Connection word) : f.headers.Asks word := by
    obtain ⟨l, hl, hname, hoption⟩ := h
    obtain ⟨e, he, hvalid, rfl⟩ := hlines l hl
    exact ⟨e, he, hname, hoption⟩
  refine ⟨{
    method := method
    path := path
    lines := lines
    body := f.content
    path_visible := hvisible
    transfer := fun l hl hname hchunked => by
      obtain ⟨e, he, hvalid, rfl⟩ := hlines l hl
      exact hframed.transfer e he hname ⟨hvalid, hchunked⟩
    length := fun l hl hname => by
      obtain ⟨e, he, hvalid, rfl⟩ := hlines l hl
      obtain ⟨_, hannounces⟩ := hframed.length e he hname
      exact hannounces
    announced := fun hbody => by
      obtain ⟨e, he, hname⟩ := hframed.announced hbody
      obtain ⟨l, hl, hvalid, rfl⟩ := hline he
      exact ⟨_, hl, hname⟩
    short := ?_ }, ?_⟩
  · have hshort := hframed.short
    have hcrlf : crlf.length = 2 := rfl
    have htail : RequestParser.httpTail.length = 11 := by decide +kernel
    rw [headSize, htext] at hshort
    simp only [List.length_append, List.length_cons, hcrlf, htail] at hshort
    have hcount : lines.length = f.fields.length := List.length_pmap
    omega
  · exact
      { text := htext.symm
        body := rfl
        asks := hasks
        hands := by
          rintro (hconnect | ⟨⟨l, hl, hname⟩, hoption⟩)
          · exact Or.inl (by rw [hmethod]; exact congrArg methodStrings hconnect)
          · obtain ⟨e, he, hvalid, rfl⟩ := hlines l hl
            exact Or.inr ⟨⟨e, he, hname⟩, hasks hoption⟩
        closes := by
          intro he
          obtain ⟨l, hl, hvalid, rfl⟩ := hline he
          refine ⟨_, hl, Or.inl ?_, "close".toUTF8.toList,
            ⟨[space], [], ?_, by decide +kernel, by simp⟩, by decide +kernel⟩
          · exact added_names.1
          · simp [ValidEntry.line, closeEntry, HeaderValue.format] }

/-- A batch of requests in one chunk: only the last one may close the
connection, or hand it over. -/
theorem scan_batch : ∀ {fs : List Formatted} {r : RequestParser}, r.line = some .startReq →
    r.parser.nread = 0 → (∀ f ∈ fs, ∃ m, f.Sends m) →
    (∀ before f after, fs = before ++ f :: after → f.headers.Asks closeWord → after = []) →
    (∀ before f after, fs = before ++ f :: after → f.HandsOver → after = [] ∧ f.content = []) →
    fs ≠ [] → ∀ done count, r.scan none done count (fs.flatMap text) =
      ⟨done + (fs.flatMap text).length, count + fs.length, none⟩ := by
  intro fs
  induction fs with
  | nil => exact fun _ _ _ _ _ h => absurd rfl h
  | cons f fs ih =>
      intro r hline hn hsends hclose hover _ done count
      obtain ⟨m, hm⟩ := hsends f (by simp)
      rw [List.flatMap_cons, ← hm.text]
      rcases m.scan_message hline hn done count (fs.flatMap text) with
        ⟨hhands, hscan⟩ | ⟨r', hread, hscan⟩
      · obtain ⟨rfl, hempty⟩ := hover [] f fs rfl (hm.hands hhands)
        have hhead : m.text = m.head := by
          rw [RequestMessage.text, hm.body, hempty, List.append_nil]
        rw [hscan, hhead]
        simp
      · rw [hscan, List.length_append, ← Nat.add_assoc]
        cases fs with
        | nil => simp [RequestParser.scan]
        | cons f' fs =>
            have hkeep : r'.shouldKeepAlive = true := by
              refine Bool.not_eq_false _ ▸ fun hfalse => ?_
              exact absurd (hclose [] f _ rfl (hm.asks (hread.asksToClose hfalse))) (by simp)
            have hnext : RequestParser.newMessage r' = { r' with line := some .startReq } :=
              if_pos hkeep
            rw [hnext, ih (r := { r' with line := some .startReq }) rfl hread.nread
              (fun f hf => hsends f (by simp [hf])) ?_ ?_ (by simp)]
            · simp [Nat.add_assoc, Nat.add_comm]
            · intro before g after hsplit
              exact hclose (f :: before) g after (by rw [hsplit]; rfl)
            · intro before g after hsplit
              exact hover (f :: before) g after (by rw [hsplit]; rfl)

end Formatted

/-- The letters of an option are in the value. -/
theorem HasOption.mem {value word : Bytes} (h : HasOption value word) {c : UInt8} (hc : c ∈ word) :
    c ∈ value.map lowercase := by
  obtain ⟨before, lead, option, trail, after, rfl, -, -, -, -, rfl⟩ := h
  simp only [List.map_append, List.mem_append]
  exact Or.inl (Or.inl (Or.inr hc))

/-! ## The default headers -/

namespace Wrk

variable {w : Wrk} {c : FormatCall} {calls : List FormatCall}

/-- The headers of a request with `body` that starts from `headers`. -/
def Carries (headers : HeaderTable) (body : Option LuaString) (e : HeaderEntry) : Prop :=
  (∃ b, body = some b ∧ e = (contentLengthName, .length b.1.length)) ∨
    (e ∈ headers.entries ∧ e.1 ≠ contentLengthName) ∨
      (e = closeEntry ∧ headers.get connectionName = none)

theorem mem_formatHeaders (w : Wrk) (body : Option LuaString) (e : HeaderEntry) :
    e ∈ (w.formatHeaders w.headers body).entries ↔ Carries w.headers body e := by
  have hnames : connectionName ≠ contentLengthName := by decide +kernel
  let host := if w.headers.get hostName = none then
    w.headers.assign hostName (w.headers.get hostName) else w.headers
  let sized := host.assign contentLengthName (body.map fun b => .length b.1.length)
  -- Without a `Host` of its own the table finds none in `wrk.headers` either.
  have hhost (e : HeaderEntry) : e ∈ host.entries ↔ e ∈ w.headers.entries := by
    by_cases hnone : w.headers.get hostName = none
    · have habsent := HeaderTable.get_eq_none.mp hnone
      simp only [host, if_pos hnone, HeaderTable.mem_assign]
      constructor
      · rintro (⟨-, h⟩ | ⟨he, -⟩)
        · exact absurd (hnone.symm.trans h) (by simp)
        · exact he
      · exact fun he => Or.inr ⟨he, habsent e he⟩
    · simp only [host, if_neg hnone]
  have hsized (e : HeaderEntry) : e ∈ sized.entries ↔
      (∃ b, body = some b ∧ e = (contentLengthName, .length b.1.length)) ∨
        (e ∈ w.headers.entries ∧ e.1 ≠ contentLengthName) := by
    obtain ⟨n, v⟩ := e
    simp only [sized, HeaderTable.mem_assign, hhost, Option.map_eq_some_iff, Prod.mk.injEq]
    refine or_congr ⟨?_, ?_⟩ Iff.rfl
    · rintro ⟨rfl, b, rfl, rfl⟩
      exact ⟨b, rfl, rfl, rfl⟩
    · rintro ⟨b, rfl, rfl, rfl⟩
      exact ⟨rfl, b, rfl, rfl⟩
  have hget : sized.get connectionName = none ↔ w.headers.get connectionName = none := by
    rw [HeaderTable.get_eq_none, HeaderTable.get_eq_none]
    constructor
    · intro h e he hname
      exact h e ((hsized e).mpr (Or.inr ⟨he, hname ▸ hnames⟩)) hname
    · intro h e he hname
      rcases (hsized e).mp he with ⟨b, -, rfl⟩ | ⟨he, -⟩
      · exact hnames hname.symm
      · exact h e he hname
  show e ∈ (if sized.get connectionName = none then
    sized.assign connectionName (some (.string "close".toUTF8.toList)) else sized).entries ↔ _
  by_cases hnone : w.headers.get connectionName = none
  · rw [if_pos (hget.mpr hnone), HeaderTable.mem_assign, hsized]
    constructor
    · rintro (⟨hname, hvalue⟩ | ⟨he, -⟩)
      · exact Or.inr (Or.inr ⟨Prod.ext hname (Option.some.inj hvalue).symm, hnone⟩)
      · exact he.imp_right Or.inl
    · rintro (⟨b, hb, rfl⟩ | he | ⟨rfl, -⟩)
      · exact Or.inr ⟨Or.inl ⟨b, hb, rfl⟩, hnames.symm⟩
      · exact Or.inr ⟨Or.inr he, HeaderTable.get_eq_none.mp hnone e he.1⟩
      · exact Or.inl ⟨rfl, rfl⟩
  · rw [if_neg fun h => hnone (hget.mp h), hsized]
    exact or_congr Iff.rfl (or_iff_left fun h => hnone h.2).symm

/-- What the first request has left in the table changes no later one. -/
theorem carries_afterFormat (hdefault : c.headers = none) (body : Option LuaString)
    (e : HeaderEntry) :
    Carries (w.afterFormat c).headers body e ↔ Carries w.headers body e := by
  have hnames : connectionName ≠ contentLengthName := by decide +kernel
  have hmem (e : HeaderEntry) : e ∈ (w.afterFormat c).headers.entries ↔
      Carries w.headers (c.body.or w.body) e := by
    rw [afterFormat, hdefault]
    show e ∈ (w.format c).headers.entries ↔ _
    rw [format, hdefault]
    exact w.mem_formatHeaders _ e
  have hconnection : (w.afterFormat c).headers.get connectionName ≠ none := by
    intro habsent
    have hno := HeaderTable.get_eq_none.mp habsent
    by_cases hnone : w.headers.get connectionName = none
    · exact hno closeEntry ((hmem _).mpr (Or.inr (Or.inr ⟨rfl, hnone⟩))) rfl
    · refine hnone (HeaderTable.get_eq_none.mpr fun e he hname => ?_)
      exact hno e ((hmem e).mpr (Or.inr (Or.inl ⟨he, hname ▸ hnames⟩))) hname
  constructor
  · rintro (hbody | ⟨he, hname⟩ | ⟨-, hnone⟩)
    · exact Or.inl hbody
    · rcases (hmem e).mp he with ⟨b, -, rfl⟩ | he | he
      · exact absurd rfl hname
      · exact Or.inr (Or.inl he)
      · exact Or.inr (Or.inr he)
    · exact absurd hnone hconnection
  · rintro (hbody | ⟨he, hname⟩ | ⟨rfl, hnone⟩)
    · exact Or.inl hbody
    · exact Or.inr (Or.inl ⟨(hmem e).mpr (Or.inr (Or.inl ⟨he, hname⟩)), hname⟩)
    · exact Or.inr (Or.inl ⟨(hmem _).mpr (Or.inr (Or.inr ⟨rfl, hnone⟩)), hnames⟩)

/-- All requests start from the table as it was before the first one. -/
theorem mem_formats_headers (hheaders : ∀ c ∈ calls, c.headers = none) :
    ∀ {w : Wrk}, ∀ f ∈ w.formats calls, ∀ e,
      e ∈ f.headers.entries ↔ Carries w.headers f.body e := by
  induction calls with
  | nil => exact fun f hf => absurd hf (by simp [formats])
  | cons c calls ih =>
      intro w f hf e
      have hdefault := hheaders c (by simp)
      rcases List.mem_cons.mp hf with rfl | hf
      · rw [format, hdefault]
        exact w.mem_formatHeaders _ e
      · have htail := ih (fun c hc => hheaders c (by simp [hc])) f hf e
        exact htail.trans (carries_afterFormat hdefault f.body e)

/-- Requests of `wrk.format` with the headers of `wrk`: the names are tokens,
the values stay on their lines, and the parser knows the methods. -/
structure Requests (w : Wrk) (calls : List FormatCall) : Prop where
  headers : ∀ c ∈ calls, c.headers = none
  valid : ∀ e ∈ w.headers.entries, ValidEntry e
  known : ∀ f ∈ w.formats calls, f.Known

/-- The table does not frame the requests in a way of its own, and the
parser reads on behind all of them but the last one. -/
structure Readable (w : Wrk) (calls : List FormatCall) : Prop where
  transfer : ∀ e ∈ w.headers.entries, e.Named transferEncodingWord → ¬ e.Chunked
  length : ∀ e ∈ w.headers.entries, e.1 ≠ contentLengthName → e.Named contentLengthWord →
    ∀ f ∈ w.formats calls, e.Announces f.content.length
  short : ∀ f ∈ w.formats calls, f.headSize ≤ httpMaxHeaderSize
  last : ∀ before f after, w.formats calls = before ++ f :: after → f.HandsOver →
    after = [] ∧ f.content = []

/-- The table has a `Connection` of its own, and none that says `close`. -/
def KeepsAlive (w : Wrk) : Prop :=
  w.headers.get connectionName ≠ none ∧ ¬ w.headers.Asks closeWord

theorem Readable.framed (hr : w.Requests calls) (h : w.Readable calls) :
    ∀ f ∈ w.formats calls, f.Framed := by
  obtain ⟨hconnection, hlength⟩ := added_names
  have hwords : connectionWord ≠ contentLengthWord ∧ connectionWord ≠ transferEncodingWord ∧
      contentLengthWord ≠ transferEncodingWord := by
    decide +kernel
  obtain ⟨hcl, hct, hlt⟩ := hwords
  intro f hf
  have hmem := mem_formats_headers hr.headers f hf
  exact
    { valid := fun e he => by
        rcases (hmem e).mp he with ⟨b, -, rfl⟩ | ⟨he, -⟩ | ⟨rfl, -⟩
        · obtain ⟨hvalid, -⟩ := announces_length b
          exact hvalid
        · exact hr.valid e he
        · exact closeEntry_valid
      transfer := fun e he hname => by
        rcases (hmem e).mp he with ⟨b, -, rfl⟩ | ⟨he, -⟩ | ⟨rfl, -⟩
        · exact absurd (hlength.symm.trans hname) hlt
        · exact h.transfer e he hname
        · exact absurd (hconnection.symm.trans hname) hct
      length := fun e he hname => by
        rcases (hmem e).mp he with ⟨b, hb, rfl⟩ | ⟨he, hne⟩ | ⟨rfl, -⟩
        · rw [Formatted.content, hb]
          exact announces_length b
        · exact h.length e he hne hname f hf
        · exact absurd (hconnection.symm.trans hname) hcl
      announced := fun hcontent => by
        cases hb : f.body with
        | none => exact absurd (by rw [Formatted.content, hb]; rfl) hcontent
        | some b => exact ⟨_, (hmem _).mpr (Or.inl ⟨b, hb, rfl⟩), hlength⟩
      short := h.short f hf }

theorem KeepsAlive.not_asks (h : w.KeepsAlive) (hr : w.Requests calls) {f : Formatted}
    (hf : f ∈ w.formats calls) : ¬ f.headers.Asks closeWord := by
  rintro ⟨e, he, hname, hoption⟩
  rcases (mem_formats_headers hr.headers f hf e).mp he with ⟨b, -, rfl⟩ | ⟨he, -⟩ | ⟨-, hnone⟩
  · have hwords : contentLengthWord ≠ connectionWord ∧ contentLengthWord ≠ proxyConnectionWord := by
      decide +kernel
    rcases hname with hname | hname
    · exact hwords.1 (added_names.2.symm.trans hname)
    · exact hwords.2 (added_names.2.symm.trans hname)
  · exact h.2 ⟨e, he, hname, hoption⟩
  · exact h.1 hnone

theorem formats_length (calls : List FormatCall) :
    ∀ w : Wrk, (w.formats calls).length = calls.length := by
  induction calls with
  | nil => exact fun _ => rfl
  | cons c calls ih => exact fun w => congrArg (· + 1) (ih (w.afterFormat c))

/-- Without a `Connection` in the table the first request closes the
connection, and a second one is refused. -/
theorem verify_closed (hr : w.Requests calls) (h : w.Readable calls) (htwo : 2 ≤ calls.length)
    (hnone : w.headers.get connectionName = none) :
    ∃ failure, scriptVerifyRequest (w.pipeline calls) = .error failure ∧
      failure.msg = "data received after completed connection: close message" := by
  have hcount := formats_length calls w
  match hformats : w.formats calls with
  | [] | [_] =>
      rw [hformats] at hcount
      simp at hcount
      omega
  | f :: f' :: after =>
      have hmem : f ∈ w.formats calls ∧ f' ∈ w.formats calls := by
        rw [hformats]
        simp
      obtain ⟨m, hm⟩ := Formatted.exists_message (hr.known f hmem.1) (h.framed hr f hmem.1)
      obtain ⟨m', hm'⟩ := Formatted.exists_message (hr.known f' hmem.2) (h.framed hr f' hmem.2)
      obtain ⟨ch, rest, htext, hcr, hlf⟩ := m'.text_cons
      have hpipeline : w.pipeline calls =
          m.text ++ ch :: (rest ++ after.flatMap Formatted.text) := by
        rw [pipeline, hformats, List.flatMap_cons, List.flatMap_cons, ← hm.text, ← hm'.text, htext]
        rfl
      have hcloses : ∃ l ∈ m.lines, l.Closes :=
        hm.closes ((mem_formats_headers hr.headers f hmem.1 _).mpr (Or.inr (Or.inr ⟨rfl, hnone⟩)))
      have hscan : RequestParser.init.scan none 0 0 (w.pipeline calls) =
          ⟨m.text.length, 1, some (.common .closedConnection)⟩ := by
        rw [hpipeline]
        rcases m.scan_message (r := RequestParser.init) rfl rfl 0 0
          (ch :: (rest ++ after.flatMap Formatted.text)) with ⟨hhands, -⟩ | ⟨r', hread, hscan⟩
        · have hlast := (h.last [] f (f' :: after) hformats (hm.hands hhands)).1
          cases hlast
        · rw [hscan, RequestMessage.scan_closed hread (hread.closes hcloses) hcr hlf, Nat.zero_add,
            Nat.zero_add]
      have hlength : m.text.length ≠ (w.pipeline calls).length := by
        rw [hpipeline, List.length_append, List.length_cons]
        omega
      unfold scriptVerifyRequest
      simp only [hscan]
      rw [if_pos (Or.inl hlength)]
      exact ⟨_, rfl, rfl⟩

theorem verify_pipeline (hr : w.Requests calls) (h : w.Readable calls) (hne : calls ≠ [])
    (hclose : calls.length = 1 ∨ w.KeepsAlive) :
    RequestParser.init.scan none 0 0 (w.pipeline calls) =
        ⟨(w.pipeline calls).length, calls.length, none⟩ ∧
      scriptVerifyRequest (w.pipeline calls) = .ok calls.length ∧
      ∀ httpVersion ≥ 0, cfgPipeline httpVersion (w.pipeline calls) = .ok calls.length := by
  have hcount := formats_length calls w
  have hformats : w.formats calls ≠ [] := by
    rw [← List.length_pos_iff, hcount]
    exact List.length_pos_iff.mpr hne
  have hscan : RequestParser.init.scan none 0 0 (w.pipeline calls) =
      ⟨(w.pipeline calls).length, calls.length, none⟩ := by
    have hbatch := Formatted.scan_batch (r := RequestParser.init) rfl rfl
      (fun f hf => Formatted.exists_message (hr.known f hf) (h.framed hr f hf)) ?_ h.last hformats
      0 0
    · rw [Nat.zero_add, Nat.zero_add, hcount] at hbatch
      exact hbatch
    · intro before f after hsplit hasks
      rcases hclose with hone | hkeep
      · have := congrArg List.length hsplit
        rw [hcount, hone, List.length_append, List.length_cons] at this
        exact List.length_eq_zero_iff.mp (by omega)
      · exact absurd hasks (hkeep.not_asks hr (by rw [hsplit]; simp))
  have hverify : scriptVerifyRequest (w.pipeline calls) = .ok calls.length := by
    unfold scriptVerifyRequest
    simp only [hscan]
    exact if_neg (by simpa using hne)
  refine ⟨hscan, hverify, fun httpVersion hversion => ?_⟩
  rw [cfgPipeline, if_pos hversion, hverify]

/-- The `wrk` of a run against localhost with these headers. -/
def localhost (headers : HeaderTable) : Wrk where
  method := "GET".toUTF8.toList
  path := "/".toUTF8.toList
  headers := headers
  body := none

/-- `wrk.format(nil, path, nil, body)`. -/
def formatPath (path : Bytes) (body : Option LuaString) : FormatCall where
  method := none
  path := some path
  headers := none
  body := body
  pairs := HeaderTable.entries
  pairs_perm := HeaderTable.entries_perm

/-- The table of `scripts/keepalive.lua`. -/
def keepAliveHeaders : HeaderTable where
  entries := [(hostName, .string "localhost".toUTF8.toList),
    (connectionName, .string "keep-alive".toUTF8.toList)]
  nodup := by decide +kernel

theorem requests_paths {w : Wrk} {paths : List Bytes}
    (hvalid : ∀ e ∈ w.headers.entries, ValidEntry e)
    (hknown : ∀ f ∈ w.formats (paths.map (formatPath · none)), f.method = methodStrings .get ∧
      f.path.head? = some 47 ∧ ∀ ch ∈ f.path.tail, RequestParser.isVisible ch = true) :
    w.Requests (paths.map (formatPath · none)) where
  headers c hc := by
    obtain ⟨path, -, rfl⟩ := List.mem_map.mp hc
    rfl
  valid := hvalid
  known f hf := .get (hknown f hf)

theorem verify_pipeline_keepAlive :
    scriptVerifyRequest ((localhost keepAliveHeaders).pipeline
      [formatPath "/?foo".toUTF8.toList none,
        formatPath "/?bar".toUTF8.toList (some ⟨[104, 105], by decide⟩)]) = .ok 2 := by
  let w := localhost keepAliveHeaders
  let calls := [formatPath "/?foo".toUTF8.toList none,
    formatPath "/?bar".toUTF8.toList (some ⟨[104, 105], by decide⟩)]
  have hnames : ∀ e ∈ w.headers.entries, ¬ e.Named transferEncodingWord ∧
      (e.1 ≠ contentLengthName → ¬ e.Named contentLengthWord) := by
    decide +kernel
  have hget : ∀ f ∈ w.formats calls, f.method = methodStrings .get ∧
      f.path.head? = some 47 ∧ ∀ ch ∈ f.path.tail, RequestParser.isVisible ch = true := by
    decide +kernel
  have hover : ∀ f ∈ w.formats calls, f.method ≠ methodStrings .connect ∧
      ∀ e ∈ f.headers.entries, ¬ e.Named upgradeWord := by
    decide +kernel
  have hletters : ∀ e ∈ w.headers.entries, e.Named connectionWord ∨ e.Named proxyConnectionWord →
      ∃ c ∈ closeWord, c ∉ (space :: e.2.format).map lowercase := by
    decide +kernel
  have hrequests : w.Requests calls :=
    ⟨by simp [calls, formatPath], by decide +kernel, fun f hf => .get (hget f hf)⟩
  have hreadable : w.Readable calls :=
    { transfer := fun e he hname => absurd hname (hnames e he).1
      length := fun e he hne hname => absurd hname ((hnames e he).2 hne)
      short := by decide +kernel
      last := by
        intro before f after hsplit hhands
        obtain ⟨hmethod, hupgrade⟩ := hover f (by rw [hsplit]; simp)
        rcases hhands with hconnect | ⟨⟨e, he, hname⟩, -⟩
        · exact absurd hconnect hmethod
        · exact absurd hname (hupgrade e he) }
  have hkeep : w.KeepsAlive := by
    refine ⟨by decide +kernel, ?_⟩
    rintro ⟨e, he, hname, hoption⟩
    obtain ⟨c, hc, hnot⟩ := hletters e he hname
    exact hnot (hoption.mem hc)
  exact (verify_pipeline hrequests hreadable (by simp [calls]) (Or.inr hkeep)).2.1

/-- The requests of `wrk.format` are refused. -/
def Refused (w : Wrk) (calls : List FormatCall) : Prop :=
  w.Requests calls ∧ ∃ failure, scriptVerifyRequest (w.pipeline calls) = .error failure

theorem refused_longPath {headers : HeaderTable} (hvalid : ∀ e ∈ headers.entries, ValidEntry e)
    {path : Bytes} (hpath : ∀ ch ∈ path, RequestParser.isVisible ch = true)
    (hlong : httpMaxHeaderSize < path.length + 5) :
    Refused (localhost headers) ([47 :: path].map (formatPath · none)) := by
  let f := (localhost headers).format (formatPath (47 :: path) none)
  refine ⟨requests_paths hvalid ?_, ?_⟩
  · intro g hg
    obtain rfl : g = f := List.mem_singleton.mp hg
    exact ⟨rfl, rfl, hpath⟩
  have hget : (methodStrings .get).length = 3 := by decide +kernel
  obtain ⟨rest, htext⟩ : ∃ rest,
      (localhost headers).pipeline ([47 :: path].map (formatPath · none)) =
        methodStrings .get ++ space :: 47 :: path ++ rest := by
    refine ⟨RequestParser.httpTail ++
      (f.fields.flatMap fun e => e.1 ++ colon :: space :: e.2.format ++ crlf) ++ crlf ++
        f.content, ?_⟩
    rw [show (localhost headers).pipeline _ = f.text ++ [] from rfl, f.text_eq]
    simp only [List.append_assoc, List.append_nil]
    rfl
  obtain ⟨consumed, hconsumed, hscan⟩ := RequestParser.scan_longPath (p := .zeroed) .get .delete
    hpath (by rw [hget]; decide) (by rw [hget]; simp only [HttpParser.zeroed]; omega) 0 0 rest
  have hlength : consumed ≠ (methodStrings .get ++ space :: 47 :: path ++ rest).length := by
    simp only [List.length_append, List.length_cons]
    omega
  rw [htext, scriptVerifyRequest]
  simp only [RequestParser.init, hscan]
  exact ⟨_, if_pos (Or.inl hlength)⟩

/-- `scripts/pipeline.lua`, and tables that say themselves how the request
is framed or who reads on behind it, and a path that is too long. -/
theorem refused_requests :
    Refused (localhost ⟨[(hostName, .string "localhost".toUTF8.toList)], by decide⟩)
        (["/?foo".toUTF8.toList, "/?bar".toUTF8.toList, "/?baz".toUTF8.toList].map
          (formatPath · none)) ∧
      Refused (localhost ⟨[("Transfer-Encoding".toUTF8.toList,
        .string "chunked".toUTF8.toList)], by decide⟩) ([[47]].map (formatPath · none)) ∧
      Refused (localhost ⟨[("content-length".toUTF8.toList,
        .string "5".toUTF8.toList)], by decide⟩) ([[47]].map (formatPath · none)) ∧
      Refused (localhost ⟨[("Upgrade".toUTF8.toList, .string "h2c".toUTF8.toList),
        (connectionName, .string "upgrade".toUTF8.toList)], by decide +kernel⟩)
        ([[47], [47]].map (formatPath · none)) ∧
      Refused (localhost ⟨[], by decide⟩)
        ([47 :: List.replicate httpMaxHeaderSize 97].map (formatPath · none)) := by
  have hlong : Refused (localhost ⟨[], by decide⟩)
      ([47 :: List.replicate httpMaxHeaderSize 97].map (formatPath · none)) := by
    refine refused_longPath (by simp) (fun ch hch => ?_) ?_
    · rw [List.eq_of_mem_replicate hch]
      rfl
    · rw [List.length_replicate]
      omega
  refine ⟨⟨requests_paths ?_ ?_,
      ⟨"data received after completed connection: close message", 5, 1⟩, ?_⟩,
    ⟨requests_paths ?_ ?_, ⟨"incomplete request", 5, 1⟩, ?_⟩,
    ⟨requests_paths ?_ ?_, ⟨"incomplete request", 5, 1⟩, ?_⟩,
    ⟨requests_paths ?_ ?_, ⟨"incomplete request", 5, 1⟩, ?_⟩, hlong⟩
  all_goals decide +kernel

end Wrk

end WrkQuic
