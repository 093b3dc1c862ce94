import WrkQuic.Lib.TextLines
import WrkQuic.Pipeline
import WrkQuic.UrlFields

/-!
# The headers of a request

The options `-H` become the entries of the table `wrk.headers`, to which
`wrk.init` adds a `Host` and `wrk.format` a `Content-Length` and a
`Connection`. Lua compares keys byte by byte, so that a header replaces one of
these, or is replaced by it, only when it is spelled like it.

What is sent is a string, and its headers are the lines of it: a value is
written as it is, with every line break in it.
-/

namespace WrkQuic

open HttpParser (connectionWord contentLengthWord)
open TextLines

/-! ## script.c -/

/-- One pass of the loop over `headers` in `script_create`. -/
def createHeader (t : HeaderTable) (h : Bytes) : HeaderTable :=
  match h.dropWhile (· ≠ colon) with
  | _ :: 32 :: value => t.assign (h.takeWhile (· ≠ colon)) (some (.string value))
  | _ => t

/-- `wrk.headers` after `script_create`. -/
def createHeaders (headers : List Bytes) : HeaderTable :=
  headers.foldl createHeader ⟨[], List.nodup_nil⟩

/-! ## wrk.lua -/

/-- The `host` that `wrk.init` puts together. -/
def hostHeader (host : Bytes) (port : Option Bytes) : Bytes :=
  let host := if colon ∈ host then 91 :: host ++ [93] else host
  port.elim host (host ++ colon :: ·)

namespace Wrk

/-- `wrk.headers["Host"]` in `wrk.init`. -/
def initHost (w : Wrk) (host : Bytes) (port : Option Bytes) : Wrk :=
  if w.headers.get hostName = none then
    { w with headers := w.headers.assign hostName (some (.string (hostHeader host port))) }
  else w

/-- `wrk.init` without an `init` of the script; `call` is its `wrk.format()`. -/
def init (w : Wrk) (host : Bytes) (port : Option Bytes) (version : ℤ) (call : FormatCall) : Wrk :=
  let w := w.initHost host port
  if version = -1 ∨ version = 9 then w else w.afterFormat call

end Wrk

/-! ## Options -/

/-- An option `-H 'Name: value'`. -/
structure HeaderOption where
  name : Bytes
  value : Bytes
  name_ne_nil : name ≠ []
  name_token : ∀ ch ∈ name, token ch ≠ 0

namespace HeaderOption

def text (h : HeaderOption) : Bytes := h.name ++ colon :: space :: h.value

def entry (h : HeaderOption) : HeaderEntry := (h.name, .string h.value)

/-- The name, when it is `name` in some case, is spelled like it. -/
def Spelled (h : HeaderOption) (name : Bytes) : Prop :=
  h.name.map lowercase = name.map lowercase → h.name = name

theorem createHeader_text (t : HeaderTable) (h : HeaderOption) :
    createHeader t h.text = t.assign h.name (some (.string h.value)) := by
  have hname : ∀ ch ∈ h.name, decide (ch ≠ colon) = true := by
    intro ch hch
    rw [decide_eq_true_iff]
    rintro rfl
    exact h.name_token colon hch (by decide +kernel)
  unfold createHeader text
  rw [List.dropWhile_append_of_pos hname, List.takeWhile_append_of_pos hname]
  show t.assign (h.name ++ []) _ = _
  rw [List.append_nil]

theorem mem_createHeaders {options : List HeaderOption}
    (hnames : (options.map fun h => h.name.map lowercase).Nodup) (e : HeaderEntry) :
    e ∈ (createHeaders (options.map text)).entries ↔ ∃ h ∈ options, h.entry = e := by
  induction options using List.reverseRecOn generalizing e with
  | nil => simp [createHeaders]
  | append_singleton options h ih =>
      rw [List.map_append, List.nodup_append] at hnames
      have hassign : createHeaders ((options ++ [h]).map text) =
          (createHeaders (options.map text)).assign h.name (some (.string h.value)) := by
        rw [createHeaders, List.map_append, List.foldl_append]
        exact createHeader_text _ h
      have hother {h' : HeaderOption} (hh' : h' ∈ options) : h'.name ≠ h.name := by
        intro hsame
        exact hnames.2.2 _ (List.mem_map_of_mem hh') _ (List.mem_map_of_mem (by simp))
          (congrArg (List.map lowercase) hsame)
      rw [hassign, HeaderTable.mem_assign, ih hnames.1]
      constructor
      · rintro (⟨hname, hvalue⟩ | ⟨⟨h', hh', rfl⟩, -⟩)
        · exact ⟨h, by simp, Prod.ext hname.symm (Option.some.inj hvalue)⟩
        · exact ⟨h', by simp [hh'], rfl⟩
      · rintro ⟨h', hh', rfl⟩
        rcases List.mem_append.mp hh' with hold | hnew
        · exact .inr ⟨⟨h', hold, rfl⟩, hother hold⟩
        · rw [List.mem_singleton] at hnew
          subst hnew
          exact .inl ⟨rfl, rfl⟩

end HeaderOption

/-! ## The headers that are sent -/

/-- The names of the headers that `wrk.lua` makes, in lower case. -/
def madeWords : List Bytes := [hostName, connectionName, contentLengthName].map (·.map lowercase)

/-- A header as it is read from a line. -/
abbrev SentHeader := Bytes × Bytes

def SentHeader.Named (e : SentHeader) (name : Bytes) : Prop :=
  e.1.map lowercase = name.map lowercase

/-- The name, and the value behind `": "`. -/
def headerOf (line : Bytes) : SentHeader :=
  (line.takeWhile (· ≠ colon), (line.dropWhile (· ≠ colon)).drop 2)

/-- The headers of a request: the lines between the first one and the first
that is empty. -/
def sentHeaders (text : Bytes) : List SentHeader :=
  ((splitLines text).tail.takeWhile (· ≠ [])).map headerOf

def HeaderEntry.sent (e : HeaderEntry) : SentHeader := (e.1, e.2.format)

def HeaderEntry.line (e : HeaderEntry) : Bytes := e.1 ++ ": ".toUTF8.toList ++ e.2.format

/-- The name is one that can be told from the value. -/
def HeaderEntry.Readable (e : HeaderEntry) : Prop := colon ∉ e.1 ∧ OneLine e.1

namespace HeaderEntry

variable {e : HeaderEntry} {value : Bytes}

theorem headerOf_line (h : e.Readable) (value : Bytes) :
    headerOf (e.1 ++ ": ".toUTF8.toList ++ value) = (e.1, value) := by
  have hcolon : ": ".toUTF8.toList = [colon, space] := by decide +kernel
  have hname : ∀ ch ∈ e.1, decide (ch ≠ colon) = true := by
    intro ch hch
    rw [decide_eq_true_iff]
    rintro rfl
    exact h.1 hch
  rw [hcolon, List.append_assoc, headerOf, List.takeWhile_append_of_pos hname,
    List.dropWhile_append_of_pos hname]
  show (e.1 ++ [], value) = _
  rw [List.append_nil]

theorem oneLine_line (h : e.Readable) (hvalue : OneLine value) :
    OneLine (e.1 ++ ": ".toUTF8.toList ++ value) :=
  (h.2.append (by decide +kernel)).append hvalue

theorem line_ne_nil (value : Bytes) : e.1 ++ ": ".toUTF8.toList ++ value ≠ [] := by
  have hcolon : ": ".toUTF8.toList = [colon, space] := by decide +kernel
  rw [hcolon]
  simp

end HeaderEntry

section Lines

variable {first content : Bytes} {fields : List HeaderEntry}

theorem takeWhile_lines (fields : List HeaderEntry) (rest : List Bytes) :
    (fields.map HeaderEntry.line ++ rest).takeWhile (· ≠ []) =
      fields.map HeaderEntry.line ++ rest.takeWhile (· ≠ []) := by
  refine List.takeWhile_append_of_pos fun line hline => ?_
  obtain ⟨e, -, rfl⟩ := List.mem_map.mp hline
  exact decide_eq_true (HeaderEntry.line_ne_nil _)

/-- Values of one line are read back as they were written. -/
theorem sentHeaders_of_oneLine (hfirst : OneLine first) (hread : ∀ e ∈ fields, e.Readable)
    (hvalues : ∀ e ∈ fields, OneLine e.2.format) :
    sentHeaders (crlf.intercalate (first :: fields.map HeaderEntry.line ++ [[], content])) =
      fields.map HeaderEntry.sent := by
  have hlines : ∀ l ∈ first :: fields.map HeaderEntry.line ++ [[]], OneLine l := by
    intro l hl
    rcases List.mem_append.mp hl with hl | hl
    · rcases List.mem_cons.mp hl with rfl | hl
      · exact hfirst
      · obtain ⟨e, he, rfl⟩ := List.mem_map.mp hl
        exact HeaderEntry.oneLine_line (hread e he) (hvalues e he)
    · rw [List.mem_singleton.mp hl]
      exact oneLine_nil
  have hsplit := splitLines_join hlines content []
  rw [List.append_assoc, List.singleton_append] at hsplit
  rw [sentHeaders, crlf, show [cr, lf] = [13, 10] from rfl, hsplit, List.cons_append,
    List.cons_append, List.tail_cons, List.append_assoc, takeWhile_lines]
  simp only [List.cons_append, List.nil_append, List.takeWhile_cons, ne_eq, not_true_eq_false,
    decide_false, Bool.false_eq_true, if_false, List.append_nil, List.map_map]
  exact List.map_congr_left fun e he => HeaderEntry.headerOf_line (hread e he) _

/-- The first value with a line break is cut there. -/
theorem exists_sentHeader_of_break (hfirst : OneLine first) (hread : ∀ e ∈ fields, e.Readable)
    (hbreak : ∃ e ∈ fields, ¬ OneLine e.2.format) (content : Bytes) :
    ∃ e ∈ fields, ¬ OneLine e.2.format ∧ ∃ value, OneLine value ∧ (e.1, value) ∈
      sentHeaders (crlf.intercalate (first :: fields.map HeaderEntry.line ++ [[], content])) := by
  obtain ⟨e, hfind⟩ : ∃ e, fields.find? (fun e => ¬ OneLine e.2.format) = some e := by
    obtain ⟨e, he, hvalue⟩ := hbreak
    exact Option.isSome_iff_exists.mp (List.find?_isSome.mpr ⟨e, he, decide_eq_true hvalue⟩)
  obtain ⟨hvalue, before, after, hfields, hbefore⟩ := List.find?_eq_some_iff_append.mp hfind
  have he : e ∈ fields := List.mem_of_find?_eq_some hfind
  refine ⟨e, he, of_decide_eq_true hvalue, ?_⟩
  obtain ⟨value, ch, rest, hline, hch, hformat⟩ := exists_break (of_decide_eq_true hvalue)
  refine ⟨value, hline, ?_⟩
  have hlines : ∀ l ∈ first :: before.map HeaderEntry.line, OneLine l := by
    intro l hl
    rcases List.mem_cons.mp hl with rfl | hl
    · exact hfirst
    · obtain ⟨b, hb, rfl⟩ := List.mem_map.mp hl
      have hone := hbefore b hb
      simp only [decide_not, Bool.not_not, decide_eq_true_eq] at hone
      exact HeaderEntry.oneLine_line
        (hread b (hfields ▸ List.mem_append_left _ hb)) hone
  -- up to the break, the entry is a line
  obtain ⟨more, hmore⟩ : ∃ more,
      splitLines (crlf.intercalate (e.line :: (after.map HeaderEntry.line ++ [[], content]))) =
        (e.1 ++ ": ".toUTF8.toList ++ value) :: more := by
    rw [List.intercalate_cons_of_ne_nil (by simp), HeaderEntry.line, hformat,
      ← List.append_assoc (e.1 ++ _), List.append_assoc _ (ch :: rest), List.append_assoc,
      splitLines_append (HeaderEntry.oneLine_line (hread e he) hline)]
    obtain ⟨more, hmore⟩ := splitLines_break hch (rest ++
      (crlf ++ crlf.intercalate (after.map HeaderEntry.line ++ [[], content])))
    refine ⟨more, ?_⟩
    simp only [List.cons_append, List.append_assoc] at hmore ⊢
    rw [hmore]
    simp
  have hsplit := splitLines_join hlines e.line (after.map HeaderEntry.line ++ [[], content])
  have hshape : first :: fields.map HeaderEntry.line ++ [[], content] =
      (first :: before.map HeaderEntry.line) ++
        e.line :: (after.map HeaderEntry.line ++ [[], content]) := by
    rw [hfields]
    simp
  rw [show [13, 10] = crlf from rfl] at hsplit
  rw [sentHeaders, hshape, hsplit, hmore, List.cons_append, List.tail_cons, takeWhile_lines]
  refine List.mem_map.mpr ⟨e.1 ++ ": ".toUTF8.toList ++ value, ?_,
    HeaderEntry.headerOf_line (hread e he) value⟩
  rw [List.takeWhile_cons, if_pos (decide_eq_true (HeaderEntry.line_ne_nil _))]
  exact List.mem_append_right _ List.mem_cons_self

end Lines

theorem oneLine_of_mem_sentHeaders {text : Bytes} {e : SentHeader} (h : e ∈ sentHeaders text) :
    OneLine e.2 := by
  obtain ⟨line, hline, rfl⟩ := List.mem_map.mp h
  have hone := oneLine_of_mem_splitLines
    (List.mem_of_mem_tail ((List.takeWhile_prefix _).subset hline))
  exact fun ch hch =>
    hone ch ((List.dropWhile_suffix _).subset ((List.drop_suffix 2 _).subset hch))

namespace Wrk

/-- The entry that `wrk.init` adds to a table without a `Host`. -/
def hostEntry (host : Bytes) (port : Option Bytes) : HeaderEntry :=
  (hostName, .string (hostHeader host port))

/-- An entry that `wrk.lua` makes. -/
def Made (options : List HeaderOption) (host : Bytes) (port : Option Bytes)
    (body : Option LuaString) (e : HeaderEntry) : Prop :=
  (∃ b, body = some b ∧ e = (contentLengthName, .length b.1.length)) ∨
    (e = hostEntry host port ∧ ∀ h ∈ options, h.name ≠ hostName) ∨
      (e = closeEntry ∧ ∀ h ∈ options, h.name ≠ connectionName)

theorem get_createHeaders {options : List HeaderOption}
    (hnames : (options.map fun h => h.name.map lowercase).Nodup) (name : Bytes) :
    (createHeaders (options.map HeaderOption.text)).get name = none ↔
      ∀ h ∈ options, h.name ≠ name := by
  rw [HeaderTable.get_eq_none]
  constructor
  · exact fun h o ho => h _ ((HeaderOption.mem_createHeaders hnames _).mpr ⟨o, ho, rfl⟩)
  · intro h e he
    obtain ⟨o, ho, rfl⟩ := (HeaderOption.mem_createHeaders hnames e).mp he
    exact h o ho

theorem madeNames_ne : hostName ≠ contentLengthName ∧ hostName ≠ connectionName ∧
    connectionName ≠ contentLengthName := by
  decide +kernel

section Init

variable {options : List HeaderOption}
  (hnames : (options.map fun h => h.name.map lowercase).Nodup) {w : Wrk}
  (hw : w.headers = createHeaders (options.map HeaderOption.text)) {host : Bytes}
  {port : Option Bytes}
include hnames hw

theorem mem_initHost (e : HeaderEntry) :
    e ∈ (w.initHost host port).headers.entries ↔
      (e = hostEntry host port ∧ ∀ h ∈ options, h.name ≠ hostName) ∨
        ∃ h ∈ options, h.entry = e := by
  have hget := get_createHeaders hnames hostName
  rw [← hw] at hget
  unfold initHost
  split
  · rename_i hnone
    have habsent := hget.mp hnone
    rw [HeaderTable.mem_assign, hw, HeaderOption.mem_createHeaders hnames]
    constructor
    · rintro (⟨hname, hvalue⟩ | ⟨hoption, -⟩)
      · exact .inl ⟨Prod.ext hname (Option.some.inj hvalue).symm, habsent⟩
      · exact .inr hoption
    · rintro (⟨rfl, -⟩ | ⟨h, hh, rfl⟩)
      · exact .inl ⟨rfl, rfl⟩
      · exact .inr ⟨⟨h, hh, rfl⟩, habsent h hh⟩
  · rename_i hsome
    rw [hw, HeaderOption.mem_createHeaders hnames]
    exact (or_iff_right fun h => hsome (hget.mpr h.2)).symm

theorem get_initHost : (w.initHost host port).headers.get connectionName = none ↔
    ∀ h ∈ options, h.name ≠ connectionName := by
  rw [HeaderTable.get_eq_none]
  constructor
  · exact fun h o ho => h _ ((mem_initHost hnames hw _).mpr (.inr ⟨o, ho, rfl⟩))
  · intro h e he
    rcases (mem_initHost hnames hw e).mp he with ⟨rfl, -⟩ | ⟨o, ho, rfl⟩
    · exact madeNames_ne.2.1
    · exact h o ho

/-- The headers of a request without a table of its own. -/
theorem mem_fields_init {version : ℤ} {call : FormatCall} (hcall : call.headers = none)
    {calls : List FormatCall} (hcalls : ∀ c ∈ calls, c.headers = none) {f : Formatted}
    (hf : f ∈ (w.init host port version call).formats calls) (e : HeaderEntry) :
    e ∈ f.fields ↔ Made options host port f.body e ∨
      ∃ h ∈ options, h.entry = e ∧ h.name ≠ contentLengthName := by
  have hcarries : e ∈ f.fields ↔ Carries (w.initHost host port).headers f.body e := by
    rw [f.fields_perm.mem_iff, mem_formats_headers hcalls f hf e]
    unfold init
    split
    · rfl
    · exact carries_afterFormat hcall f.body e
  rw [hcarries, Carries, mem_initHost hnames hw, get_initHost hnames hw, Made]
  constructor
  · rintro (hlength | ⟨hhost | ⟨h, hh, rfl⟩, hname⟩ | hclose)
    · exact .inl (.inl hlength)
    · exact .inl (.inr (.inl hhost))
    · exact .inr ⟨h, hh, rfl, hname⟩
    · exact .inl (.inr (.inr hclose))
  · rintro ((hlength | ⟨rfl, hhost⟩ | hclose) | ⟨h, hh, rfl, hname⟩)
    · exact .inl hlength
    · exact .inr (.inl ⟨.inl ⟨rfl, hhost⟩, madeNames_ne.1⟩)
    · exact .inr (.inr hclose)
    · exact .inr (.inl ⟨.inr ⟨h, hh, rfl⟩, hname⟩)

end Init

theorem madeWords_ne : hostName.map lowercase ≠ contentLengthName.map lowercase ∧
    hostName.map lowercase ≠ connectionName.map lowercase ∧
    connectionName.map lowercase ≠ contentLengthName.map lowercase := by
  decide +kernel

variable {options : List HeaderOption} {host : Bytes} {port : Option Bytes}
  {body : Option LuaString}

theorem Made.unique {e e' : HeaderEntry} (h : Made options host port body e)
    (h' : Made options host port body e') (hsame : e.1.map lowercase = e'.1.map lowercase) :
    e = e' := by
  obtain ⟨hlength, hconnection, hboth⟩ := madeWords_ne
  rcases h with ⟨b, hb, rfl⟩ | ⟨rfl, -⟩ | ⟨rfl, -⟩ <;>
    rcases h' with ⟨b', hb', rfl⟩ | ⟨rfl, -⟩ | ⟨rfl, -⟩
  · rw [Option.some.inj (hb.symm.trans hb')]
  · exact absurd hsame.symm hlength
  · exact absurd hsame.symm hboth
  · exact absurd hsame hlength
  · rfl
  · exact absurd hsame hconnection
  · exact absurd hsame hboth
  · exact absurd hsame.symm hconnection
  · rfl

/-- No option is spelled like a header that `wrk.lua` makes. -/
theorem Made.ne_option {e : HeaderEntry} (h : Made options host port body e) {o : HeaderOption}
    (ho : o ∈ options) (hlength : o.name ≠ contentLengthName)
    (hspelled : o.Spelled hostName ∧ o.Spelled connectionName ∧
      (body ≠ none → o.Spelled contentLengthName)) :
    o.name.map lowercase ≠ e.1.map lowercase := by
  obtain ⟨hhost, hconnection, hbody⟩ := hspelled
  rcases h with ⟨b, rfl, rfl⟩ | ⟨rfl, hnone⟩ | ⟨rfl, hnone⟩
  · exact fun hsame => hlength (hbody (by simp) hsame)
  · exact fun hsame => hnone o ho (hhost hsame)
  · exact fun hsame => hnone o ho (hconnection hsame)

theorem option_unique (hnames : (options.map fun h => h.name.map lowercase).Nodup)
    {o o' : HeaderOption} (ho : o ∈ options) (ho' : o' ∈ options)
    (hsame : o.name.map lowercase = o'.name.map lowercase) : o = o' :=
  List.inj_on_of_nodup_map hnames ho ho' hsame

/-- A header that `wrk.lua` makes, and an option that is not spelled like it,
are both sent. -/
theorem spelled_of_unique (hnames : (options.map fun h => h.name.map lowercase).Nodup)
    {fields : List HeaderEntry}
    (hmem : ∀ e, e ∈ fields ↔ Made options host port body e ∨
      ∃ h ∈ options, h.entry = e ∧ h.name ≠ contentLengthName)
    (hunique : ∀ e ∈ fields, ∀ e' ∈ fields, e.1.map lowercase = e'.1.map lowercase → e = e')
    {o : HeaderOption} (ho : o ∈ options) :
    o.Spelled hostName ∧ o.Spelled connectionName ∧
      (body ≠ none → o.Spelled contentLengthName) := by
  have hsent (hlength : o.name ≠ contentLengthName) : o.entry ∈ fields :=
    (hmem _).mpr (.inr ⟨o, ho, rfl, hlength⟩)
  have hname {e : HeaderEntry} (he : Made options host port body e)
      (hsame : o.name.map lowercase = e.1.map lowercase) (hlength : o.name ≠ contentLengthName) :
      o.name = e.1 :=
    congrArg Prod.fst (hunique o.entry (hsent hlength) e ((hmem e).mpr (.inl he)) hsame)
  -- an option with the same name in another case is the only one with it
  have honly {name : Bytes} (hsame : o.name.map lowercase = name.map lowercase)
      (hne : o.name ≠ name) : ∀ h ∈ options, h.name ≠ name := by
    rintro h hh rfl
    exact hne (congrArg HeaderOption.name (option_unique hnames ho hh hsame))
  refine ⟨fun hsame => ?_, fun hsame => ?_, fun hbody hsame => ?_⟩
  · by_contra hne
    refine hne (hname (.inr (.inl ⟨rfl, honly hsame hne⟩)) hsame ?_)
    exact fun hlength => madeWords_ne.1 (hsame.symm.trans (congrArg (List.map lowercase) hlength))
  · by_contra hne
    refine hne (hname (.inr (.inr ⟨rfl, honly hsame hne⟩)) hsame ?_)
    exact fun hlength => madeWords_ne.2.2 (hsame.symm.trans (congrArg (List.map lowercase) hlength))
  · obtain ⟨b, rfl⟩ := Option.ne_none_iff_exists'.mp hbody
    by_contra hne
    exact hne (hname (.inl ⟨b, rfl, rfl⟩) hsame hne)

/-- What `wrk.lua` makes, and what can be sent of the options, are one header
for each name when the options are spelled like what `wrk.lua` makes. -/
theorem fields_unique (hnames : (options.map fun h => h.name.map lowercase).Nodup)
    {fields : List HeaderEntry}
    (hmem : ∀ e, e ∈ fields ↔ Made options host port body e ∨
      ∃ h ∈ options, h.entry = e ∧ h.name ≠ contentLengthName)
    (hspelled : ∀ o ∈ options, o.Spelled hostName ∧ o.Spelled connectionName ∧
      (body ≠ none → o.Spelled contentLengthName)) :
    ∀ e ∈ fields, ∀ e' ∈ fields, e.1.map lowercase = e'.1.map lowercase → e = e' := by
  intro e he e' he' hsame
  rcases (hmem e).mp he with hmade | ⟨o, ho, rfl, hlength⟩ <;>
    rcases (hmem e').mp he' with hmade' | ⟨o', ho', rfl, hlength'⟩
  · exact hmade.unique hmade' hsame
  · exact absurd hsame.symm (hmade.ne_option ho' hlength' (hspelled o' ho'))
  · exact absurd hsame (hmade'.ne_option ho hlength (hspelled o ho))
  · rw [option_unique hnames ho ho' hsame]

/-! ## The string -/

/-- Every option but for a `Host`, a `Connection` and a `Content-Length` is
sent, no name twice, and of these three there is one each, which is that of
an option or the one that `wrk.lua` makes. -/
structure WellFormed (options : List HeaderOption) (host : Bytes) (port : Option Bytes)
    (body : Option LuaString) (text : Bytes) : Prop where
  kept : ∀ h ∈ options, h.name.map lowercase ∉ madeWords → (h.name, h.value) ∈ sentHeaders text
  nodup : ((sentHeaders text).map fun e => e.1.map lowercase).Nodup
  oneHost : ∃! e : SentHeader, e ∈ sentHeaders text ∧ e.Named hostName
  oneConnection : ∃! e : SentHeader, e ∈ sentHeaders text ∧ e.Named connectionName
  oneLength : body ≠ none → ∃! e : SentHeader, e ∈ sentHeaders text ∧ e.Named contentLengthName
  length : ∀ b, body = some b → ∀ e ∈ sentHeaders text, SentHeader.Named e contentLengthName →
    e.2 = decimalDigits b.1.length
  replaced : ∀ e ∈ sentHeaders text, e.1.map lowercase ∈ madeWords →
    (∃ h ∈ options, (h.name, h.value) = e) ∨
      ∃ m, Made options host port body m ∧ HeaderEntry.sent m = e

theorem oneLine_decimalDigits (n : ℕ) : OneLine (decimalDigits n) := by
  obtain ⟨-, hnum, -⟩ := decimalDigits_spec n
  intro ch hch hbreak
  have hdigit := hnum ch hch
  rcases hbreak with rfl | rfl <;> exact absurd hdigit (by decide)

/-- An accepted URL has no line break. -/
theorem oneLine_of_scanUrl : ∀ (u : Bytes) {i : ℕ} {p p' : UrlScan},
    scanUrl i u p = some p' → OneLine u
  | [], _, _, _, _ => oneLine_nil
  | ch :: u, i, p, p', h => by
      obtain ⟨p₁, hchar, hrest⟩ := Option.bind_eq_some_iff.mp h
      refine List.forall_mem_cons.mpr ⟨?_, oneLine_of_scanUrl u hrest⟩
      unfold scanUrlChar parseUrlChar at hchar
      simp only [Option.bind_eq_bind, Option.bind_eq_some_iff] at hchar
      obtain ⟨s, hs, -⟩ := hchar
      split at hs
      · cases hs
      · rename_i hplain
        rintro (rfl | rfl)
        · exact hplain (.inr (.inl rfl))
        · exact hplain (.inr (.inr (.inl rfl)))

theorem oneLine_copyUrlPart {url : Bytes} {parts : HttpParserUrl}
    (hurl : scriptParseUrl url = some parts) {field : UrlField} {part : Bytes}
    (hpart : copyUrlPart url parts field = some part) : OneLine part := by
  have hone : OneLine url := by
    simp only [scriptParseUrl, httpParserParseUrl, Option.bind_eq_bind,
      Option.bind_eq_some_iff] at hurl
    obtain ⟨u, ⟨p, hscan, -⟩, -⟩ := hurl
    exact oneLine_of_scanUrl url hscan
  unfold copyUrlPart at hpart
  split at hpart
  · obtain rfl := Option.some.inj hpart
    exact fun ch hch => hone ch (List.mem_of_mem_drop (List.mem_of_mem_take hch))
  · cases hpart

theorem Made.oneLine {e : HeaderEntry} (h : Made options host port body e)
    (hhost : OneLine host) (hport : ∀ p ∈ port, OneLine p) : OneLine e.2.format := by
  rcases h with ⟨b, -, rfl⟩ | ⟨rfl, -⟩ | ⟨rfl, -⟩
  · exact oneLine_decimalDigits _
  · have hbrackets : OneLine (if colon ∈ host then 91 :: host ++ [93] else host) := by
      split
      · exact OneLine.append (List.forall_mem_cons.mpr ⟨by decide, hhost⟩)
          (List.forall_mem_singleton.mpr (by decide))
      · exact hhost
    show OneLine (hostHeader host port)
    unfold hostHeader
    cases port with
    | none => exact hbrackets
    | some p => exact hbrackets.append (List.forall_mem_cons.mpr ⟨by decide, hport p rfl⟩)
  · show OneLine "close".toUTF8.toList
    decide +kernel

theorem Made.readable {e : HeaderEntry} (h : Made options host port body e) : e.Readable := by
  have hnames : ∀ name ∈ [contentLengthName, hostName, connectionName],
      colon ∉ name ∧ OneLine name := by decide +kernel
  rcases h with ⟨b, -, rfl⟩ | ⟨rfl, -⟩ | ⟨rfl, -⟩
  · exact hnames contentLengthName (by simp)
  · exact hnames hostName (by simp)
  · exact hnames connectionName (by simp)

theorem readable_option (o : HeaderOption) : o.entry.Readable := by
  refine ⟨fun hcolon => o.name_token colon hcolon (by decide +kernel), fun ch hch hbreak => ?_⟩
  rcases hbreak with rfl | rfl <;> exact o.name_token _ hch (by decide +kernel)

/-- A value with a line break is not in the string as it was given, unless its
header is replaced. -/
theorem WellFormed.oneLine {text first content : Bytes} {fields : List HeaderEntry}
    (h : WellFormed options host port body text)
    (hnames : (options.map fun h => h.name.map lowercase).Nodup)
    (hmem : ∀ e, e ∈ fields ↔ Made options host port body e ∨
      ∃ h ∈ options, h.entry = e ∧ h.name ≠ contentLengthName)
    (hmade : ∀ e, Made options host port body e → OneLine e.2.format)
    (hread : ∀ e ∈ fields, e.Readable) (hfirst : OneLine first)
    (htext : text = crlf.intercalate (first :: fields.map HeaderEntry.line ++ [[], content])) :
    ∀ e ∈ fields, OneLine e.2.format := by
  by_contra hbreak
  push Not at hbreak
  obtain ⟨e, he, hvalue, value, hone, hsent⟩ :=
    exists_sentHeader_of_break hfirst hread hbreak content
  rw [← htext] at hsent
  rcases (hmem e).mp he with hmade' | ⟨o, ho, rfl, hlength⟩
  · exact hvalue (hmade e hmade')
  by_cases hword : o.name.map lowercase ∈ madeWords
  · rcases h.replaced _ hsent hword with ⟨o', ho', heq⟩ | ⟨m, hm, heq⟩
    · obtain ⟨hname, hsame⟩ := Prod.mk.inj heq
      obtain rfl := option_unique hnames ho' ho (congrArg (List.map lowercase) hname)
      exact hvalue (hsame ▸ hone : OneLine o'.value)
    · have hname : m.1 = o.name := congrArg Prod.fst heq
      rcases hm with ⟨b, -, rfl⟩ | ⟨rfl, hnone⟩ | ⟨rfl, hnone⟩
      · exact hlength hname.symm
      · exact hnone o ho hname.symm
      · exact hnone o ho hname.symm
  · exact hvalue (oneLine_of_mem_sentHeaders (h.kept o ho hword))

/-- The names that are sent, in lower case. -/
theorem map_sent_lowercase (fields : List HeaderEntry) :
    ((fields.map HeaderEntry.sent).map fun e => e.1.map lowercase) =
      fields.map fun e => e.1.map lowercase := by
  rw [List.map_map]
  rfl

/-- Headers that are read back as they are, no name twice, are well formed. -/
theorem wellFormed_of_unique {text : Bytes} {fields : List HeaderEntry}
    (hmem : ∀ e, e ∈ fields ↔ Made options host port body e ∨
      ∃ h ∈ options, h.entry = e ∧ h.name ≠ contentLengthName)
    (hnodup : fields.Nodup)
    (hunique : ∀ e ∈ fields, ∀ e' ∈ fields, e.1.map lowercase = e'.1.map lowercase → e = e')
    (hsent : sentHeaders text = fields.map HeaderEntry.sent) :
    WellFormed options host port body text := by
  have hone {e : HeaderEntry} {name : Bytes} (he : e ∈ fields)
      (hname : e.1.map lowercase = name.map lowercase) :
      ∃! e : SentHeader, e ∈ fields.map HeaderEntry.sent ∧ e.Named name := by
    refine ⟨e.sent, ⟨List.mem_map_of_mem he, hname⟩, ?_⟩
    rintro e' ⟨he', hname'⟩
    obtain ⟨e₁, he₁, rfl⟩ := List.mem_map.mp he'
    rw [hunique e₁ he₁ e he (Eq.trans hname' hname.symm)]
  -- an option with the name, or what `wrk.lua` makes in its place
  have hnamed {name : Bytes} (hname : name ≠ contentLengthName) {e : HeaderEntry}
      (he : e.1 = name)
      (hmade : (∀ o ∈ options, o.name ≠ name) → Made options host port body e) :
      ∃! e : SentHeader, e ∈ fields.map HeaderEntry.sent ∧ e.Named name := by
    by_cases hoption : ∀ o ∈ options, o.name ≠ name
    · exact hone ((hmem e).mpr (.inl (hmade hoption))) (congrArg (List.map lowercase) he)
    · push Not at hoption
      obtain ⟨o, ho, rfl⟩ := hoption
      exact hone ((hmem o.entry).mpr (.inr ⟨o, ho, rfl, hname⟩)) rfl
  have hlength {b : LuaString} (hb : body = some b) :
      (contentLengthName, HeaderValue.length b.1.length) ∈ fields :=
    (hmem _).mpr (.inl (.inl ⟨b, hb, rfl⟩))
  exact
    { kept := fun h hh hword => by
        have hentry : h.entry ∈ fields := (hmem _).mpr (.inr ⟨h, hh, rfl, fun heq => by
          rw [heq] at hword
          exact hword (by simp [madeWords])⟩)
        rw [hsent]
        exact List.mem_map_of_mem (f := HeaderEntry.sent) hentry
      nodup := by
        rw [hsent, map_sent_lowercase]
        exact (List.nodup_map_iff_inj_on hnodup).mpr hunique
      oneHost := by
        rw [hsent]
        exact hnamed madeNames_ne.1 (e := hostEntry host port) rfl
          fun hnone => .inr (.inl ⟨rfl, hnone⟩)
      oneConnection := by
        rw [hsent]
        exact hnamed madeNames_ne.2.2 (e := closeEntry) rfl
          fun hnone => .inr (.inr ⟨rfl, hnone⟩)
      oneLength := fun hbody => by
        obtain ⟨b, hb⟩ := Option.ne_none_iff_exists'.mp hbody
        rw [hsent]
        exact hone (hlength hb) rfl
      length := fun b hb e he hname => by
        rw [hsent] at he
        obtain ⟨e₁, he₁, rfl⟩ := List.mem_map.mp he
        rw [hunique e₁ he₁ _ (hlength hb) hname]
        rfl
      replaced := fun e he _ => by
        rw [hsent] at he
        obtain ⟨e₁, he₁, rfl⟩ := List.mem_map.mp he
        rcases (hmem e₁).mp he₁ with hmade₁ | ⟨o, ho, rfl, -⟩
        · exact .inr ⟨e₁, hmade₁, rfl⟩
        · exact .inl ⟨o, ho, rfl⟩ }

/-- The headers of a request are well formed exactly when every option that is
a `Host`, a `Connection` or, for a request with a body, a `Content-Length` in
some case is spelled like that, and the values that are sent have no line
break. -/
theorem request_headers_iff (hnames : (options.map fun h => h.name.map lowercase).Nodup)
    {url : Bytes} {parts : HttpParserUrl} (hurl : scriptParseUrl url = some parts)
    (hhost : copyUrlPart url parts .host = some host)
    (hport : copyUrlPart url parts .port = port) {w : Wrk}
    (hw : w.headers = createHeaders (options.map HeaderOption.text)) {version : ℤ}
    {call : FormatCall} (hcall : call.headers = none) {calls : List FormatCall}
    (hcalls : ∀ c ∈ calls, c.headers = none) {f : Formatted}
    (hf : f ∈ (w.init host port version call).formats calls)
    (hline : OneLine f.method ∧ OneLine f.path) :
    WellFormed options host port f.body f.text ↔
      ∀ o ∈ options, (o.Spelled hostName ∧ o.Spelled connectionName ∧
        (f.body ≠ none → o.Spelled contentLengthName)) ∧
        (o.name ≠ contentLengthName → OneLine o.value) := by
  have hmem := mem_fields_init hnames hw hcall hcalls hf
  have hnodup : f.fields.Nodup :=
    (f.fields_perm.nodup_iff).mpr (List.Nodup.of_map Prod.fst f.headers.nodup)
  have hmade (e : HeaderEntry) (he : Made options host port f.body e) : OneLine e.2.format :=
    he.oneLine (oneLine_copyUrlPart hurl hhost) fun p hp =>
      oneLine_copyUrlPart hurl (hport.trans hp)
  have hread : ∀ e ∈ f.fields, e.Readable := by
    intro e he
    rcases (hmem e).mp he with he | ⟨o, -, rfl, -⟩
    · exact he.readable
    · exact readable_option o
  have hfirst : OneLine (f.method ++ " ".toUTF8.toList ++ f.path ++ " HTTP/1.1".toUTF8.toList) :=
    ((hline.1.append (by decide +kernel)).append hline.2).append (by decide +kernel)
  have htext : f.text = crlf.intercalate ((f.method ++ " ".toUTF8.toList ++ f.path ++
      " HTTP/1.1".toUTF8.toList) :: f.fields.map HeaderEntry.line ++ [[], f.content]) := rfl
  -- what is read from the string, when the values are lines
  have hsent (hvalues : ∀ e ∈ f.fields, OneLine e.2.format) :
      sentHeaders f.text = f.fields.map HeaderEntry.sent :=
    htext ▸ sentHeaders_of_oneLine hfirst hread hvalues
  constructor
  · intro h
    have hvalues := h.oneLine hnames hmem hmade hread hfirst htext
    have hunique : (f.fields.map fun e => e.1.map lowercase).Nodup := by
      have := h.nodup
      rwa [hsent hvalues, map_sent_lowercase] at this
    refine fun o ho => ⟨spelled_of_unique hnames hmem
      ((List.nodup_map_iff_inj_on hnodup).mp hunique) ho, fun hlength => ?_⟩
    exact hvalues o.entry ((hmem _).mpr (.inr ⟨o, ho, rfl, hlength⟩))
  · intro hall
    have hvalues : ∀ e ∈ f.fields, OneLine e.2.format := by
      intro e he
      rcases (hmem e).mp he with he | ⟨o, ho, rfl, hlength⟩
      · exact hmade e he
      · exact (hall o ho).2 hlength
    exact wellFormed_of_unique hmem hnodup (fields_unique hnames hmem fun o ho => (hall o ho).1)
      (hsent hvalues)

/-- `-H 'name: v'`. -/
def optionNamed (name : Bytes) (h : name ≠ [] ∧ ∀ ch ∈ name, token ch ≠ 0) : HeaderOption :=
  ⟨name, [118], h.1, h.2⟩

/-- The `wrk` of a run against localhost with these options. -/
def initOptions (options : List HeaderOption) : Wrk :=
  (localhost (createHeaders (options.map HeaderOption.text))).init "localhost".toUTF8.toList none
    11 (formatPath "/".toUTF8.toList none)

/-- A `Host` of the user's own, and a header of another name. -/
theorem request_headers_iff_host :
    let options := [optionNamed hostName (by decide +kernel),
      optionNamed "accept".toUTF8.toList (by decide +kernel)]
    ∀ f ∈ (initOptions options).formats [formatPath "/".toUTF8.toList none],
      WellFormed options "localhost".toUTF8.toList none f.body f.text := by
  intro options f hf
  have hempty : ∀ f ∈ (initOptions options).formats [formatPath "/".toUTF8.toList none],
      f.body.isNone = true ∧ OneLine f.method ∧ OneLine f.path := by decide +kernel
  have hbody : f.body = none := Option.isNone_iff_eq_none.mp (hempty f hf).1
  obtain ⟨parts, hurl⟩ : ∃ parts,
      scriptParseUrl "http://localhost/".toUTF8.toList = some parts :=
    Option.isSome_iff_exists.mp (by decide +kernel)
  have hparts : ∀ parts ∈ scriptParseUrl "http://localhost/".toUTF8.toList,
      copyUrlPart "http://localhost/".toUTF8.toList parts .host =
        some "localhost".toUTF8.toList ∧
      copyUrlPart "http://localhost/".toUTF8.toList parts .port = none := by decide +kernel
  refine (request_headers_iff (by decide +kernel) hurl (hparts parts hurl).1
    (hparts parts hurl).2 rfl rfl (by simp [formatPath]) hf (hempty f hf).2).mpr ?_
  intro o ho
  rw [hbody]
  rcases List.mem_cons.mp ho with rfl | ho
  · exact ⟨⟨fun _ => rfl, fun h => absurd h (by decide +kernel), fun h => absurd rfl h⟩,
      fun _ => by decide +kernel⟩
  · rw [List.mem_singleton.mp ho]
    exact ⟨⟨fun h => absurd h (by decide +kernel), fun h => absurd h (by decide +kernel),
      fun h => absurd rfl h⟩, fun _ => by decide +kernel⟩

/-- With `-H 'host: v'`, `-H 'connection: v'` and `-H 'content-length: v'` each
of the three is sent twice. -/
theorem request_headers_twice :
    let options := [optionNamed "host".toUTF8.toList (by decide +kernel),
      optionNamed "connection".toUTF8.toList (by decide +kernel),
      optionNamed "content-length".toUTF8.toList (by decide +kernel)]
    ∃ f ∈ (initOptions options).formats
        [formatPath "/".toUTF8.toList (some ⟨[104, 105], by decide⟩)],
      (∀ word ∈ madeWords, ((sentHeaders f.text).map fun e => e.1.map lowercase).count word = 2) ∧
        ¬ WellFormed options "localhost".toUTF8.toList none f.body f.text := by
  intro options
  have htwice : ∀ f ∈ (initOptions options).formats
      [formatPath "/".toUTF8.toList (some ⟨[104, 105], by decide⟩)],
      ∀ word ∈ madeWords, ((sentHeaders f.text).map fun e => e.1.map lowercase).count word = 2 := by
    decide +kernel
  have hmem := List.mem_cons_self (a := (initOptions options).format
    (formatPath "/".toUTF8.toList (some ⟨[104, 105], by decide⟩))) (l := [])
  refine ⟨_, hmem, htwice _ hmem, fun h => ?_⟩
  have hcount := List.nodup_iff_count_le_one.mp h.nodup (hostName.map lowercase)
  rw [htwice _ hmem _ (by simp [madeWords])] at hcount
  omega

end Wrk

end WrkQuic
