import Mathlib.Data.List.TakeWhile
import WrkQuic.Lib.Automata
import WrkQuic.RequestTarget

/-!
# The fields of a URL

`http_parser_parse_url` cuts a URL into pieces: bytes that it skips, and then
the bytes of a field. A piece without a byte leaves no field. `Lexed` are the
pieces that the automaton reads one after the other, and `Lexed.scan` says
what the loop makes of them. An accepted URL is cut into a scheme, an
authority, a path, a query and a fragment (`lexed_of_accepted`), where the
fragment starts behind all of the `#` before it.
-/

namespace WrkQuic

open Automaton (run)

/-! ## Fields -/

/-- `copy_url_part`. -/
def copyUrlPart (url : Bytes) (parts : HttpParserUrl) (field : UrlField) : Option Bytes :=
  if parts.fieldSet field then some (parts.bytes url field) else none

/-- The bytes of a field, which needs one. -/
def present (bytes : Bytes) : Option Bytes := if bytes = [] then none else some bytes

namespace HttpParserUrl

/-- The `len` bytes at `off` have been counted for the field. -/
def read (u : HttpParserUrl) (uf : UrlField) (off len : ℕ) : HttpParserUrl :=
  if len = 0 then u else (u.setData uf ⟨u16 off, len⟩).setField uf

variable {u : HttpParserUrl} {uf uf' : UrlField} {off len : ℕ}

@[simp] theorem read_zero : u.read uf off 0 = u := if_pos rfl

theorem read_fieldSet_of_ne (h : uf' ≠ uf) :
    (u.read uf off len).fieldSet uf' = u.fieldSet uf' := by
  unfold read
  split
  · rfl
  · exact Function.update_of_ne h _ _

theorem read_fieldData_of_ne (h : uf' ≠ uf) :
    (u.read uf off len).fieldData uf' = u.fieldData uf' := by
  unfold read
  split
  · rfl
  · exact Function.update_of_ne h _ _

theorem read_fieldSet (hpos : 0 < len) : (u.read uf off len).fieldSet uf = true := by
  rw [read, if_neg hpos.ne']
  exact Function.update_self ..

theorem read_fieldData (hpos : 0 < len) :
    (u.read uf off len).fieldData uf = ⟨u16 off, len⟩ := by
  rw [read, if_neg hpos.ne']
  exact Function.update_self ..

theorem extend_read (hpos : 0 < len) (hfit : len + 1 < 2 ^ 16) :
    (u.read uf off len).extend uf = u.read uf off (len + 1) := by
  have hlen : u16 (len + 1) = len + 1 := Nat.mod_eq_of_lt hfit
  rw [extend, read_fieldData hpos, read, if_neg hpos.ne', read, if_neg (Nat.succ_ne_zero len)]
  simp only [setData, setField, Function.update_idem, hlen]

theorem copyUrlPart_read_of_ne (h : uf' ≠ uf) (url : Bytes) :
    copyUrlPart url (u.read uf off len) uf' = copyUrlPart url u uf' := by
  rw [copyUrlPart, copyUrlPart, bytes, bytes, read_fieldSet_of_ne h, read_fieldData_of_ne h]

/-- The field holds what stands at its offset. -/
theorem copyUrlPart_read {pre bytes post : Bytes} (hset : u.fieldSet uf = true → bytes ≠ [])
    (hfit : pre.length < 2 ^ 16) :
    copyUrlPart (pre ++ (bytes ++ post)) (u.read uf pre.length bytes.length) uf =
      present bytes := by
  by_cases hempty : bytes = []
  · subst hempty
    rw [List.length_nil, read_zero, copyUrlPart, if_neg fun hset' => hset hset' rfl]
    rfl
  · have hpos : 0 < bytes.length := List.length_pos_iff.mpr hempty
    have hoff : u16 pre.length = pre.length := Nat.mod_eq_of_lt hfit
    rw [copyUrlPart, read_fieldSet hpos, if_pos rfl, HttpParserUrl.bytes, read_fieldData hpos,
      hoff, List.drop_left, List.take_left, present, if_neg hempty]

end HttpParserUrl

/-! ## Pieces -/

/-- The automaton reads the bytes and skips them. -/
inductive Skipped : RequestState → Bytes → RequestState → Prop where
  | nil (s : RequestState) : Skipped s [] s
  | cons {s s₁ s' : RequestState} {ch : UInt8} {u : Bytes} :
      parseUrlChar s ch = some s₁ → urlField s₁ = some none → Skipped s₁ u s' →
      Skipped s (ch :: u) s'

/-- The automaton reads the bytes, which are those of a field. -/
inductive ReadAs (uf : UrlField) : RequestState → Bytes → RequestState → Prop where
  | nil (s : RequestState) : ReadAs uf s [] s
  | cons {s s₁ s' : RequestState} {ch : UInt8} {u : Bytes} :
      parseUrlChar s ch = some s₁ → urlField s₁ = some (some uf) → ReadAs uf s₁ u s' →
      ReadAs uf s (ch :: u) s'

structure UrlPiece where
  skip : Bytes
  uf : UrlField
  bytes : Bytes

namespace UrlPiece

def text (piece : UrlPiece) : Bytes := piece.skip ++ piece.bytes

/-- The fields behind `i` bytes. -/
def readAll : ℕ → List UrlPiece → HttpParserUrl → HttpParserUrl
  | _, [], u => u
  | i, piece :: pieces, u =>
      readAll (i + piece.text.length) pieces
        (u.read piece.uf (i + piece.skip.length) piece.bytes.length)

theorem readAll_port (pieces : List UrlPiece) :
    ∀ (i : ℕ) (u : HttpParserUrl), (readAll i pieces u).port = u.port := by
  induction pieces with
  | nil => exact fun _ _ => rfl
  | cons piece pieces ih =>
      intro i u
      rw [readAll, ih, HttpParserUrl.read]
      split <;> rfl

end UrlPiece

/-- The automaton reads the pieces. -/
inductive Lexed : RequestState → List UrlPiece → RequestState → Prop where
  | nil (s : RequestState) : Lexed s [] s
  | cons {s s₁ s₂ s' : RequestState} {piece : UrlPiece} {pieces : List UrlPiece} :
      Skipped s piece.skip s₁ → ReadAs piece.uf s₁ piece.bytes s₂ → Lexed s₂ pieces s' →
      Lexed s (piece :: pieces) s'

theorem ReadAs.append {uf : UrlField} {s s₁ s' : RequestState} {u v : Bytes}
    (hu : ReadAs uf s u s₁) (hv : ReadAs uf s₁ v s') : ReadAs uf s (u ++ v) s' := by
  induction hu with
  | nil => exact hv
  | cons hch hfield hrest ih => exact .cons hch hfield (ih hv)

/-- Bytes on which the automaton goes to `t` and stays there. -/
theorem ReadAs.of_loop {uf : UrlField} {s t : RequestState} {u : Bytes}
    (hfield : urlField t = some (some uf)) (hfirst : ∀ ch ∈ u.head?, parseUrlChar s ch = some t)
    (hloop : ∀ ch ∈ u, parseUrlChar t ch = some t) :
    ReadAs uf s u (if u = [] then s else t) := by
  cases u with
  | nil => exact .nil s
  | cons ch u =>
      refine .cons (hfirst ch rfl) hfield ?_
      rw [if_neg (List.cons_ne_nil ch u)]
      have hrest := (List.forall_mem_cons.mp hloop).2
      clear hfirst hloop
      induction u with
      | nil => exact .nil t
      | cons ch u ih =>
          obtain ⟨hch, hrest⟩ := List.forall_mem_cons.mp hrest
          exact .cons hch hfield (ih hrest)

/-! ## The loop over a piece -/

theorem urlChar_of_parse {s s₁ : RequestState} {ch : UInt8} (h : parseUrlChar s ch = some s₁) :
    urlChar s ch = some s₁ := by
  rw [parseUrlChar] at h
  split at h
  · cases h
  · exact h

/-- Only in the authority is `@` noticed. -/
theorem serverWithAt_iff {s s₁ : RequestState} {ch : UInt8} {uf : UrlField}
    (h : parseUrlChar s ch = some s₁) (hfield : urlField s₁ = some (some uf)) :
    s₁ = .reqServerWithAt ↔ uf = .host ∧ ch = 64 := by
  have huser : isUserinfoChar 64 = false := by decide +kernel
  have hchar := urlChar_of_parse h
  cases s <;> simp only [urlChar] at hchar <;> (try split_ifs at hchar) <;>
    cases hchar <;> cases hfield <;> simp_all

namespace UrlScan

variable {uf uf' : UrlField} {s s' : RequestState} {p : UrlScan} {i n : ℕ} {u v : Bytes}

/-- The scan after the bytes of a field, which stand behind `i` bytes. -/
def counted (p : UrlScan) (uf : UrlField) (i : ℕ) (u : Bytes) (s : RequestState) : UrlScan where
  state := s
  url := p.url.read uf i u.length
  oldUf := if u = [] then p.oldUf else some uf
  foundAt := p.foundAt || decide (uf = .host ∧ 64 ∈ u)

theorem scanUrlChar_skip {s₁ : RequestState} {ch : UInt8} (h : parseUrlChar p.state ch = some s₁)
    (hfield : urlField s₁ = some none) :
    scanUrlChar i ch p = some { p with state := s₁ } := by
  have hat : s₁ ≠ .reqServerWithAt := by
    rintro rfl
    cases hfield
  simp [scanUrlChar, h, hfield, hat]

theorem scan_skipped (h : Skipped s u s') (hs : p.state = s) (i : ℕ) (v : Bytes) :
    scanUrl i (u ++ v) p = scanUrl (i + u.length) v { p with state := s' } := by
  induction h generalizing p i with
  | nil => rw [← hs]; rfl
  | @cons s s₁ s' ch u hch hfield _ ih =>
      rw [List.cons_append, scanUrl, scanUrlChar_skip (hs ▸ hch) hfield, Option.bind_some,
        ih rfl, List.length_cons, Nat.add_right_comm, Nat.add_assoc]

theorem scanUrlChar_count {s₁ : RequestState} {ch : UInt8}
    (h : parseUrlChar p.state ch = some s₁) (hfield : urlField s₁ = some (some uf)) :
    scanUrlChar i ch p = some ({ p with
      state := s₁, foundAt := p.foundAt || decide (uf = UrlField.host ∧ ch = 64) }.count i uf) := by
  simp [scanUrlChar, h, hfield, serverWithAt_iff h hfield]

theorem foundAt_cons (foundAt : Bool) (uf : UrlField) (ch : UInt8) (u : Bytes) :
    ((foundAt || decide (uf = .host ∧ ch = 64)) || decide (uf = .host ∧ 64 ∈ u)) =
      (foundAt || decide (uf = .host ∧ 64 ∈ ch :: u)) := by
  have hiff : (uf = .host ∧ ch = 64 ∨ uf = .host ∧ 64 ∈ u) ↔ uf = .host ∧ 64 ∈ ch :: u := by
    rw [← and_or_left, List.mem_cons, eq_comm (a := ch)]
  rw [Bool.or_assoc, ← Bool.decide_or, decide_eq_decide.mpr hiff]

/-- After the first byte of the field, which stands at `i`. -/
theorem scan_more (url : HttpParserUrl) (h : ReadAs uf s u s') (hs : p.state = s)
    (hold : p.oldUf = some uf) (hurl : p.url = url.read uf i n) (hpos : 0 < n)
    (hfit : n + u.length < 2 ^ 16) (j : ℕ) (v : Bytes) :
    scanUrl j (u ++ v) p = scanUrl (j + u.length) v
      ⟨s', url.read uf i (n + u.length), some uf,
        p.foundAt || decide (uf = .host ∧ 64 ∈ u)⟩ := by
  induction h generalizing p n j with
  | nil s =>
      have hp : p = ⟨s, url.read uf i n, some uf, p.foundAt⟩ := by rw [← hs, ← hurl, ← hold]
      rw [hp]
      simp
  | @cons s s₁ s' ch u hch hfield _ ih =>
      rw [List.length_cons] at hfit
      rw [List.cons_append, scanUrl, scanUrlChar_count (hs ▸ hch) hfield, Option.bind_some, count,
        if_pos hold]
      have hnext : p.url.extend uf = url.read uf i (n + 1) := by
        rw [hurl, HttpParserUrl.extend_read hpos (by omega)]
      refine (ih (n := n + 1) ?_ ?_ ?_ (Nat.succ_pos n) ?_ (j + 1)).trans ?_
      · rfl
      · exact hold
      · exact hnext
      · omega
      rw [foundAt_cons, List.length_cons, Nat.add_right_comm j, Nat.add_right_comm n]
      rfl

theorem scan_counted (h : ReadAs uf s u s') (hs : p.state = s) (hold : p.oldUf ≠ some uf)
    (hfit : u.length < 2 ^ 16) (i : ℕ) (v : Bytes) :
    scanUrl i (u ++ v) p = scanUrl (i + u.length) v (p.counted uf i u s') := by
  cases h with
  | nil =>
      rw [counted, List.length_nil, HttpParserUrl.read_zero, if_pos rfl, ← hs]
      simp
  | @cons _ s₁ _ ch u hch hfield hrest =>
      rw [List.length_cons] at hfit
      rw [List.cons_append, scanUrl, scanUrlChar_count (hs ▸ hch) hfield, Option.bind_some, count,
        if_neg hold, scan_more p.url (i := i) (n := 1) hrest rfl rfl rfl Nat.one_pos (by omega)]
      rw [foundAt_cons, counted, List.length_cons, if_neg (List.cons_ne_nil ch u),
        Nat.add_right_comm i, Nat.add_comm 1]
      rfl

end UrlScan

/-- The piece holds an `@` of the authority. -/
def UrlPiece.hasAt (piece : UrlPiece) : Bool := decide (piece.uf = .host ∧ 64 ∈ piece.bytes)

theorem Lexed.scan {s s' : RequestState} {pieces : List UrlPiece} (h : Lexed s pieces s')
    (hdistinct : (pieces.map (·.uf)).Nodup) {p : UrlScan} (hs : p.state = s)
    (hold : ∀ piece ∈ pieces, p.oldUf ≠ some piece.uf)
    (hfit : ∀ piece ∈ pieces, piece.bytes.length < 2 ^ 16) (i : ℕ) :
    ∃ p', scanUrl i (pieces.flatMap UrlPiece.text) p = some p' ∧
      p'.url = UrlPiece.readAll i pieces p.url ∧
      p'.foundAt = (p.foundAt || pieces.any UrlPiece.hasAt) := by
  induction h generalizing p i with
  | nil => exact ⟨p, rfl, rfl, (Bool.or_false _).symm⟩
  | @cons s s₁ s₂ s' piece pieces hskip hcount _ ih =>
      obtain ⟨hfresh, hdistinct⟩ := List.nodup_cons.mp hdistinct
      obtain ⟨hne, hold⟩ := List.forall_mem_cons.mp hold
      obtain ⟨hlen, hfit⟩ := List.forall_mem_cons.mp hfit
      let p₁ : UrlScan := { p with state := s₁ }
      have hold₂ : ∀ piece' ∈ pieces,
          (p₁.counted piece.uf (i + piece.skip.length) piece.bytes s₂).oldUf ≠
            some piece'.uf := by
        intro piece' hpiece'
        rw [UrlScan.counted]
        dsimp only
        split
        · exact hold piece' hpiece'
        · intro heq
          have hsame : piece.uf = piece'.uf := Option.some.inj heq
          exact hfresh (List.mem_map.mpr ⟨piece', hpiece', hsame.symm⟩)
      obtain ⟨p', hscan, hurl, hat⟩ := ih hdistinct rfl hold₂ hfit (i + piece.text.length)
      refine ⟨p', ?_, hurl, ?_⟩
      · rw [List.flatMap_cons, UrlPiece.text, List.append_assoc, UrlScan.scan_skipped hskip hs,
          UrlScan.scan_counted (p := p₁) hcount rfl hne hlen, Nat.add_assoc, ← List.length_append]
        exact hscan
      · rw [hat, List.any_cons, ← Bool.or_assoc]
        rfl

theorem UrlPiece.copyUrlPart_readAll_of_ne {uf : UrlField} {pieces : List UrlPiece}
    (h : ∀ piece ∈ pieces, uf ≠ piece.uf) (url : Bytes) (i : ℕ) (u : HttpParserUrl) :
    copyUrlPart url (readAll i pieces u) uf = copyUrlPart url u uf := by
  induction pieces generalizing i u with
  | nil => rfl
  | cons piece pieces ih =>
      obtain ⟨hne, h⟩ := List.forall_mem_cons.mp h
      rw [readAll, ih h, HttpParserUrl.copyUrlPart_read_of_ne hne]

/-- Every field holds the bytes of its piece. -/
theorem UrlPiece.copyUrlPart_readAll {pieces : List UrlPiece}
    (hdistinct : (pieces.map (·.uf)).Nodup) {u : HttpParserUrl}
    (hset : ∀ piece ∈ pieces, u.fieldSet piece.uf = true → piece.bytes ≠ []) (pre post : Bytes)
    (hfit : (pre ++ pieces.flatMap text).length < 2 ^ 16) :
    ∀ piece ∈ pieces, copyUrlPart (pre ++ (pieces.flatMap text ++ post))
      (readAll pre.length pieces u) piece.uf = present piece.bytes := by
  induction pieces generalizing pre u with
  | nil => exact List.forall_mem_nil _
  | cons piece pieces ih =>
      obtain ⟨hfresh, hdistinct⟩ := List.nodup_cons.mp hdistinct
      obtain ⟨hset, hsets⟩ := List.forall_mem_cons.mp hset
      have hother : ∀ piece' ∈ pieces, piece'.uf ≠ piece.uf := fun piece' hpiece' heq =>
        hfresh (List.mem_map.mpr ⟨piece', hpiece', heq⟩)
      have hskip : (pre ++ piece.skip).length = pre.length + piece.skip.length :=
        List.length_append
      have htext : (pre ++ piece.text).length = pre.length + piece.text.length :=
        List.length_append
      rw [List.flatMap_cons] at hfit
      rw [List.flatMap_cons, List.append_assoc piece.text]
      refine List.forall_mem_cons.mpr ⟨?_, fun piece' hpiece' => ?_⟩
      · rw [readAll, copyUrlPart_readAll_of_ne fun piece' hpiece' => (hother piece' hpiece').symm,
          text, List.append_assoc piece.skip, ← List.append_assoc pre, ← hskip]
        refine HttpParserUrl.copyUrlPart_read hset ?_
        rw [text, List.length_append, List.length_append, List.length_append] at hfit
        rw [hskip]
        omega
      · rw [readAll, ← List.append_assoc pre, ← htext]
        refine ih hdistinct ?_ (pre ++ piece.text) (by rwa [List.append_assoc]) piece' hpiece'
        intro piece'' hpiece''
        rw [HttpParserUrl.read_fieldSet_of_ne (hother piece'' hpiece'')]
        exact hsets piece'' hpiece''

/-! ## The pieces of a URL -/

section Pieces

variable (scheme authority path : Bytes) (query fragment : Option Bytes)

def urlPieces : List UrlPiece :=
  [⟨[], .schema, scheme⟩, ⟨[colon, 47, 47], .host, authority⟩, ⟨[], .path, path⟩,
    ⟨query.elim [] fun _ => [63], .query, query.getD []⟩,
    ⟨fragment.elim [] fun f => 35 :: f.takeWhile (· = 35), .fragment,
      (fragment.getD []).dropWhile (· = 35)⟩]

theorem text_urlPieces : (urlPieces scheme authority path query fragment).flatMap UrlPiece.text =
    urlHead scheme authority ++ targetText path query fragment := by
  have hfragment (f : Bytes) : f.takeWhile (· = 35) ++ f.dropWhile (· = 35) = f :=
    List.takeWhile_append_dropWhile
  cases query <;> cases fragment <;>
    simp [urlPieces, UrlPiece.text, urlHead, targetText, hfragment]

theorem urlPieces_distinct :
    ((urlPieces scheme authority path query fragment).map (·.uf)).Nodup := by
  show [UrlField.schema, .host, .path, .query, .fragment].Nodup
  decide

theorem UrlPiece.length_bytes_le {pieces : List UrlPiece} :
    ∀ piece ∈ pieces, piece.bytes.length ≤ (pieces.flatMap UrlPiece.text).length := by
  induction pieces with
  | nil => exact List.forall_mem_nil _
  | cons piece pieces ih =>
      rw [List.flatMap_cons, List.length_append, UrlPiece.text, List.length_append]
      refine List.forall_mem_cons.mpr ⟨by omega, fun piece' hpiece' => ?_⟩
      have hle := ih piece' hpiece'
      omega

variable {scheme authority path query fragment} in
theorem scan_urlPieces {s : RequestState}
    (h : Lexed .reqSpacesBeforeUrl (urlPieces scheme authority path query fragment) s)
    (hfit : (urlHead scheme authority ++ targetText path query fragment).length < 2 ^ 16) :
    ∃ p, scanUrl 0 (urlHead scheme authority ++ targetText path query fragment) .initial = some p ∧
      p.url = UrlPiece.readAll 0 (urlPieces scheme authority path query fragment) .zeroed ∧
      p.foundAt = decide (64 ∈ authority) := by
  rw [← text_urlPieces] at hfit ⊢
  obtain ⟨p, hscan, hurl, hat⟩ := h.scan (urlPieces_distinct ..) (p := .initial) rfl
    (fun piece _ hold => by cases hold)
    (fun piece hpiece => lt_of_le_of_lt (UrlPiece.length_bytes_le piece hpiece) hfit) 0
  refine ⟨p, hscan, hurl, hat.trans ?_⟩
  simp [UrlScan.initial, urlPieces, UrlPiece.hasAt]

/-- The bytes of the authority, from which the host is read. -/
theorem readAll_host (hne : authority ≠ []) :
    (UrlPiece.readAll 0 (urlPieces scheme authority path query fragment) .zeroed).fieldData
      .host = ⟨u16 (scheme.length + 3), authority.length⟩ := by
  have hpos : 0 < authority.length := List.length_pos_iff.mpr hne
  simp only [urlPieces, UrlPiece.readAll]
  rw [HttpParserUrl.read_fieldData_of_ne (by decide),
    HttpParserUrl.read_fieldData_of_ne (by decide),
    HttpParserUrl.read_fieldData_of_ne (by decide), HttpParserUrl.read_fieldData hpos]
  simp [UrlPiece.text]

end Pieces

/-! ## Accepted URLs -/

theorem run_of_scanUrl {u : Bytes} : ∀ {i : ℕ} {p p' : UrlScan}, scanUrl i u p = some p' →
    run parseUrlChar p.state u = some p'.state := by
  induction u with
  | nil =>
      intro i p p' h
      cases h
      rfl
  | cons ch u ih =>
      intro i p p' h
      obtain ⟨p₁, hch, h⟩ := Option.bind_eq_some_iff.mp h
      unfold scanUrlChar at hch
      simp only [Option.bind_eq_bind, Option.bind_eq_some_iff] at hch
      obtain ⟨s, hs, field, -, hp₁⟩ := hch
      have hstate : p₁.state = s := by
        cases field with
        | none =>
            cases hp₁
            rfl
        | some uf =>
            cases hp₁
            unfold UrlScan.count
            split <;> rfl
      rw [run, hs, Option.bind_some, ← hstate]
      exact ih h

/-- A path that comes first is never followed by a scheme. -/
theorem schema_of_pathState {u : Bytes} : ∀ {i : ℕ} {p p' : UrlScan},
    scanUrl i u p = some p' → p.OldSet → RequestParser.pathState p.state = true →
    p'.url.fieldSet .schema = p.url.fieldSet .schema := by
  induction u with
  | nil =>
      intro i p p' h _ _
      cases h
      rfl
  | cons ch u ih =>
      intro i p p' h hold hstate
      obtain ⟨p₁, hch, h⟩ := Option.bind_eq_some_iff.mp h
      have ha := UrlScan.scanUrlChar_advances hch hold
      have hstate₁ := UrlScan.urlChar_pathState hstate ha.char
      rw [ih h ha.oldSet hstate₁, ha.keepsSet (UrlScan.urlField_of_pathState hstate₁)]

/-- A URL with a scheme starts with it. -/
theorem first_of_schema {ch : UInt8} {u : Bytes} {p : UrlScan}
    (h : scanUrl 0 (ch :: u) .initial = some p) (hschema : p.url.fieldSet .schema = true) :
    ch ≠ 47 ∧ ch ≠ 42 := by
  obtain ⟨p₁, hch, h⟩ := Option.bind_eq_some_iff.mp h
  have ha := UrlScan.scanUrlChar_advances hch fun _ hold => by cases hold
  refine not_or.mp fun hslash => ?_
  have hpath : p₁.state = .reqPath := by
    have hchar : urlChar .reqSpacesBeforeUrl ch = some p₁.state := ha.char
    simp only [urlChar, if_pos hslash] at hchar
    exact (Option.some.inj hchar).symm
  have hnone : p.url.fieldSet .schema = false := by
    rw [schema_of_pathState h ha.oldSet (by rw [hpath]; rfl),
      ha.keepsSet (by rw [hpath]; decide)]
    rfl
  rw [hschema] at hnone
  cases hnone

/-- Bytes that keep the automaton in states of one field. -/
theorem ReadAs.of_run {uf : UrlField} (P : UInt8 → Prop) (S : RequestState → Prop)
    (hstep : ∀ s ch s', S s → P ch → urlChar s ch = some s' →
      S s' ∧ urlField s' = some (some uf)) {u v : Bytes} {t : RequestState} :
    ∀ {s : RequestState}, S s → (∀ ch ∈ u, P ch) → run parseUrlChar s (u ++ v) = some t →
      ∃ s', ReadAs uf s u s' ∧ S s' ∧ run parseUrlChar s' v = some t := by
  induction u with
  | nil =>
      intro s hs _ h
      exact ⟨s, .nil s, hs, h⟩
  | cons ch u ih =>
      intro s hs hu h
      obtain ⟨hch, hu⟩ := List.forall_mem_cons.mp hu
      obtain ⟨s₁, hparse, h⟩ := Automaton.run_cons_iff.mp h
      obtain ⟨hs₁, hfield⟩ := hstep s ch s₁ hs hch (urlChar_of_parse hparse)
      obtain ⟨s', hcount, hs', h⟩ := ih hs₁ hu h
      exact ⟨s', .cons hparse hfield hcount, hs', h⟩

/-- In the authority, or before it. -/
def InAuthority (s : RequestState) : Prop :=
  s = .reqServerStart ∨ s = .reqServer ∨ s = .reqServerWithAt

section Run

variable {scheme authority path : Bytes} {query fragment : Option Bytes} {s t : RequestState}
  {v : Bytes}

theorem counted_scheme (hfirst : ∀ ch ∈ scheme.head?, ch ≠ 47 ∧ ch ≠ 42) (hcolon : colon ∉ scheme)
    (h : run parseUrlChar .reqSpacesBeforeUrl (scheme ++ colon :: v) = some t) :
    scheme ≠ [] ∧ ReadAs .schema .reqSpacesBeforeUrl scheme .reqSchema ∧
      run parseUrlChar .reqSchema (colon :: v) = some t := by
  cases scheme with
  | nil =>
      obtain ⟨s', hs', -⟩ := Automaton.run_cons_iff.mp h
      have hnone : parseUrlChar .reqSpacesBeforeUrl colon = none := by decide +kernel
      rw [hnone] at hs'
      cases hs'
  | cons ch scheme =>
      obtain ⟨s₁, hparse, h⟩ := Automaton.run_cons_iff.mp h
      obtain rfl : s₁ = .reqSchema := by
        have hch := urlChar_of_parse hparse
        obtain ⟨hslash, hstar⟩ := hfirst ch rfl
        simp only [urlChar, hslash, hstar, or_self, if_false] at hch
        split at hch
        · exact (Option.some.inj hch).symm
        · cases hch
      have hrest : ∀ ch' ∈ scheme, ch' ≠ colon := by
        rintro ch' hch' rfl
        exact hcolon (List.mem_cons_of_mem ch hch')
      obtain ⟨s', hcount, rfl, h⟩ := ReadAs.of_run (· ≠ colon) (· = .reqSchema)
        (fun s ch s' hs hne hch => by
          subst hs
          simp only [urlChar] at hch
          split_ifs at hch with _ hcolon
          · exact ⟨(Option.some.inj hch).symm, by rw [← Option.some.inj hch]; rfl⟩
          · exact absurd hcolon hne)
        rfl hrest h
      exact ⟨List.cons_ne_nil ch scheme, .cons hparse rfl hcount, h⟩

theorem skipped_slashes : Skipped .reqSchema [colon, 47, 47] .reqServerStart := by
  have hcolon : parseUrlChar .reqSchema colon = some .reqSchemaSlash := rfl
  have hslash : parseUrlChar .reqSchemaSlash 47 = some .reqSchemaSlashSlash := rfl
  have hslashes : parseUrlChar .reqSchemaSlashSlash 47 = some .reqServerStart := rfl
  exact .cons hcolon rfl (.cons hslash rfl (.cons hslashes rfl (.nil _)))

theorem Skipped.run_eq {u : Bytes} (h : Skipped s u t) : run parseUrlChar s u = some t := by
  induction h with
  | nil => rfl
  | cons hch _ _ ih => rw [run, hch, Option.bind_some, ih]

theorem run_of_skipped {s' : RequestState} {u : Bytes} (hskip : Skipped s u s')
    (h : run parseUrlChar s (u ++ v) = some t) : run parseUrlChar s' v = some t := by
  obtain ⟨s₁, hu, hv⟩ := Automaton.run_append_iff.mp h
  obtain rfl := Option.some.inj (hskip.run_eq.symm.trans hu)
  exact hv

theorem counted_authority (hends : ∀ ch ∈ authority, endsAuthority ch = false)
    (h : run parseUrlChar .reqServerStart (authority ++ v) = some t) :
    ∃ s, ReadAs .host .reqServerStart authority s ∧ InAuthority s ∧
      run parseUrlChar s v = some t := by
  refine ReadAs.of_run (endsAuthority · = false) InAuthority ?_ (.inl rfl) hends h
  intro s ch s' hs hch hchar
  rcases UrlScan.urlChar_server hs hchar with ⟨rfl, -⟩ | ⟨rfl, -⟩ | ⟨-, rfl | rfl⟩
  · cases hch
  · cases hch
  · exact ⟨.inr (.inl rfl), rfl⟩
  · exact ⟨.inr (.inr rfl), rfl⟩

theorem counted_path (hs : InAuthority s) (hslash : path = [] ∨ path.head? = some 47)
    (hends : ∀ ch ∈ path, endsPath ch = false)
    (h : run parseUrlChar s (path ++ v) = some t) :
    ∃ s', ReadAs .path s path s' ∧ (InAuthority s' ∨ path ≠ [] ∧ s' = .reqPath) ∧
      run parseUrlChar s' v = some t := by
  cases path with
  | nil => exact ⟨s, .nil s, .inl hs, h⟩
  | cons ch path =>
      obtain rfl : ch = 47 := Option.some.inj (hslash.resolve_left (List.cons_ne_nil ch path))
      obtain ⟨s₁, hparse, h⟩ := Automaton.run_cons_iff.mp h
      obtain rfl : s₁ = .reqPath := by
        rcases UrlScan.urlChar_server hs (urlChar_of_parse hparse) with ⟨-, rfl⟩ | ⟨hch, -⟩ |
          ⟨hch, -⟩
        · rfl
        · cases hch
        · cases hch
      obtain ⟨s', hcount, rfl, h⟩ := ReadAs.of_run (endsPath · = false) (· = .reqPath)
        (fun s ch s' hs hch hchar => by
          subst hs
          rcases UrlScan.urlChar_path hchar with ⟨-, rfl⟩ | ⟨rfl, -⟩ | ⟨rfl, -⟩
          · exact ⟨rfl, rfl⟩
          · cases hch
          · cases hch)
        rfl (List.forall_mem_cons.mp hends).2 h
      exact ⟨_, .cons hparse rfl hcount, .inr ⟨List.cons_ne_nil 47 path, rfl⟩, h⟩

/-- Where the query may start. -/
theorem parseUrlChar_mark (hs : InAuthority s ∨ s = .reqPath) :
    parseUrlChar s 63 = some .reqQueryStringStart := by
  rcases hs with (rfl | rfl | rfl) | rfl <;> decide +kernel

theorem counted_query (hs : InAuthority s ∨ s = .reqPath) (hquery : ∀ q ∈ query, 35 ∉ q)
    (h : run parseUrlChar s (query.elim [] (63 :: ·) ++ v) = some t) :
    ∃ s₁ s', Skipped s (query.elim [] fun _ => [63]) s₁ ∧ ReadAs .query s₁ (query.getD []) s' ∧
      (s' = s ∨ query ≠ none ∧ (s' = .reqQueryStringStart ∨ s' = .reqQueryString)) ∧
      run parseUrlChar s' v = some t := by
  cases query with
  | none => exact ⟨s, s, .nil s, .nil s, .inl rfl, h⟩
  | some q =>
      have hskip : Skipped s [63] .reqQueryStringStart :=
        .cons (parseUrlChar_mark hs) rfl (.nil _)
      have hrest : run parseUrlChar .reqQueryStringStart (q ++ v) = some t :=
        run_of_skipped hskip h
      have hchars : ∀ ch ∈ q, ch ≠ 35 := by
        rintro ch hch rfl
        exact hquery q rfl hch
      obtain ⟨s', hcount, hs', h⟩ := ReadAs.of_run (· ≠ 35)
        (fun s => s = .reqQueryStringStart ∨ s = .reqQueryString)
        (fun s ch s' hs hne hchar => by
          rcases UrlScan.urlChar_query hs hchar with ⟨-, rfl⟩ | ⟨hhash, -⟩
          · exact ⟨.inr rfl, rfl⟩
          · exact absurd hhash hne)
        (.inl rfl) hchars hrest
      exact ⟨_, s', hskip, hcount, .inr ⟨nofun, hs'⟩, h⟩

theorem skipped_hashes {u : Bytes} (h : ∀ ch ∈ u, ch = 35) :
    Skipped .reqFragmentStart u .reqFragmentStart := by
  induction u with
  | nil => exact .nil _
  | cons ch u ih =>
      obtain ⟨rfl, hrest⟩ := List.forall_mem_cons.mp h
      exact .cons (by decide +kernel) rfl (ih hrest)

theorem counted_fragment
    (hs : InAuthority s ∨ s = .reqPath ∨ s = .reqQueryStringStart ∨ s = .reqQueryString)
    (h : run parseUrlChar s (fragment.elim [] (35 :: ·)) = some t) :
    ∃ s₁ s', Skipped s (fragment.elim [] fun f => 35 :: f.takeWhile (· = 35)) s₁ ∧
      ReadAs .fragment s₁ ((fragment.getD []).dropWhile (· = 35)) s' ∧
      (fragment = none ∨ ¬InAuthority s) := by
  cases fragment with
  | none => exact ⟨s, s, .nil s, .nil s, .inl rfl⟩
  | some f =>
      obtain ⟨s₁, hparse, hrest⟩ := Automaton.run_cons_iff.mp h
      obtain ⟨rfl, hout⟩ : s₁ = .reqFragmentStart ∧ ¬InAuthority s := by
        have hhash : ∀ s, InAuthority s → parseUrlChar s 35 = none := by
          rintro s (rfl | rfl | rfl) <;> decide +kernel
        refine ⟨?_, fun hin => by rw [hhash s hin] at hparse; cases hparse⟩
        rcases hs with hin | rfl | rfl | rfl
        · rw [hhash s hin] at hparse
          cases hparse
        · exact (Option.some.inj hparse).symm
        · exact (Option.some.inj hparse).symm
        · exact (Option.some.inj hparse).symm
      have hskip : Skipped .reqFragmentStart (f.takeWhile (· = 35)) .reqFragmentStart :=
        skipped_hashes fun ch hch => by simpa using List.mem_takeWhile_imp hch
      rw [← List.takeWhile_append_dropWhile (p := (· = 35)) (l := f)] at hrest
      have hfirst : ∀ ch ∈ (f.dropWhile (· = 35)).head?, ch ≠ 35 := by
        intro ch hch
        have hdrop := List.head?_dropWhile_not (fun ch : UInt8 => decide (ch = 35)) f
        rw [Option.mem_def.mp hch] at hdrop
        simpa using hdrop
      have hfragment := run_of_skipped hskip hrest
      obtain ⟨s', hcount⟩ : ∃ s', ReadAs .fragment .reqFragmentStart
          (f.dropWhile (· = 35)) s' := by
        generalize f.dropWhile (· = 35) = u at hfirst hfragment
        cases u with
        | nil => exact ⟨_, .nil _⟩
        | cons ch u =>
            obtain ⟨s₁, hparse, hfragment⟩ := Automaton.run_cons_iff.mp hfragment
            obtain rfl : s₁ = .reqFragment := by
              have hch := urlChar_of_parse hparse
              simp only [urlChar, hfirst ch rfl, if_false] at hch
              split_ifs at hch <;> exact (Option.some.inj hch).symm
            rw [← List.append_nil u] at hfragment
            obtain ⟨s', hcount, -⟩ := ReadAs.of_run (fun _ => True) (· = .reqFragment)
              (fun s ch s' hs _ hchar => by
                subst hs
                simp only [urlChar] at hchar
                split_ifs at hchar
                exact ⟨(Option.some.inj hchar).symm, by rw [← Option.some.inj hchar]; rfl⟩)
              rfl (fun _ _ => trivial) hfragment
            exact ⟨s', .cons hparse rfl hcount⟩
      exact ⟨_, s', .cons hparse rfl hskip, hcount, .inr hout⟩

end Run

/-- The pieces of an accepted URL. Only a path or a query is followed by a
fragment. -/
theorem lexed_of_accepted {url : Bytes} {parts : HttpParserUrl}
    (h : scriptParseUrl url = some parts) :
    ∃ scheme authority path query fragment s,
      Lexed .reqSpacesBeforeUrl (urlPieces scheme authority path query fragment) s ∧
      Components scheme authority path query fragment ∧
      url = urlHead scheme authority ++ targetText path query fragment ∧ scheme ≠ [] ∧
      (fragment = none ∨ path ≠ [] ∨ query ≠ none) := by
  obtain ⟨scheme, authority, path, query, fragment, hc, rfl, -⟩ := scriptParseUrl_components h
  unfold scriptParseUrl at h
  simp only [Option.bind_eq_bind, Option.bind_eq_some_iff] at h
  obtain ⟨u, hparse, h⟩ := h
  split_ifs at h with hfields
  obtain ⟨p, hscan, hu, -⟩ := httpParserParseUrl_agrees (show UrlField.schema ≠ .port by decide)
    (by decide) hparse
  have hschema : p.url.fieldSet .schema = true := hu.symm.trans hfields.1
  have hrun := run_of_scanUrl hscan
  rw [urlHead, targetText, List.append_assoc, List.append_assoc] at hrun
  have hfirst : ∀ ch ∈ scheme.head?, ch ≠ 47 ∧ ch ≠ 42 := by
    intro ch hch
    obtain ⟨rest, rfl⟩ := List.head?_eq_some_iff.mp hch
    exact first_of_schema hscan hschema
  obtain ⟨hne, hscheme, hrun⟩ := counted_scheme hfirst hc.scheme hrun
  have hrun := run_of_skipped skipped_slashes hrun
  obtain ⟨s₂, hauthority, hs₂, hrun⟩ := counted_authority hc.authority hrun
  obtain ⟨s₃, hpath, hs₃, hrun⟩ := counted_path hs₂ hc.slash hc.path hrun
  have hs₃' : InAuthority s₃ ∨ s₃ = .reqPath := hs₃.imp_right And.right
  obtain ⟨s₄, s₅, hmark, hquery, hs₅, hrun⟩ := counted_query hs₃' hc.query hrun
  have hs₅' : InAuthority s₅ ∨ s₅ = .reqPath ∨ s₅ = .reqQueryStringStart ∨
      s₅ = .reqQueryString := by
    rcases hs₅ with rfl | ⟨-, hs₅⟩
    · exact hs₃'.imp_right .inl
    · exact .inr (.inr hs₅)
  obtain ⟨s₆, s₇, hhash, hfragment, hout⟩ := counted_fragment hs₅' hrun
  refine ⟨scheme, authority, path, query, fragment, s₇, ?_, hc, rfl, hne, ?_⟩
  · exact .cons (.nil _) hscheme (.cons skipped_slashes hauthority
      (.cons (.nil _) hpath (.cons hmark hquery (.cons hhash hfragment (.nil _)))))
  · refine hout.imp_right fun hout => ?_
    rcases hs₅ with rfl | ⟨hsome, -⟩
    · exact .inl (hs₃.resolve_left hout).1
    · exact .inr hsome

end WrkQuic
