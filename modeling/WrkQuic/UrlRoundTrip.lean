import WrkQuic.RequestHeaders
import WrkQuic.UrlText

/-!
# Reading a URL

`http_parser_parse_url` accepts the texts of a `Url` and no others, and reads
from the text the parts that it was written from, as long as it is shorter
than 2^16 bytes, beyond which the offsets wrap around (`url_round_trip`). The
authority is read a second time, by `http_parse_host`, and the port a third
time, by `strtoul`.
-/

namespace WrkQuic

open Automaton (run)

/-! ## The loop of `http_parse_host` -/

section HostLoop

variable {s t : HostState} {uf : UrlField} {starts : Bool} {w w₀ : HttpParserUrl} {u : Bytes}
  {i n : ℕ}

/-- After the first byte of the field. -/
theorem hostLoop_more (hfield : hostField t = some (uf, starts))
    (ht : ∀ ch ∈ u, httpParseHostChar t ch = some t) (hw : w = w₀.read uf i n) (hpos : 0 < n)
    (hfit : n + u.length < 2 ^ 16) (j : ℕ) (v : Bytes) :
    hostLoop j (u ++ v) t w = hostLoop (j + u.length) v t (w₀.read uf i (n + u.length)) := by
  induction u generalizing w n j with
  | nil =>
      rw [hw]
      rfl
  | cons ch u ih =>
      obtain ⟨hch, ht⟩ := List.forall_mem_cons.mp ht
      rw [List.length_cons] at hfit
      have hstep : hostStep j t t w = w₀.read uf i (n + 1) := by
        rw [hostStep, hfield, hw]
        simp only [ne_eq, not_true, if_false]
        exact HttpParserUrl.extend_read hpos (by omega)
      rw [List.cons_append, hostLoop, hch, Option.bind_eq_bind, Option.bind_some,
        ih ht hstep (Nat.succ_pos n) (by omega), List.length_cons, Nat.add_right_comm j,
        Nat.add_right_comm n]
      rfl

/-- The bytes of a field; `http_parse_host` sets the length of the host to 0
before the loop, and that of another field at its first byte. -/
theorem hostLoop_field (hne : s ≠ t) (hfield : hostField t = some (uf, starts))
    (hs : ∀ ch ∈ u.head?, httpParseHostChar s ch = some t)
    (ht : ∀ ch ∈ u, httpParseHostChar t ch = some t)
    (hw : starts = true ∨ w.fieldSet uf = true ∧ (w.fieldData uf).len = 0)
    (hfit : u.length < 2 ^ 16) (i : ℕ) (v : Bytes) :
    hostLoop i (u ++ v) s w =
      hostLoop (i + u.length) v (if u = [] then s else t) (w.read uf i u.length) := by
  cases u with
  | nil =>
      rw [List.length_nil, HttpParserUrl.read_zero]
      rfl
  | cons ch u =>
      rw [List.length_cons] at hfit
      have hstep : hostStep i s t w = w.read uf i 1 := by
        rw [hostStep, hfield]
        simp only [ne_eq, hne, not_false_eq_true, if_true]
        rw [HttpParserUrl.read, if_neg Nat.one_ne_zero]
        rcases hw with rfl | ⟨hset, hlen⟩
        · simp [HttpParserUrl.extend, HttpParserUrl.setData, HttpParserUrl.setField, u16]
        · have hself : Function.update w.fieldSet uf true = w.fieldSet := by
            rw [← hset, Function.update_eq_self]
          cases starts <;> simp [HttpParserUrl.extend, HttpParserUrl.setData,
            HttpParserUrl.setField, u16, hlen, hself]
      rw [List.cons_append, hostLoop, hs ch rfl, Option.bind_eq_bind, Option.bind_some,
        hostLoop_more hfield (List.forall_mem_cons.mp ht).2 hstep Nat.one_pos (by omega),
        if_neg (List.cons_ne_nil ch u), List.length_cons, Nat.add_right_comm i, Nat.add_comm 1]
      rfl

/-- A byte of no field. -/
theorem hostLoop_skip {ch : UInt8} (hch : httpParseHostChar s ch = some t)
    (hfield : hostField t = none) (i : ℕ) (v : Bytes) (w : HttpParserUrl) :
    hostLoop i (ch :: v) s w = hostLoop (i + 1) v t w := by
  rw [hostLoop, hch, Option.bind_eq_bind, Option.bind_some, hostStep, hfield]

end HostLoop

section HostChar

variable {ch : UInt8}

theorem httpParseHostChar_userinfo (h : isUserinfoChar ch = true) :
    httpParseHostChar .userinfoStart ch = some .userinfo ∧
      httpParseHostChar .userinfo ch = some .userinfo := by
  have hat := ((userinfoChar_cases ch).1 h).2.2.2
  simp [httpParseHostChar, h, hat]

theorem httpParseHostChar_userinfoEnd (h : isUserinfoChar ch = false) (hat : ch ≠ 64) :
    httpParseHostChar .userinfo ch = none := by
  simp [httpParseHostChar, h, hat]

theorem httpParseHostChar_host (h : isHostChar ch = true) :
    httpParseHostChar .hostStart ch = some .host ∧ httpParseHostChar .host ch = some .host := by
  have hbracket : ch ≠ 91 := by
    rintro rfl
    cases h
  simp [httpParseHostChar, h, hbracket]

theorem httpParseHostChar_hostEnd (h : isHostChar ch = false) (hcolon : ch ≠ 58) :
    httpParseHostChar .host ch = none := by
  simp [httpParseHostChar, h, hcolon]

theorem httpParseHostChar_v6 (h : isV6Char ch = true) :
    httpParseHostChar .hostV6Start ch = some .hostV6 ∧
      httpParseHostChar .hostV6 ch = some .hostV6 := by
  have hbracket : ch ≠ 93 := by
    rintro rfl
    cases h
  simp only [isV6Char, Bool.or_eq_true, decide_eq_true_eq, or_assoc] at h
  simp [httpParseHostChar, h, hbracket]

theorem not_v6 (h : isV6Char ch = false) : ¬(isHex ch = true ∨ ch = 58 ∨ ch = 46) := by
  rw [← or_assoc]
  simpa [isV6Char] using h

theorem httpParseHostChar_v6Start (h : isV6Char ch = false) :
    httpParseHostChar .hostV6Start ch = none := by
  simp [httpParseHostChar, not_v6 h]

theorem httpParseHostChar_hostV6 (h : isV6Char ch = false) (hbracket : ch ≠ 93) :
    httpParseHostChar .hostV6 ch = none := by
  simp [httpParseHostChar, not_v6 h, hbracket]

theorem httpParseHostChar_v6End (hcolon : ch ≠ 58) : httpParseHostChar .hostV6End ch = none := by
  simp [httpParseHostChar, hcolon]

theorem httpParseHostChar_port (h : isNum ch = true) :
    httpParseHostChar .hostPortStart ch = some .hostPort ∧
      httpParseHostChar .hostPort ch = some .hostPort := by
  simp [httpParseHostChar, h]

end HostChar

/-- The states in which the text of a host may end. -/
def HostState.Accepted (s : HostState) : Prop := s = .host ∨ s = .hostV6End ∨ s = .hostPort

/-- Behind the host. -/
def UrlHost.endState : UrlHost → HostState
  | .name _ _ _ => .host
  | .v6 _ _ _ => .hostV6End

theorem UrlHost.endState_colon (host : UrlHost) :
    httpParseHostChar host.endState 58 = some .hostPortStart := by
  cases host with
  | name => exact (by decide : httpParseHostChar .host 58 = some .hostPortStart)
  | v6 => exact (by decide : httpParseHostChar .hostV6End 58 = some .hostPortStart)

namespace UrlAuthority

variable {a : UrlAuthority} {w : HttpParserUrl}

theorem hostLoop_userinfo (hfit : (a.userinfo.getD []).length < 2 ^ 16) (i : ℕ) (v : Bytes) :
    hostLoop i (a.userinfo.elim [] (· ++ [64]) ++ v)
        (if a.userinfo = none then .hostStart else .userinfoStart) w =
      hostLoop (i + (a.userinfo.elim [] (· ++ [64])).length) v .hostStart
        (w.read .userinfo i (a.userinfo.getD []).length) := by
  cases hinfo : a.userinfo with
  | none => rfl
  | some user =>
      rw [hinfo] at hfit
      have hchars := a.userinfo_chars user hinfo
      have hat : httpParseHostChar (if user = [] then .userinfoStart else .userinfo) 64 =
          some .hostStart := by
        split <;> decide
      show hostLoop i (user ++ [64] ++ v) .userinfoStart w = _
      rw [List.append_assoc, hostLoop_field (s := .userinfoStart) (t := .userinfo)
        (fun heq => by cases heq)
        (show hostField .userinfo = some (.userinfo, true) from rfl)
        (fun ch hch => (httpParseHostChar_userinfo
          (hchars ch (List.mem_of_mem_head? hch))).1)
        (fun ch hch => (httpParseHostChar_userinfo (hchars ch hch)).2) (.inl rfl) hfit]
      rw [List.singleton_append, hostLoop_skip hat rfl]
      simp only [Option.elim_some, Option.getD_some, List.length_append, List.length_singleton,
        Nat.add_assoc]

theorem hostLoop_host (hw : w.fieldSet .host = true ∧ (w.fieldData .host).len = 0)
    (host : UrlHost) (hfit : host.bytes.length < 2 ^ 16) (i : ℕ) (v : Bytes) :
    hostLoop i (host.text ++ v) .hostStart w = hostLoop (i + host.text.length) v host.endState
      (w.read .host (i + host.brackets.1.length) host.bytes.length) := by
  cases host with
  | name bytes hne chars =>
      have hread := hostLoop_field (s := .hostStart) (t := .host) (fun heq => by cases heq) rfl
        (fun ch hch => (httpParseHostChar_host (chars ch (List.mem_of_mem_head? hch))).1)
        (fun ch hch => (httpParseHostChar_host (chars ch hch)).2) (.inr hw) hfit i v
      rw [if_neg hne] at hread
      simpa [UrlHost.text, UrlHost.brackets, UrlHost.bytes, UrlHost.endState] using hread
  | v6 bytes hne chars =>
      have hread := hostLoop_field (s := .hostV6Start) (t := .hostV6) (fun heq => by cases heq) rfl
        (fun ch hch => (httpParseHostChar_v6 (chars ch (List.mem_of_mem_head? hch))).1)
        (fun ch hch => (httpParseHostChar_v6 (chars ch hch)).2) (.inr hw) hfit (i + 1)
        (93 :: v)
      rw [if_neg hne, hostLoop_skip (s := .hostV6) (t := .hostV6End) (by decide) rfl] at hread
      show hostLoop i (91 :: (bytes ++ [93]) ++ v) .hostStart w = _
      rw [List.cons_append, List.append_assoc,
        hostLoop_skip (s := .hostStart) (t := .hostV6Start) (by decide) rfl]
      refine hread.trans ?_
      simp [UrlHost.text, UrlHost.brackets, UrlHost.bytes, UrlHost.endState, Nat.add_comm,
        Nat.add_left_comm]

theorem hostLoop_port (hfit : (a.port.getD []).length < 2 ^ 16) (i : ℕ) :
    ∃ s, s.Accepted ∧ hostLoop i a.portText a.host.endState w =
      some (s, w.read .port (i + (a.port.elim 0 fun _ => 1)) (a.port.getD []).length) := by
  unfold portText
  cases hport : a.port with
  | none =>
      refine ⟨a.host.endState, ?_, rfl⟩
      cases a.host with
      | name => exact .inl rfl
      | v6 => exact .inr (.inl rfl)
  | some p =>
      rw [hport] at hfit
      have hdigits := a.port_digits p hport
      have hread := hostLoop_field (s := .hostPortStart) (t := .hostPort) (w := w)
        (fun heq => by cases heq) rfl
        (fun ch hch => (httpParseHostChar_port (hdigits ch (List.mem_of_mem_head? hch))).1)
        (fun ch hch => (httpParseHostChar_port (hdigits ch hch)).2) (.inl rfl) hfit (i + 1) []
      rw [if_neg (a.port_ne_nil p hport), List.append_nil] at hread
      refine ⟨.hostPort, .inr (.inr rfl), ?_⟩
      show hostLoop i (58 :: p) a.host.endState w = _
      rw [hostLoop_skip a.host.endState_colon rfl]
      exact hread

theorem readAll_pieces (i : ℕ) : UrlPiece.readAll i a.pieces w =
    ((w.read .userinfo i (a.userinfo.getD []).length).read .host
      (i + (a.userinfo.elim [] (· ++ [64])).length + a.host.brackets.1.length)
      a.host.bytes.length).read .port
      (i + (a.userinfo.elim [] (· ++ [64])).length + a.host.text.length +
        (a.port.elim 0 fun _ => 1)) (a.port.getD []).length := by
  simp only [pieces, UrlPiece.readAll]
  congr 1
  · congr 1
    cases a.userinfo <;> simp [UrlPiece.text]
    omega
  · cases a.userinfo <;> cases a.port <;> simp [UrlPiece.text, UrlHost.text] <;> omega

theorem hostLoop_text (hw : w.fieldSet .host = true ∧ (w.fieldData .host).len = 0)
    (hfit : a.text.length < 2 ^ 16) (i : ℕ) : ∃ s, s.Accepted ∧
      hostLoop i a.text (if a.userinfo = none then .hostStart else .userinfoStart) w =
        some (s, UrlPiece.readAll i a.pieces w) := by
  have hlen : (a.userinfo.getD []).length + (a.host.bytes.length + (a.port.getD []).length) ≤
      a.text.length := by
    rw [← a.text_pieces]
    simp only [pieces, UrlPiece.text, List.flatMap_cons, List.flatMap_nil, List.length_append,
      List.length_nil]
    omega
  have hw₁ : (w.read .userinfo i (a.userinfo.getD []).length).fieldSet .host = true ∧
      ((w.read .userinfo i (a.userinfo.getD []).length).fieldData .host).len = 0 := by
    rw [HttpParserUrl.read_fieldSet_of_ne (by decide),
      HttpParserUrl.read_fieldData_of_ne (by decide)]
    exact hw
  obtain ⟨s, hs, hport⟩ := a.hostLoop_port (w := (w.read .userinfo i
    (a.userinfo.getD []).length).read .host
      (i + (a.userinfo.elim [] (· ++ [64])).length + a.host.brackets.1.length)
      a.host.bytes.length) (by omega)
    (i + (a.userinfo.elim [] (· ++ [64])).length + a.host.text.length)
  refine ⟨s, hs, ?_⟩
  rw [text, hostLoop_userinfo (by omega), hostLoop_host hw₁ a.host (by omega), hport]
  rw [readAll_pieces]

end UrlAuthority

/-! ## Texts are accepted -/

theorem httpParseHost_of_text {url : Bytes} {u : HttpParserUrl} {a : UrlAuthority}
    (hset : u.fieldSet .host = true) (hbytes : u.bytes url .host = a.text)
    (hfit : a.text.length < 2 ^ 16) :
    httpParseHost url u (decide (64 ∈ a.text)) = some (UrlPiece.readAll (u.fieldData .host).off
      a.pieces (u.setData .host ⟨(u.fieldData .host).off, 0⟩)) := by
  have hstart : (if decide (64 ∈ a.text) = true then HostState.userinfoStart else .hostStart) =
      if a.userinfo = none then .hostStart else .userinfoStart := by
    simp only [decide_eq_true_eq, UrlAuthority.at_mem_text, ne_eq, ite_not]
  have hw : (u.setData .host ⟨(u.fieldData .host).off, 0⟩).fieldSet .host = true ∧
      ((u.setData .host ⟨(u.fieldData .host).off, 0⟩).fieldData .host).len = 0 :=
    ⟨hset, by simp only [HttpParserUrl.setData, Function.update_self]⟩
  obtain ⟨s, hs, hloop⟩ := a.hostLoop_text hw hfit (u.fieldData .host).off
  unfold httpParseHost
  simp only [hbytes, hstart, hloop, Option.bind_eq_bind, Option.bind_some]
  rcases hs with rfl | rfl | rfl <;> rfl

theorem copyUrlPart_setData {u : HttpParserUrl} {uf uf' : UrlField} (h : uf' ≠ uf) (url : Bytes)
    (data : FieldData) : copyUrlPart url (u.setData uf data) uf' = copyUrlPart url u uf' := by
  simp only [copyUrlPart, HttpParserUrl.bytes, HttpParserUrl.setData, Function.update_of_ne h]

theorem fieldSet_of_copyUrlPart {url : Bytes} {u : HttpParserUrl} {uf : UrlField}
    (h : copyUrlPart url u uf = none) : u.fieldSet uf = false := by
  unfold copyUrlPart at h
  split at h
  · cases h
  · exact Bool.eq_false_iff.mpr ‹_›

/-- `strtoul` stops behind the digits of the port. -/
theorem strtoul_digits {p v : Bytes} (hne : p ≠ []) (hp : ∀ ch ∈ p, isNum ch = true)
    (hv : ∀ ch ∈ v.head?, isNum ch = false) :
    strtoul (p ++ v) = min (decimal p) (2 ^ 64 - 1) := by
  have hdigits : (p ++ v).takeWhile isNum = p := by
    rw [List.takeWhile_append_of_pos hp, takeWhile_of_head hv, List.append_nil]
  have hvalue : p.foldl (fun n ch => 10 * n + (ch.toNat - 48)) 0 = decimal p := by
    simp only [decimal, digit, Nat.mul_comm]
  cases p with
  | nil => exact absurd rfl hne
  | cons ch p =>
      have hch := hp ch List.mem_cons_self
      rw [List.cons_append] at hdigits ⊢
      rw [strtoul]
      · dsimp only
        rw [hdigits, hvalue]
      · rintro rest hsign
        cases hsign
        exact absurd hch (by decide)
      · rintro rest hsign
        cases hsign
        exact absurd hch (by decide)

/-- Behind the port stands no digit. -/
theorem digit_head_targetText {path : Bytes} (query fragment : Option Bytes)
    (hslash : path = [] ∨ path.head? = some 47) :
    ∀ ch ∈ (targetText path query fragment).head?, isNum ch = false := by
  intro ch hch
  have hends := targetText_head path query fragment hslash ch hch
  simp only [endsAuthority, Bool.or_eq_true, decide_eq_true_eq] at hends
  rcases hends with (rfl | rfl) | rfl <;> rfl

section ReadUrl

variable (scheme : Bytes) (a : UrlAuthority) (path : Bytes) (query fragment : Option Bytes)

/-- What is read of the text, but for the number of the port. -/
def readUrl : HttpParserUrl :=
  UrlPiece.readAll (scheme.length + 3) a.pieces
    ((UrlPiece.readAll 0 (urlPieces scheme a.text path query fragment) .zeroed).setData .host
      ⟨scheme.length + 3, 0⟩)

/-- `Url.part`, whatever the number of the port. -/
def partOf : UrlField → Option Bytes
  | .schema => present scheme
  | .userinfo => a.userinfo.bind present
  | .host => present a.host.bytes
  | .port => a.port
  | .path => present path
  | .query => query.bind present
  | .fragment => fragment.bind fun f => present (f.dropWhile (· = 35))

variable {scheme a path query fragment}

theorem present_getD (bytes : Option Bytes) : present (bytes.getD []) = bytes.bind present := by
  cases bytes <;> rfl

theorem present_port (a : UrlAuthority) : present (a.port.getD []) = a.port := by
  cases hport : a.port with
  | none => rfl
  | some p => exact if_neg (a.port_ne_nil p hport)

theorem text_ne_nil (a : UrlAuthority) : a.text ≠ [] := by
  intro hnil
  exact UrlAuthority.hostPort_ne_nil (List.append_eq_nil_iff.mp hnil).2

theorem copyUrlPart_lexed {authority : Bytes}
    (hfit : (urlHead scheme authority ++ targetText path query fragment).length < 2 ^ 16) :
    ∀ piece ∈ urlPieces scheme authority path query fragment,
      copyUrlPart (urlHead scheme authority ++ targetText path query fragment)
        (UrlPiece.readAll 0 (urlPieces scheme authority path query fragment) .zeroed) piece.uf =
          present piece.bytes := by
  have hparts := UrlPiece.copyUrlPart_readAll
    (urlPieces_distinct scheme authority path query fragment) (u := .zeroed)
    (fun piece _ hset => by cases hset) [] [] (by rwa [List.nil_append, text_urlPieces])
  rwa [List.nil_append, List.append_nil, text_urlPieces] at hparts

variable (hfit : (urlHead scheme a.text ++ targetText path query fragment).length < 2 ^ 16)
include hfit

theorem copyUrlPart_readUrl (uf : UrlField) :
    copyUrlPart (urlHead scheme a.text ++ targetText path query fragment)
      (readUrl scheme a path query fragment) uf = partOf scheme a path query fragment uf := by
  have hlexed := copyUrlPart_lexed hfit
  have hother (uf : UrlField) (h : ∀ piece ∈ a.pieces, uf ≠ piece.uf) (hhost : uf ≠ .host) :
      copyUrlPart (urlHead scheme a.text ++ targetText path query fragment)
        (readUrl scheme a path query fragment) uf =
      copyUrlPart (urlHead scheme a.text ++ targetText path query fragment)
        (UrlPiece.readAll 0 (urlPieces scheme a.text path query fragment) .zeroed) uf := by
    rw [readUrl, UrlPiece.copyUrlPart_readAll_of_ne h, copyUrlPart_setData hhost]
  have hunset (uf : UrlField)
      (h : ∀ piece ∈ urlPieces scheme a.text path query fragment, uf ≠ piece.uf) :
      (UrlPiece.readAll 0 (urlPieces scheme a.text path query fragment) .zeroed).fieldSet uf =
        false :=
    fieldSet_of_copyUrlPart (UrlPiece.copyUrlPart_readAll_of_ne h [] 0 .zeroed)
  have htext : scheme ++ [colon, 47, 47] ++
      (a.pieces.flatMap UrlPiece.text ++ targetText path query fragment) =
        urlHead scheme a.text ++ targetText path query fragment := by
    rw [a.text_pieces, urlHead, List.append_assoc (scheme ++ _)]
  have hauthority : ∀ piece ∈ a.pieces,
      copyUrlPart (urlHead scheme a.text ++ targetText path query fragment)
        (readUrl scheme a path query fragment) piece.uf = present piece.bytes := by
    have hlen : (scheme ++ [colon, 47, 47]).length = scheme.length + 3 := List.length_append
    rw [← htext, readUrl, ← hlen]
    refine UrlPiece.copyUrlPart_readAll a.pieces_distinct ?_ _ _ ?_
    · have huser := hunset .userinfo (by simp [urlPieces])
      have hport := hunset .port (by simp [urlPieces])
      simp only [UrlAuthority.pieces, List.forall_mem_cons, HttpParserUrl.setData]
      refine ⟨fun hset => ?_, fun _ => a.host.bytes_ne_nil, fun hset => ?_, List.forall_mem_nil _⟩
      · rw [huser] at hset
        cases hset
      · rw [hport] at hset
        cases hset
    · rw [← htext, ← List.append_assoc, List.length_append] at hfit
      omega
  have houter (uf : UrlField) (hmem : uf = .schema ∨ uf = .path ∨ uf = .query ∨ uf = .fragment) :
      copyUrlPart (urlHead scheme a.text ++ targetText path query fragment)
        (readUrl scheme a path query fragment) uf =
      copyUrlPart (urlHead scheme a.text ++ targetText path query fragment)
        (UrlPiece.readAll 0 (urlPieces scheme a.text path query fragment) .zeroed) uf := by
    rcases hmem with rfl | rfl | rfl | rfl <;>
      exact hother _ (by simp [UrlAuthority.pieces]) (by decide)
  cases uf with
  | schema => exact (houter _ (.inl rfl)).trans (hlexed _ (.head _))
  | path => exact (houter _ (.inr (.inl rfl))).trans (hlexed _ (.tail _ (.tail _ (.head _))))
  | query =>
      rw [houter _ (.inr (.inr (.inl rfl)))]
      exact (hlexed _ (.tail _ (.tail _ (.tail _ (.head _))))).trans (present_getD query)
  | fragment =>
      rw [houter _ (.inr (.inr (.inr rfl)))]
      refine (hlexed _ (.tail _ (.tail _ (.tail _ (.tail _ (.head _)))))).trans ?_
      cases fragment <;> rfl
  | userinfo => exact (hauthority _ (.head _)).trans (present_getD a.userinfo)
  | host => exact hauthority _ (.tail _ (.head _))
  | port => exact (hauthority _ (.tail _ (.tail _ (.head _)))).trans (present_port a)

theorem httpParserParseUrl_of_lexed {s : RequestState}
    (h : Lexed .reqSpacesBeforeUrl (urlPieces scheme a.text path query fragment) s) :
    httpParserParseUrl (urlHead scheme a.text ++ targetText path query fragment) =
      parsePort (urlHead scheme a.text ++ targetText path query fragment)
        (readUrl scheme a path query fragment) := by
  obtain ⟨p, hscan, hurl, hat⟩ := scan_urlPieces h hfit
  have hdata := readAll_host scheme a.text path query fragment (text_ne_nil a)
  have hpart : copyUrlPart (urlHead scheme a.text ++ targetText path query fragment) p.url .host =
      some a.text := by
    rw [hurl]
    exact (copyUrlPart_lexed hfit _ (.tail _ (.head _))).trans (if_neg (text_ne_nil a))
  obtain ⟨hset, hbytes⟩ : p.url.fieldSet .host = true ∧
      p.url.bytes (urlHead scheme a.text ++ targetText path query fragment) .host = a.text := by
    unfold copyUrlPart at hpart
    split at hpart
    · exact ⟨‹_›, Option.some.inj hpart⟩
    · cases hpart
  have hlen : (urlHead scheme a.text).length = scheme.length + 3 + a.text.length := by
    simp [urlHead]
    omega
  rw [List.length_append, hlen] at hfit
  have hoff : u16 (scheme.length + 3) = scheme.length + 3 := Nat.mod_eq_of_lt (by omega)
  unfold httpParserParseUrl
  simp only [hscan, Option.bind_eq_bind, Option.bind_some]
  rw [if_pos (.inr hset), hat, httpParseHost_of_text hset hbytes (by omega), hurl, hdata, hoff]
  rfl

/-- The digits of the port, and what follows. -/
theorem drop_port {p : Bytes} (hp : a.port = some p) :
    (readUrl scheme a path query fragment).fieldSet .port = true ∧
    (urlHead scheme a.text ++ targetText path query fragment).drop
      ((readUrl scheme a path query fragment).fieldData .port).off =
        p ++ targetText path query fragment := by
  have hpos : 0 < p.length := List.length_pos_iff.mpr (a.port_ne_nil p hp)
  have htext : urlHead scheme a.text ++ targetText path query fragment =
      (scheme ++ [colon, 47, 47] ++ (a.userinfo.elim [] (· ++ [64]) ++ (a.host.text ++ [58]))) ++
        (p ++ targetText path query fragment) := by
    simp [urlHead, UrlAuthority.text, UrlAuthority.portText, hp]
  have hlen : (scheme ++ [colon, 47, 47] ++
      (a.userinfo.elim [] (· ++ [64]) ++ (a.host.text ++ [58]))).length =
        scheme.length + 3 + (a.userinfo.elim [] (· ++ [64])).length + a.host.text.length + 1 := by
    simp only [List.length_append, List.length_cons, List.length_nil]
    omega
  rw [htext, List.length_append, hlen] at hfit
  rw [readUrl, UrlAuthority.readAll_pieces, hp]
  refine ⟨HttpParserUrl.read_fieldSet hpos, ?_⟩
  rw [Option.getD_some, HttpParserUrl.read_fieldData hpos, htext, Option.elim_some, u16,
    Nat.mod_eq_of_lt (by omega), ← hlen]
  exact List.drop_left

theorem parsePort_readUrl (hslash : path = [] ∨ path.head? = some 47) :
    parsePort (urlHead scheme a.text ++ targetText path query fragment)
      (readUrl scheme a path query fragment) =
      if ∀ p ∈ a.port, decimal p < 2 ^ 16 then
        some { readUrl scheme a path query fragment with port := a.port.elim 0 decimal }
      else none := by
  cases hp : a.port with
  | none =>
      have hset : (readUrl scheme a path query fragment).fieldSet .port = false :=
        fieldSet_of_copyUrlPart ((copyUrlPart_readUrl hfit .port).trans hp)
      have hport : (readUrl scheme a path query fragment).port = 0 := by
        rw [readUrl, UrlPiece.readAll_port, HttpParserUrl.setData, UrlPiece.readAll_port]
        rfl
      have hall : ∀ p ∈ (none : Option Bytes), decimal p < 2 ^ 16 := fun p hp => by cases hp
      rw [parsePort, hset, if_neg Bool.false_ne_true, if_pos hall, Option.elim_none, ← hport]
  | some p =>
      obtain ⟨hset, hdrop⟩ := drop_port hfit hp
      rw [parsePort, hset, if_pos rfl, hdrop, strtoul_digits (a.port_ne_nil p hp)
        (a.port_digits p hp) (digit_head_targetText query fragment hslash)]
      have hiff : (∀ p' ∈ some p, decimal p' < 2 ^ 16) ↔ decimal p < 2 ^ 16 := by simp
      simp only [hiff, Option.elim_some]
      by_cases hfits : decimal p < 2 ^ 16
      · rw [if_pos hfits, Nat.min_eq_left (by omega), if_neg (by omega)]
      · rw [if_neg hfits]
        exact if_pos (by omega)

end ReadUrl

/-- What is read of the text of a `Url`. -/
theorem scriptParseUrl_text (url : Url) (hfit : url.text.length < 2 ^ 16) :
    ∃ parts, scriptParseUrl url.text = some parts ∧
      parts.port = url.authority.port.elim 0 decimal ∧
      ∀ uf, copyUrlPart url.text parts uf = url.part uf := by
  obtain ⟨s, hlexed⟩ := url.lexed
  have hpart := copyUrlPart_readUrl hfit
  have hset (uf : UrlField) {bytes : Bytes}
      (h : partOf url.scheme url.authority url.path url.query url.fragment uf = some bytes) :
      (readUrl url.scheme url.authority url.path url.query url.fragment).fieldSet uf = true := by
    have hsome := (hpart uf).trans h
    unfold copyUrlPart at hsome
    split at hsome
    · assumption
    · cases hsome
  refine ⟨{ readUrl url.scheme url.authority url.path url.query url.fragment with
    port := url.authority.port.elim 0 decimal }, ?_, rfl, ?_⟩
  · unfold scriptParseUrl Url.text
    rw [httpParserParseUrl_of_lexed hfit hlexed, parsePort_readUrl hfit url.path_slash,
      if_pos url.port_fits]
    exact if_pos ⟨hset .schema (if_neg url.scheme_ne_nil),
      hset .host (if_neg url.authority.host.bytes_ne_nil)⟩
  · intro uf
    refine (hpart uf).trans ?_
    cases uf <;> rfl

/-! ## Accepted are texts -/

theorem run_of_hostLoop {u : Bytes} : ∀ {i : ℕ} {s s' : HostState} {w w' : HttpParserUrl},
    hostLoop i u s w = some (s', w') → run httpParseHostChar s u = some s' := by
  induction u with
  | nil =>
      intro i s s' w w' h
      cases h
      rfl
  | cons ch u ih =>
      intro i s s' w w' h
      obtain ⟨s₁, hch, h⟩ := Option.bind_eq_some_iff.mp h
      rw [run, hch, Option.bind_some]
      exact ih h

section Run

variable {s : HostState} {u v : Bytes}

theorem port_of_run (hs : s.Accepted) (h : run httpParseHostChar .hostPortStart u = some s) :
    u ≠ [] ∧ ∀ ch ∈ u, isNum ch = true := by
  cases u with
  | nil =>
      obtain rfl := Option.some.inj h
      rcases hs with h | h | h <;> cases h
  | cons ch u =>
      obtain ⟨s₁, hch, hrest⟩ := Automaton.run_cons_iff.mp h
      simp only [httpParseHostChar] at hch
      split at hch
      · obtain rfl := Option.some.inj hch
        have hdigits := Automaton.run_peel_all isNum
          (fun ch s' hnum hstep => by
            simp only [httpParseHostChar, hnum, if_true] at hstep
            exact (Option.some.inj hstep).symm)
          (fun ch hnum => by simp [httpParseHostChar, hnum]) hrest
        exact ⟨List.cons_ne_nil ch u, List.forall_mem_cons.mpr ⟨‹_›, hdigits⟩⟩
      · cases hch

/-- Behind the host, where a name has ended. -/
theorem portText_of_run (hs : s.Accepted) (host : UrlHost)
    (hend : ∀ ch ∈ u.head?, host.endState = .host → isHostChar ch = false)
    (h : run httpParseHostChar host.endState u = some s) :
    ∃ port : Option Bytes, u = port.elim [] (58 :: ·) ∧ (∀ p ∈ port, p ≠ []) ∧
      ∀ p ∈ port, ∀ ch ∈ p, isNum ch = true := by
  cases u with
  | nil =>
      refine ⟨none, rfl, ?_, ?_⟩ <;>
        · intro p hp
          cases hp
  | cons ch u =>
      obtain ⟨s₁, hch, hrest⟩ := Automaton.run_cons_iff.mp h
      have hcolon : ch = 58 := by
        by_contra hne
        cases host with
        | name =>
            rw [UrlHost.endState, httpParseHostChar_hostEnd (hend ch rfl rfl) hne] at hch
            cases hch
        | v6 =>
            rw [UrlHost.endState, httpParseHostChar_v6End hne] at hch
            cases hch
      obtain rfl : s₁ = .hostPortStart := by
        rw [hcolon, host.endState_colon] at hch
        exact (Option.some.inj hch).symm
      subst hcolon
      obtain ⟨hne, hdigits⟩ := port_of_run hs hrest
      refine ⟨some u, rfl, fun p hp => ?_, fun p hp => ?_⟩
      · exact Option.some.inj hp ▸ hne
      · exact Option.some.inj hp ▸ hdigits

/-- Up to the bracket that ends the host. -/
theorem v6_of_run (hs : s.Accepted) (h : run httpParseHostChar .hostV6Start u = some s) :
    ∃ b v, u = b ++ 93 :: v ∧ b ≠ [] ∧ (∀ ch ∈ b, isV6Char ch = true) ∧
      run httpParseHostChar .hostV6End v = some s := by
  cases u with
  | nil =>
      obtain rfl := Option.some.inj h
      rcases hs with h | h | h <;> cases h
  | cons ch u =>
      obtain ⟨s₁, hch, hrest⟩ := Automaton.run_cons_iff.mp h
      have hv6 : isV6Char ch = true := by
        by_contra hnot
        rw [httpParseHostChar_v6Start (Bool.eq_false_iff.mpr hnot)] at hch
        cases hch
      rw [(httpParseHostChar_v6 hv6).1] at hch
      obtain rfl := Option.some.inj hch
      obtain ⟨b, v, rfl, hb, hv, hrest⟩ := Automaton.run_peel isV6Char
        (fun ch s' hchar hstep => by
          rw [(httpParseHostChar_v6 hchar).2] at hstep
          exact (Option.some.inj hstep).symm) hrest
      cases v with
      | nil =>
          obtain rfl := Option.some.inj hrest
          rcases hs with h | h | h <;> cases h
      | cons bracket v =>
          obtain ⟨s₂, hbracket, hrest⟩ := Automaton.run_cons_iff.mp hrest
          obtain rfl : bracket = 93 := by
            by_contra hne
            rw [httpParseHostChar_hostV6 (hv bracket rfl) hne] at hbracket
            cases hbracket
          obtain rfl := Option.some.inj hbracket
          exact ⟨ch :: b, v, rfl, List.cons_ne_nil ch b, List.forall_mem_cons.mpr ⟨hv6, hb⟩, hrest⟩

theorem host_of_run (hs : s.Accepted) (h : run httpParseHostChar .hostStart u = some s) :
    ∃ (host : UrlHost) (v : Bytes), u = host.text ++ v ∧
      (∀ ch ∈ v.head?, host.endState = .host → isHostChar ch = false) ∧
      run httpParseHostChar host.endState v = some s := by
  cases u with
  | nil =>
      obtain rfl := Option.some.inj h
      rcases hs with h | h | h <;> cases h
  | cons ch u =>
      obtain ⟨s₁, hch, hrest⟩ := Automaton.run_cons_iff.mp h
      simp only [httpParseHostChar] at hch
      split_ifs at hch with hbracket hname
      · obtain rfl := Option.some.inj hch
        obtain ⟨b, v, rfl, hne, hb, hrest⟩ := v6_of_run hs hrest
        refine ⟨.v6 b hne hb, v, ?_, nofun, hrest⟩
        simp [UrlHost.text, UrlHost.brackets, UrlHost.bytes, hbracket]
      · obtain rfl := Option.some.inj hch
        obtain ⟨b, v, rfl, hb, hv, hrest⟩ := Automaton.run_peel isHostChar
          (fun ch s' hname hstep => by
            simp only [httpParseHostChar, hname, and_self, if_true] at hstep
            exact (Option.some.inj hstep).symm) hrest
        refine ⟨.name (ch :: b) (List.cons_ne_nil ch b)
          (List.forall_mem_cons.mpr ⟨hname, hb⟩), v, ?_, fun ch hch _ => hv ch hch, hrest⟩
        simp [UrlHost.text, UrlHost.brackets, UrlHost.bytes]

theorem userinfo_of_run (hs : s.Accepted) (h : run httpParseHostChar .userinfoStart u = some s) :
    ∃ i v, u = i ++ 64 :: v ∧ (∀ ch ∈ i, isUserinfoChar ch = true) ∧
      run httpParseHostChar .hostStart v = some s := by
  have hstart : run httpParseHostChar .userinfo u = some s := by
    cases u with
    | nil =>
        obtain rfl := Option.some.inj h
        rcases hs with h | h | h <;> cases h
    | cons ch u => exact h
  obtain ⟨i, v, rfl, hi, hv, hrest⟩ := Automaton.run_peel isUserinfoChar
    (fun ch s' hchar hstep => by
      rw [(httpParseHostChar_userinfo hchar).2] at hstep
      exact (Option.some.inj hstep).symm) hstart
  cases v with
  | nil =>
      obtain rfl := Option.some.inj hrest
      rcases hs with h | h | h <;> cases h
  | cons ch v =>
      obtain ⟨s₁, hch, hrest⟩ := Automaton.run_cons_iff.mp hrest
      obtain rfl : ch = 64 := by
        by_contra hne
        rw [httpParseHostChar_userinfoEnd (hv ch rfl) hne] at hch
        cases hch
      obtain rfl := Option.some.inj hch
      exact ⟨i, v, rfl, hi, hrest⟩

/-- An authority is a user, a host and a port. -/
theorem authority_of_run (hs : s.Accepted) (h : run httpParseHostChar
    (if decide (64 ∈ u) = true then .userinfoStart else .hostStart) u = some s) :
    ∃ a : UrlAuthority, a.text = u := by
  have hhost {v : Bytes} (h : run httpParseHostChar .hostStart v = some s)
      (userinfo : Option Bytes) (huser : ∀ i ∈ userinfo, ∀ ch ∈ i, isUserinfoChar ch = true) :
      ∃ a : UrlAuthority, a.text = userinfo.elim [] (· ++ [64]) ++ v := by
    obtain ⟨host, rest, rfl, hend, hrest⟩ := host_of_run hs h
    obtain ⟨port, rfl, hne, hdigits⟩ := portText_of_run hs host hend hrest
    exact ⟨⟨userinfo, host, port, huser, hne, hdigits⟩, rfl⟩
  split at h
  · obtain ⟨i, v, rfl, hi, hrest⟩ := userinfo_of_run hs h
    obtain ⟨a, ha⟩ := hhost hrest (some i) fun i' hi' => Option.some.inj hi' ▸ hi
    exact ⟨a, by rw [ha, Option.elim_some, List.append_assoc, List.singleton_append]⟩
  · obtain ⟨a, ha⟩ := hhost h none fun i hi => by cases hi
    exact ⟨a, ha⟩

end Run

theorem accepted_of_httpParseHost {text : Bytes} {u u' : HttpParserUrl} {foundAt : Bool}
    (h : httpParseHost text u foundAt = some u') : ∃ s : HostState, s.Accepted ∧
      run httpParseHostChar (if foundAt then .userinfoStart else .hostStart) (u.bytes text .host) =
        some s := by
  unfold httpParseHost at h
  simp only [Option.bind_eq_bind, Option.bind_eq_some_iff] at h
  obtain ⟨⟨s, w⟩, hloop, h⟩ := h
  refine ⟨s, ?_, run_of_hostLoop hloop⟩
  cases s with
  | host => exact .inl rfl
  | hostV6End => exact .inr (.inl rfl)
  | hostPort => exact .inr (.inr rfl)
  | _ => cases h

section Accepted

variable {scheme authority path : Bytes} {query fragment : Option Bytes} {t : RequestState}
  {parts : HttpParserUrl}

/-- With a host there is an authority, which is in the grammar. -/
theorem authority_of_accepted
    (hfit : (urlHead scheme authority ++ targetText path query fragment).length < 2 ^ 16)
    (hlexed : Lexed .reqSpacesBeforeUrl (urlPieces scheme authority path query fragment) t)
    (hparse : httpParserParseUrl (urlHead scheme authority ++ targetText path query fragment) =
      some parts) (hhost : parts.fieldSet .host = true) :
    ∃ a : UrlAuthority, a.text = authority := by
  obtain ⟨p, hscan, hurl, hat⟩ := scan_urlPieces hlexed hfit
  have hset : p.url.fieldSet .host = true := by
    obtain ⟨p', hscan', hagrees, -⟩ :=
      httpParserParseUrl_agrees (show UrlField.host ≠ .port by decide) (by decide) hparse
    obtain rfl := Option.some.inj (hscan.symm.trans hscan')
    exact hagrees.symm.trans hhost
  have hpart : copyUrlPart (urlHead scheme authority ++ targetText path query fragment) p.url
      .host = present authority := by
    rw [hurl]
    exact copyUrlPart_lexed hfit _ (.tail _ (.head _))
  rw [copyUrlPart, if_pos hset, present] at hpart
  split at hpart
  · cases hpart
  have hbytes := Option.some.inj hpart
  unfold httpParserParseUrl at hparse
  simp only [hscan, Option.bind_eq_bind, Option.bind_some, if_pos (Or.inr hset)] at hparse
  obtain ⟨u, hu, -⟩ := Option.bind_eq_some_iff.mp hparse
  obtain ⟨s, hs, hrun⟩ := accepted_of_httpParseHost hu
  rw [hbytes, hat] at hrun
  exact authority_of_run hs hrun

end Accepted

theorem exists_url_of_accepted {text : Bytes} (hfit : text.length < 2 ^ 16)
    {parts : HttpParserUrl} (h : scriptParseUrl text = some parts) :
    ∃ url : Url, url.text = text := by
  obtain ⟨scheme, authority, path, query, fragment, t, hlexed, hc, rfl, hne, hfollows⟩ :=
    lexed_of_accepted h
  unfold scriptParseUrl at h
  simp only [Option.bind_eq_bind, Option.bind_eq_some_iff] at h
  obtain ⟨u, hparse, h⟩ := h
  split_ifs at h with hfields
  obtain ⟨a, rfl⟩ := authority_of_accepted hfit hlexed hparse hfields.2
  have hfits : ∀ p ∈ a.port, decimal p < 2 ^ 16 := by
    rw [httpParserParseUrl_of_lexed hfit hlexed, parsePort_readUrl hfit hc.slash] at hparse
    split at hparse
    · assumption
    · cases hparse
  have hchars := hlexed.chars
  refine ⟨⟨scheme, a, path, query, fragment, hne, hchars _ (.head _), hfits, hc.slash,
    hchars _ (.tail _ (.tail _ (.head _))), ?_, ?_, hfollows⟩, rfl⟩
  · rintro q rfl
    exact hchars _ (.tail _ (.tail _ (.tail _ (.head _))))
  · rintro f rfl ch hch
    rw [← List.takeWhile_append_dropWhile (p := (· = 35)) (l := f)] at hch
    rcases List.mem_append.mp hch with hhash | hrest
    · have hhash : ch = 35 := by simpa using List.mem_takeWhile_imp hhash
      simp [hhash]
    · exact hchars _ (.tail _ (.tail _ (.tail _ (.tail _ (.head _))))) ch hrest

/-- Of the texts shorter than 2^16 bytes, `script_parse_url` accepts those of
a `Url` and no others, and what it reads are the parts of the `Url`. -/
theorem url_round_trip {text : Bytes} (hfit : text.length < 2 ^ 16) :
    (∀ parts, scriptParseUrl text = some parts → ∃ url : Url, url.text = text) ∧
    ∀ url : Url, url.text = text → ∃ parts, scriptParseUrl text = some parts ∧
      parts.port = url.authority.port.elim 0 decimal ∧
      ∀ uf, copyUrlPart text parts uf = url.part uf := by
  refine ⟨fun parts h => exists_url_of_accepted hfit h, ?_⟩
  rintro url rfl
  exact scriptParseUrl_text url hfit

/-- A URL with all parts. -/
def fullUrl : Url where
  scheme := "http".toUTF8.toList
  authority :=
    { userinfo := some "u:p".toUTF8.toList
      host := .v6 "::1".toUTF8.toList (by decide +kernel) (by decide +kernel)
      port := some "8080".toUTF8.toList
      userinfo_chars := by decide +kernel
      port_ne_nil := by decide +kernel
      port_digits := by decide +kernel }
  path := "/a".toUTF8.toList
  query := some "b?".toUTF8.toList
  fragment := some "#c".toUTF8.toList
  scheme_ne_nil := by decide +kernel
  scheme_chars := by decide +kernel
  port_fits := by decide +kernel
  path_slash := by decide +kernel
  path_chars := by decide +kernel
  query_chars := by decide +kernel
  fragment_chars := by decide +kernel
  fragment_follows := by decide +kernel

theorem url_round_trip_full : fullUrl.text = "http://u:p@[::1]:8080/a?b?##c".toUTF8.toList ∧
    ∃ parts, scriptParseUrl fullUrl.text = some parts ∧ parts.port = 8080 ∧
      copyUrlPart fullUrl.text parts .userinfo = some "u:p".toUTF8.toList ∧
      copyUrlPart fullUrl.text parts .host = some "::1".toUTF8.toList ∧
      copyUrlPart fullUrl.text parts .fragment = some "c".toUTF8.toList := by
  have hfit : fullUrl.text.length < 2 ^ 16 := by decide +kernel
  obtain ⟨parts, hparse, hport, hparts⟩ := (url_round_trip hfit).2 fullUrl rfl
  refine ⟨by decide +kernel, parts, hparse, hport.trans (by decide +kernel), ?_, ?_, ?_⟩
  · exact (hparts .userinfo).trans (by decide +kernel)
  · exact (hparts .host).trans (by decide +kernel)
  · exact (hparts .fragment).trans (by decide +kernel)

/-! ## The `Host` of a request -/

theorem colon_notMem_name {bytes : Bytes} (h : ∀ ch ∈ bytes, isHostChar ch = true) :
    colon ∉ bytes := by
  intro hmem
  have hcolon := h colon hmem
  cases hcolon

/-- `wrk.init` writes the host and the port as the URL does, without the user.
Only the brackets around an address without a colon are lost. -/
theorem host_header_iff {text : Bytes} (hfit : text.length < 2 ^ 16) {parts : HttpParserUrl}
    (h : scriptParseUrl text = some parts) : ∃ url : Url, url.text = text ∧
      ∃ host, copyUrlPart text parts .host = some host ∧
        (hostHeader host (copyUrlPart text parts .port) =
          url.authority.host.text ++ url.authority.portText ↔
            url.authority.host.brackets = ([], []) ∨ colon ∈ host) ∧
        (¬ (url.authority.host.brackets = ([], []) ∨ colon ∈ host) →
          url.authority.host.text = 91 :: (host ++ [93]) ∧
          hostHeader host (copyUrlPart text parts .port) = host ++ url.authority.portText) := by
  obtain ⟨url, rfl⟩ := exists_url_of_accepted hfit h
  obtain ⟨parts', hparse, -, hparts⟩ := scriptParseUrl_text url hfit
  obtain rfl := Option.some.inj (h.symm.trans hparse)
  refine ⟨url, rfl, url.authority.host.bytes,
    (hparts .host).trans (if_neg url.authority.host.bytes_ne_nil), ?_⟩
  have hport : copyUrlPart url.text parts .port = url.authority.port := hparts .port
  have hsplit (host : Bytes) (port : Option Bytes) :
      port.elim host (host ++ colon :: ·) = host ++ port.elim [] (58 :: ·) := by
    cases port with
    | none => exact (List.append_nil host).symm
    | some p => rfl
  rw [hport, hostHeader, UrlAuthority.portText]
  simp only [hsplit, List.append_left_inj]
  cases url.authority.host with
  | name bytes hne chars =>
      have hcolon := colon_notMem_name chars
      simp [UrlHost.bytes, UrlHost.text, UrlHost.brackets, hcolon]
  | v6 bytes hne chars =>
      by_cases hcolon : colon ∈ bytes
      · simp [UrlHost.bytes, UrlHost.text, UrlHost.brackets, hcolon]
      · have hlost : bytes ≠ 91 :: (bytes ++ [93]) := fun heq => by
          have hlength := congrArg List.length heq
          rw [List.length_cons, List.length_append] at hlength
          omega
        simp [UrlHost.bytes, UrlHost.text, UrlHost.brackets, hcolon, hlost]

theorem host_header_iff_full : ∃ parts, scriptParseUrl fullUrl.text = some parts ∧
    ∃ url : Url, url.text = fullUrl.text ∧ ∃ host,
      copyUrlPart fullUrl.text parts .host = some host ∧
        (hostHeader host (copyUrlPart fullUrl.text parts .port) =
          url.authority.host.text ++ url.authority.portText ↔
            url.authority.host.brackets = ([], []) ∨ colon ∈ host) ∧
        (¬ (url.authority.host.brackets = ([], []) ∨ colon ∈ host) →
          url.authority.host.text = 91 :: (host ++ [93]) ∧
          hostHeader host (copyUrlPart fullUrl.text parts .port) =
            host ++ url.authority.portText) := by
  have hfit : fullUrl.text.length < 2 ^ 16 := by decide +kernel
  obtain ⟨parts, hparse⟩ : ∃ parts, scriptParseUrl fullUrl.text = some parts :=
    Option.isSome_iff_exists.mp (by decide +kernel)
  exact ⟨parts, hparse, host_header_iff hfit hparse⟩

end WrkQuic
