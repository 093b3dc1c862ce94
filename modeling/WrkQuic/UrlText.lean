import WrkQuic.UrlFields

/-!
# URLs

A `Url` is what wrk takes for one: a scheme, a user, a host with a port, a
path, a query and a fragment, each of the characters that the parser takes
there. The URL automaton reads the pieces of its text (`Url.lexed`).
-/

namespace WrkQuic

/-! ## URLs -/

/-- The characters between the brackets of a host. -/
def isV6Char (ch : UInt8) : Bool := isHex ch || ch = 58 || ch = 46

inductive UrlHost where
  | name (bytes : Bytes) (ne_nil : bytes ≠ []) (chars : ∀ ch ∈ bytes, isHostChar ch = true)
  | v6 (bytes : Bytes) (ne_nil : bytes ≠ []) (chars : ∀ ch ∈ bytes, isV6Char ch = true)

namespace UrlHost

def bytes : UrlHost → Bytes
  | .name bytes _ _ | .v6 bytes _ _ => bytes

/-- The bracket before the host, and the one behind it. -/
def brackets : UrlHost → Bytes × Bytes
  | .name _ _ _ => ([], [])
  | .v6 _ _ _ => ([91], [93])

def text (host : UrlHost) : Bytes := host.brackets.1 ++ (host.bytes ++ host.brackets.2)

theorem bytes_ne_nil : ∀ host : UrlHost, host.bytes ≠ []
  | .name _ hne _ | .v6 _ hne _ => hne

end UrlHost

structure UrlAuthority where
  userinfo : Option Bytes
  host : UrlHost
  port : Option Bytes
  userinfo_chars : ∀ i ∈ userinfo, ∀ ch ∈ i, isUserinfoChar ch = true
  port_ne_nil : ∀ p ∈ port, p ≠ []
  port_digits : ∀ p ∈ port, ∀ ch ∈ p, isNum ch = true

namespace UrlAuthority

def portText (a : UrlAuthority) : Bytes := a.port.elim [] (58 :: ·)

def text (a : UrlAuthority) : Bytes :=
  a.userinfo.elim [] (· ++ [64]) ++ (a.host.text ++ a.portText)

/-- What `http_parse_host` reads of it. -/
def pieces (a : UrlAuthority) : List UrlPiece :=
  [⟨[], .userinfo, a.userinfo.getD []⟩,
    ⟨(a.userinfo.elim [] fun _ => [64]) ++ a.host.brackets.1, .host, a.host.bytes⟩,
    ⟨a.host.brackets.2 ++ (a.port.elim [] fun _ => [58]), .port, a.port.getD []⟩]

theorem text_pieces (a : UrlAuthority) : a.pieces.flatMap UrlPiece.text = a.text := by
  obtain ⟨userinfo, host, port, -, -, -⟩ := a
  cases userinfo <;> cases port <;> simp [pieces, UrlPiece.text, text, portText, UrlHost.text]

theorem pieces_distinct (a : UrlAuthority) : (a.pieces.map (·.uf)).Nodup := by
  show [UrlField.userinfo, .host, .port].Nodup
  decide

end UrlAuthority

/-- A fragment follows a path or a query only. -/
structure Url where
  scheme : Bytes
  authority : UrlAuthority
  path : Bytes
  query : Option Bytes
  fragment : Option Bytes
  scheme_ne_nil : scheme ≠ []
  scheme_chars : ∀ ch ∈ scheme, isAlpha ch = true
  port_fits : ∀ p ∈ authority.port, decimal p < 2 ^ 16
  path_slash : path = [] ∨ path.head? = some 47
  path_chars : ∀ ch ∈ path, isUrlChar ch = true
  query_chars : ∀ q ∈ query, ∀ ch ∈ q, (isUrlChar ch || ch = 63) = true
  fragment_chars : ∀ f ∈ fragment, ∀ ch ∈ f, (isUrlChar ch || ch = 63 || ch = 35) = true
  fragment_follows : fragment = none ∨ path ≠ [] ∨ query ≠ none

namespace Url

def text (url : Url) : Bytes :=
  urlHead url.scheme url.authority.text ++ targetText url.path url.query url.fragment

/-- The bytes of a field; one without bytes is not there, and a fragment has
no `#` in front. -/
def part (url : Url) : UrlField → Option Bytes
  | .schema => present url.scheme
  | .userinfo => url.authority.userinfo.bind present
  | .host => present url.authority.host.bytes
  | .port => url.authority.port
  | .path => present url.path
  | .query => url.query.bind present
  | .fragment => url.fragment.bind fun f => present (f.dropWhile (· = 35))

end Url

/-! ## Characters -/

theorem forall_byte {P : UInt8 → Prop} (h : ∀ n : Fin 256, P (UInt8.ofFin n)) (ch : UInt8) : P ch :=
  h ch.toFin

/-- The characters of a field that the URL automaton reads. -/
def fieldChar : UrlField → UInt8 → Bool
  | .schema, ch => isAlpha ch
  | .path, ch => isUrlChar ch
  | .query, ch => isUrlChar ch || ch = 63
  | .fragment, ch => isUrlChar ch || ch = 63 || ch = 35
  | .host, _ | .port, _ | .userinfo, _ => true

theorem fieldChar_of_parse {s s₁ : RequestState} {ch : UInt8} {uf : UrlField}
    (h : parseUrlChar s ch = some s₁) (hfield : urlField s₁ = some (some uf)) :
    fieldChar uf ch = true := by
  have hchar := urlChar_of_parse h
  have hslash : isUrlChar 47 = true ∧ isUrlChar 42 = true := by decide
  cases s <;> simp only [urlChar] at hchar <;> (try split_ifs at hchar) <;> cases hchar <;>
    cases hfield <;> simp_all [fieldChar, or_assoc]
  rcases ‹ch = 47 ∨ ch = 42› with rfl | rfl
  · exact hslash.1
  · exact hslash.2

theorem ReadAs.chars {uf : UrlField} {s s' : RequestState} {u : Bytes} (h : ReadAs uf s u s') :
    ∀ ch ∈ u, fieldChar uf ch = true := by
  induction h with
  | nil => exact List.forall_mem_nil _
  | cons hch hfield _ ih => exact List.forall_mem_cons.mpr ⟨fieldChar_of_parse hch hfield, ih⟩

theorem userinfoChar_cases : ∀ ch,
    (isUserinfoChar ch = true → 33 ≤ ch ∧ ch ≠ 47 ∧ ch ≠ 63 ∧ ch ≠ 64) ∧
      ((isHostChar ch || isV6Char ch || isNum ch || ch = 58) = true → isUserinfoChar ch = true) :=
  forall_byte (by decide +kernel)

theorem parseUrlChar_visible {ch : UInt8} (h : 33 ≤ ch) (s : RequestState) :
    parseUrlChar s ch = urlChar s ch := by
  refine if_neg ?_
  rintro (rfl | rfl | rfl | rfl | rfl) <;> exact absurd h (by decide)

theorem isUrlChar_visible {ch : UInt8} (h : isUrlChar ch = true) : 33 ≤ ch := by
  simp only [isUrlChar, Bool.and_eq_true, decide_eq_true_eq] at h
  exact h.1.1.1

theorem isUserinfoChar_of_alpha {ch : UInt8} (h : isAlpha ch = true) :
    isUserinfoChar ch = true := by
  simp only [isUserinfoChar, h, Bool.true_or]

theorem parseUrlChar_alpha {ch : UInt8} (h : isAlpha ch = true) :
    parseUrlChar .reqSpacesBeforeUrl ch = some .reqSchema ∧
      parseUrlChar .reqSchema ch = some .reqSchema := by
  obtain ⟨hvisible, hslash, -, -⟩ := (userinfoChar_cases ch).1 (isUserinfoChar_of_alpha h)
  have hstar : ch ≠ 42 := by
    rintro rfl
    cases h
  rw [parseUrlChar_visible hvisible, parseUrlChar_visible hvisible]
  simp [urlChar, h, hslash, hstar]

/-- The characters of an authority but for `@`. -/
def isAuthorityChar (ch : UInt8) : Bool := isUserinfoChar ch || ch = 91 || ch = 93

theorem isAuthorityChar_of_host {ch : UInt8}
    (h : (isHostChar ch || isV6Char ch || isNum ch || ch = 58) = true) :
    isAuthorityChar ch = true := by
  simp only [isAuthorityChar, (userinfoChar_cases ch).2 h, Bool.true_or]

theorem isAuthorityChar_cases {ch : UInt8} (h : isAuthorityChar ch = true) :
    33 ≤ ch ∧ ch ≠ 47 ∧ ch ≠ 63 ∧ ch ≠ 64 := by
  simp only [isAuthorityChar, Bool.or_eq_true, decide_eq_true_eq] at h
  rcases h with (h | rfl) | rfl
  · exact (userinfoChar_cases ch).1 h
  · decide
  · decide

theorem parseUrlChar_authority {s : RequestState} (hs : InAuthority s) {ch : UInt8}
    (h : isAuthorityChar ch = true) : parseUrlChar s ch = some .reqServer := by
  obtain ⟨hvisible, hslash, hmark, hat⟩ := isAuthorityChar_cases h
  simp only [isAuthorityChar, Bool.or_eq_true, decide_eq_true_eq, or_assoc] at h
  rw [parseUrlChar_visible hvisible]
  rcases hs with rfl | rfl | rfl <;> simp [urlChar, hslash, hmark, hat, h]

theorem parseUrlChar_at {s : RequestState} (hs : s = .reqServerStart ∨ s = .reqServer) :
    parseUrlChar s 64 = some .reqServerWithAt := by
  rcases hs with rfl | rfl <;> rfl

theorem parseUrlChar_path {ch : UInt8} (h : isUrlChar ch = true) :
    parseUrlChar .reqPath ch = some .reqPath := by
  rw [parseUrlChar_visible (isUrlChar_visible h)]
  simp [urlChar, h]

theorem parseUrlChar_query {ch : UInt8} (h : (isUrlChar ch || ch = 63) = true) :
    parseUrlChar .reqQueryStringStart ch = some .reqQueryString ∧
      parseUrlChar .reqQueryString ch = some .reqQueryString := by
  simp only [Bool.or_eq_true, decide_eq_true_eq] at h
  rcases h with h | rfl
  · rw [parseUrlChar_visible (isUrlChar_visible h), parseUrlChar_visible (isUrlChar_visible h)]
    simp [urlChar, h]
  · exact ⟨rfl, rfl⟩

theorem parseUrlChar_fragment {ch : UInt8} (h : (isUrlChar ch || ch = 63 || ch = 35) = true) :
    (ch ≠ 35 → parseUrlChar .reqFragmentStart ch = some .reqFragment) ∧
      parseUrlChar .reqFragment ch = some .reqFragment := by
  simp only [Bool.or_eq_true, decide_eq_true_eq] at h
  rcases h with (h | rfl) | rfl
  · rw [parseUrlChar_visible (isUrlChar_visible h), parseUrlChar_visible (isUrlChar_visible h)]
    simp [urlChar, h]
  · exact ⟨fun _ => rfl, rfl⟩
  · exact ⟨fun hne => absurd rfl hne, rfl⟩

theorem Lexed.chars {s s' : RequestState} {pieces : List UrlPiece} (h : Lexed s pieces s') :
    ∀ piece ∈ pieces, ∀ ch ∈ piece.bytes, fieldChar piece.uf ch = true := by
  induction h with
  | nil => exact List.forall_mem_nil _
  | cons _ hread _ ih => exact List.forall_mem_cons.mpr ⟨hread.chars, ih⟩

/-! ## The pieces of a `Url` -/

namespace UrlAuthority

variable {a : UrlAuthority}

theorem hostText_chars (host : UrlHost) : ∀ ch ∈ host.text, isAuthorityChar ch = true := by
  cases host with
  | name bytes _ chars =>
      intro ch hch
      have hmem : ch ∈ bytes := by simpa [UrlHost.text, UrlHost.brackets, UrlHost.bytes] using hch
      exact isAuthorityChar_of_host (by simp [chars ch hmem])
  | v6 bytes _ chars =>
      intro ch hch
      have hmem : ch = 91 ∨ ch ∈ bytes ∨ ch = 93 := by
        simpa [UrlHost.text, UrlHost.brackets, UrlHost.bytes] using hch
      rcases hmem with rfl | hmem | rfl
      · simp [isAuthorityChar]
      · exact isAuthorityChar_of_host (by simp [chars ch hmem])
      · simp [isAuthorityChar]

theorem portText_chars : ∀ ch ∈ a.portText, isAuthorityChar ch = true := by
  intro ch hch
  unfold portText at hch
  cases hport : a.port with
  | none =>
      rw [hport] at hch
      cases hch
  | some p =>
      rw [hport] at hch
      rcases List.mem_cons.mp hch with rfl | hmem
      · exact isAuthorityChar_of_host rfl
      · exact isAuthorityChar_of_host (by simp [a.port_digits p hport ch hmem])

theorem hostPort_chars : ∀ ch ∈ a.host.text ++ a.portText, isAuthorityChar ch = true := by
  intro ch hch
  exact (List.mem_append.mp hch).elim (hostText_chars a.host ch) (portText_chars ch)

theorem hostPort_ne_nil : a.host.text ++ a.portText ≠ [] := by
  intro hnil
  have hbytes := a.host.bytes_ne_nil
  simp_all [UrlHost.text]

/-- `@` is noticed in an authority with a user. -/
theorem at_mem_text : 64 ∈ a.text ↔ a.userinfo ≠ none := by
  have hnot : 64 ∉ a.host.text ++ a.portText := fun hmem =>
    (isAuthorityChar_cases (hostPort_chars 64 hmem)).2.2.2 rfl
  unfold text
  rw [List.mem_append, or_iff_left hnot]
  cases a.userinfo <;> simp

theorem readAs_authorityChars {s : RequestState} (hs : InAuthority s) {u : Bytes}
    (hu : ∀ ch ∈ u, isAuthorityChar ch = true) :
    ReadAs .host s u (if u = [] then s else .reqServer) :=
  .of_loop rfl
    (fun ch hch => parseUrlChar_authority hs (hu ch (List.mem_of_mem_head? hch)))
    fun ch hch => parseUrlChar_authority (.inr (.inl rfl)) (hu ch hch)

theorem readAs_text : ReadAs .host .reqServerStart a.text .reqServer := by
  have hhost {s : RequestState} (hs : InAuthority s) :
      ReadAs .host s (a.host.text ++ a.portText) .reqServer := by
    have hread := readAs_authorityChars hs (hostPort_chars (a := a))
    rwa [if_neg hostPort_ne_nil] at hread
  unfold text
  cases hinfo : a.userinfo with
  | none => exact hhost (.inl rfl)
  | some i =>
      have hchars : ∀ ch ∈ i, isAuthorityChar ch = true := fun ch hch => by
        rw [isAuthorityChar, a.userinfo_chars i hinfo ch hch]
        rfl
      have huser := readAs_authorityChars (.inl rfl) hchars
      have hat : ReadAs .host (if i = [] then RequestState.reqServerStart else .reqServer) [64]
          .reqServerWithAt := by
        refine .cons (parseUrlChar_at ?_) rfl (.nil _)
        split
        · exact .inl rfl
        · exact .inr rfl
      exact (huser.append hat).append (hhost (.inr (.inr rfl)))

end UrlAuthority

namespace Url

variable (url : Url)

def pieces : List UrlPiece :=
  urlPieces url.scheme url.authority.text url.path url.query url.fragment

theorem readAs_scheme : ReadAs .schema .reqSpacesBeforeUrl url.scheme .reqSchema := by
  have hread : ReadAs .schema .reqSpacesBeforeUrl url.scheme
      (if url.scheme = [] then .reqSpacesBeforeUrl else .reqSchema) :=
    .of_loop rfl
      (fun ch hch => (parseUrlChar_alpha
        (url.scheme_chars ch (List.mem_of_mem_head? hch))).1)
      fun ch hch => (parseUrlChar_alpha (url.scheme_chars ch hch)).2
  rwa [if_neg url.scheme_ne_nil] at hread

theorem readAs_path : ReadAs .path .reqServer url.path
    (if url.path = [] then .reqServer else .reqPath) := by
  refine .of_loop rfl ?_ fun ch hch => parseUrlChar_path (url.path_chars ch hch)
  intro ch hch
  have hne : url.path ≠ [] := by
    intro hnil
    rw [hnil] at hch
    cases hch
  rw [url.path_slash.resolve_left hne] at hch
  obtain rfl := Option.some.inj hch
  rfl

theorem readAs_query {q : Bytes} (hq : url.query = some q) :
    ReadAs .query .reqQueryStringStart q
      (if q = [] then .reqQueryStringStart else .reqQueryString) :=
  .of_loop rfl
    (fun ch hch =>
      (parseUrlChar_query (url.query_chars q hq ch (List.mem_of_mem_head? hch))).1)
    fun ch hch => (parseUrlChar_query (url.query_chars q hq ch hch)).2

theorem readAs_fragment {f : Bytes} (hf : url.fragment = some f) :
    ReadAs .fragment .reqFragmentStart (f.dropWhile (· = 35))
      (if f.dropWhile (· = 35) = [] then .reqFragmentStart else .reqFragment) := by
  have hchars : ∀ ch ∈ f.dropWhile (· = 35), (isUrlChar ch || ch = 63 || ch = 35) = true :=
    fun ch hch => url.fragment_chars f hf ch (List.dropWhile_subset _ hch)
  refine .of_loop rfl ?_ fun ch hch => (parseUrlChar_fragment (hchars ch hch)).2
  intro ch hch
  have hdrop := List.head?_dropWhile_not (fun ch : UInt8 => decide (ch = 35)) f
  rw [Option.mem_def.mp hch] at hdrop
  exact (parseUrlChar_fragment (hchars ch (List.mem_of_mem_head? hch))).1 (by simpa using hdrop)

theorem lexed : ∃ s, Lexed .reqSpacesBeforeUrl url.pieces s := by
  have hpath := url.readAs_path
  obtain ⟨s₃, hs₃, hbehind⟩ : ∃ s₃, ReadAs .path .reqServer url.path s₃ ∧
      (s₃ = .reqServer ∧ url.path = [] ∨ s₃ = .reqPath) := by
    refine ⟨_, hpath, ?_⟩
    split
    · exact .inl ⟨rfl, ‹_›⟩
    · exact .inr rfl
  have hmark : InAuthority s₃ ∨ s₃ = .reqPath :=
    hbehind.imp_left fun h => .inr (.inl h.1)
  obtain ⟨s₄, s₅, hskip, hquery, hout⟩ : ∃ s₄ s₅,
      Skipped s₃ (url.query.elim [] fun _ => [63]) s₄ ∧ ReadAs .query s₄ (url.query.getD []) s₅ ∧
      (url.fragment ≠ none → parseUrlChar s₅ 35 = some .reqFragmentStart) := by
    cases hq : url.query with
    | none =>
        refine ⟨s₃, s₃, .nil s₃, .nil s₃, fun hf => ?_⟩
        rcases hbehind with ⟨-, hnil⟩ | rfl
        · rcases url.fragment_follows with hnone | hne | hne
          · exact absurd hnone hf
          · exact absurd hnil hne
          · exact absurd hq hne
        · rfl
    | some q =>
        refine ⟨_, _, .cons (parseUrlChar_mark hmark) rfl (.nil _), url.readAs_query hq,
          fun _ => ?_⟩
        split <;> rfl
  obtain ⟨s₆, s₇, hhash, hfragment⟩ : ∃ s₆ s₇,
      Skipped s₅ (url.fragment.elim [] fun f => 35 :: f.takeWhile (· = 35)) s₆ ∧
      ReadAs .fragment s₆ ((url.fragment.getD []).dropWhile (· = 35)) s₇ := by
    cases hf : url.fragment with
    | none => exact ⟨s₅, s₅, .nil s₅, .nil s₅⟩
    | some f =>
        refine ⟨_, _, .cons (hout (by rw [hf]; nofun)) rfl (skipped_hashes ?_),
          url.readAs_fragment hf⟩
        intro ch hch
        simpa using List.mem_takeWhile_imp hch
  exact ⟨s₇, .cons (.nil _) url.readAs_scheme (.cons skipped_slashes UrlAuthority.readAs_text
    (.cons (.nil _) hs₃ (.cons hskip hquery (.cons hhash hfragment (.nil _)))))⟩

end Url

end WrkQuic
