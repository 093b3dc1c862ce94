import WrkQuic.HttpOptions

/-!
# The values of the names that the parser knows

The name of a field decides what its value is taken for, and only the values
of `Connection`, `Upgrade`, `Content-Length` and `Transfer-Encoding` change
the parser: a value of `Connection` sets a flag for each option in it
(`OptionsRead`), a length is a run of digits, and the coding is looked for
character by character (`CodingAt`).
-/

namespace WrkQuic

open Scanner HttpParser

namespace HttpParser

variable {p p' p'' : HttpParser} {ch c : UInt8} {u v w : Bytes} {loop : Option ℕ}

variable {R : HttpParser → Bytes → HttpParser → Prop}

/-! ## Known names -/

/-- A state of `s_header_field` whose name the parser does not know. -/
structure Plain (h : HeaderStates) : Prop where
  start : ∀ (p : HttpParser) ch, headerValueStart { p with headerState := h } ch =
    pass { p with state := .headerValue, index := 0, headerState := .general }
  finish : ∀ flags, finishFlags h flags = flags

theorem NameAt.known {index : ℕ} {h : HeaderStates} (hname : NameAt u index h) :
    (h = .connection ∧ (u = connectionWord ∨ u = proxyConnectionWord)) ∨
      (h = .contentLength ∧ u = contentLengthWord) ∨
      (h = .transferEncoding ∧ u = transferEncodingWord) ∨ (h = .upgrade ∧ u = upgradeWord) ∨
      (Plain h ∧ u ∉ knownWords) := by
  obtain ⟨hconnection, hproxy, hlength, htransfer, hupgrade⟩ := knownWords_length
  have hshort {word : Bytes} {i : ℕ} (hword : word ∈ knownWords) (hi : i < word.length) :
      word.take i ∉ knownWords := by
    intro hu
    have hsame := knownWords_prefix _ hu word hword (List.take_prefix i word)
    have hlength := congrArg List.length hsame
    rw [List.length_take_of_le (Nat.le_of_lt hi)] at hlength
    omega
  have hplain (hh : Plain h) (hu : u ∉ knownWords) :
      (h = .connection ∧ (u = connectionWord ∨ u = proxyConnectionWord)) ∨
        (h = .contentLength ∧ u = contentLengthWord) ∨
        (h = .transferEncoding ∧ u = transferEncodingWord) ∨ (h = .upgrade ∧ u = upgradeWord) ∨
        (Plain h ∧ u ∉ knownWords) :=
    Or.inr (Or.inr (Or.inr (Or.inr ⟨hh, hu⟩)))
  cases h with
  | connection => exact Or.inl ⟨rfl, hname⟩
  | contentLength => exact Or.inr (Or.inl ⟨rfl, hname⟩)
  | transferEncoding => exact Or.inr (Or.inr (Or.inl ⟨rfl, hname⟩))
  | upgrade => exact Or.inr (Or.inr (Or.inr (Or.inl ⟨rfl, hname⟩)))
  | general =>
      exact hplain ⟨fun _ _ => rfl, fun _ => rfl⟩ fun hu => hname u hu (List.prefix_refl u)
  | C =>
      refine hplain ⟨fun _ _ => rfl, fun _ => rfl⟩ ?_
      rw [hname.2]
      decide +kernel
  | CO =>
      refine hplain ⟨fun _ _ => rfl, fun _ => rfl⟩ ?_
      rw [hname.2]
      decide +kernel
  | CON =>
      refine hplain ⟨fun _ _ => rfl, fun _ => rfl⟩ ?_
      rw [hname.2]
      decide +kernel
  | matchingConnection =>
      obtain ⟨hmin, hmax, rfl⟩ := hname
      exact hplain ⟨fun _ _ => rfl, fun _ => rfl⟩ (hshort (by simp [knownWords]) (by omega))
  | matchingContentLength =>
      obtain ⟨hmin, hmax, rfl⟩ := hname
      exact hplain ⟨fun _ _ => rfl, fun _ => rfl⟩ (hshort (by simp [knownWords]) (by omega))
  | matchingProxyConnection =>
      obtain ⟨hmax, rfl⟩ := hname
      exact hplain ⟨fun _ _ => rfl, fun _ => rfl⟩ (hshort (by simp [knownWords]) (by omega))
  | matchingTransferEncoding =>
      obtain ⟨hmax, rfl⟩ := hname
      exact hplain ⟨fun _ _ => rfl, fun _ => rfl⟩ (hshort (by simp [knownWords]) (by omega))
  | matchingUpgrade =>
      obtain ⟨hmax, rfl⟩ := hname
      exact hplain ⟨fun _ _ => rfl, fun _ => rfl⟩ (hshort (by simp [knownWords]) (by omega))
  | _ => exact hname.elim

/-! ## Values of known names -/

/-- Between two lines nothing else changes. -/
structure LineRead (p p' : HttpParser) : Prop where
  line : AtLine p'
  httpMajor : p'.httpMajor = p.httpMajor
  httpMinor : p'.httpMinor = p.httpMinor
  statusCode : p'.statusCode = p.statusCode
  httpErrno : p'.httpErrno = p.httpErrno
  upgrade : p'.upgrade = p.upgrade

/-- The parser `b` behind the colon of a field that `h` stands for. -/
def atValue (b : HttpParser) (h : HeaderStates) (index : ℕ) : HttpParser :=
  { b with state := .headerValueDiscardWs, headerState := h, index := index }

theorem valueChars_general (index : ℕ) (flags : ParserFlags) (value : Bytes) :
    valueChars .general index flags value = (.general, index, flags) := by
  induction value with
  | nil => rfl
  | cons ch rest ih => exact ih

/-- A value that sets at most the flag of `Upgrade`. -/
theorem Reader.plainValue (hR : Reader R) {h : HeaderStates} {g : ParserFlags → ParserFlags}
    (b : HttpParser) (index : ℕ)
    (hstart : ∀ (p : HttpParser) ch, headerValueStart { p with headerState := h } ch =
      pass { p with
        state := .headerValue, index := 0, headerState := .general, flags := g p.flags })
    (hfinish : ∀ flags, finishFlags h flags = flags) {value : Bytes}
    (htext : ∀ ch ∈ value, isInline ch = true) :
    ∃ p', R (atValue b h index) (value ++ crlf) p' ∧ LineRead b p' ∧
      p'.contentLength = b.contentLength ∧
      (lineFlags p' = b.flags ∨ lineFlags p' = g b.flags) := by
  rcases value_cases value with hblank | ⟨lead, ch, rest, rfl, hlead, hch⟩
  · refine ⟨_, hR.append (hR.blanks hblank { b with headerState := h, index := index })
      (hR.noValue { b with headerState := h, index := index }), ?_, rfl, Or.inl (hfinish _)⟩
    exact ⟨Or.inr (Or.inr rfl), rfl, rfl, rfl, rfl, rfl⟩
  · have hfirst : R (atValue b h index) [ch]
        { b with state := .headerValue, index := 0, headerState := .general, flags := g b.flags } :=
      hR.valueStart (htext ch (by simp)) hch
        (fun n => hstart { b with
          state := .headerValueDiscardWs, index := index, nread := n } ch) rfl rfl
    have hrest := hR.text rest (fun ch hch => htext ch (by simp [hch])) b
      .general 0 (g b.flags) (by decide)
    rw [valueChars_general] at hrest
    have hend := hR.valueEnd { b with index := 0, headerState := .general, flags := g b.flags }
    have hreads := hR.append (hR.blanks hlead { b with headerState := h, index := index })
      (hR.cons hfirst (hR.append hrest hend))
    rw [List.append_assoc]
    exact ⟨_, hreads, ⟨Or.inr (Or.inl rfl), rfl, rfl, rfl, rfl, rfl⟩, rfl, Or.inr rfl⟩

theorem tracks_single {word : Bytes} {matching done h : HeaderStates} {c : UInt8}
    (hword : word.take 1 = [c]) (hlength : 1 < word.length) (hu : EndsIn u [])
    (hmatching : h = matching → lowercase ch = c) (hdone : h ≠ done) :
    Tracks word matching done (u ++ [ch]) h 0 where
  matching hh := by
    refine ⟨hlength, ?_⟩
    rw [hword]
    exact hu.snoc (hmatching hh)
  done hh := absurd hh hdone

theorem endsIn_blanks (h : ∀ ch ∈ u, isBlank ch = true) : EndsIn u [] :=
  ⟨[], u, [], by simp, Or.inl rfl, h, rfl⟩

/-- The state after the first character of a `Connection` value. -/
def connectionStart (ch : UInt8) : HeaderStates :=
  if lower ch = 107 then .matchingConnectionKeepAlive
  else if lower ch = 99 then .matchingConnectionClose
  else if lower ch = 117 then .matchingConnectionUpgrade
  else .matchingConnectionToken

theorem connectionStart_cases (ch : UInt8) :
    (connectionStart ch = .matchingConnectionKeepAlive ∨
        connectionStart ch = .matchingConnectionToken) ∨
      (connectionStart ch = .matchingConnectionClose ∧ lower ch = 99) ∨
      (connectionStart ch = .matchingConnectionUpgrade ∧ lower ch = 117) := by
  unfold connectionStart
  split
  · exact Or.inl (Or.inl rfl)
  · split
    · rename_i hchar
      exact Or.inr (Or.inl ⟨rfl, hchar⟩)
    · split
      · rename_i hchar
        exact Or.inr (Or.inr ⟨rfl, hchar⟩)
      · exact Or.inl (Or.inr rfl)

theorem connectionAt_first (flags : ParserFlags) (hu : EndsIn u []) (ch : UInt8) :
    ConnectionAt flags (u ++ [ch]) (connectionStart ch) 0 flags := by
  obtain ⟨-, -, hclose, hc, hu'⟩ := optionWords
  have hupgrade := knownWords_length.2.2.2.2
  have hletter {c : UInt8} (hchar : lower ch = c) (hmin : 97 ≤ c) (hmax : c ≤ 122) :
      lowercase ch = c :=
    (lowercase_of_lower (hchar ▸ hmin) (hchar ▸ hmax)).trans hchar
  refine ⟨rfl, rfl, rfl, Or.inl, Or.inl, ?_, ?_, ?_, ?_⟩
  · rcases connectionStart_cases ch with (h | h) | ⟨h, -⟩ | ⟨h, -⟩ <;> rw [h] <;> decide
  · rcases connectionStart_cases ch with (h | h) | ⟨h, -⟩ | ⟨h, -⟩ <;> rw [h] <;>
      exact fun h => nomatch h
  · refine tracks_single hc (by omega) hu ?_ ?_
    · rcases connectionStart_cases ch with (h | h) | ⟨h, hchar⟩ | ⟨h, -⟩ <;> rw [h]
      · exact fun h => nomatch h
      · exact fun h => nomatch h
      · exact fun _ => hletter hchar (by decide) (by decide)
      · exact fun h => nomatch h
    · rcases connectionStart_cases ch with (h | h) | ⟨h, -⟩ | ⟨h, -⟩ <;> rw [h] <;> decide
  · refine tracks_single hu' (by omega) hu ?_ ?_
    · rcases connectionStart_cases ch with (h | h) | ⟨h, -⟩ | ⟨h, hchar⟩ <;> rw [h]
      · exact fun h => nomatch h
      · exact fun h => nomatch h
      · exact fun h => nomatch h
      · exact fun _ => hletter hchar (by decide) (by decide)
    · rcases connectionStart_cases ch with (h | h) | ⟨h, -⟩ | ⟨h, -⟩ <;> rw [h] <;> decide

theorem ConnectionAt.chars {flags₀ : ParserFlags} {value : Bytes} :
    ∀ {u : Bytes} {flags : ParserFlags} {h : HeaderStates} {index : ℕ},
      ConnectionAt flags₀ u h index flags → (∀ ch ∈ value, isInline ch = true) →
      ConnectionAt flags₀ (u ++ value) (valueChars h index flags value).1
        (valueChars h index flags value).2.1 (valueChars h index flags value).2.2 := by
  induction value with
  | nil =>
      intro u flags h index hat _
      rw [List.append_nil]
      exact hat
  | cons ch rest ih =>
      intro u flags h index hat htext
      have := ih (hat.next (htext ch (by simp))) fun ch hch => htext ch (by simp [hch])
      rwa [List.append_assoc] at this

/-- What a `Connection` field with this value may do to the flags. -/
structure OptionsRead (value : Bytes) (flags flags' : ParserFlags) : Prop where
  chunked : flags'.chunked = flags.chunked
  trailing : flags'.trailing = flags.trailing
  upgrade : flags'.upgrade = flags.upgrade
  connectionClose : flags'.connectionClose = true →
    flags.connectionClose = true ∨ HasOption value closeWord
  connectionUpgrade : flags'.connectionUpgrade = true →
    flags.connectionUpgrade = true ∨ HasOption value upgradeWord

/-- The end of the value ends its last option. -/
theorem ConnectionAt.finish {flags₀ flags : ParserFlags} {h : HeaderStates} {index : ℕ}
    (hat : ConnectionAt flags₀ u h index flags) : OptionsRead u flags₀ (finishFlags h flags) := by
  have hclose : flags.connectionClose = true →
      flags₀.connectionClose = true ∨ HasOption u closeWord := by
    intro hflag
    rcases hat.connectionClose hflag with hflag | ⟨v, w, rfl, hv⟩
    · exact Or.inl hflag
    · exact Or.inr (HasOption.comma hv w)
  have hoption : flags.connectionUpgrade = true →
      flags₀.connectionUpgrade = true ∨ HasOption u upgradeWord := by
    intro hflag
    rcases hat.connectionUpgrade hflag with hflag | ⟨v, w, rfl, hv⟩
    · exact Or.inl hflag
    · exact Or.inr (HasOption.comma hv w)
  cases h with
  | connectionKeepAlive => exact ⟨hat.chunked, hat.trailing, hat.upgrade, hclose, hoption⟩
  | connectionClose =>
      obtain ⟨v, trail, rfl, htrail, hends⟩ := hat.close.done rfl
      exact ⟨hat.chunked, hat.trailing, hat.upgrade, fun _ => Or.inr (hends.hasOption htrail),
        hoption⟩
  | connectionUpgrade =>
      obtain ⟨v, trail, rfl, htrail, hends⟩ := hat.option.done rfl
      exact ⟨hat.chunked, hat.trailing, hat.upgrade, hclose,
        fun _ => Or.inr (hends.hasOption htrail)⟩
  | transferEncodingChunked => exact absurd rfl hat.known.2
  | _ => exact ⟨hat.chunked, hat.trailing, hat.upgrade, hclose, hoption⟩

theorem Reader.connectionValue (hR : Reader R) (b : HttpParser) (index : ℕ) {value : Bytes}
    (htext : ∀ ch ∈ value, isInline ch = true) :
    ∃ p', R (atValue b .connection index) (value ++ crlf) p' ∧ LineRead b p' ∧
      p'.contentLength = b.contentLength ∧ OptionsRead value b.flags (lineFlags p') := by
  rcases value_cases value with hblank | ⟨lead, ch, rest, rfl, hlead, hch⟩
  · refine ⟨_, hR.append (hR.blanks hblank { b with headerState := .connection, index := index })
      (hR.noValue { b with headerState := .connection, index := index }), ?_, rfl, ?_⟩
    · exact ⟨Or.inr (Or.inr rfl), rfl, rfl, rfl, rfl, rfl⟩
    · exact ⟨rfl, rfl, rfl, Or.inl, Or.inl⟩
  · have hrestText : ∀ ch ∈ rest, isInline ch = true := fun ch hch => htext ch (by simp [hch])
    have hfirst : R (atValue b .connection index) [ch] { b with
        state := .headerValue, headerState := connectionStart ch, index := 0 } :=
      hR.valueStart (htext ch (by simp)) hch (fun n => rfl) rfl rfl
    have hlength : connectionStart ch ≠ .contentLength := by
      rcases connectionStart_cases ch with (h | h) | ⟨h, -⟩ | ⟨h, -⟩ <;> rw [h] <;> decide
    have hat := ((connectionAt_first b.flags (endsIn_blanks hlead) ch).chars hrestText).finish
    have hrest := hR.text _ hrestText b (connectionStart ch) 0 b.flags hlength
    have hend := hR.valueEnd { b with
      headerState := (valueChars (connectionStart ch) 0 b.flags rest).1
      index := (valueChars (connectionStart ch) 0 b.flags rest).2.1
      flags := (valueChars (connectionStart ch) 0 b.flags rest).2.2 }
    have hreads := hR.append
      (hR.blanks hlead { b with headerState := .connection, index := index })
      (hR.cons hfirst (hR.append hrest hend))
    rw [List.append_assoc, List.singleton_append] at hat
    rw [List.append_assoc]
    exact ⟨_, hreads, ⟨Or.inr (Or.inl rfl), rfl, rfl, rfl, rfl, rfl⟩, rfl, hat⟩

theorem isNum_inline (h : isNum ch = true) : isInline ch = true ∧ isBlank ch = false := by
  revert h
  obtain ⟨x⟩ := ch
  revert x
  decide +kernel

theorem le_decimal (digits : Bytes) :
    ∀ n, n ≤ digits.foldl (fun n ch => n * 10 + digit ch) n := by
  induction digits with
  | nil => exact fun n => Nat.le_refl n
  | cons ch rest ih =>
      intro n
      refine Nat.le_trans ?_ (ih (n * 10 + digit ch))
      omega

/-- The digits after the first one. -/
theorem Reader.digits (hR : Reader R) (b : HttpParser) {digits : Bytes}
    (hdigits : ∀ ch ∈ digits, isNum ch = true) : ∀ n,
      digits.foldl (fun n ch => n * 10 + digit ch) n / 10 ≤ (ullongMax - 10) / 10 →
      R { b with state := .headerValue, headerState := .contentLength, contentLength := n }
        digits { b with
          state := .headerValue
          headerState := .contentLength
          contentLength := digits.foldl (fun n ch => n * 10 + digit ch) n } := by
  induction digits with
  | nil => exact fun n _ => hR.nil _
  | cons ch rest ih =>
      intro n hn
      have hch := hdigits ch (by simp)
      obtain ⟨htext, hblank⟩ := isNum_inline hch
      obtain ⟨hcr, hlf, -⟩ := isInline_ne htext
      refine hR.cons ?_ (ih (fun ch hch => hdigits ch (by simp [hch])) _ hn)
      have hle := le_decimal rest (n * 10 + digit ch)
      rw [List.foldl_cons] at hn
      have hlimit : ¬ (ullongMax - 10) / 10 < n := by omega
      refine hR.byte ⟨rfl, fun _ => hlf, nofun, Or.inr ⟨rfl, rfl, Or.inr rfl⟩⟩ fun k _ => ?_
      have hchar : lengthChar n ch = some (n * 10 + digit ch) := by
        rw [lengthChar, if_neg fun h => not_isBlank hblank (Or.inl h), if_neg (not_not.mpr hch),
          if_neg hlimit]
      refine (if_neg hcr).trans ((if_neg hlf).trans ((if_pos rfl).trans ?_))
      simp only [HttpParser.setNread, hchar]

theorem Reader.spaces (hR : Reader R) (b : HttpParser) {trail : Bytes}
    (h : ∀ ch ∈ trail, ch = space) :
    R { b with state := .headerValue, headerState := .contentLength } trail
      { b with state := .headerValue, headerState := .contentLength } := by
  induction trail with
  | nil => exact hR.nil _
  | cons ch rest ih =>
      obtain rfl := h ch (by simp)
      refine hR.cons ?_ (ih fun ch hch => h ch (by simp [hch]))
      exact hR.byte ⟨rfl, fun _ => by decide, nofun, Or.inr ⟨rfl, rfl, Or.inr rfl⟩⟩ fun k _ => rfl

theorem Reader.lengthValue (hR : Reader R) (b : HttpParser) (index : ℕ) {l : HeaderLine} {n : ℕ}
    (hl : l.Announces n) :
    ∃ p', R (atValue b .contentLength index) (l.value ++ crlf) p' ∧ LineRead b p' ∧
      p'.contentLength = n ∧ lineFlags p' = b.flags := by
  obtain ⟨digits, ⟨lead, trail, hvalue, hlead, htrail⟩, hne, hdigits, rfl, hlimit⟩ := hl
  cases digits with
  | nil => exact absurd rfl hne
  | cons ch rest =>
      have hch := hdigits ch (by simp)
      obtain ⟨htext, hblank⟩ := isNum_inline hch
      have hfirst : R (atValue b .contentLength index) [ch] { b with
          state := .headerValue, headerState := .contentLength, index := 0
          contentLength := digit ch } :=
        hR.valueStart htext hblank (fun n => if_pos hch) rfl rfl
      have hdecimal : decimal (ch :: rest) =
          rest.foldl (fun n ch => n * 10 + digit ch) (digit ch) := by
        rw [decimal, List.foldl_cons, Nat.zero_mul, Nat.zero_add]
      rw [hdecimal] at hlimit
      have hrest := hR.digits { b with index := 0 }
        (fun ch hch => hdigits ch (by simp [hch])) (digit ch) hlimit
      rw [← hdecimal] at hrest
      have hend := hR.valueEnd { b with
        headerState := .contentLength, index := 0, contentLength := decimal (ch :: rest) }
      have htrail := hR.spaces
        { b with index := 0, contentLength := decimal (ch :: rest) } htrail
      have hreads := hR.append
        (hR.blanks hlead { b with headerState := .contentLength, index := index })
        (hR.cons hfirst (hR.append hrest (hR.append htrail hend)))
      rw [hvalue, show lead ++ (ch :: rest) ++ trail ++ crlf =
        lead ++ ch :: (rest ++ (trail ++ crlf)) by simp]
      exact ⟨_, hreads, ⟨Or.inr (Or.inl rfl), rfl, rfl, rfl, rfl, rfl⟩, rfl, rfl⟩

/-- The states `matching` and `done` recognise `word` in a value. -/
structure Recognises (word : Bytes) (matching done : HeaderStates) : Prop where
  letters : ∀ c ∈ word, 97 ≤ c ∧ c ≤ 122
  next : ∃ mismatch, ∀ index flags ch, valueChar matching index flags ch =
    (matchWord word (index + 1) (lower ch) mismatch matching done, index + 1, flags)
  space : ∀ index flags, valueChar done index flags space = (done, index, flags)

theorem chunked_recognises :
    Recognises chunkedWord .matchingTransferEncodingChunked .transferEncodingChunked where
  letters := by decide +kernel
  next := ⟨_, fun _ _ _ => rfl⟩
  space _ _ := rfl

theorem close_recognises : Recognises closeWord .matchingConnectionClose .connectionClose where
  letters := by decide +kernel
  next := ⟨_, fun _ _ _ => rfl⟩
  space _ _ := rfl

/-- The word after the character at `index`. -/
theorem Recognises.valueChars {word : Bytes} {matching done : HeaderStates}
    (h : Recognises word matching done) (flags : ParserFlags) (rest : Bytes) :
    ∀ index, rest ≠ [] → rest.map lowercase = word.drop (index + 1) →
      valueChars matching index flags rest = (done, word.length - 1, flags) := by
  obtain ⟨mismatch, hnext⟩ := h.next
  induction rest with
  | nil => exact fun _ h => absurd rfl h
  | cons ch rest ih =>
      intro index _ hrest
      rw [List.map_cons] at hrest
      have hchar : word[index + 1]? = some (lowercase ch) := by
        have := congrArg List.head? hrest
        rwa [List.head?_cons, List.head?_drop, eq_comm] at this
      have hdrop : rest.map lowercase = word.drop (index + 2) := by
        have := congrArg List.tail hrest
        rwa [List.tail_cons, List.tail_drop] at this
      obtain ⟨hmin, hmax⟩ := h.letters _ (List.mem_of_getElem? hchar)
      have hlength : word.length = index + 2 + rest.length := by
        have := congrArg List.length hrest
        rw [List.length_cons, List.length_map, List.length_drop] at this
        omega
      show HttpParser.valueChars (valueChar matching index flags ch).1
        (valueChar matching index flags ch).2.1 (valueChar matching index flags ch).2.2 rest = _
      rw [hnext]
      simp only [matchWord, lower_of_lowercase hmin hmax]
      rw [if_neg (not_not.mpr hchar)]
      split
      · rename_i hend
        have hnil : rest = [] := List.length_eq_zero_iff.mp (by omega)
        rw [hnil, ← hend]
        rfl
      · exact ih (index + 1) (fun hnil => by simp [hnil] at hlength; omega) hdrop

theorem Recognises.spaces {word trail : Bytes} {matching done : HeaderStates}
    (h : Recognises word matching done) (index : ℕ) (flags : ParserFlags)
    (htrail : ∀ ch ∈ trail, ch = WrkQuic.space) :
    HttpParser.valueChars done index flags trail = (done, index, flags) := by
  induction trail with
  | nil => rfl
  | cons ch rest ih =>
      obtain rfl := htrail ch (by simp)
      rw [HttpParser.valueChars, List.foldl_cons, h.space]
      exact ih fun ch hch => htrail ch (by simp [hch])

theorem valueChars_cons (h : HeaderStates) (index : ℕ) (flags : ParserFlags) (ch : UInt8)
    (rest : Bytes) : valueChars h index flags (ch :: rest) =
      valueChars (valueChar h index flags ch).1 (valueChar h index flags ch).2.1
        (valueChar h index flags ch).2.2 rest := rfl

theorem valueChars_append (h : HeaderStates) (index : ℕ) (flags : ParserFlags) (u v : Bytes) :
    valueChars h index flags (u ++ v) = valueChars (valueChars h index flags u).1
      (valueChars h index flags u).2.1 (valueChars h index flags u).2.2 v :=
  List.foldl_append ..

/-- A value that is one word. -/
theorem Reader.wordValue (hR : Reader R) (b : HttpParser) (index : ℕ) {l : HeaderLine}
    {word : Bytes} {h matching done : HeaderStates} (hword : Recognises word matching done)
    (hlong : 1 < word.length) (hlength : matching ≠ .contentLength)
    (hstart : ∀ (p : HttpParser) ch, word.head? = some (lower ch) →
      headerValueStart { p with headerState := h } ch =
        pass { p with state := .headerValue, index := 0, headerState := matching })
    (hl : ∃ content, l.Holds content ∧ content.map lowercase = word) :
    ∃ p', R (atValue b h index) (l.value ++ crlf) p' ∧ LineRead b p' ∧
      p'.contentLength = b.contentLength ∧ lineFlags p' = finishFlags done b.flags := by
  obtain ⟨content, ⟨lead, trail, hvalue, hlead, htrail⟩, rfl⟩ := hl
  cases content with
  | nil => exact absurd hlong (by decide)
  | cons ch rest =>
      rw [List.length_map, List.length_cons] at hlong
      have hrest : rest ≠ [] := fun hnil => by simp [hnil] at hlong
      obtain ⟨hmin, hmax⟩ := hword.letters (lowercase ch) (by simp)
      have hlower := lower_of_lowercase hmin hmax
      have hinline : ∀ ch ∈ l.value, isInline ch = true := l.value_inline
      rw [hvalue] at hinline
      have hblank : isBlank ch = false := by
        cases hblank : isBlank ch with
        | false => rfl
        | true =>
            rw [isBlank, Bool.or_eq_true, decide_eq_true_eq, decide_eq_true_eq] at hblank
            rcases hblank with rfl | rfl <;> exact absurd hmin (by decide)
      have hfirst : R (atValue b h index) [ch]
          { b with state := .headerValue, headerState := matching, index := 0 } :=
        hR.valueStart (hinline ch (by simp)) hblank
          (fun n => hstart { b with state := .headerValueDiscardWs, index := index, nread := n } ch
            (by rw [hlower]; rfl)) rfl rfl
      have hall : valueChars matching 0 b.flags (rest ++ trail) =
          (done, ((ch :: rest).map lowercase).length - 1, b.flags) := by
        rw [valueChars_append, hword.valueChars b.flags rest 0 hrest rfl, hword.spaces _ _ htrail]
      have hchars := hR.text (rest ++ trail)
        (fun ch hch => hinline ch (by simp at hch ⊢; tauto)) b matching 0 b.flags hlength
      rw [hall] at hchars
      have hend := hR.valueEnd { b with
        headerState := done, index := ((ch :: rest).map lowercase).length - 1 }
      have hreads := hR.append (hR.blanks hlead { b with headerState := h, index := index })
        (hR.cons hfirst (hR.append hchars hend))
      rw [hvalue, show lead ++ (ch :: rest) ++ trail ++ crlf =
        lead ++ ch :: (rest ++ trail ++ crlf) by simp]
      exact ⟨_, hreads, ⟨Or.inr (Or.inl rfl), rfl, rfl, rfl, rfl, rfl⟩, rfl, rfl⟩

theorem Reader.chunkedValue (hR : Reader R) (b : HttpParser) (index : ℕ) {l : HeaderLine}
    (hl : l.Chunked) :
    ∃ p', R (atValue b .transferEncoding index) (l.value ++ crlf) p' ∧ LineRead b p' ∧
      p'.contentLength = b.contentLength ∧ lineFlags p' = { b.flags with chunked := true } := by
  refine hR.wordValue b index chunked_recognises (by decide +kernel) (by decide) ?_ hl
  intro p ch hch
  have hhead : chunkedWord.head? = some 99 := by decide +kernel
  have hlower := Option.some.inj (hch.symm.trans hhead)
  show pass _ = pass _
  simp only [hlower]
  rfl

/-- The state of `s_header_value` after `u` of the value of a
`Transfer-Encoding` field. -/
structure CodingAt (u : Bytes) (h : HeaderStates) (index : ℕ) : Prop where
  known : h = .matchingTransferEncodingChunked ∨ h = .transferEncodingChunked ∨ h = .general
  matching : h = .matchingTransferEncodingChunked →
    index + 1 < chunkedWord.length ∧ u.map lowercase = chunkedWord.take (index + 1)
  done : h = .transferEncodingChunked → ∃ v trail, u = v ++ trail ∧ (∀ ch ∈ trail, ch = space) ∧
    v.map lowercase = chunkedWord

theorem CodingAt.general (u : Bytes) (index : ℕ) : CodingAt u .general index :=
  ⟨Or.inr (Or.inr rfl), (fun h => by cases h), fun h => by cases h⟩

theorem CodingAt.next {h : HeaderStates} {index : ℕ} (hat : CodingAt u h index)
    (flags : ParserFlags) (ch : UInt8) :
    CodingAt (u ++ [ch]) (valueChar h index flags ch).1 (valueChar h index flags ch).2.1 ∧
      (valueChar h index flags ch).2.2 = flags := by
  rcases hat.known with rfl | rfl | rfl
  · obtain ⟨hindex, hu⟩ := hat.matching rfl
    refine ⟨?_, rfl⟩
    simp only [valueChar, matchWord]
    split
    · exact .general _ _
    · rename_i hc
      have hc := not_not.mp hc
      obtain ⟨hmin, hmax⟩ := chunked_recognises.letters _ (List.mem_of_getElem? hc)
      have hu' : (u ++ [ch]).map lowercase = chunkedWord.take (index + 2) := by
        rw [List.map_append, hu, List.map_singleton, lowercase_of_lower hmin hmax, take_snoc hc]
      split
      · rename_i hend
        refine ⟨Or.inr (Or.inl rfl), (fun h => by cases h),
          fun _ => ⟨u ++ [ch], [], by simp, by simp, ?_⟩⟩
        rw [hu', List.take_of_length_le (Nat.le_of_eq hend.symm)]
      · exact ⟨Or.inl rfl, fun _ => ⟨by omega, hu'⟩, fun h => by cases h⟩
  · obtain ⟨v, trail, rfl, htrail, hv⟩ := hat.done rfl
    simp only [valueChar]
    split
    · exact ⟨.general _ _, trivial⟩
    · rename_i hspace
      refine ⟨⟨Or.inr (Or.inl rfl), (fun h => by cases h),
        fun _ => ⟨v, trail ++ [ch], by simp, ?_, hv⟩⟩, trivial⟩
      intro ch' hch'
      rcases List.mem_append.mp hch' with hch' | hch'
      · exact htrail ch' hch'
      · rw [List.mem_singleton.mp hch']
        exact not_not.mp hspace
  · exact ⟨.general _ _, rfl⟩

theorem CodingAt.chars (value : Bytes) (flags : ParserFlags) :
    ∀ {u : Bytes} {h : HeaderStates} {index : ℕ}, CodingAt u h index →
      CodingAt (u ++ value) (valueChars h index flags value).1
        (valueChars h index flags value).2.1 ∧ (valueChars h index flags value).2.2 = flags := by
  induction value with
  | nil =>
      intro u h index hat
      rw [List.append_nil]
      exact ⟨hat, rfl⟩
  | cons ch rest ih =>
      intro u h index hat
      obtain ⟨hnext, hflags⟩ := hat.next flags ch
      have hrest := ih hnext
      rw [List.append_assoc] at hrest
      rw [valueChars_cons, hflags]
      exact hrest

/-- The state after the first character of a `Transfer-Encoding` value. -/
def codingStart (ch : UInt8) : HeaderStates :=
  if lower ch = 99 then .matchingTransferEncodingChunked else .general

theorem codingAt_first (ch : UInt8) : CodingAt [ch] (codingStart ch) 0 := by
  unfold codingStart
  split
  · rename_i hchar
    refine ⟨Or.inl rfl, fun _ => ⟨by decide +kernel, ?_⟩, fun h => by cases h⟩
    rw [List.map_singleton, lowercase_of_lower (by rw [hchar]; decide) (by rw [hchar]; decide),
      hchar]
    decide +kernel
  · exact .general _ _

/-- A value that is anything but `chunked` sets no flag. -/
theorem Reader.codingValue (hR : Reader R) (b : HttpParser) (index : ℕ) {l : HeaderLine}
    (hl : ¬ l.Chunked) :
    ∃ p', R (atValue b .transferEncoding index) (l.value ++ crlf) p' ∧ LineRead b p' ∧
      p'.contentLength = b.contentLength ∧ lineFlags p' = b.flags := by
  rcases value_cases l.value with hblank | ⟨lead, ch, rest, hvalue, hlead, hch⟩
  · refine ⟨_, hR.append
      (hR.blanks hblank { b with headerState := .transferEncoding, index := index })
      (hR.noValue { b with headerState := .transferEncoding, index := index }), ?_, rfl, rfl⟩
    exact ⟨Or.inr (Or.inr rfl), rfl, rfl, rfl, rfl, rfl⟩
  · have htext : ∀ ch ∈ l.value, isInline ch = true := l.value_inline
    rw [hvalue] at htext
    have hrestText : ∀ ch ∈ rest, isInline ch = true := fun ch hch => htext ch (by simp [hch])
    have hfirst : R (atValue b .transferEncoding index) [ch] { b with
        state := .headerValue, headerState := codingStart ch, index := 0 } :=
      hR.valueStart (htext ch (by simp)) hch (fun n => rfl) rfl rfl
    have hlength : codingStart ch ≠ .contentLength := by
      rcases (codingAt_first ch).known with hh | hh | hh <;> rw [hh] <;> decide
    obtain ⟨hat, hflags⟩ := (codingAt_first ch).chars rest b.flags
    have hrest := hR.text _ hrestText b (codingStart ch) 0 b.flags hlength
    have hend := hR.valueEnd { b with
      headerState := (valueChars (codingStart ch) 0 b.flags rest).1
      index := (valueChars (codingStart ch) 0 b.flags rest).2.1
      flags := (valueChars (codingStart ch) 0 b.flags rest).2.2 }
    have hreads := hR.append
      (hR.blanks hlead { b with headerState := .transferEncoding, index := index })
      (hR.cons hfirst (hR.append hrest hend))
    rw [hvalue, List.append_assoc]
    refine ⟨_, hreads, ⟨Or.inr (Or.inl rfl), rfl, rfl, rfl, rfl, rfl⟩, rfl, ?_⟩
    show finishFlags (valueChars (codingStart ch) 0 b.flags rest).1
      (valueChars (codingStart ch) 0 b.flags rest).2.2 = b.flags
    rw [hflags]
    rcases hat.known with hh | hh | hh
    · rw [hh]
      rfl
    · obtain ⟨v, trail, hword, htrail, hv⟩ := hat.done hh
      refine absurd ⟨v, ⟨lead, trail, ?_, hlead, htrail⟩, hv⟩ hl
      rw [hvalue, List.append_assoc, ← hword]
      rfl
    · rw [hh]
      rfl

end HttpParser

end WrkQuic
