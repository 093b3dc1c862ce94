import WrkQuic.HttpNames

/-!
# The parser on header values

A value is what stands between its blanks and its line break. Of a value of
`Connection` the parser keeps which option it is in and which ones it has
passed (`ConnectionAt`).
-/

namespace WrkQuic

open Scanner HttpParser

namespace HttpParser

variable {p p' p'' : HttpParser} {ch c : UInt8} {u v w : Bytes} {loop : Option ℕ}

variable {R : HttpParser → Bytes → HttpParser → Prop}

/-! ## Values -/

theorem lowercase_of_lower (hmin : 97 ≤ lower ch) (hmax : lower ch ≤ 122) :
    lowercase ch = lower ch := by
  revert hmin hmax
  obtain ⟨x⟩ := ch
  revert x
  decide +kernel

theorem lower_of_lowercase (hmin : 97 ≤ lowercase ch) (hmax : lowercase ch ≤ 122) :
    lower ch = lowercase ch := by
  revert hmin hmax
  obtain ⟨x⟩ := ch
  revert x
  decide +kernel

/-- The only text character that `LOWER` makes a blank. -/
theorem eq_space_of_lower (htext : isInline ch = true) (h : lower ch = space ∨ lower ch = tab) :
    ch = space := by
  revert htext h
  obtain ⟨x⟩ := ch
  revert x
  decide +kernel

theorem not_isBlank (h : isBlank ch = false) : ¬ (ch = space ∨ ch = tab) := by
  rw [isBlank, Bool.or_eq_false_iff, decide_eq_false_iff_not, decide_eq_false_iff_not] at h
  exact fun hch => hch.elim h.1 h.2

theorem Reader.blanks (hR : Reader R) {lead : Bytes} (h : ∀ ch ∈ lead, isBlank ch = true)
    (p : HttpParser) :
    R { p with state := .headerValueDiscardWs } lead
      { p with state := .headerValueDiscardWs } := by
  induction lead with
  | nil => exact hR.nil _
  | cons ch rest ih =>
      refine hR.cons ?_ (ih fun ch hch => h ch (by simp [hch]))
      have hch : ch = space ∨ ch = tab := by
        have := h ch (by simp)
        rwa [isBlank, Bool.or_eq_true, decide_eq_true_eq, decide_eq_true_eq] at this
      exact hR.next (.between rfl rfl rfl) fun n _ => if_pos hch

/-- A value without text. -/
theorem Reader.noValue (hR : Reader R) (p : HttpParser) :
    R { p with state := .headerValueDiscardWs } crlf
      { p with state := .headerValueDiscardLws } := by
  have hcr : R { p with state := .headerValueDiscardWs } [cr]
      { p with state := .headerValueDiscardWsAlmostDone } :=
    hR.next (.between rfl rfl rfl) fun n _ => rfl
  exact hR.cons hcr (hR.next ⟨rfl, nofun, fun _ => rfl, Or.inl rfl⟩ fun n _ => rfl)

theorem Reader.valueStart (hR : Reader R) (htext : isInline ch = true) (hblank : isBlank ch = false)
    (h : ∀ n, headerValueStart ((p.setNread n)) ch = pass (p'.setNread n))
    (hp : p.state = .headerValueDiscardWs) (hp' : p'.state = .headerValue) : R p [ch] p' := by
  obtain ⟨hcr, hlf, -⟩ := isInline_ne htext
  have hfield : FieldByte p ch p' none :=
    ⟨by rw [hp]; rfl, fun _ => hlf, by rw [hp']; nofun, Or.inl rfl⟩
  refine hR.next hfield fun n _ => ?_
  rw [scanState, show (p.setNread n).state = .headerValueDiscardWs from hp]
  exact (if_neg (not_isBlank hblank)).trans ((if_neg hcr).trans ((if_neg hlf).trans (h n)))

theorem Reader.valueEnd (hR : Reader R) (p : HttpParser) :
    R { p with state := .headerValue } crlf { p with state := .headerValueLws } := by
  have hcr : R { p with state := .headerValue } [cr] { p with state := .headerAlmostDone } :=
    hR.next ⟨rfl, fun _ => by decide, nofun, Or.inl rfl⟩ fun n hn =>
      countHeaderSize_of_le (n := 0) hn
  exact hR.cons hcr (hR.next ⟨rfl, nofun, fun _ => rfl, Or.inl rfl⟩ fun n _ => rfl)

/-- The text of a value, but for `Content-Length`. -/
def valueChars (h : HeaderStates) (index : ℕ) (flags : ParserFlags) (value : Bytes) :
    HeaderStates × ℕ × ParserFlags :=
  value.foldl (fun r ch => valueChar r.1 r.2.1 r.2.2 ch) (h, index, flags)

theorem valueChar_ne_contentLength (h : HeaderStates) (index : ℕ) (flags : ParserFlags)
    (ch : UInt8) : (valueChar h index flags ch).1 ≠ .contentLength := by
  unfold valueChar matchWord optionStart
  cases h
  all_goals
    simp only
    repeat' split
    all_goals exact fun h => nomatch h

theorem Reader.text (hR : Reader R) (value : Bytes) (htext : ∀ ch ∈ value, isInline ch = true)
    (p : HttpParser) : ∀ (h : HeaderStates) (index : ℕ) (flags : ParserFlags),
      h ≠ .contentLength →
      R { p with state := .headerValue, headerState := h, index := index, flags := flags } value
        { p with
          state := .headerValue
          headerState := (valueChars h index flags value).1
          index := (valueChars h index flags value).2.1
          flags := (valueChars h index flags value).2.2 } := by
  induction value with
  | nil => exact fun _ _ _ _ => hR.nil _
  | cons ch rest ih =>
      intro h index flags hlength
      obtain ⟨hcr, hlf, -⟩ := isInline_ne (htext ch (by simp))
      refine hR.cons ?_ (ih (fun ch hch => htext ch (by simp [hch])) _ _ _
        (valueChar_ne_contentLength h index flags ch))
      refine hR.byte ⟨rfl, fun _ => hlf, nofun, Or.inr ⟨rfl, rfl, Or.inr rfl⟩⟩ fun n _ => ?_
      exact (if_neg hcr).trans ((if_neg hlf).trans (if_neg hlength))

/-- Every value is blank, or it has text after the blanks. -/
theorem value_cases (value : Bytes) : (∀ ch ∈ value, isBlank ch = true) ∨
    ∃ lead ch rest, value = lead ++ ch :: rest ∧ (∀ ch ∈ lead, isBlank ch = true) ∧
      isBlank ch = false := by
  induction value with
  | nil => exact Or.inl fun ch hch => by cases hch
  | cons ch rest ih =>
      cases hch : isBlank ch with
      | false => exact Or.inr ⟨[], ch, rest, rfl, (fun ch hch => by cases hch), hch⟩
      | true =>
          rcases ih with hrest | ⟨lead, ch', rest', rfl, hlead, hch'⟩
          · exact Or.inl (by simpa [hch] using hrest)
          · exact Or.inr ⟨ch :: lead, ch', rest', rfl, by simpa [hch] using hlead, hch'⟩

/-! ## Connection options -/

/-- What `u` holds of its last option is `part`. -/
def EndsIn (u part : Bytes) : Prop :=
  ∃ before lead option, u = before ++ lead ++ option ∧
    (before = [] ∨ ∃ v, before = v ++ [comma]) ∧ (∀ ch ∈ lead, isBlank ch = true) ∧
    option.map lowercase = part

theorem EndsIn.snoc {part : Bytes} (h : EndsIn u part) (hch : lowercase ch = c) :
    EndsIn (u ++ [ch]) (part ++ [c]) := by
  obtain ⟨before, lead, option, rfl, hbefore, hlead, rfl⟩ := h
  refine ⟨before, lead, option ++ [ch], by simp, hbefore, hlead, ?_⟩
  rw [List.map_append, List.map_singleton, hch]

theorem endsIn_comma (u : Bytes) : EndsIn (u ++ [comma]) [] :=
  ⟨u ++ [comma], [], [], by simp, Or.inr ⟨u, rfl⟩, (fun ch hch => by cases hch), rfl⟩

theorem EndsIn.blank (h : EndsIn u []) (hch : isBlank ch = true) : EndsIn (u ++ [ch]) [] := by
  obtain ⟨before, lead, option, rfl, hbefore, hlead, hoption⟩ := h
  obtain rfl := List.map_eq_nil_iff.mp hoption
  refine ⟨before, lead ++ [ch], [], by simp, hbefore, ?_, rfl⟩
  intro ch' hch'
  rcases List.mem_append.mp hch' with hch' | hch'
  · exact hlead ch' hch'
  · rw [List.mem_singleton.mp hch']
    exact hch

theorem EndsIn.hasOption {trail : Bytes} (h : EndsIn u w) (htrail : ∀ ch ∈ trail, ch = space) :
    HasOption (u ++ trail) w := by
  obtain ⟨before, lead, option, rfl, hbefore, hlead, hoption⟩ := h
  refine ⟨before, lead, option, trail, [], by simp, hbefore, Or.inl rfl, hlead, ?_, hoption⟩
  intro ch hch
  rw [htrail ch hch]
  decide

theorem HasOption.comma (h : HasOption u w) (v : Bytes) : HasOption (u ++ comma :: v) w := by
  obtain ⟨before, lead, option, trail, after, rfl, hbefore, hafter, hlead, htrail, hoption⟩ := h
  refine ⟨before, lead, option, trail, after ++ comma :: v, by simp, hbefore, Or.inr ?_, hlead,
    htrail, hoption⟩
  rcases hafter with rfl | ⟨x, rfl⟩
  · exact ⟨v, rfl⟩
  · exact ⟨x ++ comma :: v, by simp⟩

/-- The option `word` is recognised in the states `matching` and `done`. -/
structure Tracks (word : Bytes) (matching done : HeaderStates) (u : Bytes) (h : HeaderStates)
    (index : ℕ) : Prop where
  matching : h = matching → index + 1 < word.length ∧ EndsIn u (word.take (index + 1))
  done : h = done → ∃ v trail, u = v ++ trail ∧ (∀ ch ∈ trail, ch = space) ∧ EndsIn v word

/-- The state of `s_header_value` after `u` of the value of a `Connection`
field. An option that is followed by a comma has set its flag. -/
structure ConnectionAt (flags₀ : ParserFlags) (u : Bytes) (h : HeaderStates) (index : ℕ)
    (flags : ParserFlags) : Prop where
  chunked : flags.chunked = flags₀.chunked
  trailing : flags.trailing = flags₀.trailing
  upgrade : flags.upgrade = flags₀.upgrade
  connectionClose : flags.connectionClose = true → flags₀.connectionClose = true ∨
    ∃ v w, u = v ++ comma :: w ∧ HasOption v closeWord
  connectionUpgrade : flags.connectionUpgrade = true → flags₀.connectionUpgrade = true ∨
    ∃ v w, u = v ++ comma :: w ∧ HasOption v upgradeWord
  known : h ≠ .matchingTransferEncodingChunked ∧ h ≠ .transferEncodingChunked
  start : h = .matchingConnectionTokenStart → index = 0 ∧ EndsIn u []
  close : Tracks closeWord .matchingConnectionClose .connectionClose u h index
  option : Tracks upgradeWord .matchingConnectionUpgrade .connectionUpgrade u h index

/-- The flags after one more character that sets none. -/
theorem ConnectionAt.snoc {flags₀ flags : ParserFlags} {h h' : HeaderStates} {index index' : ℕ}
    (hat : ConnectionAt flags₀ u h index flags)
    (hknown : h' ≠ .matchingTransferEncodingChunked ∧ h' ≠ .transferEncodingChunked)
    (hstart : h' = .matchingConnectionTokenStart → index' = 0 ∧ EndsIn (u ++ [ch]) [])
    (hclose : Tracks closeWord .matchingConnectionClose .connectionClose (u ++ [ch]) h' index')
    (hoption : Tracks upgradeWord .matchingConnectionUpgrade .connectionUpgrade (u ++ [ch]) h'
      index') : ConnectionAt flags₀ (u ++ [ch]) h' index' flags where
  chunked := hat.chunked
  trailing := hat.trailing
  upgrade := hat.upgrade
  connectionClose hflag := by
    rcases hat.connectionClose hflag with hflag | ⟨v, w, rfl, hv⟩
    · exact Or.inl hflag
    · exact Or.inr ⟨v, w ++ [ch], by simp, hv⟩
  connectionUpgrade hflag := by
    rcases hat.connectionUpgrade hflag with hflag | ⟨v, w, rfl, hv⟩
    · exact Or.inl hflag
    · exact Or.inr ⟨v, w ++ [ch], by simp, hv⟩
  known := hknown
  start := hstart
  close := hclose
  option := hoption

theorem Tracks.of_ne {word : Bytes} {matching done h : HeaderStates} {index : ℕ}
    (hmatching : h ≠ matching) (hdone : h ≠ done) : Tracks word matching done u h index where
  matching hh := absurd hh hmatching
  done hh := absurd hh hdone

theorem matchWord_mem (word : Bytes) (index : ℕ) (c : UInt8) (mismatch same done : HeaderStates) :
    matchWord word index c mismatch same done = mismatch ∨
      matchWord word index c mismatch same done = same ∨
      matchWord word index c mismatch same done = done := by
  unfold matchWord
  split
  · exact Or.inl rfl
  · split
    · exact Or.inr (Or.inr rfl)
    · exact Or.inr (Or.inl rfl)

/-- One character of an option that has matched `word` so far. -/
theorem Tracks.next {word : Bytes} {matching done : HeaderStates} {index : ℕ}
    (h : Tracks word matching done u matching index)
    (hletters : ∀ c ∈ word, 97 ≤ c ∧ c ≤ 122) (hne : matching ≠ done)
    (hmatching : .matchingConnectionToken ≠ matching) (hdone : .matchingConnectionToken ≠ done)
    (ch : UInt8) :
    Tracks word matching done (u ++ [ch])
      (matchWord word (index + 1) (lower ch) .matchingConnectionToken matching done)
      (index + 1) := by
  obtain ⟨hindex, hends⟩ := h.matching rfl
  unfold matchWord
  split
  · exact .of_ne hmatching hdone
  · rename_i hc
    have hc := not_not.mp hc
    obtain ⟨hmin, hmax⟩ := hletters _ (List.mem_of_getElem? hc)
    have hends' : EndsIn (u ++ [ch]) (word.take (index + 2)) := by
      rw [← take_snoc hc]
      exact hends.snoc (lowercase_of_lower hmin hmax)
    split
    · rename_i hend
      rw [List.take_of_length_le (Nat.le_of_eq hend.symm)] at hends'
      exact
        { matching := fun h => absurd h.symm hne
          done := fun _ => ⟨u ++ [ch], [], by simp, (fun ch hch => by cases hch), hends'⟩ }
    · exact
        { matching := fun _ => ⟨by omega, hends'⟩
          done := fun h => absurd h hne }

/-- A character after a complete option. -/
theorem Tracks.trail {word : Bytes} {matching done : HeaderStates} {index : ℕ}
    (h : Tracks word matching done u done index) (hne : matching ≠ done)
    (hmatching : .matchingConnectionToken ≠ matching) (hdone : .matchingConnectionToken ≠ done)
    (ch : UInt8) :
    Tracks word matching done (u ++ [ch])
      (if ch ≠ space then .matchingConnectionToken else done) index := by
  split
  · exact .of_ne hmatching hdone
  · rename_i hspace
    obtain ⟨v, trail, rfl, htrail, hends⟩ := h.done rfl
    refine ⟨fun h => absurd h.symm hne, fun _ => ⟨v, trail ++ [ch], by simp, ?_, hends⟩⟩
    intro ch' hch'
    rcases List.mem_append.mp hch' with hch' | hch'
    · exact htrail ch' hch'
    · rw [List.mem_singleton.mp hch']
      exact not_not.mp hspace

theorem optionWords : (∀ c ∈ closeWord, 97 ≤ c ∧ c ≤ 122) ∧ (∀ c ∈ upgradeWord, 97 ≤ c ∧ c ≤ 122) ∧
    closeWord.length = 5 ∧ closeWord.take 1 = [99] ∧ upgradeWord.take 1 = [117] := by
  decide +kernel

/-- After the comma that ends an option. -/
theorem ConnectionAt.comma {flags₀ flags flags' : ParserFlags} {h : HeaderStates} {index : ℕ}
    (hat : ConnectionAt flags₀ u h index flags) (hchunked : flags'.chunked = flags.chunked)
    (htrailing : flags'.trailing = flags.trailing) (hupgrade : flags'.upgrade = flags.upgrade)
    (hclose : flags'.connectionClose = true →
      flags.connectionClose = true ∨ HasOption u closeWord)
    (hoption : flags'.connectionUpgrade = true →
      flags.connectionUpgrade = true ∨ HasOption u upgradeWord) :
    ConnectionAt flags₀ (u ++ [WrkQuic.comma]) .matchingConnectionTokenStart 0 flags' := by
  have hsnoc : ConnectionAt flags₀ (u ++ [WrkQuic.comma]) .matchingConnectionTokenStart 0 flags :=
    hat.snoc (by decide) (fun _ => ⟨rfl, endsIn_comma u⟩) (.of_ne (by decide) (by decide))
    (.of_ne (by decide) (by decide))
  exact
    { hsnoc with
      chunked := hchunked.trans hat.chunked
      trailing := htrailing.trans hat.trailing
      upgrade := hupgrade.trans hat.upgrade
      connectionClose := fun hflag => (hclose hflag).elim hsnoc.connectionClose
        fun hu => Or.inr ⟨u, [], rfl, hu⟩
      connectionUpgrade := fun hflag => (hoption hflag).elim hsnoc.connectionUpgrade
        fun hu => Or.inr ⟨u, [], rfl, hu⟩ }

/-- A state that neither holds a part of an option nor starts one. -/
theorem ConnectionAt.idle {flags₀ flags : ParserFlags} {h h' : HeaderStates} {index index' : ℕ}
    (hat : ConnectionAt flags₀ u h index flags)
    (hidle : h' = .matchingConnectionToken ∨ h' = .matchingConnectionKeepAlive ∨
      h' = .connectionKeepAlive ∨ h' = .general) :
    ConnectionAt flags₀ (u ++ [ch]) h' index' flags := by
  rcases hidle with rfl | rfl | rfl | rfl
  all_goals
    exact hat.snoc (by decide) (fun h => nomatch h) (.of_ne (by decide) (by decide))
      (.of_ne (by decide) (by decide))

theorem ConnectionAt.next {flags₀ flags : ParserFlags} {h : HeaderStates} {index : ℕ}
    (hat : ConnectionAt flags₀ u h index flags) (htext : isInline ch = true) :
    ConnectionAt flags₀ (u ++ [ch]) (valueChar h index flags ch).1
      (valueChar h index flags ch).2.1 (valueChar h index flags ch).2.2 := by
  obtain ⟨lclose, lupgrade, hcloseLength, hc, hu⟩ := optionWords
  have hupgradeLength := knownWords_length.2.2.2.2
  have hletter {c : UInt8} (hchar : lower ch = c) (hmin : 97 ≤ c) (hmax : c ≤ 122) :
      lowercase ch = c :=
    (lowercase_of_lower (hchar ▸ hmin) (hchar ▸ hmax)).trans hchar
  cases h with
  | matchingConnectionTokenStart =>
      obtain ⟨rfl, hends⟩ := hat.start rfl
      simp only [valueChar, optionStart]
      split
      · exact hat.idle (by simp)
      · split
        · rename_i hchar
          refine hat.snoc (by decide) (fun h => nomatch h)
            ⟨fun _ => ⟨by omega, ?_⟩, fun h => nomatch h⟩ (.of_ne (by decide) (by decide))
          rw [hc]
          exact hends.snoc (hletter hchar (by decide) (by decide))
        · split
          · rename_i hchar
            refine hat.snoc (by decide) (fun h => nomatch h) (.of_ne (by decide) (by decide))
              ⟨fun _ => ⟨by omega, ?_⟩, fun h => nomatch h⟩
            rw [hu]
            exact hends.snoc (hletter hchar (by decide) (by decide))
          · split
            · exact hat.idle (by simp)
            · split
              · rename_i hblank
                have hspace := eq_space_of_lower htext hblank
                exact hat.snoc (by decide) (fun _ => ⟨rfl, hends.blank (by rw [hspace]; decide)⟩)
                  (.of_ne (by decide) (by decide)) (.of_ne (by decide) (by decide))
              · exact hat.idle (by simp)
  | matchingConnectionKeepAlive =>
      rcases matchWord_mem keepAliveWord (index + 1) (lower ch) .matchingConnectionToken
        .matchingConnectionKeepAlive .connectionKeepAlive with h | h | h
      all_goals
        simp only [valueChar, h]
        exact hat.idle (by simp)
  | matchingConnectionClose =>
      have hclose := hat.close.next lclose (by decide) (by decide) (by decide) ch
      rcases matchWord_mem closeWord (index + 1) (lower ch) .matchingConnectionToken
        .matchingConnectionClose .connectionClose with h | h | h
      all_goals
        rw [h] at hclose
        simp only [valueChar, h]
        exact hat.snoc (by decide) (fun h => nomatch h) hclose (.of_ne (by decide) (by decide))
  | matchingConnectionUpgrade =>
      have hoption := hat.option.next lupgrade (by decide) (by decide) (by decide) ch
      rcases matchWord_mem upgradeWord (index + 1) (lower ch) .matchingConnectionToken
        .matchingConnectionUpgrade .connectionUpgrade with h | h | h
      all_goals
        rw [h] at hoption
        simp only [valueChar, h]
        exact hat.snoc (by decide) (fun h => nomatch h) (.of_ne (by decide) (by decide)) hoption
  | matchingConnectionToken =>
      simp only [valueChar]
      split
      · rename_i hcomma
        rw [hcomma]
        exact hat.comma rfl rfl rfl Or.inl Or.inl
      · exact hat.idle (by simp)
  | connectionKeepAlive =>
      simp only [valueChar]
      split
      · rename_i hcomma
        rw [hcomma]
        exact hat.comma rfl rfl rfl Or.inl Or.inl
      · exact hat.idle (by split <;> simp)
  | connectionClose =>
      have hclose := hat.close.trail (by decide) (by decide) (by decide) ch
      simp only [valueChar]
      split
      · rename_i hcomma
        rw [hcomma]
        obtain ⟨v, trail, rfl, htrail, hends⟩ := hat.close.done rfl
        exact hat.comma rfl rfl rfl (fun _ => Or.inr (hends.hasOption htrail)) Or.inl
      · simp only
        split
        · exact hat.idle (by simp)
        · rename_i hspace
          rw [if_neg hspace] at hclose
          exact hat.snoc (by decide) (fun h => nomatch h) hclose (.of_ne (by decide) (by decide))
  | connectionUpgrade =>
      have hoption := hat.option.trail (by decide) (by decide) (by decide) ch
      simp only [valueChar]
      split
      · rename_i hcomma
        rw [hcomma]
        obtain ⟨v, trail, rfl, htrail, hends⟩ := hat.option.done rfl
        exact hat.comma rfl rfl rfl Or.inl (fun _ => Or.inr (hends.hasOption htrail))
      · simp only
        split
        · exact hat.idle (by simp)
        · rename_i hspace
          rw [if_neg hspace] at hoption
          exact hat.snoc (by decide) (fun h => nomatch h) (.of_ne (by decide) (by decide)) hoption
  | matchingTransferEncodingChunked => exact absurd rfl hat.known.1
  | transferEncodingChunked => exact absurd rfl hat.known.2
  | _ => exact hat.idle (by simp [valueChar])

end HttpParser

end WrkQuic
