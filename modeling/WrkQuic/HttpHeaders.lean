import WrkQuic.HttpValues

/-!
# The parser on header sections

What the parser knows after the lines of a header section is what the lines
say (`LinesRead`), and so for the fields of a response (`SectionRead`).
-/

namespace WrkQuic

open Scanner HttpParser

namespace HttpParser

variable {p p' p'' : HttpParser} {ch c : UInt8} {u v w : Bytes} {loop : Option ℕ}

variable {R : HttpParser → Bytes → HttpParser → Prop}

/-! ## Lines of a header section -/

/-- The parser has read `lines`, whose content lengths are `n`. -/
structure LinesRead (lines : List HeaderLine) (n : ℕ) (p p' : HttpParser) : Prop
    extends LineRead p p' where
  announced : (∃ l ∈ lines, l.Named contentLengthWord) → p'.contentLength = n
  unannounced : (∀ l ∈ lines, ¬ l.Named contentLengthWord) → p'.contentLength = p.contentLength
  trailing : (lineFlags p').trailing = (lineFlags p).trailing
  chunked : (lineFlags p').chunked = true ↔
    (lineFlags p).chunked = true ∨ ∃ l ∈ lines, l.Named transferEncodingWord ∧ l.Chunked
  offered : (lineFlags p').upgrade = true →
    (lineFlags p).upgrade = true ∨ ∃ l ∈ lines, l.Named upgradeWord
  connectionClose : (lineFlags p').connectionClose = true →
    (lineFlags p).connectionClose = true ∨ ∃ l ∈ lines, l.Connection closeWord
  connectionUpgrade : (lineFlags p').connectionUpgrade = true →
    (lineFlags p).connectionUpgrade = true ∨ ∃ l ∈ lines, l.Connection upgradeWord

theorem LinesRead.nil {n : ℕ} (hp : AtLine p) : LinesRead [] n p p where
  line := hp
  httpMajor := rfl
  httpMinor := rfl
  statusCode := rfl
  httpErrno := rfl
  upgrade := rfl
  announced h := by simp at h
  unannounced _ := rfl
  trailing := rfl
  chunked := by simp
  offered h := Or.inl h
  connectionClose h := Or.inl h
  connectionUpgrade h := Or.inl h

theorem LinesRead.cons {l : HeaderLine} {lines : List HeaderLine} {n : ℕ}
    (h : LinesRead [l] n p p') (h' : LinesRead lines n p' p'') :
    LinesRead (l :: lines) n p p'' where
  line := h'.line
  httpMajor := h'.httpMajor.trans h.httpMajor
  httpMinor := h'.httpMinor.trans h.httpMinor
  statusCode := h'.statusCode.trans h.statusCode
  httpErrno := h'.httpErrno.trans h.httpErrno
  upgrade := h'.upgrade.trans h.upgrade
  announced hnamed := by
    by_cases hrest : ∃ l ∈ lines, l.Named contentLengthWord
    · exact h'.announced hrest
    · obtain ⟨l', hl', hname⟩ := hnamed
      rw [h'.unannounced fun l hl hname => hrest ⟨l, hl, hname⟩]
      rcases List.mem_cons.mp hl' with rfl | hl'
      · exact h.announced ⟨l', by simp, hname⟩
      · exact absurd ⟨l', hl', hname⟩ hrest
  unannounced hnamed := by
    rw [h'.unannounced fun l hl => hnamed l (by simp [hl]),
      h.unannounced (by simpa using hnamed l (by simp))]
  trailing := h'.trailing.trans h.trailing
  chunked := by
    rw [h'.chunked, h.chunked]
    simp [or_assoc]
  offered hflag := by
    rcases h'.offered hflag with hflag | ⟨l', hl', hname⟩
    · rcases h.offered hflag with hflag | ⟨l', hl', hname⟩
      · exact Or.inl hflag
      · exact Or.inr ⟨l', by simp_all, hname⟩
    · exact Or.inr ⟨l', by simp [hl'], hname⟩
  connectionClose hflag := by
    rcases h'.connectionClose hflag with hflag | ⟨l', hl', hname⟩
    · rcases h.connectionClose hflag with hflag | ⟨l', hl', hname⟩
      · exact Or.inl hflag
      · exact Or.inr ⟨l', by simp_all, hname⟩
    · exact Or.inr ⟨l', by simp [hl'], hname⟩
  connectionUpgrade hflag := by
    rcases h'.connectionUpgrade hflag with hflag | ⟨l', hl', hname⟩
    · rcases h.connectionUpgrade hflag with hflag | ⟨l', hl', hname⟩
      · exact Or.inl hflag
      · exact Or.inr ⟨l', by simp_all, hname⟩
    · exact Or.inr ⟨l', by simp [hl'], hname⟩

theorem token_eq_lowercase (h : token ch ≠ 0) : token ch = lowercase ch := by
  revert h
  obtain ⟨x⟩ := ch
  revert x
  decide +kernel

theorem lineStart_lineRead (h : LineRead (lineStart p) p') : LineRead p p' :=
  ⟨h.line, h.httpMajor, h.httpMinor, h.statusCode, h.httpErrno, h.upgrade⟩

/-- A line that changes no flag. -/
theorem LinesRead.of_sameFlags {l : HeaderLine} {n : ℕ} (hline : LineRead p p')
    (hflags : lineFlags p' = lineFlags p)
    (hannounced : l.Named contentLengthWord → p'.contentLength = n)
    (hunannounced : ¬ l.Named contentLengthWord → p'.contentLength = p.contentLength)
    (hchunked : ¬ (l.Named transferEncodingWord ∧ l.Chunked)) : LinesRead [l] n p p' where
  toLineRead := hline
  announced := by
    rintro ⟨l', hl', hnamed⟩
    obtain rfl := List.mem_singleton.mp hl'
    exact hannounced hnamed
  unannounced hnamed := hunannounced (hnamed l (List.mem_singleton_self l))
  trailing := by rw [hflags]
  chunked := by
    rw [hflags]
    refine ⟨Or.inl, fun h => h.resolve_right ?_⟩
    rintro ⟨l', hl', hnamed⟩
    obtain rfl := List.mem_singleton.mp hl'
    exact hchunked hnamed
  offered := by
    rw [hflags]
    exact Or.inl
  connectionClose := by
    rw [hflags]
    exact Or.inl
  connectionUpgrade := by
    rw [hflags]
    exact Or.inl

theorem knownWords_nodup : knownWords.Nodup := by decide +kernel

theorem Reader.headerLine (hR : Reader R) (hp : AtLine p) (l : HeaderLine) {n : ℕ}
    (hlength : l.Named contentLengthWord → l.Announces n) :
    ∃ p', R p l.encode p' ∧ LinesRead [l] n p p' := by
  obtain ⟨h, index, hname, hreads⟩ := hR.name hp l.name_ne_nil l.name_token
  have hlowercase : l.name.map token = l.name.map lowercase :=
    List.map_congr_left fun ch hch => token_eq_lowercase (l.name_token ch hch)
  rw [hlowercase] at hname
  have hencode : l.encode = l.name ++ [colon] ++ (l.value ++ crlf) := by simp [HeaderLine.encode]
  have hnodup := knownWords_nodup
  simp only [knownWords, List.nodup_cons, List.mem_cons, not_or, List.not_mem_nil,
    not_false_eq_true, and_true] at hnodup
  obtain ⟨⟨-, hcl, hct, hcu⟩, ⟨hpl, hpt, hpu⟩, ⟨hlt, hlu⟩, htu, -⟩ := hnodup
  rcases hname.known with ⟨rfl, hu⟩ | ⟨rfl, hu⟩ | ⟨rfl, hu⟩ | ⟨rfl, hu⟩ | ⟨hplain, hu⟩
  · obtain ⟨p', hvalue, hline, hcontent, hflags⟩ :=
      hR.connectionValue (lineStart p) index l.value_inline
    have hnot : ¬ l.Named contentLengthWord ∧ ¬ l.Named transferEncodingWord := by
      unfold HeaderLine.Named
      rcases hu with hu | hu <;> rw [hu] <;> tauto
    refine ⟨p', hencode ▸ hR.append hreads hvalue, lineStart_lineRead hline, ?_, ?_, ?_, ?_, ?_,
      ?_, ?_⟩
    · simp [hnot.1]
    · exact fun _ => hcontent
    · exact hflags.trailing
    · rw [hflags.chunked]
      simp [hnot.2]
      rfl
    · rw [hflags.upgrade]
      exact Or.inl
    · intro hflag
      rcases hflags.connectionClose hflag with hflag | hoption
      · exact Or.inl hflag
      · exact Or.inr ⟨l, by simp, hu, hoption⟩
    · intro hflag
      rcases hflags.connectionUpgrade hflag with hflag | hoption
      · exact Or.inl hflag
      · exact Or.inr ⟨l, by simp, hu, hoption⟩
  · obtain ⟨p', hvalue, hline, hcontent, hflags⟩ :=
      hR.lengthValue (lineStart p) index (hlength hu)
    have hnot : ¬ l.Named transferEncodingWord := by
      unfold HeaderLine.Named
      rw [hu]
      exact hlt
    exact ⟨p', hencode ▸ hR.append hreads hvalue, .of_sameFlags (lineStart_lineRead hline) hflags
      (fun _ => hcontent) (fun h => absurd hu h) fun h => hnot h.1⟩
  · have hnot : ¬ l.Named contentLengthWord := by
      unfold HeaderLine.Named
      rw [hu]
      exact fun h => hlt h.symm
    by_cases hchunked : l.Chunked
    · obtain ⟨p', hvalue, hline, hcontent, hflags⟩ :=
        hR.chunkedValue (lineStart p) index hchunked
      refine ⟨p', hencode ▸ hR.append hreads hvalue, lineStart_lineRead hline, ?_, ?_, ?_, ?_, ?_,
        ?_, ?_⟩
      · simp [hnot]
      · exact fun _ => hcontent
      all_goals rw [hflags]
      · rfl
      · simp [show l.Named transferEncodingWord from hu, hchunked]
      all_goals exact Or.inl
    · obtain ⟨p', hvalue, hline, hcontent, hflags⟩ :=
        hR.codingValue (lineStart p) index hchunked
      exact ⟨p', hencode ▸ hR.append hreads hvalue, .of_sameFlags (lineStart_lineRead hline) hflags
        (fun h => absurd h hnot) (fun _ => hcontent) fun h => hchunked h.2⟩
  · obtain ⟨p', hvalue, hline, hcontent, hflags⟩ := hR.plainValue (h := .upgrade)
      (g := fun flags => { flags with upgrade := true }) (lineStart p) index (fun _ _ => rfl)
      (fun _ => rfl) l.value_inline
    have hnot : ¬ l.Named contentLengthWord ∧ ¬ l.Named transferEncodingWord := by
      unfold HeaderLine.Named
      rw [hu]
      exact ⟨fun h => hlu h.symm, fun h => htu h.symm⟩
    refine ⟨p', hencode ▸ hR.append hreads hvalue, lineStart_lineRead hline, ?_, ?_, ?_, ?_, ?_,
      ?_, ?_⟩
    · simp [hnot.1]
    · exact fun _ => hcontent
    all_goals
      rcases hflags with hflags | hflags <;> rw [hflags]
    · rfl
    · rfl
    · simp [hnot.2]
      rfl
    · simp [hnot.2]
      rfl
    · exact Or.inl
    · exact fun _ => Or.inr ⟨l, by simp, hu⟩
    all_goals exact Or.inl
  · obtain ⟨p', hvalue, hline, hcontent, hflags⟩ := hR.plainValue (h := h)
      (g := fun flags => flags) (lineStart p) index hplain.start hplain.finish l.value_inline
    have hflags : lineFlags p' = lineFlags p := hflags.elim id id
    have hnot : ¬ l.Named contentLengthWord ∧ ¬ l.Named transferEncodingWord := by
      refine ⟨fun h => hu ?_, fun h => hu ?_⟩
      · rw [show l.name.map lowercase = contentLengthWord from h]
        simp [knownWords]
      · rw [show l.name.map lowercase = transferEncodingWord from h]
        simp [knownWords]
    exact ⟨p', hencode ▸ hR.append hreads hvalue, .of_sameFlags (lineStart_lineRead hline) hflags
      (fun h => absurd h hnot.1) (fun _ => hcontent) fun h => hnot.2 h.1⟩

theorem Reader.closeLine (hR : Reader R) (hp : AtLine p) {l : HeaderLine} (hl : l.Closes) (n : ℕ) :
    ∃ p', R p l.encode p' ∧ LinesRead [l] n p p' ∧ (lineFlags p').connectionClose = true := by
  obtain ⟨h, index, hname, hreads⟩ := hR.name hp l.name_ne_nil l.name_token
  have hlowercase : l.name.map token = l.name.map lowercase :=
    List.map_congr_left fun ch hch => token_eq_lowercase (l.name_token ch hch)
  rw [hlowercase] at hname
  have hencode : l.encode = l.name ++ [colon] ++ (l.value ++ crlf) := by simp [HeaderLine.encode]
  have hother : ∀ u ∈ [connectionWord, proxyConnectionWord], u ≠ contentLengthWord ∧
      u ≠ transferEncodingWord ∧ u ≠ upgradeWord ∧ u ∈ knownWords := by
    decide +kernel
  obtain ⟨hnlength, hntransfer, hnupgrade, hnknown⟩ := hother (l.name.map lowercase)
    (by simpa [HeaderLine.Named] using hl.1)
  rcases hname.known with ⟨rfl, -⟩ | ⟨-, hu⟩ | ⟨-, hu⟩ | ⟨-, hu⟩ | ⟨-, hu⟩
  · obtain ⟨p', hvalue, hline, hcontent, hflags⟩ :=
      hR.wordValue (h := .connection) (lineStart p) index close_recognises (by decide +kernel)
        (by decide) (fun p ch hch => by
          have hhead : closeWord.head? = some 99 := by decide +kernel
          have hlower := Option.some.inj (hch.symm.trans hhead)
          show pass _ = pass _
          simp only [hlower]
          rfl) hl.2
    refine ⟨p', hencode ▸ hR.append hreads hvalue, ⟨lineStart_lineRead hline, ?_, ?_, ?_, ?_, ?_,
      ?_, ?_⟩, ?_⟩
    · simp [HeaderLine.Named, hnlength]
    · exact fun _ => hcontent
    all_goals rw [hflags]
    · rfl
    · simp [HeaderLine.Named, hntransfer]
      rfl
    · exact Or.inl
    · exact fun _ => Or.inr ⟨l, by simp, hl.connection⟩
    · exact Or.inl
    · rfl
  · exact absurd hu hnlength
  · exact absurd hu hntransfer
  · exact absurd hu hnupgrade
  · exact absurd hnknown hu

theorem Reader.headerLines (hR : Reader R) {lines : List HeaderLine} {n : ℕ}
    (hlength : ∀ l ∈ lines, l.Named contentLengthWord → l.Announces n) :
    ∀ {p : HttpParser}, AtLine p →
      ∃ p', R p (lines.flatMap HeaderLine.encode) p' ∧ LinesRead lines n p p' := by
  induction lines with
  | nil => exact fun hp => ⟨_, hR.nil _, .nil hp⟩
  | cons l lines ih =>
      intro p hp
      obtain ⟨p', hreads, hl⟩ := hR.headerLine hp l (hlength l (by simp))
      obtain ⟨p'', hreads', hlines⟩ := ih (fun l hl => hlength l (by simp [hl])) hl.line
      exact ⟨p'', hR.append hreads hreads', hl.cons hlines⟩

theorem Reader.emptyLine (hR : Reader R) (hp : AtLine p) :
    R p [cr] { lineStart p with state := .headersAlmostDone } :=
  hR.line hp (by decide) (by decide) fun _ _ => rfl


/-! ## The fields of a response -/

/-- The parser has read `fields`, whose content lengths are `n`. -/
structure SectionRead (fields : List Field) (n : ℕ) (p p' : HttpParser) : Prop
    extends LineRead p p' where
  announced : (∃ f ∈ fields, f.Named contentLengthWord) → p'.contentLength = n
  unannounced : (∀ f ∈ fields, ¬ f.Named contentLengthWord) → p'.contentLength = p.contentLength
  trailing : (lineFlags p').trailing = (lineFlags p).trailing
  chunked : (lineFlags p').chunked = true ↔
    (lineFlags p).chunked = true ∨ ∃ f ∈ fields, f.Named transferEncodingWord
  offered : (lineFlags p').upgrade = true →
    (lineFlags p).upgrade = true ∨ ∃ f ∈ fields, f.Named upgradeWord
  connectionClose : (lineFlags p').connectionClose = true →
    (lineFlags p).connectionClose = true ∨ ∃ f ∈ fields, f.Connection closeWord
  connectionUpgrade : (lineFlags p').connectionUpgrade = true →
    (lineFlags p).connectionUpgrade = true ∨ ∃ f ∈ fields, f.Connection upgradeWord

theorem LinesRead.fields {fields : List Field} {n : ℕ}
    (h : LinesRead (fields.map Field.line) n p p')
    (htransfer : ∀ f ∈ fields, f.Named transferEncodingWord → f.Chunked) :
    SectionRead fields n p p' where
  toLineRead := h.toLineRead
  announced hnamed := h.announced (by simpa using hnamed)
  unannounced hnamed := h.unannounced (by simpa using hnamed)
  trailing := h.trailing
  chunked := by
    rw [h.chunked]
    simp only [List.mem_map, exists_exists_and_eq_and, Field.line_named, Field.line_chunked]
    refine or_congr Iff.rfl ⟨?_, ?_⟩
    · rintro ⟨f, hf, hname, -⟩
      exact ⟨f, hf, hname⟩
    · rintro ⟨f, hf, hname⟩
      exact ⟨f, hf, hname, htransfer f hf hname⟩
  offered hflag := by simpa using h.offered hflag
  connectionClose hflag := by simpa using h.connectionClose hflag
  connectionUpgrade hflag := by simpa using h.connectionUpgrade hflag

theorem reads_fields {fields : List Field} {n : ℕ}
    (htransfer : ∀ f ∈ fields, f.Named transferEncodingWord → f.Chunked)
    (hlength : ∀ f ∈ fields, f.Named contentLengthWord → f.Announces n) (hp : AtLine p) :
    ∃ p', Reads p (fields.flatMap Field.encode) p' ∧ SectionRead fields n p p' := by
  have hlength' : ∀ l ∈ fields.map Field.line, l.Named contentLengthWord → l.Announces n := by
    simpa using hlength
  obtain ⟨p', hreads, hread⟩ := reads_reader.headerLines hlength' hp
  rw [List.flatMap_map] at hreads
  exact ⟨p', hreads, hread.fields htransfer⟩

theorem reads_emptyLine (hp : AtLine p) :
    Reads p [cr] { lineStart p with state := .headersAlmostDone } :=
  reads_reader.emptyLine hp

end HttpParser

end WrkQuic
