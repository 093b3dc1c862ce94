import WrkQuic.RequestScan
import WrkQuic.Url
import WrkQuic.WrkFormat

/-!
# The request target

`script_create` makes `wrk.path` of the URL from the first byte of its path
on, to the end of the argument. That is the path and the query when there is
a path and no fragment, and the offset of the path fits its 16 bits.
-/

namespace WrkQuic

/-! ## script.c -/

/-- The `path` of `script_create`. -/
def createPath (url : Bytes) (parts : HttpParserUrl) : Bytes :=
  if parts.fieldSet .path then url.drop (parts.fieldData .path).off else [47]

/-! ## Components -/

/-- The characters `/`, `?` and `#` end the authority. -/
def endsAuthority (ch : UInt8) : Bool := ch = 47 || ch = 63 || ch = 35

/-- `?` and `#` end the path. -/
def endsPath (ch : UInt8) : Bool := ch = 63 || ch = 35

/-- What follows the authority. -/
def afterAuthority (url : Bytes) : Bytes :=
  ((url.dropWhile (· ≠ colon)).drop 3).dropWhile (!endsAuthority ·)

/-- The path; it is empty when there is none. -/
def urlPath (url : Bytes) : Bytes := (afterAuthority url).takeWhile (!endsPath ·)

/-- The query, without its `?`. -/
def urlQuery (url : Bytes) : Option Bytes :=
  match (afterAuthority url).dropWhile (!endsPath ·) with
  | 63 :: rest => some (rest.takeWhile (· ≠ 35))
  | _ => none

/-- The fragment, without its `#`. -/
def urlFragment (url : Bytes) : Option Bytes :=
  match (afterAuthority url).dropWhile (· ≠ 35) with
  | _ :: rest => some rest
  | [] => none

/-- Where the authority ends. -/
def authorityEnd (url : Bytes) : ℕ := url.length - (afterAuthority url).length

/-- The query, when it is not empty: an empty one has no field. -/
def queryField (url : Bytes) : Option Bytes := (urlQuery url).filter (· ≠ [])

/-- The path, or `/`, with the query. -/
def targetOf (path : Bytes) (query : Option Bytes) : Bytes :=
  (if path = [] then [47] else path) ++ query.elim [] (63 :: ·)

/-- A path without a fragment, behind less than 2^16 bytes, or neither path
nor query. -/
def TargetKept (url : Bytes) : Prop :=
  (urlPath url ≠ [] ∧ urlFragment url = none ∧ authorityEnd url < 2 ^ 16) ∨
    (urlPath url = [] ∧ urlQuery url = none)

/-- The text of the components behind the authority. -/
def targetText (path : Bytes) (query fragment : Option Bytes) : Bytes :=
  path ++ (query.elim [] (63 :: ·) ++ fragment.elim [] (35 :: ·))

/-- Components behind the scheme `scheme` and the authority `authority`. -/
structure Components (scheme authority path : Bytes) (query fragment : Option Bytes) :
    Prop where
  scheme : colon ∉ scheme
  authority : ∀ ch ∈ authority, endsAuthority ch = false
  slash : path = [] ∨ path.head? = some 47
  path : ∀ ch ∈ path, endsPath ch = false
  query : ∀ q ∈ query, 35 ∉ q

/-- `scheme://authority`. -/
def urlHead (scheme authority : Bytes) : Bytes := scheme ++ [colon, 47, 47] ++ authority

theorem targetText_head (path : Bytes) (query fragment : Option Bytes)
    (h : path = [] ∨ path.head? = some 47) :
    ∀ ch ∈ (targetText path query fragment).head?, endsAuthority ch = true := by
  cases path with
  | cons ch path =>
      obtain rfl : ch = 47 := by simpa using h
      simp [targetText, endsAuthority]
  | nil =>
      cases query with
      | some q => simp [targetText, endsAuthority]
      | none =>
          cases fragment with
          | some f => simp [targetText, endsAuthority]
          | none => simp [targetText]

theorem dropWhile_of_head {p : UInt8 → Bool} {l : Bytes} (h : ∀ ch ∈ l.head?, p ch = false) :
    l.dropWhile p = l := by
  cases l with
  | nil => rfl
  | cons ch l => exact List.dropWhile_cons_of_neg (by simp [h ch rfl])

theorem takeWhile_of_head {p : UInt8 → Bool} {l : Bytes} (h : ∀ ch ∈ l.head?, p ch = false) :
    l.takeWhile p = [] := by
  cases l with
  | nil => rfl
  | cons ch l => exact List.takeWhile_cons_of_neg (by simp [h ch rfl])

namespace Components

variable {scheme authority path : Bytes} {query fragment : Option Bytes}

theorem afterAuthority_eq (h : Components scheme authority path query fragment) :
    afterAuthority (urlHead scheme authority ++ targetText path query fragment) =
      targetText path query fragment := by
  have hscheme : ∀ ch ∈ scheme, decide (ch ≠ colon) = true := by
    intro ch hch
    rw [decide_eq_true_iff]
    rintro rfl
    exact h.scheme hch
  have hauthority : ∀ ch ∈ authority, (!endsAuthority ch) = true := by
    intro ch hch
    rw [h.authority ch hch]
    rfl
  have hhead := targetText_head path query fragment h.slash
  unfold afterAuthority urlHead
  rw [List.append_assoc, List.append_assoc, List.dropWhile_append_of_pos hscheme]
  show List.dropWhile _ (authority ++ _) = _
  rw [List.dropWhile_append_of_pos hauthority]
  exact dropWhile_of_head fun ch hch => by rw [hhead ch hch]; rfl

/-- Behind the path stands the query or the fragment. -/
theorem endsPath_head (query fragment : Option Bytes) :
    ∀ ch ∈ (query.elim [] (63 :: ·) ++ fragment.elim [] (35 :: ·)).head?,
      (!endsPath ch) = false := by
  cases query with
  | some q => simp [endsPath]
  | none =>
      cases fragment with
      | some f => simp [endsPath]
      | none => simp

theorem path_pos (h : Components scheme authority path query fragment) :
    ∀ ch ∈ path, (!endsPath ch) = true := fun ch hch => by
  rw [h.path ch hch]
  rfl

theorem urlPath_eq (h : Components scheme authority path query fragment) :
    urlPath (urlHead scheme authority ++ targetText path query fragment) = path := by
  unfold urlPath
  rw [h.afterAuthority_eq, targetText, List.takeWhile_append_of_pos h.path_pos,
    takeWhile_of_head (endsPath_head query fragment), List.append_nil]

theorem urlQuery_eq (h : Components scheme authority path query fragment) :
    urlQuery (urlHead scheme authority ++ targetText path query fragment) = query := by
  unfold urlQuery
  rw [h.afterAuthority_eq, targetText, List.dropWhile_append_of_pos h.path_pos,
    dropWhile_of_head (endsPath_head query fragment)]
  cases query with
  | none =>
      cases fragment with
      | none => rfl
      | some f => rfl
  | some q =>
      have hq : ∀ ch ∈ q, decide (ch ≠ 35) = true := by
        intro ch hch
        rw [decide_eq_true_iff]
        rintro rfl
        exact h.query q rfl hch
      have hstop : (fragment.elim [] (35 :: ·)).takeWhile
          (fun ch : UInt8 => decide (ch ≠ 35)) = [] :=
        takeWhile_of_head (by cases fragment <;> simp)
      show some (List.takeWhile _ (q ++ _)) = some q
      rw [List.takeWhile_append_of_pos hq, hstop, List.append_nil]

theorem urlFragment_eq (h : Components scheme authority path query fragment) :
    urlFragment (urlHead scheme authority ++ targetText path query fragment) = fragment := by
  have hbefore : ∀ ch ∈ path ++ query.elim [] (63 :: ·), decide (ch ≠ 35) = true := by
    intro ch hch
    rw [decide_eq_true_iff]
    rintro rfl
    rcases List.mem_append.mp hch with hpath | hquery
    · exact absurd (h.path 35 hpath) (by decide)
    · cases query with
      | none => cases hquery
      | some q =>
          rcases List.mem_cons.mp hquery with hmark | hq
          · exact absurd hmark (by decide)
          · exact h.query q rfl hq
  unfold urlFragment
  rw [h.afterAuthority_eq, targetText, ← List.append_assoc,
    List.dropWhile_append_of_pos hbefore]
  cases fragment with
  | none => rfl
  | some f => rfl

end Components

/-! ## The scan -/

/-- Where the automaton is in the components. -/
inductive TargetRead : RequestState → Bytes → Option Bytes → Option Bytes → Prop
  | serverStart : TargetRead .reqServerStart [] none none
  | server : TargetRead .reqServer [] none none
  | serverWithAt : TargetRead .reqServerWithAt [] none none
  | path {path : Bytes} : path ≠ [] → TargetRead .reqPath path none none
  | queryStart {path : Bytes} : TargetRead .reqQueryStringStart path (some []) none
  | query {path q : Bytes} : q ≠ [] → TargetRead .reqQueryString path (some q) none
  | fragmentStart {path f : Bytes} {query : Option Bytes} :
      TargetRead .reqFragmentStart path query (some f)
  | fragment {path f : Bytes} {query : Option Bytes} :
      TargetRead .reqFragment path query (some f)

namespace UrlScan

/-- The field that is being counted is set. -/
def OldSet (p : UrlScan) : Prop := ∀ uf, p.oldUf = some uf → p.url.fieldSet uf = true

theorem count_effect {p : UrlScan} (hold : p.OldSet) (i : ℕ) (uf : UrlField) :
    (p.count i uf).state = p.state ∧ (p.count i uf).oldUf = some uf ∧
      (∀ uf', (p.count i uf).url.fieldSet uf' = (p.url.fieldSet uf' || decide (uf = uf'))) ∧
      ∀ uf', ((p.count i uf).url.fieldData uf').off =
        if uf = uf' ∧ p.oldUf ≠ some uf' then u16 i else (p.url.fieldData uf').off := by
  unfold UrlScan.count
  split
  · rename_i hsame
    refine ⟨rfl, hsame, fun uf' => ?_, fun uf' => ?_⟩
    · by_cases huf : uf = uf'
      · subst huf
        simp [HttpParserUrl.extend, HttpParserUrl.setData, hold uf hsame]
      · simp [HttpParserUrl.extend, HttpParserUrl.setData, huf]
    · by_cases huf : uf' = uf
      · subst huf
        simp [HttpParserUrl.extend, HttpParserUrl.setData, hsame]
      · simp [HttpParserUrl.extend, HttpParserUrl.setData, huf, Ne.symm huf]
  · rename_i hother
    refine ⟨rfl, rfl, fun uf' => ?_, fun uf' => ?_⟩
    · by_cases huf : uf' = uf
      · subst huf
        simp [HttpParserUrl.setField, HttpParserUrl.setData]
      · simp [HttpParserUrl.setField, HttpParserUrl.setData, huf, Ne.symm huf]
    · by_cases huf : uf' = uf
      · subst huf
        simp [HttpParserUrl.setField, HttpParserUrl.setData, hother]
      · simp [HttpParserUrl.setField, HttpParserUrl.setData, huf, Ne.symm huf]

/-- One step of the loop, at offset `i`. -/
structure Advances (p p' : UrlScan) (i : ℕ) (ch : UInt8) : Prop where
  char : urlChar p.state ch = some p'.state
  oldSet : p'.OldSet
  fieldSet : ∀ uf, p'.url.fieldSet uf =
    (p.url.fieldSet uf || decide (urlField p'.state = some (some uf)))
  off : ∀ uf, (p'.url.fieldData uf).off =
    if urlField p'.state = some (some uf) ∧ p.oldUf ≠ some uf then u16 i
    else (p.url.fieldData uf).off
  old : ∀ uf, urlField p'.state = some (some uf) → p'.oldUf = some uf

theorem Advances.isSet {p p' : UrlScan} {i : ℕ} {ch : UInt8} {uf : UrlField}
    (ha : Advances p p' i ch) (h : urlField p'.state = some (some uf)) :
    p'.url.fieldSet uf = true := by
  rw [ha.fieldSet, decide_eq_true h, Bool.or_true]

theorem Advances.keepsSet {p p' : UrlScan} {i : ℕ} {ch : UInt8} {uf : UrlField}
    (ha : Advances p p' i ch) (h : urlField p'.state ≠ some (some uf)) :
    p'.url.fieldSet uf = p.url.fieldSet uf := by
  rw [ha.fieldSet, decide_eq_false h, Bool.or_false]

theorem scanUrlChar_advances {p p' : UrlScan} {i : ℕ} {ch : UInt8}
    (h : scanUrlChar i ch p = some p') (hold : p.OldSet) : Advances p p' i ch := by
  unfold scanUrlChar parseUrlChar at h
  simp only [Option.bind_eq_bind, Option.bind_eq_some_iff] at h
  obtain ⟨s, hs, field, hfield, h⟩ := h
  have hchar : urlChar p.state ch = some s := by
    split at hs
    · cases hs
    · exact hs
  cases field with
  | none =>
      cases h
      exact ⟨hchar, hold, by simp [hfield], by simp [hfield], by simp [hfield]⟩
  | some uf =>
      cases h
      obtain ⟨hstate, hcounted, hset, hoff⟩ := count_effect (p := { p with
        state := s, foundAt := p.foundAt || decide (s = .reqServerWithAt) }) hold i uf
      have hfield' {uf' : UrlField} : urlField s = some (some uf') ↔ uf = uf' := by
        rw [hfield, Option.some.injEq, Option.some.injEq]
      refine ⟨by rw [hstate]; exact hchar, fun uf' huf => ?_, fun uf' => ?_, fun uf' => ?_,
        fun uf' huf => ?_⟩
      · obtain rfl := Option.some.inj (hcounted.symm.trans huf)
        rw [hset, decide_eq_true rfl, Bool.or_true]
      · simpa only [hstate, hfield'] using hset uf'
      · simpa only [hstate, hfield'] using hoff uf'
      · rw [hstate] at huf
        exact hfield'.mp huf ▸ hcounted

/-- The fields of the path and the query, behind `off` bytes. -/
structure FieldsRead (p : UrlScan) (off : ℕ) (path : Bytes) (query : Option Bytes) : Prop where
  pathSet : p.url.fieldSet .path = true ↔ path ≠ []
  off : path ≠ [] → (p.url.fieldData .path).off = u16 off
  querySet : p.url.fieldSet .query = true ↔ ∃ q, query = some q ∧ q ≠ []
  old : p.state = .reqPath → p.oldUf = some .path

namespace FieldsRead

variable {p p' : UrlScan} {i off : ℕ} {ch : UInt8} {path : Bytes} {query : Option Bytes}

theorem skip (h : FieldsRead p off path query) (ha : Advances p p' i ch)
    (hpath : urlField p'.state ≠ some (some .path))
    (hquery : urlField p'.state ≠ some (some .query)) : FieldsRead p' off path query where
  pathSet := by
    rw [ha.keepsSet hpath]
    exact h.pathSet
  off hne := by
    rw [ha.off, if_neg fun hcount => hpath hcount.1]
    exact h.off hne
  querySet := by
    rw [ha.keepsSet hquery]
    exact h.querySet
  old hstate := absurd (congrArg urlField hstate) hpath

theorem emptyQuery (h : FieldsRead p off path none) : FieldsRead p off path (some []) where
  pathSet := h.pathSet
  off := h.off
  querySet := h.querySet.trans (by simp)
  old := h.old

/-- The first byte of the path. -/
theorem intoPath (h : FieldsRead p off [] none) (hold : p.OldSet) (ha : Advances p p' off ch)
    (hstate : p'.state = .reqPath) : FieldsRead p' off [ch] none where
  pathSet := by
    rw [ha.isSet (by rw [hstate]; rfl)]
    exact iff_of_true rfl (List.cons_ne_nil ch [])
  off _ := by
    have hnew : p.oldUf ≠ some .path := fun hsame => absurd rfl (h.pathSet.mp (hold _ hsame))
    rw [ha.off, hstate, if_pos ⟨rfl, hnew⟩]
  querySet := by
    rw [ha.keepsSet (by rw [hstate]; decide)]
    exact h.querySet
  old _ := ha.old _ (by rw [hstate]; rfl)

theorem morePath (h : FieldsRead p off path none) (hpath : p.state = .reqPath)
    (hne : path ≠ []) (ha : Advances p p' i ch) (hstate : p'.state = .reqPath) :
    FieldsRead p' off (path ++ [ch]) none where
  pathSet := by
    rw [ha.isSet (by rw [hstate]; rfl)]
    exact iff_of_true rfl (by simp)
  off _ := by
    rw [ha.off, if_neg fun hcount => hcount.2 (h.old hpath)]
    exact h.off hne
  querySet := by
    rw [ha.keepsSet (by rw [hstate]; decide)]
    exact h.querySet
  old _ := ha.old _ (by rw [hstate]; rfl)

theorem moreQuery (h : FieldsRead p off path query) (ha : Advances p p' i ch)
    (hstate : p'.state = .reqQueryString) (q : Bytes) :
    FieldsRead p' off path (some (q ++ [ch])) where
  pathSet := by
    rw [ha.keepsSet (by rw [hstate]; decide)]
    exact h.pathSet
  off hne := by
    rw [ha.off, hstate, if_neg fun hcount => absurd hcount.1 (by decide)]
    exact h.off hne
  querySet := by
    rw [ha.isSet (by rw [hstate]; rfl)]
    exact iff_of_true rfl ⟨_, rfl, by simp⟩
  old hpath := absurd (hstate.symm.trans hpath) (by decide)

end FieldsRead

/-- What the loop has read of a URL. Without a scheme it is in the path from
the first byte on. -/
inductive Reads (p : UrlScan) : Bytes → Prop
  | start : p.state = .reqSpacesBeforeUrl → p.url = .zeroed → Reads p []
  | schema {scheme : Bytes} : p.state = .reqSchema → colon ∉ scheme →
      FieldsRead p 0 [] none → p.url.fieldSet .host = false → Reads p scheme
  | slash {scheme : Bytes} : p.state = .reqSchemaSlash → colon ∉ scheme →
      FieldsRead p 0 [] none → p.url.fieldSet .host = false → Reads p (scheme ++ [colon])
  | slashSlash {scheme : Bytes} : p.state = .reqSchemaSlashSlash → colon ∉ scheme →
      FieldsRead p 0 [] none → p.url.fieldSet .host = false → Reads p (scheme ++ [colon, 47])
  | target {scheme authority path : Bytes} {query fragment : Option Bytes} :
      TargetRead p.state path query fragment →
      Components scheme authority path query fragment →
      FieldsRead p (urlHead scheme authority).length path query →
      Reads p (urlHead scheme authority ++ targetText path query fragment)
  | noSchema {pre : Bytes} : RequestParser.pathState p.state = true →
      p.url.fieldSet .schema = false → Reads p pre

theorem urlChar_server {s s' : RequestState} {ch : UInt8}
    (hs : s = .reqServerStart ∨ s = .reqServer ∨ s = .reqServerWithAt)
    (h : urlChar s ch = some s') :
    (ch = 47 ∧ s' = .reqPath) ∨ (ch = 63 ∧ s' = .reqQueryStringStart) ∨
      (endsAuthority ch = false ∧ (s' = .reqServer ∨ s' = .reqServerWithAt)) := by
  have hplain (hch : isUserinfoChar ch = true ∨ ch = 91 ∨ ch = 93) : endsAuthority ch = false := by
    by_contra hends
    simp only [endsAuthority, Bool.not_eq_false, Bool.or_eq_true, decide_eq_true_eq] at hends
    rcases hends with (rfl | rfl) | rfl <;> revert hch <;> decide +kernel
  have heq : urlChar s ch =
      if s = .reqServerWithAt ∧ ch = 64 then none
      else if ch = 47 then some .reqPath
      else if ch = 63 then some .reqQueryStringStart
      else if ch = 64 then some .reqServerWithAt
      else if isUserinfoChar ch ∨ ch = 91 ∨ ch = 93 then some .reqServer
      else none := by
    rcases hs with rfl | rfl | rfl <;> rfl
  rw [heq] at h
  split_ifs at h with _ hslash hquery hat hchar <;> obtain rfl := Option.some.inj h
  · exact .inl ⟨hslash, rfl⟩
  · exact .inr (.inl ⟨hquery, rfl⟩)
  · exact .inr (.inr ⟨hat ▸ by decide, .inr rfl⟩)
  · exact .inr (.inr ⟨hplain hchar, .inl rfl⟩)

theorem urlChar_path {s' : RequestState} {ch : UInt8} (h : urlChar .reqPath ch = some s') :
    (endsPath ch = false ∧ s' = .reqPath) ∨ (ch = 63 ∧ s' = .reqQueryStringStart) ∨
      (ch = 35 ∧ s' = .reqFragmentStart) := by
  unfold urlChar at h
  simp only at h
  split_ifs at h with hchar hquery hfragment
  · cases h
    refine .inl ⟨?_, rfl⟩
    by_contra hends
    simp only [endsPath, Bool.not_eq_false, Bool.or_eq_true, decide_eq_true_eq] at hends
    rcases hends with rfl | rfl <;> revert hchar <;> decide
  · cases h
    exact .inr (.inl ⟨hquery, rfl⟩)
  · cases h
    exact .inr (.inr ⟨hfragment, rfl⟩)

theorem urlChar_query {s s' : RequestState} {ch : UInt8}
    (hs : s = .reqQueryStringStart ∨ s = .reqQueryString) (h : urlChar s ch = some s') :
    (ch ≠ 35 ∧ s' = .reqQueryString) ∨ (ch = 35 ∧ s' = .reqFragmentStart) := by
  have heq : urlChar s ch =
      if isUrlChar ch then some .reqQueryString
      else if ch = 63 then some .reqQueryString
      else if ch = 35 then some .reqFragmentStart
      else none := by
    rcases hs with rfl | rfl <;> rfl
  rw [heq] at h
  split_ifs at h with hchar hquery hfragment <;> obtain rfl := Option.some.inj h
  · refine .inl ⟨?_, rfl⟩
    rintro rfl
    revert hchar
    decide
  · exact .inl ⟨hquery ▸ by decide, rfl⟩
  · exact .inr ⟨hfragment, rfl⟩

theorem urlChar_fragment {s s' : RequestState} {ch : UInt8}
    (hs : s = .reqFragmentStart ∨ s = .reqFragment) (h : urlChar s ch = some s') :
    s' = .reqFragmentStart ∨ s' = .reqFragment := by
  rcases hs with rfl | rfl <;> unfold urlChar at h <;> dsimp only at h <;> split_ifs at h <;>
    cases h <;> tauto

/-- The automaton stays behind the authority. -/
theorem urlChar_pathState {s s' : RequestState} {ch : UInt8}
    (hs : RequestParser.pathState s = true) (h : urlChar s ch = some s') :
    RequestParser.pathState s' = true := by
  cases s with
  | reqPath => rcases urlChar_path h with ⟨-, rfl⟩ | ⟨-, rfl⟩ | ⟨-, rfl⟩ <;> rfl
  | reqQueryStringStart => rcases urlChar_query (.inl rfl) h with ⟨-, rfl⟩ | ⟨-, rfl⟩ <;> rfl
  | reqQueryString => rcases urlChar_query (.inr rfl) h with ⟨-, rfl⟩ | ⟨-, rfl⟩ <;> rfl
  | reqFragmentStart => rcases urlChar_fragment (.inl rfl) h with rfl | rfl <;> rfl
  | reqFragment => rcases urlChar_fragment (.inr rfl) h with rfl | rfl <;> rfl
  | _ => cases hs

/-- No field but those of the path and the query changes them. -/
theorem urlField_of_pathState {s : RequestState} (hs : RequestParser.pathState s = true) :
    urlField s ≠ some (some .schema) := by
  cases s with
  | reqPath | reqQueryStringStart | reqQueryString | reqFragmentStart | reqFragment => decide
  | _ => cases hs

theorem FieldsRead.rebase {p : UrlScan} {off : ℕ} {query : Option Bytes}
    (h : FieldsRead p off [] query) (off' : ℕ) : FieldsRead p off' [] query :=
  ⟨h.pathSet, fun hne => absurd rfl hne, h.querySet, h.old⟩

variable {p p' : UrlScan} {ch : UInt8}

section Target

variable {scheme authority path : Bytes} {query fragment : Option Bytes}

/-- A `#` starts the fragment. -/
theorem Reads.hash (hc : Components scheme authority path query none)
    (hf : FieldsRead p (urlHead scheme authority).length path query) {i : ℕ}
    (ha : Advances p p' i 35) (hs' : p'.state = .reqFragmentStart) :
    Reads p' (urlHead scheme authority ++ targetText path query none ++ [35]) := by
  have htext : targetText path query none ++ [35] = targetText path query (some []) := by
    simp [targetText]
  rw [List.append_assoc, htext]
  exact .target (by rw [hs']; exact .fragmentStart)
    ⟨hc.scheme, hc.authority, hc.slash, hc.path, hc.query⟩
    (hf.skip ha (by rw [hs']; decide) (by rw [hs']; decide))

/-- A `?` starts the query. -/
theorem Reads.mark (hc : Components scheme authority path none none)
    (hf : FieldsRead p (urlHead scheme authority).length path none) {i : ℕ}
    (ha : Advances p p' i 63) (hs' : p'.state = .reqQueryStringStart) :
    Reads p' (urlHead scheme authority ++ targetText path none none ++ [63]) := by
  have htext : targetText path none none ++ [63] = targetText path (some []) none := by
    simp [targetText]
  rw [List.append_assoc, htext]
  exact .target (by rw [hs']; exact .queryStart)
    ⟨hc.scheme, hc.authority, hc.slash, hc.path, by simp⟩
    (hf.emptyQuery.skip ha (by rw [hs']; decide) (by rw [hs']; decide))

theorem Reads.server_step (hs : p.state = .reqServerStart ∨ p.state = .reqServer ∨
      p.state = .reqServerWithAt)
    (hc : Components scheme authority [] none none)
    (hf : FieldsRead p (urlHead scheme authority).length [] none) (hold : p.OldSet)
    (ha : Advances p p' (urlHead scheme authority ++ targetText [] none none).length ch) :
    Reads p' (urlHead scheme authority ++ targetText [] none none ++ [ch]) := by
  rcases urlChar_server hs ha.char with ⟨rfl, hs'⟩ | ⟨rfl, hs'⟩ | ⟨hch, hs'⟩
  · have ha' : Advances p p' (urlHead scheme authority).length 47 := by
      simpa [targetText] using ha
    have htext : targetText [] none none ++ [47] = targetText [47] none none := rfl
    rw [List.append_assoc, htext]
    exact .target (by rw [hs']; exact .path (by decide))
      ⟨hc.scheme, hc.authority, .inr rfl, by decide +kernel, hc.query⟩ (hf.intoPath hold ha' hs')
  · exact .mark hc hf ha hs'
  · have htext : urlHead scheme authority ++ targetText [] none none ++ [ch] =
        urlHead scheme (authority ++ [ch]) ++ targetText [] none none := by
      simp [urlHead, targetText]
    have hskip : FieldsRead p' (urlHead scheme authority).length [] none := by
      rcases hs' with hs' | hs' <;> exact hf.skip ha (by rw [hs']; decide) (by rw [hs']; decide)
    rw [htext]
    refine .target ?_ ⟨hc.scheme, fun c hmem => ?_, hc.slash, hc.path, hc.query⟩ (hskip.rebase _)
    · rcases hs' with hs' | hs' <;> rw [hs']
      · exact .server
      · exact .serverWithAt
    · rcases List.mem_append.mp hmem with hmem | hmem
      · exact hc.authority c hmem
      · rwa [List.mem_singleton.mp hmem]

theorem Reads.path_step (hs : p.state = .reqPath) (hne : path ≠ [])
    (hc : Components scheme authority path none none)
    (hf : FieldsRead p (urlHead scheme authority).length path none) {i : ℕ}
    (ha : Advances p p' i ch) :
    Reads p' (urlHead scheme authority ++ targetText path none none ++ [ch]) := by
  have hchar := ha.char
  rw [hs] at hchar
  rcases urlChar_path hchar with ⟨hch, hs'⟩ | ⟨rfl, hs'⟩ | ⟨rfl, hs'⟩
  · have htext : targetText path none none ++ [ch] = targetText (path ++ [ch]) none none := by
      simp [targetText]
    have hslash : (path ++ [ch]).head? = some 47 := by
      rw [List.head?_append_of_ne_nil _ hne]
      exact hc.slash.resolve_left hne
    rw [List.append_assoc, htext]
    refine .target (by rw [hs']; exact .path (by simp))
      ⟨hc.scheme, hc.authority, .inr hslash, fun c hmem => ?_, hc.query⟩
      (hf.morePath hs hne ha hs')
    rcases List.mem_append.mp hmem with hmem | hmem
    · exact hc.path c hmem
    · rwa [List.mem_singleton.mp hmem]
  · exact .mark hc hf ha hs'
  · exact .hash hc hf ha hs'

theorem Reads.query_step {q : Bytes}
    (hs : p.state = .reqQueryStringStart ∨ p.state = .reqQueryString)
    (hc : Components scheme authority path (some q) none)
    (hf : FieldsRead p (urlHead scheme authority).length path (some q)) {i : ℕ}
    (ha : Advances p p' i ch) :
    Reads p' (urlHead scheme authority ++ targetText path (some q) none ++ [ch]) := by
  rcases urlChar_query hs ha.char with ⟨hch, hs'⟩ | ⟨rfl, hs'⟩
  · have htext : targetText path (some q) none ++ [ch] =
        targetText path (some (q ++ [ch])) none := by
      simp [targetText]
    have hnot : (35 : UInt8) ∉ q ++ [ch] := by
      rw [List.mem_append, List.mem_singleton]
      rintro (hmem | rfl)
      · exact hc.query q rfl hmem
      · exact hch rfl
    rw [List.append_assoc, htext]
    exact .target (by rw [hs']; exact .query (by simp))
      ⟨hc.scheme, hc.authority, hc.slash, hc.path, fun q' hq' => by
        obtain rfl := Option.some.inj hq'
        exact hnot⟩ (hf.moreQuery ha hs' q)
  · exact .hash hc hf ha hs'

theorem Reads.fragment_step {f : Bytes}
    (hs : p.state = .reqFragmentStart ∨ p.state = .reqFragment)
    (hc : Components scheme authority path query (some f))
    (hf : FieldsRead p (urlHead scheme authority).length path query) {i : ℕ}
    (ha : Advances p p' i ch) :
    Reads p' (urlHead scheme authority ++ targetText path query (some f) ++ [ch]) := by
  have htext : targetText path query (some f) ++ [ch] =
      targetText path query (some (f ++ [ch])) := by
    simp [targetText]
  have hc' : Components scheme authority path query (some (f ++ [ch])) :=
    ⟨hc.scheme, hc.authority, hc.slash, hc.path, hc.query⟩
  rw [List.append_assoc, htext]
  rcases urlChar_fragment hs ha.char with hs' | hs'
  · exact .target (by rw [hs']; exact .fragmentStart) hc'
      (hf.skip ha (by rw [hs']; decide) (by rw [hs']; decide))
  · exact .target (by rw [hs']; exact .fragment) hc'
      (hf.skip ha (by rw [hs']; decide) (by rw [hs']; decide))

/-- A byte behind `://`. -/
theorem Reads.target_step (hread : TargetRead p.state path query fragment)
    (hc : Components scheme authority path query fragment)
    (hf : FieldsRead p (urlHead scheme authority).length path query) (hold : p.OldSet)
    (ha : Advances p p' (urlHead scheme authority ++ targetText path query fragment).length ch) :
    Reads p' (urlHead scheme authority ++ targetText path query fragment ++ [ch]) := by
  generalize hs : p.state = s at hread
  cases hread with
  | serverStart => exact .server_step (.inl hs) hc hf hold ha
  | server => exact .server_step (.inr (.inl hs)) hc hf hold ha
  | serverWithAt => exact .server_step (.inr (.inr hs)) hc hf hold ha
  | path hne => exact .path_step hs hne hc hf ha
  | queryStart => exact .query_step (.inl hs) hc hf ha
  | query _ => exact .query_step (.inr hs) hc hf ha
  | fragmentStart => exact .fragment_step (.inl hs) hc hf ha
  | fragment => exact .fragment_step (.inr hs) hc hf ha

end Target

/-- In front of the authority no field but the schema is read. -/
theorem FieldsRead.beforeAuthority (hf : FieldsRead p 0 [] none)
    (hhost : p.url.fieldSet .host = false) {i : ℕ} (ha : Advances p p' i ch)
    (hfield : urlField p'.state = some (some .schema) ∨ urlField p'.state = some none) :
    FieldsRead p' 0 [] none ∧ p'.url.fieldSet .host = false := by
  have hother {uf : UrlField} (huf : UrlField.schema ≠ uf) :
      urlField p'.state ≠ some (some uf) := by
    rcases hfield with h | h <;> rw [h] <;> simp [huf]
  exact ⟨hf.skip ha (hother (by decide)) (hother (by decide)),
    (ha.keepsSet (hother (by decide))).trans hhost⟩

/-- The first byte. -/
theorem Reads.start_step (hs : p.state = .reqSpacesBeforeUrl) (hurl : p.url = .zeroed) {i : ℕ}
    (ha : Advances p p' i ch) : Reads p' [ch] := by
  have hchar := ha.char
  rw [hs] at hchar
  unfold urlChar at hchar
  dsimp only at hchar
  split_ifs at hchar with hpath halpha
  · have hs' := (Option.some.inj hchar).symm
    refine .noSchema (by rw [hs']; rfl) ?_
    rw [ha.keepsSet (by rw [hs']; decide), hurl]
    rfl
  · have hs' := (Option.some.inj hchar).symm
    have hzero : FieldsRead p 0 [] none :=
      ⟨by rw [hurl]; decide, fun hne => absurd rfl hne,
        by rw [hurl]; simp [HttpParserUrl.zeroed],
        fun hpath => absurd (hs.symm.trans hpath) (by decide)⟩
    obtain ⟨hf, hhost⟩ := hzero.beforeAuthority (by rw [hurl]; rfl) ha (by rw [hs']; decide)
    refine .schema hs' ?_ hf hhost
    rw [List.mem_singleton]
    rintro rfl
    revert halpha
    decide

section Scheme

variable {scheme : Bytes} {i : ℕ}

theorem Reads.schema_step (hs : p.state = .reqSchema) (hscheme : colon ∉ scheme)
    (hf : FieldsRead p 0 [] none) (hhost : p.url.fieldSet .host = false)
    (ha : Advances p p' i ch) : Reads p' (scheme ++ [ch]) := by
  have hchar := ha.char
  rw [hs] at hchar
  unfold urlChar at hchar
  dsimp only at hchar
  split_ifs at hchar with halpha hcolon
  · have hs' := (Option.some.inj hchar).symm
    obtain ⟨hf', hhost'⟩ := hf.beforeAuthority hhost ha (by rw [hs']; decide)
    refine .schema hs' ?_ hf' hhost'
    rw [List.mem_append, List.mem_singleton]
    rintro (hmem | rfl)
    · exact hscheme hmem
    · revert halpha
      decide
  · have hs' := (Option.some.inj hchar).symm
    obtain ⟨hf', hhost'⟩ := hf.beforeAuthority hhost ha (by rw [hs']; decide)
    rw [hcolon]
    exact .slash hs' hscheme hf' hhost'

theorem Reads.slash_step (hs : p.state = .reqSchemaSlash) (hscheme : colon ∉ scheme)
    (hf : FieldsRead p 0 [] none) (hhost : p.url.fieldSet .host = false)
    (ha : Advances p p' i ch) : Reads p' (scheme ++ [colon] ++ [ch]) := by
  have hchar := ha.char
  rw [hs] at hchar
  unfold urlChar at hchar
  dsimp only at hchar
  split_ifs at hchar with hslash
  have hs' := (Option.some.inj hchar).symm
  obtain ⟨hf', hhost'⟩ := hf.beforeAuthority hhost ha (by rw [hs']; decide)
  rw [hslash, List.append_assoc]
  exact .slashSlash hs' hscheme hf' hhost'

/-- Behind `://` the authority begins. -/
theorem Reads.slashSlash_step (hs : p.state = .reqSchemaSlashSlash) (hscheme : colon ∉ scheme)
    (hf : FieldsRead p 0 [] none) (ha : Advances p p' i ch) :
    Reads p' (scheme ++ [colon, 47] ++ [ch]) := by
  have hchar := ha.char
  rw [hs] at hchar
  unfold urlChar at hchar
  dsimp only at hchar
  split_ifs at hchar with hslash
  have hs' := (Option.some.inj hchar).symm
  have htext : scheme ++ [colon, 47] ++ [ch] = urlHead scheme [] ++ targetText [] none none := by
    simp [urlHead, targetText, hslash]
  rw [htext]
  refine .target (by rw [hs']; exact .serverStart) ⟨hscheme, ?_, .inl rfl, ?_, ?_⟩
    ((hf.skip ha (by rw [hs']; decide) (by rw [hs']; decide)).rebase _)
  · exact fun _ hch => nomatch hch
  · exact fun _ hch => nomatch hch
  · exact fun _ hq => nomatch hq

end Scheme

theorem Reads.step {pre : Bytes} (h : Reads p pre) (hold : p.OldSet)
    (hstep : scanUrlChar pre.length ch p = some p') : Reads p' (pre ++ [ch]) := by
  have ha := scanUrlChar_advances hstep hold
  cases h with
  | start hs hurl => exact start_step hs hurl ha
  | schema hs hscheme hf hhost => exact schema_step hs hscheme hf hhost ha
  | slash hs hscheme hf hhost => exact slash_step hs hscheme hf hhost ha
  | slashSlash hs hscheme hf _ => exact slashSlash_step hs hscheme hf ha
  | target hread hc hf => exact target_step hread hc hf hold ha
  | noSchema hpath hschema =>
      have hpath' := urlChar_pathState hpath ha.char
      refine .noSchema hpath' ?_
      rw [ha.keepsSet (urlField_of_pathState hpath'), hschema]

theorem Reads.scan (rest : Bytes) : ∀ {pre : Bytes} {p p' : UrlScan}, Reads p pre → p.OldSet →
    scanUrl pre.length rest p = some p' → Reads p' (pre ++ rest) := by
  induction rest with
  | nil =>
      intro pre p p' h _ hscan
      obtain rfl := Option.some.inj hscan
      rwa [List.append_nil]
  | cons ch rest ih =>
      intro pre p p' h hold hscan
      obtain ⟨p₁, hstep, hscan⟩ := Option.bind_eq_some_iff.mp hscan
      have hread := h.step hold hstep
      have hlength : pre.length + 1 = (pre ++ [ch]).length := by rw [List.length_append]; rfl
      rw [hlength] at hscan
      have := ih hread (scanUrlChar_advances hstep hold).oldSet hscan
      rwa [List.append_assoc] at this

end UrlScan

/-! ## Accepted URLs -/

/-- `http_parse_host` does not set the field, nor moves one but the host. -/
def HttpParserUrl.Agrees (u u' : HttpParserUrl) (uf : UrlField) : Prop :=
  u'.fieldSet uf = u.fieldSet uf ∧ (uf ≠ .host → u'.fieldData uf = u.fieldData uf)

theorem HttpParserUrl.Agrees.trans {u u' u'' : HttpParserUrl} {uf : UrlField}
    (h : u.Agrees u' uf) (h' : u'.Agrees u'' uf) : u.Agrees u'' uf :=
  ⟨h'.1.trans h.1, fun hhost => (h'.2 hhost).trans (h.2 hhost)⟩

section Agrees

variable {uf : UrlField} (hport : uf ≠ .port) (huser : uf ≠ .userinfo)
include hport huser

theorem hostStep_agrees (i : ℕ) (s new : HostState) (u : HttpParserUrl) :
    u.Agrees (hostStep i s new u) uf := by
  unfold hostStep
  split
  · exact ⟨rfl, fun _ => rfl⟩
  · rename_i field starts hfield
    have hother : (starts = true → uf ≠ field) ∧ (uf ≠ .host → uf ≠ field) := by
      cases new <;> cases hfield <;> simp [hport, huser]
    cases starts with
    | true =>
        have hne := hother.1 rfl
        split_ifs <;> simp [HttpParserUrl.Agrees, HttpParserUrl.extend, HttpParserUrl.setData,
          HttpParserUrl.setField, hne]
    | false =>
        simp only [Bool.false_eq_true, if_false]
        refine ⟨by split_ifs <;> rfl, fun hhost => ?_⟩
        have hne := hother.2 hhost
        split_ifs <;> simp [HttpParserUrl.extend, HttpParserUrl.setData, hne]

theorem hostLoop_agrees (rest : Bytes) : ∀ {i : ℕ} {s s' : HostState} {u u' : HttpParserUrl},
    hostLoop i rest s u = some (s', u') → u.Agrees u' uf := by
  induction rest with
  | nil =>
      intro i s s' u u' h
      cases h
      exact ⟨rfl, fun _ => rfl⟩
  | cons ch rest ih =>
      intro i s s' u u' h
      obtain ⟨new, -, h⟩ := Option.bind_eq_some_iff.mp h
      exact (hostStep_agrees hport huser i s new u).trans (ih h)

theorem httpParseHost_agrees {url : Bytes} {u u' : HttpParserUrl} {foundAt : Bool}
    (h : httpParseHost url u foundAt = some u') : u.Agrees u' uf := by
  unfold httpParseHost at h
  simp only [Option.bind_eq_bind, Option.bind_eq_some_iff] at h
  obtain ⟨⟨s, u₁⟩, hloop, h⟩ := h
  have hsame : u₁ = u' := by
    cases s <;> first | exact Option.some.inj h | cases h
  subst hsame
  have hset : u.Agrees (u.setData .host ⟨(u.fieldData .host).off, 0⟩) uf :=
    ⟨rfl, fun hhost => by simp [HttpParserUrl.setData, hhost]⟩
  exact hset.trans (hostLoop_agrees hport huser _ hloop)

theorem httpParserParseUrl_agrees {url : Bytes} {u : HttpParserUrl}
    (h : httpParserParseUrl url = some u) :
    ∃ p, scanUrl 0 url .initial = some p ∧ p.url.Agrees u uf := by
  unfold httpParserParseUrl at h
  simp only [Option.bind_eq_bind, Option.bind_eq_some_iff] at h
  obtain ⟨p, hscan, u₁, hu₁, h⟩ := h
  have hhost : p.url.Agrees u₁ uf := by
    split at hu₁
    · exact httpParseHost_agrees hport huser hu₁
    · cases hu₁
      exact ⟨rfl, fun _ => rfl⟩
  have hnumber : u₁.Agrees u uf := by
    unfold parsePort at h
    dsimp only at h
    split_ifs at h <;> cases h <;> exact ⟨rfl, fun _ => rfl⟩
  exact ⟨p, hscan, hhost.trans hnumber⟩

end Agrees

/-- The components of an accepted URL, and the fields that stand for them. -/
theorem scriptParseUrl_components {url : Bytes} {parts : HttpParserUrl}
    (h : scriptParseUrl url = some parts) :
    ∃ scheme authority path query fragment,
      Components scheme authority path query fragment ∧
      url = urlHead scheme authority ++ targetText path query fragment ∧
      (parts.fieldSet .path = true ↔ path ≠ []) ∧
      (path ≠ [] → (parts.fieldData .path).off = u16 (urlHead scheme authority).length) ∧
      (parts.fieldSet .query = true ↔ ∃ q, query = some q ∧ q ≠ []) := by
  unfold scriptParseUrl at h
  simp only [Option.bind_eq_bind, Option.bind_eq_some_iff] at h
  obtain ⟨u, hparse, h⟩ := h
  split_ifs at h with hfields
  obtain rfl := Option.some.inj h
  have hagrees {uf : UrlField} (hport : uf ≠ .port) (huser : uf ≠ .userinfo) {p : UrlScan}
      (hp : scanUrl 0 url .initial = some p) : p.url.Agrees u uf := by
    obtain ⟨p', hp', hu⟩ := httpParserParseUrl_agrees hport huser hparse
    obtain rfl := Option.some.inj (hp.symm.trans hp')
    exact hu
  obtain ⟨p, hp, -⟩ := httpParserParseUrl_agrees (show UrlField.path ≠ .port by decide)
    (by decide) hparse
  have hschema := (hagrees (by decide) (by decide) hp).1.symm.trans hfields.1
  have hhost := (hagrees (by decide) (by decide) hp).1.symm.trans hfields.2
  have hread : p.Reads url :=
    UrlScan.Reads.scan url (.start rfl rfl) (fun _ hold => by cases hold) hp
  cases hread with
  | start _ hurl => rw [hurl] at hhost; cases hhost
  | schema _ _ _ hnone => rw [hnone] at hhost; cases hhost
  | slash _ _ _ hnone => rw [hnone] at hhost; cases hhost
  | slashSlash _ _ _ hnone => rw [hnone] at hhost; cases hhost
  | noSchema _ hnone => rw [hnone] at hschema; cases hschema
  | target _ hc hf =>
      obtain ⟨hpath, hdata⟩ := hagrees (show UrlField.path ≠ .port by decide) (by decide) hp
      obtain ⟨hquery, -⟩ := hagrees (show UrlField.query ≠ .port by decide) (by decide) hp
      refine ⟨_, _, _, _, _, hc, rfl, by rw [hpath]; exact hf.pathSet, fun hne => ?_,
        by rw [hquery]; exact hf.querySet⟩
      rw [hdata (by decide)]
      exact hf.off hne

namespace Components

variable {scheme authority path : Bytes} {query fragment : Option Bytes}

theorem authorityEnd_eq (h : Components scheme authority path query fragment) :
    authorityEnd (urlHead scheme authority ++ targetText path query fragment) =
      (urlHead scheme authority).length := by
  rw [authorityEnd, h.afterAuthority_eq, List.length_append, Nat.add_sub_cancel]

/-- The rest of the URL stands where the path does, when its offset is kept. -/
theorem createPath_eq_iff (h : Components scheme authority path query fragment)
    {parts : HttpParserUrl} (hset : parts.fieldSet .path = true ↔ path ≠ [])
    (hoff : path ≠ [] → (parts.fieldData .path).off = u16 (urlHead scheme authority).length)
    {query' : Option Bytes} (hle : (query'.elim [] (63 :: ·)).length ≤
      (query.elim [] (63 :: ·)).length) :
    createPath (urlHead scheme authority ++ targetText path query fragment) parts =
        targetOf path query' ↔
      (path ≠ [] ∧ (urlHead scheme authority).length < 2 ^ 16 ∧
        targetText path query fragment = targetText path query' none) ∨
      (path = [] ∧ query' = none) := by
  by_cases hne : path = []
  · subst hne
    have hunset : parts.fieldSet .path = false := by
      rw [← Bool.not_eq_true, hset]
      exact not_not_intro rfl
    have hroot : createPath (urlHead scheme authority ++ targetText [] query fragment) parts =
        [47] := by
      rw [createPath, hunset]
      rfl
    rw [hroot]
    cases query' with
    | none => simp [targetOf]
    | some q => simp [targetOf]
  · have hpath : createPath (urlHead scheme authority ++ targetText path query fragment) parts =
        (urlHead scheme authority ++ targetText path query fragment).drop
          (u16 (urlHead scheme authority).length) := by
      rw [createPath, if_pos (hset.mpr hne), hoff hne]
    have htarget : targetOf path query' = targetText path query' none := by
      rw [targetOf, if_neg hne, targetText, Option.elim_none, List.append_nil]
    rw [hpath, htarget]
    by_cases hshort : (urlHead scheme authority).length < 2 ^ 16
    · rw [u16, Nat.mod_eq_of_lt hshort, List.drop_left]
      exact ⟨fun heq => .inl ⟨hne, hshort, heq⟩, fun h => (h.resolve_right fun h => hne h.1).2.2⟩
    · -- the text from the wrong offset on is too long
      have hwrap := Nat.mod_lt (urlHead scheme authority).length (show 0 < 2 ^ 16 by decide)
      refine iff_of_false (fun heq => ?_) fun h => hshort
        (h.resolve_right fun h => hne h.1).2.1
      have hlength := congrArg List.length heq
      rw [List.length_drop, List.length_append, u16, targetText, targetText, List.length_append,
        List.length_append, List.length_append, List.length_append, Option.elim_none,
        List.length_nil] at hlength
      omega

end Components

/-- The request target is the path, or `/`, with the query exactly for the
URLs that `TargetKept` names; an empty query, which has no field, is kept too. -/
theorem request_target_iff {url : Bytes} {parts : HttpParserUrl}
    (h : scriptParseUrl url = some parts) {w : Wrk} (hw : w.path = createPath url parts)
    {c : FormatCall} (hc : c.path = none) :
    (parts.fieldSet .path = true ↔ urlPath url ≠ []) ∧
    (parts.fieldSet .query = true ↔ queryField url ≠ none) ∧
    ((w.format c).path = targetOf (urlPath url) (urlQuery url) ↔ TargetKept url) ∧
    ((w.format c).path = targetOf (urlPath url) (queryField url) ↔
      (TargetKept url ∧ urlQuery url ≠ some []) ∨ (urlPath url = [] ∧ urlQuery url = some [])) := by
  obtain ⟨scheme, authority, path, query, fragment, hcomp, rfl, hpath, hoff, hquery⟩ :=
    scriptParseUrl_components h
  have hformat : (w.format c).path = w.path := by
    rw [Wrk.format, hc]
    rfl
  rw [hformat, hw, TargetKept, queryField, hcomp.urlPath_eq, hcomp.urlQuery_eq,
    hcomp.urlFragment_eq, hcomp.authorityEnd_eq]
  refine ⟨hpath, hquery.trans ?_, ?_, ?_⟩
  · cases query <;> simp
  · have hfragment : targetText path query fragment = targetText path query none ↔
        fragment = none := by
      cases fragment <;> simp [targetText]
    rw [hcomp.createPath_eq_iff hpath hoff le_rfl, hfragment]
    tauto
  · have hle : ((query.filter (· ≠ [])).elim [] (63 :: ·)).length ≤
        (query.elim [] (63 :: ·)).length := by
      cases query with
      | none => rfl
      | some q => cases q <;> simp [Option.filter]
    have hboth : targetText path query fragment =
        targetText path (query.filter (· ≠ [])) none ↔ fragment = none ∧ query ≠ some [] := by
      rcases query with - | - | ⟨ch, q⟩ <;> cases fragment <;> simp [targetText, Option.filter]
    have hnone : query.filter (· ≠ []) = none ↔ query = none ∨ query = some [] := by
      cases query with
      | none => simp
      | some q => simp [Option.filter]
    rw [hcomp.createPath_eq_iff hpath hoff hle, hboth, hnone]
    constructor
    · rintro (⟨hne, hshort, hnone, hquery⟩ | ⟨hempty, hquery | hquery⟩)
      · exact .inl ⟨.inl ⟨hne, hnone, hshort⟩, hquery⟩
      · exact .inl ⟨.inr ⟨hempty, hquery⟩, by simp [hquery]⟩
      · exact .inr ⟨hempty, hquery⟩
    · rintro (⟨⟨hne, hnone, hshort⟩ | ⟨hempty, hquery⟩, hkept⟩ | ⟨hempty, hquery⟩)
      · exact .inl ⟨hne, hshort, hnone, hkept⟩
      · exact .inr ⟨hempty, .inl hquery⟩
      · exact .inr ⟨hempty, .inr hquery⟩

/-- A `wrk` with this path. -/
def wrkOfPath (path : Bytes) : Wrk := ⟨"GET".toUTF8.toList, path, ⟨[], List.nodup_nil⟩, none⟩

/-- `wrk.format()`. -/
def plainFormat : FormatCall :=
  ⟨none, none, none, none, HeaderTable.entries, HeaderTable.entries_perm⟩

/-- A path and a query. -/
theorem request_target_iff_search :
    ∃ parts, scriptParseUrl "http://h/p?q".toUTF8.toList = some parts ∧
      ((wrkOfPath (createPath "http://h/p?q".toUTF8.toList parts)).format plainFormat).path =
        "/p?q".toUTF8.toList := by
  obtain ⟨parts, h⟩ : ∃ parts, scriptParseUrl "http://h/p?q".toUTF8.toList = some parts :=
    Option.isSome_iff_exists.mp (by decide +kernel)
  have htarget : targetOf (urlPath "http://h/p?q".toUTF8.toList)
      (urlQuery "http://h/p?q".toUTF8.toList) = "/p?q".toUTF8.toList := by decide +kernel
  have hkept : TargetKept "http://h/p?q".toUTF8.toList :=
    .inl ⟨by decide +kernel, by decide +kernel, by decide +kernel⟩
  refine ⟨parts, h, ?_⟩
  rw [← htarget]
  exact (request_target_iff h (w := wrkOfPath _) rfl (c := plainFormat) rfl).2.2.1.mpr hkept

/-- A fragment is sent, and a query without a path is not. -/
theorem request_target_wrong :
    (∃ parts, scriptParseUrl "http://h/p#f".toUTF8.toList = some parts ∧
      ((wrkOfPath (createPath "http://h/p#f".toUTF8.toList parts)).format plainFormat).path =
        "/p#f".toUTF8.toList) ∧
    targetOf (urlPath "http://h/p#f".toUTF8.toList) (urlQuery "http://h/p#f".toUTF8.toList) =
      "/p".toUTF8.toList ∧
    (∃ parts, scriptParseUrl "http://h?q".toUTF8.toList = some parts ∧
      ((wrkOfPath (createPath "http://h?q".toUTF8.toList parts)).format plainFormat).path =
        "/".toUTF8.toList) ∧
    targetOf (urlPath "http://h?q".toUTF8.toList) (urlQuery "http://h?q".toUTF8.toList) =
      "/?q".toUTF8.toList := by
  have hpath {url path : Bytes} (h : (scriptParseUrl url).map (createPath url) = some path) :
      ∃ parts, scriptParseUrl url = some parts ∧
        ((wrkOfPath (createPath url parts)).format plainFormat).path = path :=
    Option.map_eq_some_iff.mp h
  exact ⟨hpath (by decide +kernel), by decide +kernel, hpath (by decide +kernel),
    by decide +kernel⟩

end WrkQuic
