import WrkQuic.HttpResponse

/-!
# The parser on the names of header fields

What the parser makes of a status line and of the name of a header field: up
to the colon it keeps which of the names it knows is matched so far
(`NameAt`). The bytes that count for a header are left to a `Reader`; `Reads`
is the one that reads every byte on its own.
-/

namespace WrkQuic

open Scanner HttpParser

/-! ## Header lines -/

/-- The characters that do not end a header value. -/
def isInline (ch : UInt8) : Bool := ch ≠ cr && ch ≠ lf && ch ≠ 0

theorem isInline_ne {ch : UInt8} (h : isInline ch = true) : ch ≠ cr ∧ ch ≠ lf ∧ ch ≠ 0 := by
  simpa [isInline, and_assoc] using h

theorem isText_ne {ch : UInt8} (h : isText ch = true) : ch ≠ cr ∧ ch ≠ lf ∧ ch ≠ 0 := by
  refine ⟨?_, ?_, ?_⟩ <;> rintro rfl <;> revert h <;> decide

theorem isText_inline {ch : UInt8} (h : isText ch = true) : isInline ch = true := by
  simpa [isInline, and_assoc] using isText_ne h

/-- A header field whose value is anything that stays on its line. -/
structure HeaderLine where
  name : Bytes
  value : Bytes
  name_ne_nil : name ≠ []
  name_token : ∀ ch ∈ name, token ch ≠ 0
  value_inline : ∀ ch ∈ value, isInline ch = true

namespace HeaderLine

def encode (l : HeaderLine) : Bytes := l.name ++ colon :: l.value ++ crlf

/-- The name is `word`, in any case. -/
def Named (l : HeaderLine) (word : Bytes) : Prop := l.name.map lowercase = word

/-- A connection option. -/
def Connection (l : HeaderLine) (word : Bytes) : Prop :=
  (l.Named connectionWord ∨ l.Named proxyConnectionWord) ∧ HasOption l.value word

/-- The value is `content` between blanks, no tab after it. -/
def Holds (l : HeaderLine) (content : Bytes) : Prop :=
  ∃ lead trail, l.value = lead ++ content ++ trail ∧ (∀ ch ∈ lead, isBlank ch = true) ∧
    ∀ ch ∈ trail, ch = space

/-- A content length that the parser accepts. -/
def Announces (l : HeaderLine) (n : ℕ) : Prop :=
  ∃ digits, l.Holds digits ∧ digits ≠ [] ∧ (∀ ch ∈ digits, isNum ch = true) ∧
    decimal digits = n ∧ n / 10 ≤ (ullongMax - 10) / 10

def Chunked (l : HeaderLine) : Prop := ∃ word, l.Holds word ∧ word.map lowercase = chunkedWord

/-- A connection field that says `close`, and nothing else. -/
def Closes (l : HeaderLine) : Prop :=
  (l.Named connectionWord ∨ l.Named proxyConnectionWord) ∧
    ∃ word, l.Holds word ∧ word.map lowercase = closeWord

theorem Closes.connection {l : HeaderLine} (h : l.Closes) :
    l.Connection closeWord := by
  obtain ⟨hname, word, ⟨lead, trail, hvalue, hlead, htrail⟩, hword⟩ := h
  refine ⟨hname, [], lead, word, trail, [], by simp [hvalue], Or.inl rfl, Or.inl rfl, hlead, ?_,
    hword⟩
  intro ch hch
  rw [htrail ch hch]
  decide

end HeaderLine

/-- A field of a response as such a line. -/
def Field.line (f : Field) : HeaderLine where
  name := f.name
  value := f.value
  name_ne_nil := f.name_ne_nil
  name_token := f.name_token
  value_inline ch hch := isText_inline (f.value_text ch hch)

namespace Field

@[simp] theorem line_named {f : Field} {word : Bytes} : f.line.Named word ↔ f.Named word :=
  Iff.rfl

@[simp] theorem line_connection {f : Field} {word : Bytes} :
    f.line.Connection word ↔ f.Connection word := Iff.rfl

@[simp] theorem line_announces {f : Field} {n : ℕ} : f.line.Announces n ↔ f.Announces n :=
  Iff.rfl

@[simp] theorem line_chunked {f : Field} : f.line.Chunked ↔ f.Chunked := Iff.rfl

end Field

namespace HttpParser

variable {p p' p'' : HttpParser} {ch c : UInt8} {u v w : Bytes} {loop : Option ℕ}

/-- `p` reads `w` and becomes `p'`, and every byte counts twice at most. -/
def Reads (p : HttpParser) (w : Bytes) (p' : HttpParser) : Prop :=
  ∀ n, n + 2 * w.length ≤ httpMaxHeaderSize →
    ∃ n', n' ≤ n + 2 * w.length ∧ run feedByte (p.setNread n) w = some (p'.setNread n', [])

theorem Reads.nil : Reads p [] p := fun n _ => ⟨n, Nat.le_refl n, rfl⟩

theorem Reads.append (h : Reads p u p') (h' : Reads p' v p'') : Reads p (u ++ v) p'' := by
  intro n hn
  rw [List.length_append] at hn ⊢
  obtain ⟨n₁, hn₁, hu⟩ := h n (by omega)
  obtain ⟨n₂, hn₂, hv⟩ := h' n₁ (by omega)
  refine ⟨n₂, by omega, ?_⟩
  rw [run_append_of_some hu, hv]
  rfl

theorem Reads.cons (h : Reads p [ch] p') (h' : Reads p' w p'') : Reads p (ch :: w) p'' :=
  h.append h'

theorem run_singleton {q : HttpParser} {m : Option Completion} (h : feedByte p ch = some (q, m)) :
    run feedByte p [ch] = some (q, m.toList) := by
  rw [run, h]
  simp [run]

theorem settle_next (loop : Option ℕ) {m : Option Completion}
    (h : p.nread + loop.getD 0 ≤ httpMaxHeaderSize) :
    settle (.next p loop m) = some (p.setNread (p.nread + loop.getD 0), m) := by
  unfold settle settled
  simp only
  rw [if_neg (Nat.not_lt.mpr h)]
  rfl

theorem loopHead_header {k : HttpParser → Scanned} (hp : p.state.parsingHeader = true)
    (hn : p.nread + 1 ≤ httpMaxHeaderSize) : loopHead p k = k (p.setNread (p.nread + 1)) := by
  rw [loopHead, if_pos hp, countHeaderSize_of_le hn]

/-- A state that looks at one byte. -/
theorem reads_byte (loop : Option ℕ) (hp : p.state.parsingHeader = true)
    (hloop : loop.getD 0 ≤ 1)
    (h : ∀ n, n ≤ httpMaxHeaderSize →
      scanState (p.setNread n) ch = .next (p'.setNread n) loop none) : Reads p [ch] p' := by
  intro n hn
  rw [List.length_singleton] at hn ⊢
  refine ⟨n + 1 + loop.getD 0, by omega, ?_⟩
  refine run_singleton (m := none) ?_
  rw [feedByte, scanByte_none,
    loopHead_header (by exact hp) (by rw [setNread_nread]; omega)]
  simp only [setNread_nread, setNread_setNread]
  rw [h (n + 1) (by omega)]
  exact settle_next _ (by rw [setNread_nread]; omega)

theorem reads_pass (hp : p.state.parsingHeader = true)
    (h : ∀ n, n ≤ httpMaxHeaderSize → scanState (p.setNread n) ch = pass (p'.setNread n)) :
    Reads p [ch] p' :=
  reads_byte none hp (Nat.zero_le 1) h

theorem digit_le (h : isNum ch = true) : digit ch ≤ 9 := by
  rw [isNum, Bool.and_eq_true, decide_eq_true_eq, decide_eq_true_eq] at h
  have : ch.toNat ≤ 57 := UInt8.le_iff_toNat_le.mp h.2
  rw [digit]
  omega

/-! ## The status line -/

/-- After the status line. -/
def atFields (status : ℕ) : HttpParser :=
  { init with
    state := .headerFieldStart
    contentLength := ullongMax
    httpMajor := 1
    httpMinor := 1
    statusCode := status }

theorem httpVersion_eq : httpVersion = [72, 84, 84, 80, 47, 49, 46, 49, 32] := by
  decide +kernel

theorem reads_httpVersion :
    Reads init httpVersion { atFields 0 with state := .resFirstStatusCode } := by
  let at_ (state : ParserState) (major minor : ℕ) : HttpParser := { init with
    state := state, contentLength := ullongMax, httpMajor := major, httpMinor := minor }
  have hH : Reads init [72] (at_ .resH 0 0) :=
    reads_pass rfl fun n _ => rfl
  have hHT : Reads (at_ .resH 0 0) [84] (at_ .resHT 0 0) :=
    reads_pass rfl fun n _ => rfl
  have hHTT : Reads (at_ .resHT 0 0) [84] (at_ .resHTT 0 0) :=
    reads_pass rfl fun n _ => rfl
  have hHTTP : Reads (at_ .resHTT 0 0) [80] (at_ .resHTTP 0 0) :=
    reads_pass rfl fun n _ => rfl
  have hslash : Reads (at_ .resHTTP 0 0) [47] (at_ .resFirstHttpMajor 0 0) :=
    reads_pass rfl fun n _ => rfl
  have hmajor : Reads (at_ .resFirstHttpMajor 0 0) [49] (at_ .resHttpMajor 1 0) :=
    reads_pass rfl fun n _ => rfl
  have hdot : Reads (at_ .resHttpMajor 1 0) [46] (at_ .resFirstHttpMinor 1 0) :=
    reads_pass rfl fun n _ => rfl
  have hminor : Reads (at_ .resFirstHttpMinor 1 0) [49] (at_ .resHttpMinor 1 1) :=
    reads_pass rfl fun n _ => rfl
  have hspace : Reads (at_ .resHttpMinor 1 1) [32] (at_ .resFirstStatusCode 1 1) :=
    reads_pass rfl fun n _ => rfl
  rw [httpVersion_eq]
  exact hH.cons (hHT.cons (hHTT.cons (hHTTP.cons (hslash.cons (hmajor.cons (hdot.cons
    (hminor.cons hspace)))))))

theorem reads_status {status : Bytes} (hlength : status.length = 3)
    (hdigits : ∀ ch ∈ status, isNum ch = true) :
    Reads { atFields 0 with state := .resFirstStatusCode } status
      { atFields (decimal status) with state := .resStatusCode } := by
  obtain ⟨a, b, c, rfl⟩ := List.length_eq_three.mp hlength
  have ha := hdigits a (by simp)
  have hb := hdigits b (by simp)
  have hc := hdigits c (by simp)
  have hfirst : Reads { atFields 0 with state := .resFirstStatusCode } [a]
      { atFields (digit a) with state := .resStatusCode } := by
    refine reads_pass rfl fun n _ => ?_
    exact if_pos ha
  have hnext {status : ℕ} {ch : UInt8} (hch : isNum ch = true) (hstatus : status ≤ 99) :
      Reads { atFields status with state := .resStatusCode } [ch]
        { atFields (status * 10 + digit ch) with state := .resStatusCode } := by
    have := digit_le hch
    refine reads_pass rfl fun n _ => ?_
    refine (if_pos hch).trans (if_neg ?_)
    show ¬ 999 < status * 10 + digit ch
    omega
  have := digit_le ha
  have := digit_le hb
  have hvalue : decimal [a, b, c] = (digit a * 10 + digit b) * 10 + digit c := by
    simp [decimal]
  rw [hvalue]
  exact hfirst.cons ((hnext hb (by omega)).cons (hnext hc (by omega)))

theorem reads_reason {status : ℕ} {reason : Bytes} (h : ∀ ch ∈ reason, isText ch = true) :
    Reads { atFields status with state := .resStatusStart } (reason ++ crlf) (atFields status) := by
  have hend {state : ParserState} (hstate : state = .resStatusStart ∨ state = .resStatus) :
      Reads { atFields status with state := state } crlf (atFields status) := by
    have hcr : Reads { atFields status with state := state } [cr]
        { atFields status with state := .resLineAlmostDone } := by
      rcases hstate with rfl | rfl
      · exact reads_pass rfl fun n _ => rfl
      · exact reads_pass rfl fun n _ => rfl
    exact hcr.cons (reads_pass rfl fun n _ => rfl)
  have hrest : ∀ reason : Bytes, (∀ ch ∈ reason, isText ch = true) →
      Reads { atFields status with state := .resStatus } (reason ++ crlf) (atFields status) := by
    intro reason
    induction reason with
    | nil => exact fun _ => hend (Or.inr rfl)
    | cons ch rest ih =>
        intro htext
        obtain ⟨hcr, hlf, -⟩ := isText_ne (htext ch (by simp))
        refine Reads.cons ?_ (ih fun ch hch => htext ch (by simp [hch]))
        refine reads_pass rfl fun n _ => ?_
        exact (if_neg hcr).trans (if_neg hlf)
  cases reason with
  | nil => exact hend (Or.inl rfl)
  | cons ch rest =>
      obtain ⟨hcr, hlf, -⟩ := isText_ne (h ch (by simp))
      refine Reads.cons ?_ (hrest rest fun ch hch => h ch (by simp [hch]))
      refine reads_pass rfl fun n _ => ?_
      exact (if_neg hcr).trans (if_neg hlf)

theorem reads_statusLine {status reason : Bytes} (hlength : status.length = 3)
    (hdigits : ∀ ch ∈ status, isNum ch = true) (htext : ∀ ch ∈ reason, isText ch = true) :
    Reads init (httpVersion ++ status ++ space :: reason ++ crlf) (atFields (decimal status)) := by
  have hspace : Reads { atFields (decimal status) with state := .resStatusCode } [space]
      { atFields (decimal status) with state := .resStatusStart } :=
    reads_pass rfl fun n _ => rfl
  have := (reads_httpVersion.append (reads_status hlength hdigits)).append
    (hspace.cons (reads_reason htext))
  simpa only [List.append_assoc, List.cons_append] using this

/-! ## Names -/

/-- The names that the parser knows. -/
def knownWords : List Bytes :=
  [connectionWord, proxyConnectionWord, contentLengthWord, transferEncodingWord, upgradeWord]

/-- The state of `s_header_field` after the name `u`, in lower case. -/
def NameAt (u : Bytes) (index : ℕ) : HeaderStates → Prop
  | .C => index = 0 ∧ u = [99]
  | .CO => index = 1 ∧ u = [99, 111]
  | .CON => index = 2 ∧ u = [99, 111, 110]
  | .matchingConnection => 3 ≤ index ∧ index + 1 < 10 ∧ u = connectionWord.take (index + 1)
  | .matchingProxyConnection => index + 1 < 16 ∧ u = proxyConnectionWord.take (index + 1)
  | .matchingContentLength => 3 ≤ index ∧ index + 1 < 14 ∧ u = contentLengthWord.take (index + 1)
  | .matchingTransferEncoding => index + 1 < 17 ∧ u = transferEncodingWord.take (index + 1)
  | .matchingUpgrade => index + 1 < 7 ∧ u = upgradeWord.take (index + 1)
  | .connection => u = connectionWord ∨ u = proxyConnectionWord
  | .contentLength => u = contentLengthWord
  | .transferEncoding => u = transferEncodingWord
  | .upgrade => u = upgradeWord
  | .general => ∀ word ∈ knownWords, ¬ u <+: word
  | _ => False

theorem knownWords_length : connectionWord.length = 10 ∧ proxyConnectionWord.length = 16 ∧
    contentLengthWord.length = 14 ∧ transferEncodingWord.length = 17 ∧ upgradeWord.length = 7 := by
  decide +kernel

/-- From its `k`-th character on, `word` can be no other known name. -/
def Unique (word : Bytes) (k : ℕ) : Prop := ∀ w ∈ knownWords, w.take k = word.take k → w = word

instance (word : Bytes) (k : ℕ) : Decidable (Unique word k) :=
  inferInstanceAs (Decidable (∀ w ∈ knownWords, w.take k = word.take k → w = word))

theorem knownWords_unique : Unique connectionWord 4 ∧ Unique proxyConnectionWord 1 ∧
    Unique contentLengthWord 4 ∧ Unique transferEncodingWord 1 ∧ Unique upgradeWord 1 := by
  decide +kernel

/-- No known name begins another one. -/
theorem knownWords_prefix : ∀ u ∈ knownWords, ∀ w ∈ knownWords, u <+: w → u = w := by
  decide +kernel

/-- The characters after `c`, `co` and `con`. -/
theorem knownWords_co : ∀ w ∈ knownWords,
    ([99] <+: w → w[1]? = some 111) ∧ ([99, 111] <+: w → w[2]? = some 110) ∧
      ([99, 111, 110] <+: w → w[3]? = some 110 ∨ w[3]? = some 116) := by
  decide +kernel

theorem getElem?_of_prefix_snoc (h : u ++ [c] <+: w) : w[u.length]? = some c := by
  obtain ⟨v, rfl⟩ := h
  simp

theorem prefix_of_prefix_snoc (h : u ++ [c] <+: w) : u <+: w :=
  (List.prefix_append u [c]).trans h

theorem take_snoc {word : Bytes} {i : ℕ} (h : word[i]? = some c) :
    word.take i ++ [c] = word.take (i + 1) := by
  rw [List.take_add_one, h]
  rfl

theorem not_prefix_of_mismatch {word : Bytes} {i k : ℕ} (hword : i < word.length) (hk : k ≤ i)
    (hunique : Unique word k) (hc : word[i]? ≠ some c) :
    ∀ w ∈ knownWords, ¬ word.take i ++ [c] <+: w := by
  intro w hw hprefix
  have hlength : (word.take i).length = i := List.length_take_of_le (Nat.le_of_lt hword)
  have hnext := getElem?_of_prefix_snoc hprefix
  have htake : w.take i = word.take i := by
    obtain ⟨v, rfl⟩ := prefix_of_prefix_snoc hprefix
    rw [List.take_append_of_le_length (Nat.le_of_eq hlength.symm), List.take_take, Nat.min_self]
  have hsame : w = word := by
    refine hunique w hw ?_
    have := congrArg (List.take k) htake
    rwa [List.take_take, List.take_take, Nat.min_eq_left hk] at this
  rw [hlength, hsame] at hnext
  exact hc hnext

/-- One character of a name that has matched `word` so far. -/
theorem matchWord_nameAt {word : Bytes} {i k : ℕ} {same done : HeaderStates}
    (hi : i + 1 < word.length) (hk : k ≤ i + 1) (hunique : Unique word k)
    (hsame : i + 2 < word.length → NameAt (word.take (i + 2)) (i + 1) same)
    (hdone : NameAt word (i + 1) done) :
    NameAt (word.take (i + 1) ++ [c]) (i + 1)
      (matchWord word (i + 1) c .general same done) := by
  unfold matchWord
  split
  · rename_i hc
    exact not_prefix_of_mismatch hi hk hunique hc
  · rename_i hc
    rw [take_snoc (not_not.mp hc)]
    split
    · rename_i hend
      rw [List.take_of_length_le (Nat.le_of_eq hend.symm)]
      exact hdone
    · rename_i hmore
      exact hsame (by omega)

theorem fieldChar_nameAt {h : HeaderStates} {index : ℕ} (hch : token ch ≠ 0)
    (hname : NameAt u index h) :
    NameAt (u ++ [token ch]) (fieldChar h index ch).2 (fieldChar h index ch).1 := by
  obtain ⟨hconnection, hproxy, hlength, htransfer, hupgrade⟩ := knownWords_length
  obtain ⟨uconnection, uproxy, ulength, utransfer, uupgrade⟩ := knownWords_unique
  have hknown {word : Bytes} (hword : word ∈ knownWords) (hu : u = word) :
      ∀ w ∈ knownWords, ¬ u ++ [token ch] <+: w := by
    intro w hw hprefix
    subst hu
    have hsame := knownWords_prefix u hword w hw (prefix_of_prefix_snoc hprefix)
    have := hprefix.length_le
    rw [← hsame, List.length_append, List.length_singleton] at this
    omega
  have hspace : ch ≠ space := by
    rintro rfl
    exact hch (by decide +kernel)
  cases h with
  | C =>
      obtain ⟨rfl, rfl⟩ := hname
      simp only [fieldChar]
      split
      · rename_i hc
        exact ⟨rfl, by rw [hc]; rfl⟩
      · rename_i hc
        intro w hw hprefix
        have hnext := (knownWords_co w hw).1 (prefix_of_prefix_snoc hprefix)
        exact hc (Option.some.inj ((getElem?_of_prefix_snoc hprefix).symm.trans hnext))
  | CO =>
      obtain ⟨rfl, rfl⟩ := hname
      simp only [fieldChar]
      split
      · rename_i hc
        exact ⟨rfl, by rw [hc]; rfl⟩
      · rename_i hc
        intro w hw hprefix
        have hnext := (knownWords_co w hw).2.1 (prefix_of_prefix_snoc hprefix)
        exact hc (Option.some.inj ((getElem?_of_prefix_snoc hprefix).symm.trans hnext))
  | CON =>
      obtain ⟨rfl, rfl⟩ := hname
      simp only [fieldChar]
      split
      · rename_i hc
        exact ⟨by omega, by omega, by rw [hc]; decide +kernel⟩
      · split
        · rename_i hc
          exact ⟨by omega, by omega, by rw [hc]; decide +kernel⟩
        · rename_i hn ht
          intro w hw hprefix
          have hchar := getElem?_of_prefix_snoc hprefix
          rcases (knownWords_co w hw).2.2 (prefix_of_prefix_snoc hprefix) with hnext | hnext
          · exact hn (Option.some.inj (hchar.symm.trans hnext))
          · exact ht (Option.some.inj (hchar.symm.trans hnext))
  | matchingConnection =>
      obtain ⟨hmin, hmax, rfl⟩ := hname
      exact matchWord_nameAt (by omega) (by omega) uconnection
        (fun hmore => ⟨by omega, by omega, rfl⟩) (Or.inl rfl)
  | matchingProxyConnection =>
      obtain ⟨hmax, rfl⟩ := hname
      exact matchWord_nameAt (by omega) (by omega) uproxy (fun hmore => ⟨by omega, rfl⟩)
        (Or.inr rfl)
  | matchingContentLength =>
      obtain ⟨hmin, hmax, rfl⟩ := hname
      exact matchWord_nameAt (by omega) (by omega) ulength
        (fun hmore => ⟨by omega, by omega, rfl⟩) rfl
  | matchingTransferEncoding =>
      obtain ⟨hmax, rfl⟩ := hname
      exact matchWord_nameAt (by omega) (by omega) utransfer (fun hmore => ⟨by omega, rfl⟩) rfl
  | matchingUpgrade =>
      obtain ⟨hmax, rfl⟩ := hname
      exact matchWord_nameAt (by omega) (by omega) uupgrade (fun hmore => ⟨by omega, rfl⟩) rfl
  | connection =>
      simp only [fieldChar, if_pos hspace]
      rcases hname with hu | hu
      · exact hknown (by simp [knownWords]) hu
      · exact hknown (by simp [knownWords]) hu
  | contentLength =>
      simp only [fieldChar, if_pos hspace]
      exact hknown (by simp [knownWords]) hname
  | transferEncoding =>
      simp only [fieldChar, if_pos hspace]
      exact hknown (by simp [knownWords]) hname
  | upgrade =>
      simp only [fieldChar, if_pos hspace]
      exact hknown (by simp [knownWords]) hname
  | general => exact fun w hw hprefix => hname w hw (prefix_of_prefix_snoc hprefix)
  | _ => exact hname.elim

theorem firstHeaderState_nameAt (c : UInt8) : NameAt [c] 0 (firstHeaderState c) := by
  unfold firstHeaderState
  split
  · rename_i hc
    exact ⟨rfl, by rw [hc]⟩
  · split
    · rename_i hc
      exact ⟨by omega, by rw [hc]; decide +kernel⟩
    · split
      · rename_i hc
        exact ⟨by omega, by rw [hc]; decide +kernel⟩
      · split
        · rename_i hc
          exact ⟨by omega, by rw [hc]; decide +kernel⟩
        · rename_i hc hp ht hu
          have hheads : ∀ w ∈ knownWords, w.head? = some 99 ∨ w.head? = some 112 ∨
              w.head? = some 116 ∨ w.head? = some 117 := by
            decide +kernel
          rintro w hw ⟨v, rfl⟩
          have := hheads _ hw
          simp only [List.singleton_append, List.head?_cons, Option.some.injEq] at this
          tauto

/-! ## Lines -/

/-- The flags once the last header is finished. -/
def finishFlags (h : HeaderStates) (flags : ParserFlags) : ParserFlags :=
  match h with
  | .connectionKeepAlive => { flags with connectionKeepAlive := true }
  | .connectionClose => { flags with connectionClose := true }
  | .transferEncodingChunked => { flags with chunked := true }
  | .connectionUpgrade => { flags with connectionUpgrade := true }
  | _ => flags

theorem finishHeader_eq (p : HttpParser) :
    finishHeader p = { p with flags := finishFlags p.headerState p.flags } := by
  obtain ⟨flags, state, h, index, nread, length, major, minor, status, errno, upgrade⟩ := p
  cases h <;> rfl

/-- The parser waits for the first byte of a line; the header of the line
before may still have to be finished. -/
def AtLine (p : HttpParser) : Prop :=
  p.state = .headerFieldStart ∨ p.state = .headerValueLws ∨ p.state = .headerValueDiscardLws

def lineFlags (p : HttpParser) : ParserFlags :=
  if p.state = .headerFieldStart then p.flags else finishFlags p.headerState p.flags

/-- What the first byte of the line finds. -/
def lineStart (p : HttpParser) : HttpParser :=
  { p with state := .headerFieldStart, flags := lineFlags p }

theorem AtLine.parsingHeader (hp : AtLine p) : p.state.parsingHeader = true := by
  rcases hp with hstate | hstate | hstate <;> rw [hstate] <;> rfl

/-- The states behind the line feed of a header field. -/
def lineEnded : ParserState → Bool
  | .headerValueDiscardLws | .headerValueLws => true
  | _ => false

/-- The byte that follows them counts twice. -/
def due (p : HttpParser) : ℕ := if lineEnded p.state then 1 else 0

theorem due_le (p : HttpParser) : due p ≤ 1 := by
  unfold due
  split <;> decide

/-- The first byte of a line. -/
theorem scanState_line (hp : AtLine p) (hblank : isBlank ch = false) {n : ℕ}
    (hn : n + due p ≤ httpMaxHeaderSize) :
    scanState (p.setNread n) ch = headerFieldStart ((lineStart p).setNread (n + due p)) ch := by
  have hnoblank : ¬ (ch = space ∨ ch = tab) := by
    rw [isBlank, Bool.or_eq_false_iff, decide_eq_false_iff_not, decide_eq_false_iff_not] at hblank
    exact fun hch => hch.elim hblank.1 hblank.2
  have hnextLine (hstate : p.state ≠ .headerFieldStart) (hdue : due p = 1)
      (hscan : scanState (p.setNread n) ch = loopHead
        { finishHeader (p.setNread n) with state := .headerFieldStart } (headerFieldStart · ch)) :
      scanState (p.setNread n) ch = headerFieldStart ((lineStart p).setNread (n + due p)) ch := by
    have hfinish : { finishHeader (p.setNread n) with state := .headerFieldStart } =
        (lineStart p).setNread n := by
      rw [finishHeader_eq, lineStart, lineFlags, if_neg hstate]
      rfl
    rw [hdue] at hn ⊢
    rw [hscan, hfinish, loopHead_header rfl (by rw [setNread_nread]; exact hn)]
    simp only [setNread_nread, setNread_setNread]
  rcases hp with hstate | hstate | hstate
  · have hdue : due p = 0 := by
      rw [due, hstate]
      rfl
    rw [hdue, Nat.add_zero, lineStart, lineFlags, if_pos hstate, scanState,
      show (p.setNread n).state = .headerFieldStart from hstate]
    simp only [← hstate]
  · refine hnextLine (by rw [hstate]; decide) (by rw [due, hstate]; rfl) ?_
    rw [scanState, show (p.setNread n).state = .headerValueLws from hstate]
    exact if_neg hnoblank
  · refine hnextLine (by rw [hstate]; decide) (by rw [due, hstate]; rfl) ?_
    rw [scanState, show (p.setNread n).state = .headerValueDiscardLws from hstate]
    exact if_neg hnoblank

theorem reads_line (hp : AtLine p) (hblank : isBlank ch = false)
    (h : ∀ n, n ≤ httpMaxHeaderSize →
      headerFieldStart ((lineStart p).setNread n) ch = pass (p'.setNread n)) :
    Reads p [ch] p' := by
  intro n hn
  have hdue := due_le p
  rw [List.length_singleton] at hn ⊢
  refine ⟨n + 1 + due p, by omega, ?_⟩
  refine run_singleton (m := none) ?_
  rw [feedByte, scanByte_none,
    loopHead_header (by exact hp.parsingHeader) (by rw [setNread_nread]; omega)]
  simp only [setNread_nread, setNread_setNread]
  rw [scanState_line hp hblank (by omega), h _ (by omega)]
  refine settle_next none ?_
  show n + 1 + due p + 0 ≤ httpMaxHeaderSize
  omega

/-! ## Readers -/

/-- The states behind the first character of a header field. -/
def inField : ParserState → Bool
  | .headerField | .headerValueDiscardWs | .headerValueDiscardWsAlmostDone | .headerValue
  | .headerAlmostDone => true
  | _ => false

/-- A byte of a header field, where a line feed does not end a value and only
a line feed ends the field. -/
structure FieldByte (p : HttpParser) (ch : UInt8) (p' : HttpParser) (loop : Option ℕ) :
    Prop where
  inField : inField p.state = true
  value : p.state = .headerValue → ch ≠ lf
  line : lineEnded p'.state = true → ch = lf
  loop : loop = none ∨
    loop = some 1 ∧ p'.state = p.state ∧ (p.state = .headerField ∨ p.state = .headerValue)

/-- A byte that is passed behind a name and before a value. -/
theorem FieldByte.between (hfield : HttpParser.inField p.state = true)
    (hvalue : decide (p.state = .headerValue) = false) (hline : lineEnded p'.state = false) :
    FieldByte p ch p' none where
  inField := hfield
  value h := absurd h (of_decide_eq_false hvalue)
  line h := absurd (hline.symm.trans h) Bool.false_ne_true
  loop := Or.inl rfl

/-- `R p w p'` says that `p` reads `w` and becomes `p'`, whatever the number
of header bytes counted before, which shows in neither. -/
structure Reader (R : HttpParser → Bytes → HttpParser → Prop) : Prop where
  nil : ∀ p, R p [] p
  append : ∀ {p p' p'' u v}, R p u p' → R p' v p'' → R p (u ++ v) p''
  byte : ∀ {p p' ch} {loop : Option ℕ}, FieldByte p ch p' loop →
    (∀ n, n ≤ httpMaxHeaderSize →
      scanState (p.setNread n) ch = .next (p'.setNread n) loop none) → R p [ch] p'
  line : ∀ {p p' ch}, AtLine p → isBlank ch = false → ch ≠ lf →
    (∀ n, n ≤ httpMaxHeaderSize →
      headerFieldStart ((lineStart p).setNread n) ch = pass (p'.setNread n)) → R p [ch] p'

theorem inField_header {s : ParserState} (h : inField s = true) : s.parsingHeader = true := by
  revert h
  cases s <;> decide

theorem reads_reader : Reader Reads where
  nil _ := Reads.nil
  append := Reads.append
  byte {p p' ch loop} hfield h := by
    refine reads_byte loop (inField_header hfield.inField) ?_ h
    rcases hfield.loop with rfl | ⟨rfl, -⟩
    · exact Nat.zero_le 1
    · exact Nat.le_refl 1
  line hp hblank _ h := reads_line hp hblank h

theorem Reader.cons {R : HttpParser → Bytes → HttpParser → Prop} (hR : Reader R)
    (h : R p [ch] p') (h' : R p' w p'') : R p (ch :: w) p'' :=
  hR.append h h'

section

variable {R : HttpParser → Bytes → HttpParser → Prop}

/-- A state that looks at one byte and leaves no loop open. -/
theorem Reader.next (hR : Reader R) (hfield : FieldByte p ch p' none)
    (h : ∀ n, n ≤ httpMaxHeaderSize → scanState (p.setNread n) ch = pass (p'.setNread n)) :
    R p [ch] p' :=
  hR.byte hfield h

/-- The name of a field, read up to the colon. -/
theorem Reader.name (hR : Reader R) (hp : AtLine p) {name : Bytes} (hne : name ≠ [])
    (htoken : ∀ ch ∈ name, token ch ≠ 0) : ∃ h index, NameAt (name.map token) index h ∧
      R p (name ++ [colon])
        { lineStart p with state := .headerValueDiscardWs, headerState := h, index := index } := by
  have hcolon (h : HeaderStates) (index : ℕ) :
      R { lineStart p with state := .headerField, headerState := h, index := index } [colon]
        { lineStart p with
          state := .headerValueDiscardWs, headerState := h, index := index } := by
    refine hR.next (.between rfl rfl rfl) fun n hn => ?_
    have htoken : ¬ token colon ≠ 0 := by decide +kernel
    exact (if_neg htoken).trans (countHeaderSize_of_le (n := 0) hn)
  have hrest : ∀ (rest u : Bytes) (h : HeaderStates) (index : ℕ), NameAt u index h →
      (∀ ch ∈ rest, token ch ≠ 0) → ∃ h' index', NameAt (u ++ rest.map token) index' h' ∧
        R { lineStart p with state := .headerField, headerState := h, index := index }
          (rest ++ [colon]) { lineStart p with
            state := .headerValueDiscardWs, headerState := h', index := index' } := by
    intro rest
    induction rest with
    | nil =>
        intro u h index hname _
        exact ⟨h, index, by simpa using hname, hcolon h index⟩
    | cons ch rest ih =>
        intro u h index hname htoken
        have hch := htoken ch (by simp)
        obtain ⟨h', index', hname', hreads⟩ := ih _ _ _ (fieldChar_nameAt hch hname)
          fun ch hch => htoken ch (by simp [hch])
        refine ⟨h', index', by simpa using hname', hR.cons ?_ hreads⟩
        refine hR.byte ⟨rfl, nofun, nofun, Or.inr ⟨rfl, rfl, Or.inl rfl⟩⟩ fun n _ => ?_
        exact if_pos hch
  cases name with
  | nil => exact absurd rfl hne
  | cons ch rest =>
      have hch := htoken ch (by simp)
      obtain ⟨h, index, hname, hreads⟩ := hrest rest [token ch] _ 0
        (firstHeaderState_nameAt (token ch)) fun ch hch => htoken ch (by simp [hch])
      have hne {b : UInt8} (hb : token b = 0) : ch ≠ b := by
        rintro rfl
        exact hch hb
      have hblank : isBlank ch = false := by
        rw [isBlank, Bool.or_eq_false_iff, decide_eq_false_iff_not, decide_eq_false_iff_not]
        exact ⟨hne (by decide +kernel), hne (by decide +kernel)⟩
      refine ⟨h, index, hname,
        hR.cons (hR.line hp hblank (hne (by decide +kernel)) fun n _ => ?_) hreads⟩
      exact (if_neg (hne (by decide +kernel))).trans
        ((if_neg (hne (by decide +kernel))).trans (if_neg hch))

end

end HttpParser

end WrkQuic
