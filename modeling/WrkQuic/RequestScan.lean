import WrkQuic.HttpHeaders
import WrkQuic.RequestParser

/-!
# The request parser on a message

How a request of one chunk is read: the bytes of its header fields count
once each, and the line feed behind a field counts again when the next line
starts (`requestReads_reader`).
-/

namespace WrkQuic

open HttpParser

namespace RequestParser

variable {r r' r'' : RequestParser} {p p' : HttpParser} {loop loop' loop'' : Option ℕ}
  {ch : UInt8} {u v w : Bytes} {k n : ℕ}

/-! ## Bytes that complete nothing -/

/-- `r` passes `w` and becomes `r'`, and no message ends. -/
def Passes (r : RequestParser) (loop : Option ℕ) (w : Bytes) (r' : RequestParser)
    (loop' : Option ℕ) : Prop :=
  ∀ done count rest,
    r.scan loop done count (w ++ rest) = r'.scan loop' (done + w.length) count rest

theorem Passes.nil : Passes r loop [] r loop := fun _ _ _ => rfl

theorem Passes.append (h : Passes r loop u r' loop') (h' : Passes r' loop' v r'' loop'') :
    Passes r loop (u ++ v) r'' loop'' := by
  intro done count rest
  rw [List.append_assoc, h, h', List.length_append, Nat.add_assoc]

theorem passes_byte (h : scanByte r loop ch = .next r' loop' false) :
    Passes r loop [ch] r' loop' := by
  intro done count rest
  rw [List.singleton_append, scan, h]
  rfl

theorem countHeaderSize_of_le {next : RequestParser → RequestScanned}
    (h : r.parser.nread + n ≤ httpMaxHeaderSize) :
    countHeaderSize r n next = next { r with parser := r.parser.setNread (r.parser.nread + n) } :=
  if_neg (Nat.not_lt.mpr h)

theorem loopHead_of_le {next : RequestParser → RequestScanned}
    (hheader : r.line.isSome = true ∨ r.parser.state.parsingHeader = true)
    (h : r.parser.nread + 1 ≤ httpMaxHeaderSize) :
    loopHead r next = next { r with parser := r.parser.setNread (r.parser.nread + 1) } := by
  rw [loopHead, if_pos hheader]
  exact countHeaderSize_of_le h

/-! ## Header fields in a chunk -/

/-- `r`, in the inner loop `loop`, has come as far as `p`, for which `k`
bytes have counted, each of them once. -/
structure Abreast (p : HttpParser) (k : ℕ) (r : RequestParser) (loop : Option ℕ) : Prop where
  line : r.line = none
  same : r.parser = p.setNread r.parser.nread
  outer : loop = none → r.parser.nread = k
  inner : ∀ n, loop = some n → (p.state = .headerField ∨ p.state = .headerValue) ∧
    r.parser.nread + n = k + 1

theorem Abreast.state (h : Abreast p k r loop) : r.parser.state = p.state := by
  rw [h.same]
  rfl

theorem due_inField (h : inField p.state = true) : due p = 0 := by
  unfold due
  revert h
  cases p.state <;> decide

theorem due_le_count (h : lineEnded p.state = true → ch = lf) : due p ≤ [ch].count lf := by
  unfold due
  split
  · rename_i hline
    rw [h hline]
    decide
  · exact Nat.zero_le _

/-- `f` reads a byte in an inner loop as it does where it enters the loop. -/
def ReadsInside (f : HttpParser → ℕ → UInt8 → Scanned) (ch : UInt8) : Prop :=
  ∀ {p p' : HttpParser} {loop : Option ℕ} (m : ℕ), p.nread + m ≤ httpMaxHeaderSize →
    f p 0 ch = .next p' loop none →
    (loop = some 1 → f p m ch = .next p' (some (m + 1)) none) ∧
      (loop = none → f p m ch = .next (p'.setNread (p.nread + m)) none none)

theorem pass_inside {m : ℕ} {q : HttpParser}
    (h : HttpParser.pass q = .next p' loop none) :
    (loop = some 1 → HttpParser.pass (q.setNread n) = .next p' (some (m + 1)) none) ∧
      (loop = none → HttpParser.pass (q.setNread n) = .next (p'.setNread n) none none) := by
  obtain ⟨rfl, rfl, -⟩ := Scanned.next.inj h
  exact ⟨(fun h => by cases h), fun _ => rfl⟩

theorem headerField_inside (ch : UInt8) : ReadsInside HttpParser.headerField ch := by
  intro p p' loop m hm h
  simp only [HttpParser.headerField] at h ⊢
  split at h
  · rename_i htoken
    obtain ⟨rfl, rfl, -⟩ := Scanned.next.inj h
    rw [if_pos htoken]
    exact ⟨fun _ => rfl, fun h => by cases h⟩
  · rename_i htoken
    rw [HttpParser.countHeaderSize_of_le (by omega)] at h
    rw [if_neg htoken, HttpParser.countHeaderSize_of_le hm]
    split at h
    · rename_i hcolon
      rw [if_pos hcolon]
      exact pass_inside h
    · cases h

theorem headerValue_inside (hlf : ch ≠ lf) : ReadsInside HttpParser.headerValue ch := by
  intro p p' loop m hm h
  simp only [HttpParser.headerValue, if_neg hlf] at h ⊢
  split at h
  · rename_i hcr
    rw [HttpParser.countHeaderSize_of_le (by exact Nat.le_trans (Nat.le_add_right _ _) hm)] at h
    rw [if_pos hcr, HttpParser.countHeaderSize_of_le (by exact hm)]
    exact pass_inside h
  · rename_i hcr
    rw [if_neg hcr]
    split at h
    · rename_i hlength
      rw [if_pos hlength]
      cases hchar : lengthChar p.contentLength ch with
      | none =>
          rw [hchar] at h
          cases h
      | some v =>
          rw [hchar] at h
          obtain ⟨rfl, rfl, -⟩ := Scanned.next.inj h
          exact ⟨fun _ => rfl, fun h => by cases h⟩
    · rename_i hlength
      rw [if_neg hlength]
      obtain ⟨rfl, rfl, -⟩ := Scanned.next.inj h
      exact ⟨fun _ => rfl, fun h => by cases h⟩

theorem scanByte_outer (hline : r.line = none) (hfield : inField r.parser.state = true)
    (hn : r.parser.nread + 1 ≤ httpMaxHeaderSize) :
    scanByte r none ch =
      common r ((r.parser.setNread (r.parser.nread + 1)).scanState ch) := by
  have hnone : scanByte r none ch = loopHead r (commonState · ch) := by
    unfold scanByte
    rw [hline]
  rw [hnone, loopHead_of_le (Or.inr (inField_header hfield)) hn, commonState]
  revert hfield
  show inField (r.parser.setNread (r.parser.nread + 1)).state = true → _
  generalize r.parser.setNread (r.parser.nread + 1) = q
  cases hstate : q.state <;> first | exact fun _ => rfl | exact nofun

/-- A byte of a header field. -/
theorem Abreast.byte (h : Abreast p k r loop) (hfield : FieldByte p ch p' loop')
    (hk : k + 1 ≤ httpMaxHeaderSize)
    (hscan : ∀ n, n ≤ httpMaxHeaderSize →
      (p.setNread n).scanState ch = .next (p'.setNread n) loop' none) :
    ∃ r' loop'', scanByte r loop ch = .next r' loop'' false ∧ r'.method = r.method ∧
      Abreast p' (k + 1) r' loop'' := by
  cases loop with
  | none =>
      have hn := h.outer rfl
      refine ⟨{ r with parser := p'.setNread (k + 1) }, loop', ?_, rfl, h.line, rfl, ?_, ?_⟩
      · rw [scanByte_outer h.line (by rw [h.state]; exact hfield.inField) (by omega), h.same, hn,
          setNread_nread, setNread_setNread, hscan _ hk]
        rfl
      · exact fun _ => rfl
      · rintro n rfl
        rcases hfield.loop with hloop | ⟨hloop, hsame, hstate⟩
        · cases hloop
        · cases hloop
          exact ⟨hsame ▸ hstate, rfl⟩
  | some m =>
      obtain ⟨hstate, hcount⟩ := h.inner m rfl
      have hsmall : r.parser.nread ≤ httpMaxHeaderSize := by omega
      have hinside {f : HttpParser → ℕ → UInt8 → Scanned} (hf : ReadsInside f ch)
          (hbyte : scanByte r (some m) ch = common r (f r.parser m ch))
          (henter : (p.setNread r.parser.nread).scanState ch = f r.parser 0 ch) :
          ∃ r' loop'', scanByte r (some m) ch = .next r' loop'' false ∧ r'.method = r.method ∧
            Abreast p' (k + 1) r' loop'' := by
        rw [hscan _ hsmall] at henter
        obtain ⟨hon, hleave⟩ := hf m (by omega) henter.symm
        rcases hfield.loop with hloop | ⟨hloop, hsame, hstate⟩
        · rw [hleave hloop] at hbyte
          refine ⟨_, none, hbyte, rfl, h.line, rfl, fun _ => ?_, nofun⟩
          exact hcount
        · rw [hon hloop] at hbyte
          refine ⟨_, some (m + 1), hbyte, rfl, h.line, rfl, nofun, ?_⟩
          rintro _ ⟨⟩
          refine ⟨hsame ▸ hstate, ?_⟩
          show r.parser.nread + (m + 1) = k + 1 + 1
          omega
      rcases hstate with hstate | hstate
      · refine hinside (headerField_inside ch) ?_ ?_
        · unfold scanByte
          rw [h.line]
          simp only [h.state, hstate]
        · rw [← h.same, scanState]
          simp only [h.state, hstate]
      · refine hinside (headerValue_inside (hfield.value hstate)) ?_ ?_
        · unfold scanByte
          rw [h.line]
          simp only [h.state, hstate]
        · rw [← h.same, scanState]
          simp only [h.state, hstate]

/-- A byte that is passed keeps the flag of `close`. -/
def KeepsClose (p : HttpParser) : Scanned → Prop
  | .next p' _ _ => p.flags.connectionClose = true → p'.flags.connectionClose = true
  | _ => True

theorem KeepsClose.countHeaderSize {next : HttpParser → Scanned}
    (h : ∀ n, KeepsClose p (next (p'.setNread n))) :
    KeepsClose p (HttpParser.countHeaderSize p' n next) := by
  unfold HttpParser.countHeaderSize
  simp only
  split
  · trivial
  · exact h _

theorem valueChar_keepsClose {flags : ParserFlags} (h : HeaderStates) (index : ℕ) (ch : UInt8)
    (hclose : flags.connectionClose = true) :
    (valueChar h index flags ch).2.2.connectionClose = true := by
  unfold valueChar
  cases h <;> simp only <;> (try split) <;> first | exact hclose | rfl

theorem headerValueStart_keepsClose (p : HttpParser) (ch : UInt8) :
    KeepsClose p (p.headerValueStart ch) := by
  unfold HttpParser.headerValueStart
  simp only
  split <;> (try split) <;> first | exact id | trivial

theorem scanState_keepsClose (hfield : inField p.state = true)
    (hlf : p.state = .headerValue → ch ≠ lf) : KeepsClose p (p.scanState ch) := by
  have hexpect (next : ParserState) : KeepsClose p (p.expect ch lf next) := by
    unfold HttpParser.expect HttpParser.strictCheck
    split
    · trivial
    · exact id
  unfold HttpParser.scanState
  cases hstate : p.state with
  | headerField =>
      simp only [HttpParser.headerField]
      split
      · exact id
      · refine .countHeaderSize fun n => ?_
        split
        · exact id
        · trivial
  | headerValueDiscardWs =>
      simp only [HttpParser.headerValueDiscardWs]
      split
      · exact id
      · split
        · exact id
        · split
          · exact id
          · exact headerValueStart_keepsClose p ch
  | headerValueDiscardWsAlmostDone => exact hexpect _
  | headerValue =>
      simp only [HttpParser.headerValue, if_neg (hlf hstate)]
      split
      · exact KeepsClose.countHeaderSize fun n => by exact id
      · split
        · split
          · exact id
          · trivial
        · exact valueChar_keepsClose _ _ _
  | headerAlmostDone => exact hexpect _
  | _ =>
      rw [hstate] at hfield
      cases hfield

/-- The connection is to be closed. -/
def Closes (p : HttpParser) : Prop :=
  p.flags.connectionClose = true ∨ AtLine p ∧ (lineFlags p).connectionClose = true

theorem Closes.lineFlags (h : Closes p) : (HttpParser.lineFlags p).connectionClose = true := by
  rcases h with h | ⟨-, h⟩
  · unfold HttpParser.lineFlags finishFlags
    split
    · exact h
    · split <;> first | exact h | rfl
  · exact h

/-- The first byte of a line, unless it is a line feed. -/
theorem headerFieldStart_eq (hlf : ch ≠ lf)
    (h : p.headerFieldStart ch = HttpParser.pass p') :
    p'.flags = p.flags ∧ lineEnded p'.state = false := by
  unfold HttpParser.headerFieldStart at h
  rw [if_neg hlf] at h
  split at h
  · obtain ⟨rfl, -⟩ := Scanned.next.inj h
    exact ⟨rfl, rfl⟩
  · split at h
    · cases h
    · obtain ⟨rfl, -⟩ := Scanned.next.inj h
      exact ⟨rfl, rfl⟩

theorem commonState_line (hp : AtLine r.parser) (hlf : ch ≠ lf) :
    commonState r ch = common r (r.parser.scanState ch) := by
  unfold commonState scanState
  rcases hp with hstate | hstate | hstate <;> rw [hstate] <;> exact if_neg hlf

/-- The first byte of a line. -/
theorem Abreast.line_byte (h : Abreast p k r loop) (hp : AtLine p) (hblank : isBlank ch = false)
    (hlf : ch ≠ lf) (hk : k + due p + 1 ≤ httpMaxHeaderSize)
    (hstart : ∀ n, n ≤ httpMaxHeaderSize →
      ((lineStart p).setNread n).headerFieldStart ch = HttpParser.pass (p'.setNread n)) :
    ∃ r', scanByte r loop ch = .next r' none false ∧ r'.method = r.method ∧
      Abreast p' (k + due p + 1) r' none := by
  have hloop : loop = none := by
    cases loop with
    | none => rfl
    | some n =>
        obtain ⟨hstate, -⟩ := h.inner n rfl
        rcases hp with hp | hp | hp <;> rw [hp] at hstate <;> exact absurd hstate (by decide)
  subst hloop
  have hn := h.outer rfl
  have hline : AtLine r.parser := by
    unfold AtLine
    rw [h.state]
    exact hp
  have hscan : scanByte r none ch =
      common r ((p.setNread (k + 1)).scanState ch) := by
    have hnone : scanByte r none ch = loopHead r (commonState · ch) := by
      unfold scanByte
      rw [h.line]
    rw [hnone, loopHead_of_le (Or.inr hline.parsingHeader) (by omega),
      commonState_line (by exact hline) hlf, h.same, hn]
    rfl
  rw [scanState_line hp hblank (by omega), hstart _ (by omega)] at hscan
  refine ⟨_, hscan, rfl, h.line, rfl, fun _ => ?_, nofun⟩
  show k + 1 + due p = k + due p + 1
  omega

/-! ## The reader -/

/-- `p` reads `w` in a chunk and becomes `p'`. -/
def RequestReads (p : HttpParser) (w : Bytes) (p' : HttpParser) : Prop :=
  (Closes p → Closes p') ∧ ∀ {k r loop}, Abreast p k r loop →
    k + due p + w.length + w.count lf ≤ httpMaxHeaderSize →
    ∃ k' r' loop', k' + due p' ≤ k + due p + w.length + w.count lf ∧
      Abreast p' k' r' loop' ∧ r'.method = r.method ∧ Passes r loop w r' loop'

theorem requestReads_reader : Reader RequestReads where
  nil p := ⟨id, fun {k r loop} h _ => ⟨k, r, loop, by simp, h, rfl, .nil⟩⟩
  append := by
    rintro p p' p'' u v ⟨hclose, hu⟩ ⟨hclose', hv⟩
    refine ⟨hclose' ∘ hclose, fun {k r loop} h hk => ?_⟩
    rw [List.length_append, List.count_append] at hk ⊢
    obtain ⟨k₁, r₁, loop₁, hk₁, h₁, hmethod₁, hpasses₁⟩ := hu h (by omega)
    obtain ⟨k₂, r₂, loop₂, hk₂, h₂, hmethod₂, hpasses₂⟩ := hv h₁ (by omega)
    exact ⟨k₂, r₂, loop₂, by omega, h₂, hmethod₂.trans hmethod₁, hpasses₁.append hpasses₂⟩
  byte := by
    intro p p' ch loop' hfield hscan
    refine ⟨fun hclose => Or.inl ?_, fun {k r loop} h hk => ?_⟩
    · have hflags : p.flags.connectionClose = true := by
        refine hclose.elim id fun hline => ?_
        have hstate := hfield.inField
        rcases hline.1 with hp | hp | hp <;> rw [hp] at hstate <;> cases hstate
      have hkeeps : KeepsClose (p.setNread 0) ((p.setNread 0).scanState ch) :=
        scanState_keepsClose hfield.inField hfield.value
      rw [hscan 0 (Nat.zero_le _)] at hkeeps
      exact hkeeps hflags
    · rw [List.length_singleton] at hk ⊢
      have hdue := due_le_count (p := p') hfield.line
      have hdue' := due_inField hfield.inField
      obtain ⟨r', loop'', hbyte, hmethod, h'⟩ := h.byte hfield (by omega) hscan
      exact ⟨k + 1, r', loop'', by omega, h', hmethod, passes_byte hbyte⟩
  line := by
    intro p p' ch hp hblank hlf hstart
    obtain ⟨hflags, hended⟩ := headerFieldStart_eq hlf (hstart 0 (Nat.zero_le _))
    refine ⟨fun hclose => Or.inl ?_, fun {k r loop} h hk => ?_⟩
    · have := hclose.lineFlags
      rwa [show p'.flags = lineFlags p from hflags]
    · rw [List.length_singleton] at hk ⊢
      have hdue : due p' = 0 := by
        unfold due
        rw [show lineEnded p'.state = false from hended]
        rfl
      obtain ⟨r', hbyte, hmethod, h'⟩ := h.line_byte hp hblank hlf (by omega) hstart
      exact ⟨_, r', none, by omega, h', hmethod, passes_byte hbyte⟩

/-! ## The request line -/

/-- In the state `s` of the request line, with `n` bytes counted. -/
def inLine (p : HttpParser) (s : RequestState) (method : HttpMethod) (index n : ℕ) :
    RequestParser where
  line := some s
  method := method
  parser := { p with flags := .none, contentLength := ullongMax, index := index, nread := n }

/-- Behind the request line. -/
def atHead (p : HttpParser) (method : HttpMethod) (index n : ℕ) : RequestParser where
  line := none
  method := method
  parser := { p with
    flags := .none
    contentLength := ullongMax
    index := index
    nread := n
    state := .headerFieldStart
    httpMajor := 1
    httpMinor := 1 }

/-- The method that `method` becomes, from the character at `index` on. -/
def methodChars (method : HttpMethod) (index : ℕ) : Bytes → Option HttpMethod
  | [] => some method
  | ch :: rest =>
      if ch = 0 ∨ ch = space then none
      else (methodChar method index ch).bind (methodChars · (index + 1) rest)

theorem methodStrings_cons (method : HttpMethod) : ∃ ch rest first,
    methodStrings method = ch :: rest ∧ isAlpha ch = true ∧ firstMethod ch = some first ∧
      methodChars first 1 rest = some method := by
  have hall : (match methodStrings method with
      | [] => false
      | ch :: rest =>
          isAlpha ch && (firstMethod ch).bind (methodChars · 1 rest) = some method) = true := by
    cases method <;> decide +kernel
  cases hstring : methodStrings method with
  | nil =>
      rw [hstring] at hall
      cases hall
  | cons ch rest =>
      rw [hstring] at hall
      obtain ⟨halpha, hread⟩ := Bool.and_eq_true_iff.mp hall
      obtain ⟨first, hfirst, hrest⟩ := Option.bind_eq_some_iff.mp (of_decide_eq_true hread)
      exact ⟨ch, rest, first, rfl, halpha, hfirst, hrest⟩

theorem isAlpha_ne (h : isAlpha ch = true) : ch ≠ cr ∧ ch ≠ lf := by
  refine ⟨?_, ?_⟩ <;> rintro rfl <;> revert h <;> decide

/-- A byte in the state `s` of the request line. -/
theorem passes_lineByte {s : RequestState} (hline : r.line = some s)
    (hn : r.parser.nread + 1 ≤ httpMaxHeaderSize)
    (h : lineState s { r with parser := r.parser.setNread (r.parser.nread + 1) } ch = pass r') :
    Passes r none [ch] r' none := by
  refine passes_byte ?_
  have hbyte : scanByte r none ch = loopHead r (lineState s · ch) := by
    unfold scanByte
    rw [hline]
  rw [hbyte, loopHead_of_le (Or.inl (by rw [hline]; rfl)) hn]
  exact h

theorem passes_startReq (method : HttpMethod) {first : HttpMethod} (halpha : isAlpha ch = true)
    (hfirst : firstMethod ch = some first) (hn : p.nread + 1 ≤ httpMaxHeaderSize) :
    Passes ⟨some .startReq, method, p⟩ none [ch] (inLine p .reqMethod first 1 (p.nread + 1))
      none := by
  obtain ⟨hcr, hlf⟩ := isAlpha_ne halpha
  refine passes_lineByte rfl hn ?_
  have hno : ¬ (ch = cr ∨ ch = lf) := fun h => h.elim hcr hlf
  simp only [lineState, startReq, if_neg hno, halpha, hfirst]
  rfl

theorem passes_methodChars (rest : Bytes) {method : HttpMethod} :
    ∀ {first : HttpMethod} {index n : ℕ}, methodChars first index rest = some method →
      n + rest.length ≤ httpMaxHeaderSize →
      Passes (inLine p .reqMethod first index n) none rest
        (inLine p .reqMethod method (index + rest.length) (n + rest.length)) none := by
  induction rest with
  | nil =>
      intro first index n hread _
      rw [← Option.some.inj hread]
      exact .nil
  | cons ch rest ih =>
      intro first index n hread hn
      rw [List.length_cons] at hn ⊢
      rw [methodChars] at hread
      split at hread
      · cases hread
      · rename_i hch
        obtain ⟨next, hnext, hrest⟩ := Option.bind_eq_some_iff.mp hread
        have hzero : ch ≠ 0 := fun h => hch (Or.inl h)
        have hspace : ¬ (ch = space ∧ index = (methodStrings first).length) :=
          fun h => hch (Or.inr h.1)
        have hbyte : Passes (inLine p .reqMethod first index n) none [ch]
            (inLine p .reqMethod next (index + 1) (n + 1)) none := by
          refine passes_lineByte rfl (by show n + 1 ≤ _; omega) ?_
          refine (if_neg hzero).trans ((if_neg hspace).trans ?_)
          simp only [inLine, HttpParser.setNread, hnext]
        have := hbyte.append (ih hrest (by omega))
        rwa [Nat.add_right_comm index, Nat.add_assoc index, Nat.add_right_comm n,
          Nat.add_assoc n] at this

theorem reqMethod_space (h : r.parser.index = (methodStrings r.method).length) :
    reqMethod r space = enter { r with
      parser := { r.parser with index := r.parser.index + 1 } } .reqSpacesBeforeUrl := by
  have hzero : ¬ space = 0 := by decide
  simp only [reqMethod]
  rw [if_neg hzero, if_pos ⟨trivial, h⟩]

theorem passes_method (method method' : HttpMethod)
    (hn : p.nread + (methodStrings method).length + 1 ≤ httpMaxHeaderSize) :
    Passes ⟨some .startReq, method', p⟩ none (methodStrings method ++ [space])
      (inLine p .reqSpacesBeforeUrl method ((methodStrings method).length + 1)
        (p.nread + (methodStrings method).length + 1)) none := by
  obtain ⟨ch, rest, first, hstring, halpha, hfirst, hread⟩ := methodStrings_cons method
  rw [hstring, List.length_cons] at hn
  have hstart := passes_startReq (p := p) method' halpha hfirst (by omega)
  have hrest := passes_methodChars (p := p) rest (n := p.nread + 1) hread (by omega)
  have hmethod := hstart.append hrest
  rw [List.singleton_append, ← hstring] at hmethod
  refine hmethod.append ?_
  have hlength : (methodStrings method).length = 1 + rest.length := by
    rw [hstring, List.length_cons, Nat.add_comm]
  refine passes_lineByte rfl (by show p.nread + 1 + rest.length + 1 ≤ _; omega) ?_
  refine (reqMethod_space hlength.symm).trans ?_
  rw [hlength, ← Nat.add_assoc]
  rfl

/-- What the parser takes for a path, with a query and a fragment. -/
def isVisible (ch : UInt8) : Bool := 33 ≤ ch && ch ≤ 126

theorem isVisible_ne (h : isVisible ch = true) : ch ≠ space ∧ ch ≠ cr ∧ ch ≠ lf := by
  refine ⟨?_, ?_, ?_⟩ <;> rintro rfl <;> revert h <;> decide

/-- The states of the URL from its path on. -/
def pathState : RequestState → Bool
  | .reqPath | .reqQueryStringStart | .reqQueryString | .reqFragmentStart | .reqFragment => true
  | _ => false

theorem parseUrlChar_path {s : RequestState} (hs : pathState s = true)
    (hch : isVisible ch = true) :
    ∃ s', parseUrlChar s ch = some s' ∧ pathState s' = true := by
  have hall : (parseUrlChar s ch).any pathState = true := by
    revert hch
    obtain ⟨x⟩ := ch
    revert x
    cases s <;> first | exact absurd hs (by decide) | decide +kernel
  exact Option.any_eq_true _ _ |>.mp hall

theorem passes_pathChars (method : HttpMethod) (index : ℕ) (path : Bytes) :
    ∀ {s : RequestState} {n : ℕ}, pathState s = true → (∀ ch ∈ path, isVisible ch = true) →
      n + path.length ≤ httpMaxHeaderSize →
      ∃ s', pathState s' = true ∧ Passes (inLine p s method index n) none path
        (inLine p s' method index (n + path.length)) none := by
  induction path with
  | nil => exact fun hs _ _ => ⟨_, hs, .nil⟩
  | cons ch path ih =>
      intro s n hs hpath hn
      rw [List.length_cons] at hn ⊢
      have hch := hpath ch (by simp)
      obtain ⟨hspace, hcr, hlf⟩ := isVisible_ne hch
      obtain ⟨next, hnext, hs'⟩ := parseUrlChar_path hs hch
      obtain ⟨s', hend, hrest⟩ := ih (n := n + 1) hs' (fun ch hch => hpath ch (by simp [hch]))
        (by omega)
      have hbyte : Passes (inLine p s method index n) none [ch]
          (inLine p next method index (n + 1)) none := by
        refine passes_lineByte rfl (by show n + 1 ≤ _; omega) ?_
        have hline : lineState s = (reqUrlEnd · s) := by
          revert hs
          cases s <;> first | exact fun _ => rfl | exact nofun
        have hno : ¬ (ch = cr ∨ ch = lf) := fun h => h.elim hcr hlf
        rw [hline]
        refine (if_neg hspace).trans ((if_neg hno).trans ?_)
        rw [reqUrl, hnext]
        rfl
      have := hbyte.append hrest
      rw [Nat.add_right_comm n, Nat.add_assoc n] at this
      exact ⟨s', hend, this⟩

/-- The version at the end of the request line. -/
def httpTail : Bytes := " HTTP/1.1\r\n".toUTF8.toList

theorem httpTail_eq : httpTail = [32, 72, 84, 84, 80, 47, 49, 46, 49, 13, 10] := by
  decide +kernel

theorem passes_httpTail {s : RequestState} (hs : pathState s = true) (method : HttpMethod)
    (index n : ℕ) (hn : n + 11 ≤ httpMaxHeaderSize) :
    Passes (inLine p s method index n) none httpTail (atHead p method index (n + 11)) none := by
  let at_ (s : RequestState) (major minor n : ℕ) : RequestParser :=
    inLine { p with httpMajor := major, httpMinor := minor } s method index n
  have hstep {s s' : RequestState} {major minor major' minor' : ℕ} {ch : UInt8} (k : ℕ)
      (hk : k < 11)
      (h : lineState s (at_ s major minor (n + k + 1)) ch =
        pass (at_ s' major' minor' (n + k + 1))) :
      Passes (at_ s major minor (n + k)) none [ch] (at_ s' major' minor' (n + (k + 1))) none :=
    passes_lineByte rfl (by show n + k + 1 ≤ _; omega) h
  have hspace : Passes (inLine p s method index n) none [32]
      (at_ .reqHttpStart p.httpMajor p.httpMinor (n + 1)) none := by
    refine passes_lineByte rfl (by show n + 1 ≤ _; omega) ?_
    revert hs
    cases s <;> first | exact fun _ => rfl | exact nofun
  have hH : Passes _ none [72] (at_ .reqHttpH p.httpMajor p.httpMinor (n + 2)) none :=
    hstep (s := .reqHttpStart) 1 (by decide) rfl
  have hHT : Passes _ none [84] (at_ .reqHttpHT p.httpMajor p.httpMinor (n + 3)) none :=
    hstep (s := .reqHttpH) 2 (by decide) rfl
  have hHTT : Passes _ none [84] (at_ .reqHttpHTT p.httpMajor p.httpMinor (n + 4)) none :=
    hstep (s := .reqHttpHT) 3 (by decide) rfl
  have hHTTP : Passes _ none [80] (at_ .reqHttpHTTP p.httpMajor p.httpMinor (n + 5)) none :=
    hstep (s := .reqHttpHTT) 4 (by decide) rfl
  have hslash : Passes _ none [47] (at_ .reqFirstHttpMajor p.httpMajor p.httpMinor (n + 6))
      none :=
    hstep (s := .reqHttpHTTP) 5 (by decide) rfl
  have hmajor : Passes (at_ .reqFirstHttpMajor p.httpMajor p.httpMinor (n + 6)) none [49]
      (at_ .reqHttpMajor 1 p.httpMinor (n + 7)) none :=
    hstep 6 (by decide) rfl
  have hdot : Passes _ none [46] (at_ .reqFirstHttpMinor 1 p.httpMinor (n + 8)) none :=
    hstep (s := .reqHttpMajor) 7 (by decide) rfl
  have hminor : Passes (at_ .reqFirstHttpMinor 1 p.httpMinor (n + 8)) none [49]
      (at_ .reqHttpMinor 1 1 (n + 9)) none :=
    hstep 8 (by decide) rfl
  have hcr : Passes _ none [13] (at_ .reqLineAlmostDone 1 1 (n + 10)) none :=
    hstep (s := .reqHttpMinor) 9 (by decide) rfl
  have hlf : Passes (at_ .reqLineAlmostDone 1 1 (n + 10)) none [10]
      (atHead p method index (n + 11)) none :=
    passes_lineByte rfl (by show n + 10 + 1 ≤ _; omega) rfl
  rw [httpTail_eq]
  exact hspace.append (hH.append (hHT.append (hHTT.append (hHTTP.append (hslash.append
    (hmajor.append (hdot.append (hminor.append (hcr.append hlf)))))))))

theorem reqSpacesBeforeUrl_slash (r : RequestParser) :
    reqSpacesBeforeUrl r 47 = enter r .reqPath := by
  unfold reqSpacesBeforeUrl
  have hspace : ¬ (47 : UInt8) = space := by decide
  rw [if_neg hspace]
  split <;> rfl

/-- A request line up to the end of its path. -/
theorem passes_path (method method' : HttpMethod) (path : Bytes)
    (hpath : ∀ ch ∈ path, isVisible ch = true)
    (hn : p.nread + (methodStrings method).length + 2 + path.length ≤ httpMaxHeaderSize) :
    ∃ index s, pathState s = true ∧ Passes ⟨some .startReq, method', p⟩ none
      (methodStrings method ++ space :: 47 :: path)
      (inLine p s method index (p.nread + (methodStrings method).length + 2 + path.length))
      none := by
  have hmethod := passes_method (p := p) method method' (by omega)
  have hslash : Passes (inLine p .reqSpacesBeforeUrl method ((methodStrings method).length + 1)
      (p.nread + (methodStrings method).length + 1)) none [47] (inLine p .reqPath method
        ((methodStrings method).length + 1) (p.nread + (methodStrings method).length + 2))
      none := by
    refine passes_lineByte rfl
      (by show p.nread + (methodStrings method).length + 1 + 1 ≤ _; omega) ?_
    exact reqSpacesBeforeUrl_slash _
  obtain ⟨s, hs, hrest⟩ := passes_pathChars (p := p) method
    ((methodStrings method).length + 1) path (s := .reqPath)
    (n := p.nread + (methodStrings method).length + 2) rfl hpath hn
  have hall := hmethod.append (hslash.append hrest)
  have hbytes : methodStrings method ++ space :: 47 :: path =
      methodStrings method ++ [space] ++ ([47] ++ path) := by
    simp
  exact ⟨_, s, hs, hbytes ▸ hall⟩

/-- The request line of a path. -/
theorem passes_requestLine (method method' : HttpMethod) {path : Bytes}
    (hpath : ∀ ch ∈ path, isVisible ch = true)
    (hn : p.nread + (methodStrings method).length + path.length + 13 ≤ httpMaxHeaderSize) :
    ∃ index, Passes ⟨some .startReq, method', p⟩ none
      (methodStrings method ++ space :: 47 :: path ++ httpTail)
      (atHead p method index (p.nread + (methodStrings method).length + path.length + 13))
      none := by
  obtain ⟨index, s, hs, hbefore⟩ := passes_path (p := p) method method' path hpath (by omega)
  have htail := passes_httpTail (p := p) hs method index
    (p.nread + (methodStrings method).length + 2 + path.length) (by omega)
  have hcount : p.nread + (methodStrings method).length + 2 + path.length + 11 =
      p.nread + (methodStrings method).length + path.length + 13 := by
    omega
  have hall := hbefore.append htail
  rw [hcount] at hall
  exact ⟨index, hall⟩

/-- A path that is too long for the header section. -/
theorem scan_longPath (method method' : HttpMethod) {path : Bytes}
    (hpath : ∀ ch ∈ path, isVisible ch = true)
    (hn : p.nread + (methodStrings method).length + 2 ≤ httpMaxHeaderSize)
    (hlong : httpMaxHeaderSize < p.nread + (methodStrings method).length + 2 + path.length)
    (done count : ℕ) (rest : Bytes) :
    ∃ consumed < done + (methodStrings method).length + 2 + path.length,
      RequestParser.scan ⟨some .startReq, method', p⟩ none done count
        (methodStrings method ++ space :: 47 :: path ++ rest) =
          ⟨consumed, count, some (.common .headerOverflow)⟩ := by
  let room := httpMaxHeaderSize - (p.nread + (methodStrings method).length + 2)
  have hroom : room < path.length := by omega
  have htake : (path.take room).length = room := List.length_take_of_le (Nat.le_of_lt hroom)
  obtain ⟨index, s, hs, hbefore⟩ := passes_path (p := p) method method' (path.take room)
    (fun ch hch => hpath ch (List.mem_of_mem_take hch)) (by rw [htake]; omega)
  have hsplit : path.take room ++ path[room] :: path.drop (room + 1) = path := by
    rw [List.getElem_cons_drop, List.take_append_drop]
  have hbytes : methodStrings method ++ space :: 47 :: path ++ rest =
      methodStrings method ++ space :: 47 :: path.take room ++
        path[room] :: (path.drop (room + 1) ++ rest) := by
    have hrest : path ++ rest = path.take room ++ path[room] :: (path.drop (room + 1) ++ rest) := by
      rw [← List.cons_append, ← List.append_assoc, hsplit]
    rw [List.append_assoc, List.cons_append, List.cons_append, hrest, List.append_assoc,
      List.cons_append, List.cons_append]
  have hfull : p.nread + (methodStrings method).length + 2 + (path.take room).length =
      httpMaxHeaderSize := by
    rw [htake]
    omega
  rw [hfull] at hbefore
  refine ⟨done + (methodStrings method ++ space :: 47 :: path.take room).length, ?_, ?_⟩
  · rw [List.length_append, List.length_cons, List.length_cons, htake]
    omega
  · rw [hbytes, hbefore, RequestParser.scan]
    have hbyte : scanByte (inLine p s method index httpMaxHeaderSize) none path[room] =
        .error (.common .headerOverflow) 0 := by
      show loopHead _ _ = _
      rw [loopHead, if_pos (Or.inl (by rfl))]
      exact if_pos (Nat.lt_succ_self _)
    rw [hbyte]
    rfl

/-! ## The end of the header fields -/

/-- What follows the header fields, unless they announce chunks. -/
def afterHead (r : RequestParser) : RequestScanned :=
  if r.parser.flags.upgrade && r.parser.flags.connectionUpgrade || r.method = .connect then .leave
  else if r.parser.contentLength = 0 then messageComplete r
  else if r.parser.contentLength ≠ ullongMax then leaveLine r .bodyIdentity
  else messageComplete r

theorem scanByte_headEnd (hline : r.line = none) (hstate : r.parser.state = .headersAlmostDone)
    (hn : r.parser.nread + 2 ≤ httpMaxHeaderSize) (htrailing : r.parser.flags.trailing = false)
    (hchunked : r.parser.flags.chunked = false) :
    ∃ r', scanByte r none lf = afterHead r' ∧ r'.line = none ∧ r'.method = r.method ∧
      r'.parser = { r.parser with
        state := .headersDone, nread := 0, upgrade := r'.parser.upgrade } := by
  have hbyte : scanByte r none lf = loopHead r (commonState · lf) := by
    unfold scanByte
    rw [hline]
  have hlf : ¬ lf ≠ lf := by decide
  rw [hbyte, loopHead_of_le (Or.inr (by rw [hstate]; rfl)) (by omega), commonState]
  simp only [setNread, hstate, headersAlmostDone, if_neg hlf, htrailing]
  rw [if_neg Bool.false_ne_true, loopHead_of_le (Or.inr rfl) (by exact hn)]
  simp only [headersDone, if_neg hlf, setNread, hchunked]
  refine ⟨{ r with parser := { r.parser with
    state := .headersDone
    nread := 0
    upgrade := r.parser.flags.upgrade && r.parser.flags.connectionUpgrade ||
      decide (r.method = .connect) } }, ?_, hline, rfl, rfl⟩
  simp only [afterHead]
  split
  · rfl
  · rfl

/-! ## A body -/

theorem scan_body (body : Bytes) : ∀ {r : RequestParser}, r.line = none →
    r.parser.state = .bodyIdentity → body ≠ [] → r.parser.contentLength = body.length →
    ∀ done count rest, r.scan none done count (body ++ rest) =
      (newMessage { r with parser := { r.parser with
        contentLength := 0, state := .messageDone } }).scan none (done + body.length) (count + 1)
        rest := by
  induction body with
  | nil => exact fun _ _ h => absurd rfl h
  | cons ch body ih =>
      intro r hline hstate _ hlength done count rest
      rw [List.length_cons] at hlength
      have hbyte : scanByte r none ch = bodyIdentity r := by
        unfold scanByte
        rw [hline]
        simp only [loopHead, hline, hstate]
        rw [if_neg (by decide), commonState, hstate]
      rw [List.cons_append, scan, hbyte, bodyIdentity]
      simp only [hlength, Nat.add_sub_cancel]
      cases body with
      | nil => rfl
      | cons ch' body' =>
          rw [if_neg (by simp)]
          simp only [pass]
          have hrest := ih (r := { r with parser := { r.parser with
            contentLength := (ch' :: body').length } }) hline hstate (by simp) rfl (done + 1)
            (count + false.toNat) rest
          rw [hrest]
          simp [Nat.add_assoc, Nat.add_comm 1]

/-! ## The lines of a header section -/

/-- The parser has read `lines`; one that says `close` has been heard. -/
theorem requestReads_lines {lines : List HeaderLine} {n : ℕ}
    (hlength : ∀ l ∈ lines, l.Named contentLengthWord → l.Announces n) :
    ∀ {p : HttpParser}, AtLine p →
      ∃ p', RequestReads p (lines.flatMap HeaderLine.encode) p' ∧ LinesRead lines n p p' ∧
        ((∃ l ∈ lines, l.Closes) → Closes p') := by
  induction lines with
  | nil => exact fun hp => ⟨_, requestReads_reader.nil _, .nil hp, by simp⟩
  | cons l lines ih =>
      intro p hp
      have hfirst : ∃ p', RequestReads p l.encode p' ∧ LinesRead [l] n p p' ∧
          (l.Closes → Closes p') := by
        by_cases hcloses : l.Closes
        · obtain ⟨p', hreads, hread, hclose⟩ := requestReads_reader.closeLine hp hcloses n
          exact ⟨p', hreads, hread, fun _ => Or.inr ⟨hread.line, hclose⟩⟩
        · obtain ⟨p', hreads, hread⟩ := requestReads_reader.headerLine hp l (hlength l (by simp))
          exact ⟨p', hreads, hread, fun h => absurd h hcloses⟩
      obtain ⟨p', hreads, hread, hclose⟩ := hfirst
      obtain ⟨p'', hreads', hread', hclose'⟩ :=
        ih (fun l hl => hlength l (by simp [hl])) hread.line
      refine ⟨p'', requestReads_reader.append hreads hreads', hread.cons hread', ?_⟩
      rintro ⟨l', hl', hcloses⟩
      rcases List.mem_cons.mp hl' with rfl | hl'
      · exact hreads'.1 (hclose hcloses)
      · exact hclose' ⟨l', hl', hcloses⟩

theorem encode_count_lf (l : HeaderLine) : l.encode.count lf = 1 := by
  have hname : l.name.count lf = 0 := by
    refine List.count_eq_zero.mpr fun h => l.name_token lf h ?_
    decide +kernel
  have hvalue : l.value.count lf = 0 := by
    refine List.count_eq_zero.mpr fun h => ?_
    exact (isInline_ne (l.value_inline lf h)).2.1 rfl
  have hcolon : ¬ colon = lf := by decide
  rw [HeaderLine.encode, List.count_append, List.count_append, List.count_cons, hname, hvalue]
  decide

theorem lines_count_lf (lines : List HeaderLine) :
    (lines.flatMap HeaderLine.encode).count lf = lines.length := by
  induction lines with
  | nil => rfl
  | cons l lines ih =>
      rw [List.flatMap_cons, List.count_append, encode_count_lf, ih, List.length_cons,
        Nat.add_comm]

end RequestParser

/-! ## Messages -/

/-- A request that ends where its headers say so. -/
structure RequestMessage where
  method : HttpMethod
  path : Bytes
  lines : List HeaderLine
  body : Bytes
  path_visible : ∀ ch ∈ path, RequestParser.isVisible ch = true
  transfer : ∀ l ∈ lines, l.Named transferEncodingWord → ¬ l.Chunked
  length : ∀ l ∈ lines, l.Named contentLengthWord → l.Announces body.length
  announced : body ≠ [] → ∃ l ∈ lines, l.Named contentLengthWord
  short : (methodStrings method).length + path.length + 13 +
    (lines.flatMap HeaderLine.encode).length + 3 + lines.length ≤ httpMaxHeaderSize

namespace RequestMessage

open RequestParser

/-- The bytes up to the empty line; `path` stands behind a slash. -/
def head (m : RequestMessage) : Bytes :=
  methodStrings m.method ++ space :: 47 :: m.path ++ httpTail ++
    m.lines.flatMap HeaderLine.encode ++ crlf

def text (m : RequestMessage) : Bytes := m.head ++ m.body

/-- The rest of the connection is for another protocol. -/
def HandsOver (m : RequestMessage) : Prop :=
  m.method = .connect ∨ (∃ l ∈ m.lines, l.Named upgradeWord) ∧
    ∃ l ∈ m.lines, l.Connection upgradeWord

/-- The connection may be closed after the message. -/
def AsksToClose (m : RequestMessage) : Prop := ∃ l ∈ m.lines, l.Connection closeWord

/-- The parser `r` behind the headers of `m`. -/
structure HeadRead (m : RequestMessage) (r : RequestParser) : Prop where
  line : r.line = none
  method : r.method = m.method
  nread : r.parser.nread = 0
  httpMajor : r.parser.httpMajor = 1
  httpMinor : r.parser.httpMinor = 1
  connectionClose : r.parser.flags.connectionClose = true → m.AsksToClose
  closes : (∃ l ∈ m.lines, l.Closes) → r.parser.flags.connectionClose = true
  upgrade : r.parser.flags.upgrade = true → ∃ l ∈ m.lines, l.Named upgradeWord
  connectionUpgrade : r.parser.flags.connectionUpgrade = true →
    ∃ l ∈ m.lines, l.Connection upgradeWord
  announced : (∃ l ∈ m.lines, l.Named contentLengthWord) →
    r.parser.contentLength = m.body.length
  unannounced : (∀ l ∈ m.lines, ¬ l.Named contentLengthWord) →
    r.parser.contentLength = ullongMax

theorem scan_head (m : RequestMessage) {r : RequestParser} (hline : r.line = some .startReq)
    (hn : r.parser.nread = 0) : ∃ w r₁ r₂, m.head = w ++ [lf] ∧ Passes r none w r₁ none ∧
      scanByte r₁ none lf = afterHead r₂ ∧ HeadRead m r₂ := by
  obtain ⟨line, method', p⟩ := r
  simp only at hline hn
  subst hline
  have hshort := m.short
  obtain ⟨index, hrequest⟩ := passes_requestLine (p := p) m.method method' m.path_visible
    (by omega)
  rw [hn, Nat.zero_add] at hrequest
  generalize hcount : (methodStrings m.method).length + m.path.length + 13 = n at *
  obtain ⟨p', hlines, hread, hclose⟩ := requestReads_lines m.length
    (p := (atHead p m.method index n).parser) (Or.inl rfl)
  have hall := requestReads_reader.append hlines (requestReads_reader.emptyLine hread.line)
  have hstart : Abreast (atHead p m.method index n).parser n (atHead p m.method index n) none :=
    ⟨rfl, rfl, fun _ => rfl, nofun⟩
  have hcost : n + due (atHead p m.method index n).parser +
      (m.lines.flatMap HeaderLine.encode ++ [cr]).length +
      (m.lines.flatMap HeaderLine.encode ++ [cr]).count lf =
        n + (m.lines.flatMap HeaderLine.encode).length + 1 + m.lines.length := by
    have hcr : [cr].count lf = 0 := by decide
    rw [List.length_append, List.count_append, lines_count_lf, hcr, List.length_singleton]
    show n + 0 + _ + _ = _
    omega
  obtain ⟨k, r₁, loop, hk, habreast, hmethod, hpasses⟩ := hall.2 hstart (by omega)
  rw [hcost] at hk
  have hloop : loop = none := by
    cases loop with
    | none => rfl
    | some i => exact absurd (habreast.inner i rfl).1 (by simp)
  subst hloop
  have hnread := habreast.outer rfl
  have htrailing : r₁.parser.flags.trailing = false := by
    rw [habreast.same]
    exact hread.trailing
  have hchunked : r₁.parser.flags.chunked = false := by
    rw [habreast.same]
    refine Bool.eq_false_iff.mpr fun h => ?_
    rcases hread.chunked.mp h with hflag | ⟨l, hl, hname, hchunked⟩
    · cases hflag
    · exact m.transfer l hl hname hchunked
  obtain ⟨r₂, hend, hline, hmethod₂, hparser⟩ := scanByte_headEnd habreast.line habreast.state
    (by omega) htrailing hchunked
  refine ⟨_, r₁, r₂, ?_, hrequest.append hpasses, hend, ?_⟩
  · simp [head, crlf]
  have hflags : r₂.parser.flags = lineFlags p' := by
    rw [hparser, habreast.same]
    rfl
  have hlength : r₂.parser.contentLength = p'.contentLength := by
    rw [hparser, habreast.same]
    rfl
  exact
    { line := hline
      method := hmethod₂.trans hmethod
      nread := by rw [hparser]
      httpMajor := by
        rw [hparser, habreast.same]
        exact hread.httpMajor
      httpMinor := by
        rw [hparser, habreast.same]
        exact hread.httpMinor
      connectionClose := fun h =>
        (hread.connectionClose (hflags ▸ h)).resolve_left Bool.false_ne_true
      closes := fun h => by
        rw [hflags]
        exact (hclose h).lineFlags
      upgrade := fun h => (hread.offered (hflags ▸ h)).resolve_left Bool.false_ne_true
      connectionUpgrade := fun h =>
        (hread.connectionUpgrade (hflags ▸ h)).resolve_left Bool.false_ne_true
      announced := fun h => hlength.trans (hread.announced h)
      unannounced := fun h => hlength.trans (hread.unannounced h) }

theorem HeadRead.shouldKeepAlive {m : RequestMessage} {r : RequestParser} (h : HeadRead m r) :
    r.shouldKeepAlive = !r.parser.flags.connectionClose := by
  unfold RequestParser.shouldKeepAlive
  rw [h.httpMajor, h.httpMinor]
  rfl

/-- The parser behind a message. -/
structure MessageRead (m : RequestMessage) (r : RequestParser) : Prop where
  nread : r.parser.nread = 0
  asksToClose : r.shouldKeepAlive = false → m.AsksToClose
  closes : (∃ l ∈ m.lines, l.Closes) → r.shouldKeepAlive = false

theorem HeadRead.messageRead {m : RequestMessage} {r r' : RequestParser} (h : HeadRead m r)
    (hnread : r'.parser.nread = 0) (hkeep : r'.shouldKeepAlive = r.shouldKeepAlive) :
    MessageRead m r' where
  nread := hnread
  asksToClose hfalse := by
    rw [hkeep, h.shouldKeepAlive, Bool.not_eq_false'] at hfalse
    exact h.connectionClose hfalse
  closes hcloses := by
    rw [hkeep, h.shouldKeepAlive, h.closes hcloses]
    rfl

theorem announces_ne {l : HeaderLine} {n : ℕ} (h : l.Announces n) : n ≠ ullongMax := by
  obtain ⟨-, -, -, -, -, hlimit⟩ := h
  rintro rfl
  exact absurd hlimit (by decide)

/-- The headers of a message that is followed by another one. -/
theorem HeadRead.scan {m : RequestMessage} {r : RequestParser} (h : HeadRead m r)
    (done count : ℕ) (rest : Bytes) {r₁ : RequestParser}
    (hend : scanByte r₁ none lf = afterHead r) :
    (m.HandsOver ∧ r₁.scan none done count (lf :: m.body ++ rest) =
      ⟨done + 1, count + 1, none⟩) ∨
      ∃ r', MessageRead m r' ∧ r₁.scan none done count (lf :: m.body ++ rest) =
        (newMessage r').scan none (done + 1 + m.body.length) (count + 1) rest := by
  rw [List.cons_append, RequestParser.scan, hend, afterHead]
  by_cases hover : (r.parser.flags.upgrade && r.parser.flags.connectionUpgrade ||
      decide (r.method = .connect)) = true
  · rw [if_pos hover]
    refine Or.inl ⟨?_, rfl⟩
    rcases Bool.or_eq_true_iff.mp hover with hupgrade | hconnect
    · obtain ⟨hoffered, hoption⟩ := Bool.and_eq_true_iff.mp hupgrade
      exact Or.inr ⟨h.upgrade hoffered, h.connectionUpgrade hoption⟩
    · exact Or.inl (h.method ▸ of_decide_eq_true hconnect)
  · rw [if_neg hover]
    right
    by_cases hbody : m.body = []
    · have hcomplete : (if r.parser.contentLength = 0 then messageComplete r
          else if r.parser.contentLength ≠ ullongMax then leaveLine r .bodyIdentity
          else messageComplete r) = messageComplete r := by
        by_cases hnamed : ∃ l ∈ m.lines, l.Named contentLengthWord
        · rw [if_pos (by rw [h.announced hnamed, hbody]; rfl)]
        · have hmax := h.unannounced fun l hl hname => hnamed ⟨l, hl, hname⟩
          rw [hmax, if_neg (by decide), if_neg (not_not.mpr rfl)]
      refine ⟨r, h.messageRead h.nread rfl, ?_⟩
      rw [hcomplete, hbody]
      rfl
    · obtain ⟨l, hl, hname⟩ := m.announced hbody
      have hlength := h.announced ⟨l, hl, hname⟩
      have hpos : ¬ r.parser.contentLength = 0 := by
        rw [hlength]
        exact fun hzero => hbody (List.length_eq_zero_iff.mp hzero)
      have hmax : r.parser.contentLength ≠ ullongMax := by
        rw [hlength]
        exact announces_ne (m.length l hl hname)
      rw [if_neg hpos, if_pos hmax]
      refine ⟨_, h.messageRead ?_ ?_,
        scan_body m.body (r := { r with
          line := none, parser := { r.parser with state := .bodyIdentity } }) rfl rfl hbody
          hlength (done + 1) (count + false.toNat + 0) rest⟩
      · exact h.nread
      · rfl

/-- A message in the chunk. -/
theorem scan_message (m : RequestMessage) {r : RequestParser} (hline : r.line = some .startReq)
    (hn : r.parser.nread = 0) (done count : ℕ) (rest : Bytes) :
    (m.HandsOver ∧ r.scan none done count (m.text ++ rest) =
      ⟨done + m.head.length, count + 1, none⟩) ∨
      ∃ r', MessageRead m r' ∧ r.scan none done count (m.text ++ rest) =
        (newMessage r').scan none (done + m.text.length) (count + 1) rest := by
  obtain ⟨w, r₁, r₂, hhead, hpasses, hend, hread⟩ := m.scan_head hline hn
  have htext : m.text ++ rest = w ++ (lf :: m.body ++ rest) := by
    simp [text, hhead]
  have hlength : m.head.length = w.length + 1 := by
    rw [hhead, List.length_append, List.length_singleton]
  rw [htext, hpasses, text, List.length_append, hlength, ← Nat.add_assoc, ← Nat.add_assoc]
  exact hread.scan (done + w.length) count rest hend

theorem text_cons (m : RequestMessage) : ∃ ch rest, m.text = ch :: rest ∧ ch ≠ cr ∧ ch ≠ lf := by
  obtain ⟨ch, rest, first, hstring, halpha, -⟩ := methodStrings_cons m.method
  have htext : m.text = ch :: (rest ++ space :: 47 :: m.path ++ httpTail ++
      m.lines.flatMap HeaderLine.encode ++ crlf ++ m.body) := by
    rw [text, head, hstring]
    rfl
  exact ⟨ch, _, htext, isAlpha_ne halpha⟩

/-- A message that may close the connection is the last one. -/
theorem scan_closed {m : RequestMessage} {r : RequestParser} (h : MessageRead m r)
    (hclose : r.shouldKeepAlive = false) {ch : UInt8} (hcr : ch ≠ cr) (hlf : ch ≠ lf)
    (done count : ℕ) (rest : Bytes) :
    (newMessage r).scan none done count (ch :: rest) =
      ⟨done, count, some (.common .closedConnection)⟩ := by
  have hbyte : scanByte (newMessage r) none ch = .error (.common .closedConnection) 0 := by
    unfold RequestParser.newMessage
    rw [if_neg (by rw [hclose]; exact Bool.false_ne_true)]
    unfold RequestParser.scanByte
    simp only
    rw [loopHead_of_le (Or.inr rfl) (by
      show r.parser.nread + 1 ≤ _
      rw [h.nread]
      decide)]
    simp [commonState, scanState, setNread, HttpParser.fail, common, hcr, hlf]
  rw [RequestParser.scan, hbyte]
  rfl

end RequestMessage

end WrkQuic
