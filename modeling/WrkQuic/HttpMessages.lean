import WrkQuic.HttpHeaders

/-!
# The parser on responses

Every response that tells where it ends is a frame of the parser
(`completes_response`), and any other one leaves it waiting for the end of
the stream (`run_response`). A stream of responses is thus completed one by
one, whatever chunks it comes in (`run_stream`).
-/

namespace WrkQuic

open Scanner

namespace HttpParser

variable {p p' p'' q : HttpParser} {ch : UInt8} {u v w : Bytes} {n : ℕ} {loop : Option ℕ}
  {m : Option Completion}

/-! ## The end of a message -/

theorem run_cons_silent {ms : List Completion} {q' : HttpParser}
    (h : feedByte p ch = some (q, none)) (hrun : run feedByte q w = some (q', ms)) :
    run feedByte p (ch :: w) = some (q', ms) := by
  rw [run, h]
  simp [hrun]

/-- A byte outside of the headers. -/
theorem feedByte_body (hp : p.state.parsingHeader = false)
    (h : scanState p ch = .next q none m) (hq : q.nread ≤ httpMaxHeaderSize) :
    feedByte p ch = some (q, m) := by
  rw [feedByte, scanByte_none, loopHead, if_neg (Bool.eq_false_iff.mp hp), h]
  exact settle_next none hq

theorem newMessage_nread (h : p.nread ≤ httpMaxHeaderSize) :
    (newMessage p).nread ≤ httpMaxHeaderSize := by
  unfold newMessage
  split
  · exact Nat.zero_le _
  · exact h

theorem settle_messageComplete (h : p.nread ≤ httpMaxHeaderSize) :
    settle (messageComplete p) = some (newMessage p, some p.completion) :=
  settle_next none (newMessage_nread h)

/-- A response of HTTP/1.1 that says where it ends. -/
theorem shouldKeepAlive_eq (hmajor : p.httpMajor = 1) (hminor : p.httpMinor = 1)
    (heof : p.messageNeedsEof = false) : p.shouldKeepAlive = !p.flags.connectionClose := by
  rw [shouldKeepAlive, hmajor, hminor, heof]
  cases p.flags.connectionClose <;> rfl

theorem shouldKeepAlive_of_needsEof (heof : p.messageNeedsEof = true) :
    p.shouldKeepAlive = false := by
  rw [shouldKeepAlive, heof]
  split
  · split <;> rfl
  · split <;> rfl

/-! ## The end of the headers -/

/-- What follows the headers. -/
def bodyStart (p : HttpParser) : Scanned :=
  if p.flags.chunked then pass { p with state := .chunkSizeStart }
  else if p.contentLength = 0 then messageComplete p
  else if p.contentLength ≠ ullongMax then pass { p with state := .bodyIdentity }
  else if !p.messageNeedsEof then messageComplete p
  else pass { p with state := .bodyIdentityEof }

theorem feedByte_headersEnd (hstate : p.state = .headersAlmostDone)
    (hn : p.nread + 2 ≤ httpMaxHeaderSize) (htrailing : p.flags.trailing = false)
    (hupgrade : (p.flags.upgrade && p.flags.connectionUpgrade) = false) :
    feedByte p lf =
      settle (bodyStart { p with state := .headersDone, upgrade := false, nread := 0 }) := by
  rw [feedByte, scanByte_none, loopHead_header (by rw [hstate]; rfl) (by omega)]
  have hscan : scanState (p.setNread (p.nread + 1)) lf =
      headersAlmostDone (p.setNread (p.nread + 1)) lf := by
    rw [scanState, show (p.setNread (p.nread + 1)).state = .headersAlmostDone from hstate]
  have hflags : (p.setNread (p.nread + 1)).flags = p.flags := rfl
  rw [hscan, headersAlmostDone, strictCheck, if_neg (by exact fun h => h rfl), hflags, htrailing,
    if_neg Bool.false_ne_true, hupgrade, loopHead_header rfl hn]
  rfl

/-- The empty line after the trailers. -/
theorem feedByte_trailersEnd (hstate : p.state = .headersAlmostDone)
    (hn : p.nread + 1 ≤ httpMaxHeaderSize) (htrailing : p.flags.trailing = true) :
    feedByte p lf = some (newMessage (p.setNread (p.nread + 1)), some p.completion) := by
  rw [feedByte, scanByte_none, loopHead_header (by rw [hstate]; rfl) hn]
  have hscan : scanState (p.setNread (p.nread + 1)) lf =
      headersAlmostDone (p.setNread (p.nread + 1)) lf := by
    rw [scanState, show (p.setNread (p.nread + 1)).state = .headersAlmostDone from hstate]
  have hflags : (p.setNread (p.nread + 1)).flags = p.flags := rfl
  rw [hscan, headersAlmostDone, strictCheck, if_neg (by exact fun h => h rfl), hflags, htrailing,
    if_pos rfl]
  exact settle_messageComplete hn

/-! ## Bodies of known length -/

theorem completes_body (body : Bytes) : ∀ {p : HttpParser}, body ≠ [] →
    p.state = .bodyIdentity → p.contentLength = body.length → p.nread ≤ httpMaxHeaderSize →
      Completes feedByte p body
        { p with contentLength := 0, state := .messageDone : HttpParser }.completion
        (newMessage { p with contentLength := 0, state := .messageDone }) := by
  induction body with
  | nil => exact fun h => absurd rfl h
  | cons ch rest ih =>
      intro p _ hstate hlength hn
      have hscan : scanState p ch = bodyIdentity p ch := by rw [scanState, hstate]
      have hheader : p.state.parsingHeader = false := by
        rw [hstate]
        rfl
      rw [bodyIdentity, hlength, List.length_cons, Nat.add_sub_cancel] at hscan
      cases rest with
      | nil =>
          refine ⟨[], ch, p, rfl, rfl, feedByte_body hheader hscan ?_⟩
          exact newMessage_nread hn
      | cons ch' rest =>
          rw [if_neg (by exact Nat.succ_ne_zero _)] at hscan
          have hfeed : feedByte p ch =
              some ({ p with contentLength := (ch' :: rest).length }, none) :=
            feedByte_body hheader hscan hn
          exact (ih (p := { p with contentLength := (ch' :: rest).length }) (List.cons_ne_nil _ _)
            hstate rfl hn).prepend (run_singleton hfeed)

/-- A body that ends with the stream. -/
theorem run_bodyEof (body : Bytes) {p : HttpParser} (hstate : p.state = .bodyIdentityEof)
    (hn : p.nread ≤ httpMaxHeaderSize) : run feedByte p body = some (p, []) := by
  induction body with
  | nil => rfl
  | cons ch rest ih =>
      have hscan : scanState p ch = pass p := by rw [scanState, hstate]
      exact run_cons_silent (feedByte_body (by rw [hstate]; rfl) hscan hn) ih

/-! ## Chunked bodies -/

/-- `p` reads `w` and becomes `p'`, and every byte counts once. -/
def Counts (p : HttpParser) (w : Bytes) (p' : HttpParser) : Prop :=
  ∀ n, n + w.length ≤ httpMaxHeaderSize →
    run feedByte (p.setNread n) w = some (p'.setNread (n + w.length), [])

theorem Counts.nil : Counts p [] p := fun _ _ => rfl

theorem Counts.append (h : Counts p u p') (h' : Counts p' v p'') : Counts p (u ++ v) p'' := by
  intro n hn
  rw [List.length_append] at hn ⊢
  rw [run_append_of_some (h n (by omega)), h' (n + u.length) (by omega), Nat.add_assoc]
  rfl

theorem Counts.cons (h : Counts p [ch] p') (h' : Counts p' w p'') : Counts p (ch :: w) p'' :=
  h.append h'

theorem counts_pass (hp : p.state.parsingHeader = true)
    (h : ∀ n, scanState (p.setNread n) ch = pass (p'.setNread n)) : Counts p [ch] p' := by
  intro n hn
  rw [List.length_singleton] at hn ⊢
  refine run_singleton (m := none) ?_
  rw [feedByte, scanByte_none, loopHead_header (by exact hp) hn]
  simp only [setNread_nread, setNread_setNread]
  rw [h (n + 1)]
  exact settle_next none hn

theorem unhex_of_isHex (h : isHex ch = true) : (unhex ch).isSome = true ∧ ch ≠ cr := by
  revert h
  obtain ⟨x⟩ := ch
  revert x
  decide +kernel

theorem le_hexadecimal (digits : Bytes) :
    ∀ n, n ≤ digits.foldl (fun n ch => n * 16 + (unhex ch).getD 0) n := by
  induction digits with
  | nil => exact fun n => Nat.le_refl n
  | cons ch rest ih =>
      intro n
      refine Nat.le_trans ?_ (ih (n * 16 + (unhex ch).getD 0))
      omega

/-- The digits of a chunk size after the first one. -/
theorem counts_digits {digits : Bytes} (hdigits : ∀ ch ∈ digits, isHex ch = true) : ∀ n,
    digits.foldl (fun n ch => n * 16 + (unhex ch).getD 0) n / 16 ≤ (ullongMax - 16) / 16 →
    Counts { p with state := .chunkSize, contentLength := n } digits
      { p with
        state := .chunkSize
        contentLength := digits.foldl (fun n ch => n * 16 + (unhex ch).getD 0) n } := by
  induction digits with
  | nil => exact fun n _ => Counts.nil
  | cons ch rest ih =>
      intro n hn
      obtain ⟨hsome, hcr⟩ := unhex_of_isHex (hdigits ch (by simp))
      obtain ⟨v, hv⟩ := Option.isSome_iff_exists.mp hsome
      refine Counts.cons ?_ (ih (fun ch hch => hdigits ch (by simp [hch])) _ hn)
      have hle := le_hexadecimal rest (n * 16 + (unhex ch).getD 0)
      rw [List.foldl_cons] at hn
      have hlimit : ¬ (ullongMax - 16) / 16 < n := by omega
      refine counts_pass rfl fun k => ?_
      refine (if_neg hcr).trans ?_
      simp only [hv, Option.getD_some]
      show (if (ullongMax - 16) / 16 < n then _ else _) = _
      rw [if_neg hlimit]
      rfl

theorem counts_parameters {extension : Bytes} (h : ∀ ch ∈ extension, isText ch = true) :
    Counts { p with state := .chunkParameters } extension
      { p with state := .chunkParameters } := by
  induction extension with
  | nil => exact Counts.nil
  | cons ch rest ih =>
      refine Counts.cons ?_ (ih fun ch hch => h ch (by simp [hch]))
      exact counts_pass rfl fun n => if_neg (isText_ne (h ch (by simp))).1

/-- A chunk line, up to its line feed. -/
theorem counts_chunkLine (line : ChunkLine n) :
    Counts { p with state := .chunkSizeStart } (line.digits ++ line.extension ++ [cr])
      { p with state := .chunkSizeAlmostDone, contentLength := n } := by
  have hdigits : Counts { p with state := .chunkSizeStart } line.digits
      { p with state := .chunkSize, contentLength := n } := by
    have hfits := line.fits
    have hall := line.digits_hex
    have hne := line.digits_ne_nil
    have hvalue := line.value
    generalize line.digits = digits at *
    cases digits with
    | nil => exact absurd rfl hne
    | cons ch rest =>
        obtain ⟨hsome, -⟩ := unhex_of_isHex (hall ch (by simp))
        obtain ⟨v, hv⟩ := Option.isSome_iff_exists.mp hsome
        have hdecimal : rest.foldl (fun n ch => n * 16 + (unhex ch).getD 0) v = n := by
          rw [← hvalue, hexadecimal, List.foldl_cons, hv, Nat.zero_mul, Nat.zero_add,
            Option.getD_some]
        have hfirst : Counts { p with state := .chunkSizeStart } [ch]
            { p with state := .chunkSize, contentLength := v } := by
          refine counts_pass rfl fun k => ?_
          show chunkSizeStart _ ch = _
          rw [chunkSizeStart, hv]
          rfl
        have hrest := counts_digits (p := p) (fun ch hch => hall ch (by simp [hch])) v
          (hdecimal ▸ hfits)
        rw [hdecimal] at hrest
        exact hfirst.cons hrest
  rw [List.append_assoc]
  refine hdigits.append ?_
  have htext := line.extension_text
  have hstart := line.extension_start
  generalize line.extension = extension at *
  cases extension with
  | nil => exact counts_pass rfl fun k => rfl
  | cons ch rest =>
      have hfirst : Counts { p with state := .chunkSize, contentLength := n } [ch]
          { p with state := .chunkParameters, contentLength := n } := by
        refine counts_pass rfl fun k => ?_
        rcases hstart ch rfl with rfl | rfl <;> rfl
      have hend : Counts { p with state := .chunkParameters, contentLength := n } [cr]
          { p with state := .chunkSizeAlmostDone, contentLength := n } :=
        counts_pass rfl fun k => rfl
      exact hfirst.cons ((counts_parameters (p := { p with contentLength := n })
        fun ch hch => htext ch (by simp [hch])).append hend)

/-- A chunk line, with the count at 0. -/
theorem run_chunkLine (line : ChunkLine n) (p : HttpParser) :
    run feedByte { p with state := .chunkSizeStart, nread := 0 } line.encode =
      some ({ p with
        state := if n = 0 then .headerFieldStart else .chunkData
        flags := { p.flags with trailing := p.flags.trailing || decide (n = 0) }
        contentLength := n
        nread := 0 }, []) := by
  have hshort := line.short
  have hcr := counts_chunkLine (p := p) line 0 (by simp; omega)
  have hencode : line.encode = line.digits ++ line.extension ++ [cr] ++ [lf] := by
    simp [ChunkLine.encode, crlf]
  have hrun : run feedByte { p with state := .chunkSizeStart, nread := 0 }
      (line.digits ++ line.extension ++ [cr]) =
        some ({ p with state := .chunkSizeAlmostDone, contentLength := n }.setNread
          (0 + (line.digits ++ line.extension ++ [cr]).length), []) := hcr
  rw [hencode, run_append_of_some hrun]
  generalize hk : 0 + (line.digits ++ line.extension ++ [cr]).length = k
  have hkle : k + 1 ≤ httpMaxHeaderSize := by
    rw [← hk]
    simp
    omega
  have hfeed : feedByte ({ p with state := .chunkSizeAlmostDone, contentLength := n }.setNread k)
      lf = some ({ p with
        state := if n = 0 then .headerFieldStart else .chunkData
        flags := { p.flags with trailing := p.flags.trailing || decide (n = 0) }
        contentLength := n
        nread := 0 }, none) := by
    rw [feedByte, scanByte_none, loopHead_header rfl hkle]
    show settle (chunkSizeAlmostDone _ lf) = _
    rw [chunkSizeAlmostDone, strictCheck, if_neg (by exact fun h => h rfl)]
    simp only
    by_cases hzero : n = 0
    · subst hzero
      rw [if_pos rfl]
      simp only [decide_true, Bool.or_true]
      exact settle_next none (Nat.zero_le _)
    · rw [if_neg (by exact hzero)]
      simp only [hzero, decide_false, Bool.or_false, if_false]
      exact settle_next none (Nat.zero_le _)
  rw [run_singleton hfeed]
  rfl

theorem run_chunkData (data : Bytes) : ∀ {p : HttpParser}, data ≠ [] →
    p.state = .chunkData → p.contentLength = data.length → p.nread ≤ httpMaxHeaderSize →
      run feedByte p data =
        some ({ p with contentLength := 0, state := .chunkDataAlmostDone }, []) := by
  induction data with
  | nil => exact fun h => absurd rfl h
  | cons ch rest ih =>
      intro p _ hstate hlength hn
      have hscan : scanState p ch = chunkData p ch := by rw [scanState, hstate]
      have hheader : p.state.parsingHeader = false := by
        rw [hstate]
        rfl
      rw [chunkData, hlength, List.length_cons, Nat.add_sub_cancel] at hscan
      cases rest with
      | nil => exact run_singleton (feedByte_body hheader hscan hn)
      | cons ch' rest =>
          rw [if_neg (by exact Nat.succ_ne_zero _)] at hscan
          have hfeed : feedByte p ch =
              some ({ p with contentLength := (ch' :: rest).length }, none) :=
            feedByte_body hheader hscan hn
          exact run_cons_silent hfeed (ih (p := { p with contentLength := (ch' :: rest).length })
            (List.cons_ne_nil _ _) hstate rfl hn)

theorem run_chunk (c : Chunk) (p : HttpParser) :
    run feedByte { p with state := .chunkSizeStart, nread := 0 } c.encode =
      some ({ p with state := .chunkSizeStart, nread := 0, contentLength := 0 }, []) := by
  have hlength : c.data.length ≠ 0 := fun h => c.data_ne_nil (List.length_eq_zero_iff.mp h)
  have hline := run_chunkLine c.line p
  simp only [hlength, decide_false, Bool.or_false, if_false] at hline
  have hdata := run_chunkData (p := { p with
    state := .chunkData, contentLength := c.data.length, nread := 0 }) c.data c.data_ne_nil rfl rfl
    (Nat.zero_le _)
  have hcr : feedByte { p with state := .chunkDataAlmostDone, contentLength := 0, nread := 0 } cr =
      some ({ p with state := .chunkDataDone, contentLength := 0, nread := 0 }, none) :=
    feedByte_body rfl rfl (Nat.zero_le _)
  have hlf : feedByte { p with state := .chunkDataDone, contentLength := 0, nread := 0 } lf =
      some ({ p with state := .chunkSizeStart, contentLength := 0, nread := 0 }, none) :=
    feedByte_body rfl rfl (Nat.zero_le _)
  rw [Chunk.encode, List.append_assoc, run_append_of_some hline, run_append_of_some hdata]
  rw [crlf, run_cons_silent hcr (run_singleton hlf)]
  rfl

theorem run_chunks (chunks : List Chunk) (p : HttpParser) : ∃ length,
    run feedByte { p with state := .chunkSizeStart, nread := 0 } (chunks.flatMap Chunk.encode) =
      some ({ p with state := .chunkSizeStart, nread := 0, contentLength := length }, []) := by
  induction chunks generalizing p with
  | nil => exact ⟨p.contentLength, rfl⟩
  | cons c chunks ih =>
      obtain ⟨length, hrest⟩ := ih { p with contentLength := 0 }
      refine ⟨length, ?_⟩
      rw [List.flatMap_cons, run_append_of_some (run_chunk c p)]
      rw [hrest]
      rfl

/-! ## Responses -/

/-- The parser behind the headers of `r`. -/
structure HeadRead (r : Response) (p : HttpParser) : Prop where
  httpMajor : p.httpMajor = 1
  httpMinor : p.httpMinor = 1
  statusCode : p.statusCode = decimal r.status
  nread : p.nread = 0
  trailing : p.flags.trailing = false
  chunked : p.flags.chunked = true ↔ ∃ f ∈ r.fields, f.Named transferEncodingWord
  connectionClose : p.flags.connectionClose = true → ∃ f ∈ r.fields, f.Connection closeWord
  announced : (∃ f ∈ r.fields, f.Named contentLengthWord) →
    p.contentLength = r.framing.encode.length
  unannounced : (∀ f ∈ r.fields, ¬ f.Named contentLengthWord) → p.contentLength = ullongMax

theorem HeadRead.nread_le {r : Response} (h : HeadRead r p) : p.nread ≤ httpMaxHeaderSize := by
  rw [h.nread]
  exact Nat.zero_le _

/-- What the header fields say is what the parser expects of them. -/
theorem announced_fields {status : ℕ} {fields : List Field} {framing : Framing}
    (h : framing.Announced status fields) :
    (∀ f ∈ fields, f.Named transferEncodingWord → f.Chunked) ∧
      ∀ f ∈ fields, f.Named contentLengthWord → f.Announces framing.encode.length := by
  cases framing with
  | none => exact ⟨fun f hf ht => absurd ht (h.2 f hf).2, fun f hf hl => absurd hl (h.2 f hf).1⟩
  | length body =>
      exact ⟨fun f hf ht => absurd ht (h.2 f hf).2, fun f hf => (h.2 f hf).1⟩
  | chunked chunks last trailers =>
      exact ⟨fun f hf => (h.2.1 f hf).1, fun f hf hl => absurd hl (h.2.1 f hf).2⟩
  | close body =>
      exact ⟨fun f hf ht => absurd ht (h.2.2 f hf).2, fun f hf hl => absurd hl (h.2.2 f hf).1⟩

theorem run_head (r : Response) : ∃ w q p,
    encodeHead r.status r.reason r.fields = w ++ [lf] ∧ run feedByte init w = some (q, []) ∧
      feedByte q lf = settle (bodyStart p) ∧ HeadRead r p := by
  obtain ⟨htransfer, hlength⟩ := announced_fields r.announced
  have hline := reads_statusLine r.status_length r.status_digits r.reason_text
  obtain ⟨p, hfields, hread⟩ := reads_fields htransfer hlength
    (p := atFields (decimal r.status)) (Or.inl rfl)
  have hall := (hline.append hfields).append (reads_emptyLine hread.line)
  have hencode : encodeHead r.status r.reason r.fields =
      httpVersion ++ r.status ++ space :: r.reason ++ crlf ++ r.fields.flatMap Field.encode ++
        [cr] ++ [lf] := by
    simp [encodeHead, crlf]
  have hshort := r.short
  rw [hencode, List.length_append, List.length_singleton] at hshort
  generalize httpVersion ++ r.status ++ space :: r.reason ++ crlf ++
    r.fields.flatMap Field.encode ++ [cr] = w at *
  obtain ⟨n, hn, hrun⟩ := hall 0 (by omega)
  have hupgrade : ((lineFlags p).upgrade && (lineFlags p).connectionUpgrade) = false := by
    by_contra h
    obtain ⟨hoffered, hoption⟩ := Bool.and_eq_true_iff.mp (Bool.eq_true_of_not_eq_false h)
    rcases hread.offered hoffered with hflag | hnamed
    · cases hflag
    · rcases hread.connectionUpgrade hoption with hflag | ⟨f, hf, hconnection⟩
      · cases hflag
      · exact r.no_upgrade hnamed f hf hconnection
  have hend := feedByte_headersEnd
    (p := { lineStart p with state := .headersAlmostDone }.setNread n) rfl
    (by rw [setNread_nread]; omega) hread.trailing hupgrade
  refine ⟨w, _, _, hencode, hrun, hend, ?_⟩
  exact
    { httpMajor := hread.httpMajor
      httpMinor := hread.httpMinor
      statusCode := hread.statusCode
      nread := rfl
      trailing := hread.trailing
      chunked := hread.chunked.trans (or_iff_right Bool.false_ne_true)
      connectionClose := fun h => (hread.connectionClose h).resolve_left Bool.false_ne_true
      announced := hread.announced
      unannounced := hread.unannounced }

/-- A response is complete at `p`. -/
structure EndsAt (r : Response) (p : HttpParser) : Prop where
  httpMajor : p.httpMajor = 1
  httpMinor : p.httpMinor = 1
  delimited : p.messageNeedsEof = false
  connectionClose : p.flags.connectionClose = true →
    ∃ f ∈ r.fields ++ r.framing.trailers, f.Connection closeWord

theorem EndsAt.keepAlive {r : Response} (h : EndsAt r p) (hr : r.Persistent) :
    p.completion.keepAlive = true := by
  show p.shouldKeepAlive = true
  rw [shouldKeepAlive_eq h.httpMajor h.httpMinor h.delimited]
  cases hclose : p.flags.connectionClose with
  | false => rfl
  | true =>
      obtain ⟨f, hf, hconnection⟩ := h.connectionClose hclose
      exact absurd hconnection (hr.2 f hf)

theorem HeadRead.endsAt {r : Response} (h : HeadRead r p) (heof : p.messageNeedsEof = false) :
    EndsAt r p where
  httpMajor := h.httpMajor
  httpMinor := h.httpMinor
  delimited := heof
  connectionClose hclose := by
    obtain ⟨f, hf, hconnection⟩ := h.connectionClose hclose
    exact ⟨f, List.mem_append_left _ hf, hconnection⟩

theorem messageNeedsEof_of_length (h : p.contentLength ≠ ullongMax) :
    p.messageNeedsEof = false := by
  rw [messageNeedsEof]
  split
  · rfl
  · rw [if_pos (Or.inr h)]

theorem messageNeedsEof_of_chunked (h : p.flags.chunked = true) : p.messageNeedsEof = false := by
  rw [messageNeedsEof]
  split
  · rfl
  · rw [if_pos (Or.inl h)]

theorem messageNeedsEof_of_status (h : p.statusCode = 204 ∨ p.statusCode = 304) :
    p.messageNeedsEof = false :=
  if_pos (Or.inr h)

theorem Announces.ne_ullongMax {f : Field} (h : f.Announces n) : n ≠ ullongMax := by
  obtain ⟨digits, -, -, -, -, hlimit⟩ := h
  rintro rfl
  revert hlimit
  decide

/-- Responses that end with their headers. -/
theorem completes_headers {r : Response} (hq : feedByte q lf = settle (bodyStart p))
    (hr : HeadRead r p) (hstart : bodyStart p = messageComplete p)
    (heof : p.messageNeedsEof = false) :
    ∃ e, Completes feedByte q [lf] e.completion (newMessage e) ∧ EndsAt r e := by
  refine ⟨p, ⟨[], lf, q, rfl, rfl, ?_⟩, hr.endsAt heof⟩
  rw [hq, hstart]
  exact settle_messageComplete hr.nread_le

theorem completes_length {r : Response} {body : Bytes} (hq : feedByte q lf = settle (bodyStart p))
    (hr : HeadRead r p) (hframing : r.framing = .length body) :
    ∃ e, Completes feedByte q (lf :: body) e.completion (newMessage e) ∧ EndsAt r e := by
  have hannounced := r.announced
  have hlength := hr.announced
  rw [hframing] at hannounced hlength
  obtain ⟨⟨f, hf, hname⟩, hfields⟩ := hannounced
  have hcontent : p.contentLength = body.length := hlength ⟨f, hf, hname⟩
  have hmax := Announces.ne_ullongMax ((hfields f hf).1 hname)
  have hchunked : p.flags.chunked ≠ true := by
    rw [ne_eq, hr.chunked]
    rintro ⟨f, hf, htransfer⟩
    exact (hfields f hf).2 htransfer
  have heof := messageNeedsEof_of_length (p := p) (hcontent ▸ hmax)
  cases body with
  | nil => exact completes_headers hq hr ((if_neg hchunked).trans (if_pos hcontent)) heof
  | cons ch rest =>
      have hstart : bodyStart p = pass { p with state := .bodyIdentity } :=
        (if_neg hchunked).trans ((if_neg (by rw [hcontent]; exact Nat.succ_ne_zero _)).trans
          (if_pos (hcontent ▸ hmax)))
      rw [hstart] at hq
      have hfeed : feedByte q lf = some ({ p with state := .bodyIdentity }, none) :=
        hq.trans (settle_next none (by exact hr.nread_le))
      have hbody := completes_body (ch :: rest) (p := { p with state := .bodyIdentity })
        (List.cons_ne_nil _ _) rfl hcontent hr.nread_le
      refine ⟨_, hbody.prepend (run_singleton hfeed), ?_⟩
      have hzero : (0 : ℕ) ≠ ullongMax := by decide
      exact { hr.endsAt heof with delimited := messageNeedsEof_of_length hzero }

theorem completes_chunked {r : Response} {chunks : List Chunk} {last : ChunkLine 0}
    {trailers : List Field} (hq : feedByte q lf = settle (bodyStart p)) (hr : HeadRead r p)
    (hframing : r.framing = .chunked chunks last trailers) :
    ∃ e, Completes feedByte q (lf :: r.framing.encode) e.completion (newMessage e) ∧
      EndsAt r e := by
  have hannounced := r.announced
  rw [hframing] at hannounced
  obtain ⟨htransfer, -, htrailers, hshort⟩ := hannounced
  have hchunked := hr.chunked.mpr htransfer
  have hfeed : feedByte q lf = some ({ p with state := .chunkSizeStart, nread := 0 }, none) := by
    rw [hq, bodyStart, if_pos hchunked, ← hr.nread]
    exact settle_next none (by exact hr.nread_le)
  obtain ⟨length, hchunks⟩ := run_chunks chunks p
  have hlast := run_chunkLine last { p with contentLength := length }
  simp only [decide_true, Bool.or_true, if_true] at hlast
  obtain ⟨p', hfields, hread⟩ := reads_fields (n := 0)
    (fun f hf h => absurd h (htrailers f hf).2) (fun f hf h => absurd h (htrailers f hf).1)
    (p := { p with
      state := .headerFieldStart, flags := { p.flags with trailing := true }, contentLength := 0
      nread := 0 }) (Or.inl rfl)
  obtain ⟨n, hn, htail⟩ := hfields.append (reads_emptyLine hread.line) 0
    (by rw [List.length_append, List.length_singleton]; omega)
  rw [List.length_append, List.length_singleton] at hn
  have hend := feedByte_trailersEnd
    (p := { lineStart p' with state := .headersAlmostDone }.setNread n) rfl
    (by rw [setNread_nread]; omega) hread.trailing
  have hstill : (lineFlags p').chunked = true := hread.chunked.mpr (Or.inl hchunked)
  refine ⟨{ lineStart p' with state := .headersAlmostDone }.setNread (n + 1), ?_, ?_⟩
  · refine ⟨[lf] ++ (chunks.flatMap Chunk.encode ++ (last.encode ++
      (trailers.flatMap Field.encode ++ [cr]))), lf, _, ?_, ?_, hend⟩
    · simp [hframing, Framing.encode, crlf]
    · rw [run_append_of_some (run_singleton hfeed), run_append_of_some hchunks,
        run_append_of_some hlast]
      exact congrArg (Option.map _) (congrArg (Option.map _) (congrArg (Option.map _) htail))
  · exact
      { httpMajor := hread.httpMajor.trans hr.httpMajor
        httpMinor := hread.httpMinor.trans hr.httpMinor
        delimited := messageNeedsEof_of_chunked hstill
        connectionClose := by
          intro hclose
          rcases hread.connectionClose hclose with hflag | ⟨f, hf, hconnection⟩
          · exact (hr.endsAt (messageNeedsEof_of_chunked hchunked)).connectionClose hflag
          · refine ⟨f, List.mem_append_right _ ?_, hconnection⟩
            rw [hframing]
            exact hf }

/-- A response that tells where it ends is a frame. -/
theorem completes_response (r : Response) (hr : r.delimited = true) :
    ∃ e, Completes feedByte init r.encode e.completion (newMessage e) ∧ EndsAt r e := by
  obtain ⟨w, q, p, hhead, hrun, hq, hread⟩ := run_head r
  have hencode : r.encode = w ++ (lf :: r.framing.encode) := by
    simp [Response.encode, hhead]
  obtain ⟨e, hframe, hend⟩ : ∃ e, Completes feedByte q (lf :: r.framing.encode) e.completion
      (newMessage e) ∧ EndsAt r e := by
    cases hframing : r.framing with
    | none =>
        have hannounced := r.announced
        rw [hframing] at hannounced
        have heof := messageNeedsEof_of_status (p := p) (hread.statusCode.symm ▸ hannounced.1)
        have hlength := hread.unannounced fun f hf => (hannounced.2 f hf).1
        have hchunked : p.flags.chunked ≠ true := by
          rw [ne_eq, hread.chunked]
          rintro ⟨f, hf, htransfer⟩
          exact (hannounced.2 f hf).2 htransfer
        refine completes_headers hq hread ?_ heof
        rw [bodyStart, if_neg hchunked, hlength, if_neg (by decide), if_neg (fun h => h rfl), heof]
        rfl
    | length body => exact completes_length hq hread hframing
    | chunked chunks last trailers => exact hframing ▸ completes_chunked hq hread hframing
    | close body => simp [Response.delimited, hframing] at hr
  rw [hencode]
  exact ⟨e, hframe.prepend hrun, hend⟩

/-- Any other response waits for the end of the stream. -/
theorem run_response (r : Response) (hr : r.delimited = false) :
    ∃ q, run feedByte init r.encode = some (q, []) ∧ q.state = .bodyIdentityEof ∧
      q.shouldKeepAlive = false := by
  obtain ⟨w, q, p, hhead, hrun, hq, hread⟩ := run_head r
  have hencode : r.encode = w ++ (lf :: r.framing.encode) := by
    simp [Response.encode, hhead]
  cases hframing : r.framing with
  | close body =>
      have hannounced := r.announced
      have hfinal := r.final
      rw [hframing] at hannounced
      obtain ⟨h204, h304, hfields⟩ := hannounced
      have hlength := hread.unannounced fun f hf => (hfields f hf).1
      have hchunked : p.flags.chunked ≠ true := by
        rw [ne_eq, hread.chunked]
        rintro ⟨f, hf, htransfer⟩
        exact (hfields f hf).2 htransfer
      have heof : p.messageNeedsEof = true := by
        rw [messageNeedsEof, hread.statusCode, if_neg (by omega), hlength,
          if_neg (fun h => h.elim hchunked fun h => h rfl)]
      have hstart : bodyStart p = pass { p with state := .bodyIdentityEof } := by
        rw [bodyStart, if_neg hchunked, hlength, if_neg (by decide), if_neg (fun h => h rfl), heof]
        rfl
      have hfeed : feedByte q lf = some ({ p with state := .bodyIdentityEof }, none) := by
        rw [hq, hstart]
        exact settle_next none (by exact hread.nread_le)
      refine ⟨{ p with state := .bodyIdentityEof }, ?_, rfl, shouldKeepAlive_of_needsEof heof⟩
      rw [hencode, run_append_of_some hrun, run_cons_silent hfeed
        (run_bodyEof _ rfl hread.nread_le)]
      rfl
  | none => simp [Response.delimited, hframing] at hr
  | length body => simp [Response.delimited, hframing] at hr
  | chunked chunks last trailers => simp [Response.delimited, hframing] at hr

/-! ## Streams -/

/-- The parser at the end of a stream of `n` responses, `completed` of which
it has completed. -/
def AtEnd (completed n : ℕ) (q : HttpParser) : Prop :=
  (q.state = .startRes ∨ q.state = .dead) ∧ completed = n ∨
    q.state = .bodyIdentityEof ∧ q.shouldKeepAlive = false ∧ completed + 1 = n

/-- The responses that tell where they end, one after the other, and what
comes behind them. -/
theorem frames_of_responses (rs : List Response) (h : ∀ r ∈ rs.dropLast, r.Persistent) :
    ∃ s tail q, Frames feedByte init ((rs.filter Response.delimited).map Response.encode) s ∧
      rs.flatMap Response.encode =
        ((rs.filter Response.delimited).map Response.encode).flatten ++ tail ∧
      run feedByte s tail = some (q, []) ∧
      AtEnd (rs.filter Response.delimited).length rs.length q := by
  induction rs with
  | nil => exact ⟨init, [], init, .nil init, rfl, rfl, Or.inl ⟨Or.inl rfl, rfl⟩⟩
  | cons r rest ih =>
      cases hr : r.delimited with
      | true =>
          obtain ⟨e, hframe, hend⟩ := completes_response r hr
          rw [List.filter_cons_of_pos hr]
          cases rest with
          | nil =>
              refine ⟨newMessage e, [], newMessage e, .cons hframe (.nil _), by simp, rfl,
                Or.inl ⟨?_, rfl⟩⟩
              unfold newMessage
              split
              · exact Or.inl rfl
              · exact Or.inr rfl
          | cons r' rest =>
              obtain ⟨s, tail, q, hframes, hflat, htail, hq⟩ :=
                ih fun r hr => h r (List.mem_cons_of_mem _ hr)
              have hnext : newMessage e = init :=
                if_pos (hend.keepAlive (h r (List.mem_cons_self ..)))
              rw [hnext] at hframe
              refine ⟨s, tail, q, .cons hframe hframes, ?_, htail, ?_⟩
              · rw [List.flatMap_cons, hflat, List.map_cons, List.flatten_cons,
                  List.append_assoc]
              · rcases hq with ⟨hstate, hlength⟩ | ⟨hstate, hclose, hlength⟩
                · exact Or.inl ⟨hstate, congrArg (· + 1) hlength⟩
                · exact Or.inr ⟨hstate, hclose, congrArg (· + 1) hlength⟩
      | false =>
          cases rest with
          | nil =>
              obtain ⟨q, hrun, hstate, hclose⟩ := run_response r hr
              rw [List.filter_cons_of_neg (by rw [hr]; exact Bool.false_ne_true)]
              exact ⟨init, r.encode, q, .nil init, by simp, hrun, Or.inr ⟨hstate, hclose, rfl⟩⟩
          | cons r' rest =>
              have hpersistent := (h r (List.mem_cons_self ..)).1
              rw [hr] at hpersistent
              cases hpersistent

/-- A stream completes its responses one by one, in whatever chunks it is
read. -/
theorem run_stream (s : Stream) {chunks : List Bytes} (h : s.Delivers chunks) :
    ∃ q ms, run feedByte init chunks.flatten = some (q, ms) ∧
      ms.length = framesIn ((s.responses.filter Response.delimited).map Response.encode)
        chunks.flatten.length ∧
      (chunks.flatten = s.encode → AtEnd ms.length s.responses.length q) := by
  obtain ⟨s', tail, q', hframes, hflat, htail, hend⟩ := frames_of_responses s.responses s.persistent
  have hdata := h.data
  rw [Stream.encode, hflat] at hdata
  obtain ⟨q, ms, hrun, hlength⟩ := run_frames hframes htail hdata
  refine ⟨q, ms, hrun, hlength, ?_⟩
  intro hall
  obtain ⟨ms', hrun', hlength'⟩ := hframes.run_eq
  rw [hall, Stream.encode, hflat, run_append_of_some hrun', htail] at hrun
  obtain ⟨rfl, rfl⟩ := Prod.mk.inj (Option.some.inj hrun)
  rw [List.append_nil, hlength', List.length_map]
  exact hend

end HttpParser

end WrkQuic
