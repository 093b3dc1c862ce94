import WrkQuic.HttpParser
import WrkQuic.Lib.Scanner

/-!
# Chunks of a response

How a stream is cut into chunks only shows in `nread`: an inner loop that
is cut counts one byte twice. What the parser makes of a byte that it reads
on its own (`feed`) it makes of it in any chunk, unless it is the byte that
is one too many for the header (`Ahead.feed`). A stream that it reads one
byte at a time (`feedByte`) it reads in the same way in any chunks
(`execute_of_run`).
-/

namespace WrkQuic

open Scanner

/-- The byte does not end the inner loop of the state. -/
def ParserState.loopsOn (state : ParserState) (ch : UInt8) : Bool :=
  match state with
  | .headerField => token ch ≠ 0
  | .headerValue => ch ≠ cr ∧ ch ≠ lf
  | _ => false

namespace HttpParser

/-- The bytes that an inner loop has passed are counted. -/
def settled : Scanned → Scanned
  | .next p loop m =>
      let p := { p with nread := p.nread + loop.getD 0 }
      if httpMaxHeaderSize < p.nread then fail p .headerOverflow else .next p none m
  | r => r

/-- A byte as a chunk of its own. -/
def feed (p : HttpParser) (ch : UInt8) : Scanned := settled (scanByte p none ch)

/-- The byte is passed. -/
def settle (r : Scanned) : Option (HttpParser × Option Completion) :=
  match settled r with
  | .next p _ m => some (p, m)
  | _ => none

def feedByte (p : HttpParser) (ch : UInt8) : Option (HttpParser × Option Completion) :=
  settle (scanByte p none ch)

def setNread (p : HttpParser) (n : ℕ) : HttpParser := { p with nread := n }

@[simp] theorem setNread_setNread (p : HttpParser) (n n' : ℕ) :
    (p.setNread n).setNread n' = p.setNread n' := rfl

@[simp] theorem setNread_nread (p : HttpParser) (n : ℕ) : (p.setNread n).nread = n := rfl

/-- `r'` is made of a byte by a parser that has counted fewer bytes than the
one, without an error so far, that makes `r` of it at the head of the outer
loop: the same, unless `r` is an overflow. -/
def Agrees (r r' : Scanned) : Prop :=
  match r with
  | .next q loop m =>
      q.httpErrno = none ∧ (loop = none ∨ loop = some 1) ∧
        ∃ n, n ≤ q.nread ∧ r' = .next (q.setNread n) loop m
  | .leave q m => q.httpErrno = none ∧ q.nread = 0 ∧ r' = .leave q m
  | .error q back => q.httpErrno = some .headerOverflow ∨ ∃ q', r' = .error q' back

/-- `f` does the same for a parser that has counted fewer bytes. -/
def CountsOnly (f : HttpParser → Scanned) : Prop :=
  ∀ q n, n ≤ q.nread → q.httpErrno = none → Agrees (f q) (f (q.setNread n))

variable {p q q' : HttpParser} {ch c : UInt8} {k : HttpParser → Scanned} {loop : Option ℕ}
  {m : Option Completion}

theorem countHeaderSize_of_le {n : ℕ} (h : p.nread + n ≤ httpMaxHeaderSize) :
    countHeaderSize p n k = k (p.setNread (p.nread + n)) :=
  if_neg (Nat.not_lt.mpr h)

theorem CountsOnly.countHeaderSize (hk : CountsOnly k) (n : ℕ) :
    CountsOnly (countHeaderSize · n k) := by
  intro q n₁ hn herrno
  by_cases hsize : q.nread + n ≤ httpMaxHeaderSize
  · simp only
    rw [countHeaderSize_of_le hsize, countHeaderSize_of_le (by rw [setNread_nread]; omega)]
    exact hk (q.setNread (q.nread + n)) (n₁ + n) (Nat.add_le_add_right hn n) herrno
  · simp only [HttpParser.countHeaderSize]
    rw [if_pos (Nat.not_le.mp hsize)]
    exact Or.inl rfl

theorem CountsOnly.loopHead (hk : CountsOnly k) : CountsOnly (loopHead · k) := by
  intro q n hn herrno
  simp only [HttpParser.loopHead]
  split
  · rename_i hheader
    rw [if_pos (by exact hheader)]
    exact hk.countHeaderSize 1 q n hn herrno
  · rename_i hheader
    rw [if_neg (by exact hheader)]
    exact hk q n hn herrno

/-- A change that does not look at the count. -/
theorem CountsOnly.update (hk : CountsOnly k) {f : HttpParser → HttpParser}
    (hf : ∀ q n, f (q.setNread n) = (f q).setNread n)
    (herrno : ∀ q, (f q).httpErrno = q.httpErrno) : CountsOnly fun q => k (f q) := by
  intro q n hn hnone
  have hnread : (f q).nread = q.nread := by
    rw [show f q = f (q.setNread q.nread) from rfl, hf]
    rfl
  simp only [hf]
  exact hk (f q) n (hnread.symm ▸ hn) ((herrno q).trans hnone)

theorem CountsOnly.strictCheck (hk : CountsOnly k) (c : UInt8) :
    CountsOnly fun q => strictCheck q ch c (k q) := by
  intro q n hn herrno
  simp only [HttpParser.strictCheck]
  split
  · exact Or.inr ⟨_, rfl⟩
  · exact hk q n hn herrno

/-- A condition that does not look at the count. -/
theorem CountsOnly.ite {k' : HttpParser → Scanned} {cond : HttpParser → Prop}
    [DecidablePred cond] (hcond : ∀ q n, cond (q.setNread n) ↔ cond q) (hk : CountsOnly k)
    (hk' : CountsOnly k') : CountsOnly fun q => if cond q then k q else k' q := by
  intro q n hn herrno
  simp only
  split
  · rename_i hq
    rw [if_pos ((hcond q n).mpr hq)]
    exact hk q n hn herrno
  · rename_i hq
    rw [if_neg (mt (hcond q n).mp hq)]
    exact hk' q n hn herrno

theorem next_countsOnly (hloop : loop = none ∨ loop = some 1) : CountsOnly (.next · loop none) :=
  fun _ n hn herrno => ⟨herrno, hloop, n, hn, rfl⟩

theorem pass_countsOnly : CountsOnly pass := next_countsOnly (Or.inl rfl)

theorem fail_countsOnly {e : HttpErrno} : CountsOnly (fail · e) :=
  fun _ _ _ _ => Or.inr ⟨_, rfl⟩

/-- What follows once the count is reset. -/
theorem reset_countsOnly (hk : ∀ q, q.nread = 0 → q.httpErrno = none → Agrees (k q) (k q)) :
    CountsOnly fun q => k (q.setNread 0) :=
  fun q _ _ herrno => hk (q.setNread 0) rfl herrno

theorem CountsOnly.self (hk : CountsOnly k) (herrno : q.httpErrno = none) : Agrees (k q) (k q) :=
  hk q q.nread (Nat.le_refl _) herrno

theorem CountsOnly.reset (hk : CountsOnly k) : CountsOnly fun q => k (q.setNread 0) :=
  reset_countsOnly fun _ _ herrno => hk.self herrno

theorem expect_countsOnly {next : ParserState} : CountsOnly (expect · ch c next) :=
  (pass_countsOnly.update (f := fun q => { q with state := next }) (fun _ _ => rfl)
    fun _ => rfl).strictCheck c

theorem newMessage_setNread {n : ℕ} (hn : n ≤ q.nread) (herrno : q.httpErrno = none) :
    (newMessage q).httpErrno = none ∧
      ∃ n', n' ≤ (newMessage q).nread ∧ newMessage (q.setNread n) = (newMessage q).setNread n' := by
  unfold newMessage
  by_cases halive : q.shouldKeepAlive = true
  · rw [if_pos halive, if_pos (by exact halive)]
    exact ⟨rfl, 0, Nat.zero_le _, rfl⟩
  · rw [if_neg halive, if_neg (by exact halive)]
    exact ⟨herrno, n, hn, rfl⟩

theorem messageComplete_countsOnly : CountsOnly messageComplete := by
  intro q n hn herrno
  obtain ⟨hnone, n', hn', hsame⟩ := newMessage_setNread hn herrno
  refine ⟨hnone, Or.inl rfl, n', hn', ?_⟩
  rw [messageComplete, hsame]
  rfl

/-- The states of the status line and of the chunk sizes. -/
theorem quiet_countsOnly (ch : UInt8) :
    CountsOnly (startRes · ch) ∧ CountsOnly (resFirstHttpMajor · ch) ∧
      CountsOnly (resHttpMajor · ch) ∧ CountsOnly (resFirstHttpMinor · ch) ∧
      CountsOnly (resHttpMinor · ch) ∧ CountsOnly (resFirstStatusCode · ch) ∧
      CountsOnly (resStatusCode · ch) ∧ CountsOnly (resStatusStart · ch) ∧
      CountsOnly (resStatus · ch) ∧ CountsOnly (chunkParameters · ch) ∧
      CountsOnly (chunkData · ch) := by
  simp only [startRes, resFirstHttpMajor, resHttpMajor, resFirstHttpMinor, resHttpMinor,
    resFirstStatusCode, resStatusCode, resStatusStart, resStatus, chunkParameters, chunkData]
  refine ⟨?_, ?_, ?_, ?_, ?_, ?_, ?_, ?_, ?_, ?_, ?_⟩
  all_goals
    repeat' first
      | exact fail_countsOnly.update (fun _ _ => rfl) fun _ => rfl
      | exact pass_countsOnly.update (fun _ _ => rfl) fun _ => rfl
      | refine CountsOnly.ite (fun _ _ => Iff.rfl) ?_ ?_

theorem chunkSizeStart_countsOnly : CountsOnly (chunkSizeStart · ch) := by
  unfold chunkSizeStart
  cases unhex ch with
  | none => exact fail_countsOnly
  | some v => exact pass_countsOnly.update (fun _ _ => rfl) fun _ => rfl

theorem chunkSize_countsOnly : CountsOnly (chunkSize · ch) := by
  unfold chunkSize
  refine CountsOnly.ite (fun _ _ => Iff.rfl) ?_ ?_
  · exact pass_countsOnly.update (fun _ _ => rfl) fun _ => rfl
  · cases unhex ch with
    | none =>
        refine CountsOnly.ite (fun _ _ => Iff.rfl) ?_ fail_countsOnly
        exact pass_countsOnly.update (fun _ _ => rfl) fun _ => rfl
    | some v =>
        refine CountsOnly.ite (fun _ _ => Iff.rfl) fail_countsOnly ?_
        exact pass_countsOnly.update (fun _ _ => rfl) fun _ => rfl

theorem bodyIdentity_countsOnly : CountsOnly (bodyIdentity · ch) := by
  unfold bodyIdentity
  refine CountsOnly.ite (fun _ _ => Iff.rfl) ?_ ?_
  · exact messageComplete_countsOnly.update (fun _ _ => rfl) fun _ => rfl
  · exact pass_countsOnly.update (fun _ _ => rfl) fun _ => rfl

theorem chunkSizeAlmostDone_countsOnly : CountsOnly (chunkSizeAlmostDone · ch) := by
  refine CountsOnly.strictCheck (CountsOnly.reset (k := fun p =>
    if p.contentLength = 0 then
      pass { p with flags := { p.flags with trailing := true }, state := .headerFieldStart }
    else pass { p with state := .chunkData }) ?_) lf
  refine CountsOnly.ite (fun _ _ => Iff.rfl) ?_ ?_
  · exact pass_countsOnly.update (fun _ _ => rfl) fun _ => rfl
  · exact pass_countsOnly.update (fun _ _ => rfl) fun _ => rfl

theorem chunkDataDone_countsOnly : CountsOnly (chunkDataDone · ch) :=
  (CountsOnly.reset (k := fun p => pass { p with state := .chunkSizeStart })
    (pass_countsOnly.update (fun _ _ => rfl) fun _ => rfl)).strictCheck lf

theorem headersDone_countsOnly : CountsOnly (headersDone · ch) := by
  refine CountsOnly.strictCheck (reset_countsOnly (k := fun p =>
    if p.upgrade then .leave (newMessage p) p.completion
    else if p.flags.chunked then pass { p with state := .chunkSizeStart }
    else if p.contentLength = 0 then messageComplete p
    else if p.contentLength ≠ ullongMax then pass { p with state := .bodyIdentity }
    else if !p.messageNeedsEof then messageComplete p
    else pass { p with state := .bodyIdentityEof }) ?_) lf
  intro q hzero herrno
  split
  · have hnread : (newMessage q).nread = 0 := by
      unfold newMessage
      split
      · rfl
      · exact hzero
    exact ⟨(newMessage_setNread (Nat.le_refl _) herrno).1, hnread, rfl⟩
  · refine CountsOnly.self (k := fun p =>
      if p.flags.chunked then pass { p with state := .chunkSizeStart }
      else if p.contentLength = 0 then messageComplete p
      else if p.contentLength ≠ ullongMax then pass { p with state := .bodyIdentity }
      else if !p.messageNeedsEof then messageComplete p
      else pass { p with state := .bodyIdentityEof }) ?_ herrno
    repeat' first
      | exact messageComplete_countsOnly
      | exact pass_countsOnly.update (fun _ _ => rfl) fun _ => rfl
      | refine CountsOnly.ite (fun _ _ => Iff.rfl) ?_ ?_

theorem headersAlmostDone_countsOnly : CountsOnly (headersAlmostDone · ch) := by
  refine CountsOnly.strictCheck ?_ lf
  refine CountsOnly.ite (fun _ _ => Iff.rfl) messageComplete_countsOnly ?_
  exact headersDone_countsOnly.loopHead.update (fun _ _ => rfl) fun _ => rfl

theorem headerFieldStart_countsOnly : CountsOnly (headerFieldStart · ch) := by
  unfold headerFieldStart
  refine CountsOnly.ite (fun _ _ => Iff.rfl) ?_ ?_
  · exact pass_countsOnly.update (fun _ _ => rfl) fun _ => rfl
  · refine CountsOnly.ite (fun _ _ => Iff.rfl) ?_ ?_
    · exact headersAlmostDone_countsOnly.loopHead.update (fun _ _ => rfl) fun _ => rfl
    · refine CountsOnly.ite (fun _ _ => Iff.rfl) fail_countsOnly ?_
      exact pass_countsOnly.update (fun _ _ => rfl) fun _ => rfl

theorem headerField_countsOnly : CountsOnly (headerField · 0 ch) := by
  unfold headerField
  refine CountsOnly.ite (fun _ _ => Iff.rfl) ?_ ?_
  · exact (next_countsOnly (Or.inr rfl)).update (fun _ _ => rfl) fun _ => rfl
  · refine CountsOnly.countHeaderSize ?_ 0
    refine CountsOnly.ite (fun _ _ => Iff.rfl) ?_ fail_countsOnly
    exact pass_countsOnly.update (fun _ _ => rfl) fun _ => rfl

theorem CountsOnly.of_headerState
    (hk : ∀ h, CountsOnly fun q => k { q with headerState := h }) : CountsOnly k :=
  fun q => hk q.headerState q

theorem CountsOnly.of_state (hk : ∀ state, CountsOnly fun q => k { q with state := state }) :
    CountsOnly k :=
  fun q => hk q.state q

theorem headerValueStart_countsOnly : CountsOnly (headerValueStart · ch) := by
  refine .of_headerState fun h => ?_
  cases h with
  | contentLength =>
      refine CountsOnly.ite (fun _ _ => Iff.rfl) ?_ ?_
      · exact pass_countsOnly.update (fun _ _ => rfl) fun _ => rfl
      · exact fail_countsOnly.update (fun _ _ => rfl) fun _ => rfl
  | _ => exact pass_countsOnly.update (fun _ _ => rfl) fun _ => rfl

theorem finishHeader_setNread (p : HttpParser) (n : ℕ) :
    finishHeader (p.setNread n) = (finishHeader p).setNread n := by
  obtain ⟨flags, state, h, index, nread, length, major, minor, status, errno, upgrade⟩ := p
  cases h <;> rfl

theorem finishHeader_httpErrno (p : HttpParser) : (finishHeader p).httpErrno = p.httpErrno := by
  obtain ⟨flags, state, h, index, nread, length, major, minor, status, errno, upgrade⟩ := p
  cases h <;> rfl

theorem headerValueDiscardWs_countsOnly : CountsOnly (headerValueDiscardWs · ch) := by
  unfold headerValueDiscardWs
  repeat' first
    | exact headerValueStart_countsOnly
    | exact pass_countsOnly
    | exact pass_countsOnly.update (fun _ _ => rfl) fun _ => rfl
    | refine CountsOnly.ite (fun _ _ => Iff.rfl) ?_ ?_

/-- The next line begins. -/
theorem nextLine_countsOnly : CountsOnly fun p =>
    HttpParser.loopHead { finishHeader p with state := .headerFieldStart }
      (headerFieldStart · ch) := by
  refine headerFieldStart_countsOnly.loopHead.update ?_ finishHeader_httpErrno
  intro q n
  rw [finishHeader_setNread]
  rfl

theorem headerValueDiscardLws_countsOnly : CountsOnly (headerValueDiscardLws · ch) := by
  unfold headerValueDiscardLws
  refine CountsOnly.ite (fun _ _ => Iff.rfl) ?_ nextLine_countsOnly
  exact pass_countsOnly.update (fun _ _ => rfl) fun _ => rfl

theorem headerValueLws_countsOnly : CountsOnly (headerValueLws · ch) := by
  unfold headerValueLws
  refine CountsOnly.ite (fun _ _ => Iff.rfl) ?_ nextLine_countsOnly
  exact headerValueStart_countsOnly.loopHead.update (fun _ _ => rfl) fun _ => rfl

theorem headerValue_countsOnly : CountsOnly (headerValue · 0 ch) := by
  unfold headerValue
  refine CountsOnly.ite (fun _ _ => Iff.rfl) ?_ ?_
  · exact (pass_countsOnly.countHeaderSize 0).update (fun _ _ => rfl) fun _ => rfl
  · refine CountsOnly.ite (fun _ _ => Iff.rfl) ?_ ?_
    · refine CountsOnly.update (CountsOnly.countHeaderSize ?_ 0) (fun _ _ => rfl) fun _ => rfl
      intro q n hn herrno
      simp only
      split
      · exact Or.inl rfl
      · rename_i hsize
        rw [if_neg (by rw [setNread_nread]; omega)]
        exact expect_countsOnly.loopHead { q with nread := q.nread + 0 - 1 } (n + 0 - 1)
          (by simpa using Nat.sub_le_sub_right hn 1) herrno
    · refine CountsOnly.ite (fun _ _ => Iff.rfl) ?_ ?_
      · intro q n hn herrno
        simp only [show (q.setNread n).contentLength = q.contentLength from rfl]
        cases lengthChar q.contentLength ch with
        | none => exact Or.inr ⟨_, rfl⟩
        | some v => exact ⟨herrno, Or.inr rfl, n, hn, rfl⟩
      · exact (next_countsOnly (Or.inr rfl)).update (fun _ _ => rfl) fun _ => rfl

theorem scanState_countsOnly : CountsOnly (scanState · ch) := by
  obtain ⟨hstart, hmajor, hmajor', hminor, hminor', hstatus, hstatus', hreason, hreason', hparam,
    hdata⟩ := quiet_countsOnly ch
  refine .of_state fun state => ?_
  cases state with
  | unset => exact fail_countsOnly.update (fun _ _ => rfl) fun _ => rfl
  | dead =>
      refine CountsOnly.ite (fun _ _ => Iff.rfl) ?_ ?_
      · exact pass_countsOnly.update (fun _ _ => rfl) fun _ => rfl
      · exact fail_countsOnly.update (fun _ _ => rfl) fun _ => rfl
  | startRes => exact hstart.update (fun _ _ => rfl) fun _ => rfl
  | resFirstHttpMajor => exact hmajor.update (fun _ _ => rfl) fun _ => rfl
  | resHttpMajor => exact hmajor'.update (fun _ _ => rfl) fun _ => rfl
  | resFirstHttpMinor => exact hminor.update (fun _ _ => rfl) fun _ => rfl
  | resHttpMinor => exact hminor'.update (fun _ _ => rfl) fun _ => rfl
  | resFirstStatusCode => exact hstatus.update (fun _ _ => rfl) fun _ => rfl
  | resStatusCode => exact hstatus'.update (fun _ _ => rfl) fun _ => rfl
  | resStatusStart => exact hreason.update (fun _ _ => rfl) fun _ => rfl
  | resStatus => exact hreason'.update (fun _ _ => rfl) fun _ => rfl
  | headerFieldStart => exact headerFieldStart_countsOnly.update (fun _ _ => rfl) fun _ => rfl
  | headerField => exact headerField_countsOnly.update (fun _ _ => rfl) fun _ => rfl
  | headerValueDiscardWs =>
      exact headerValueDiscardWs_countsOnly.update (fun _ _ => rfl) fun _ => rfl
  | headerValueDiscardLws =>
      exact headerValueDiscardLws_countsOnly.update (fun _ _ => rfl) fun _ => rfl
  | headerValueStart => exact headerValueStart_countsOnly.update (fun _ _ => rfl) fun _ => rfl
  | headerValue => exact headerValue_countsOnly.update (fun _ _ => rfl) fun _ => rfl
  | headerValueLws => exact headerValueLws_countsOnly.update (fun _ _ => rfl) fun _ => rfl
  | chunkSizeStart => exact chunkSizeStart_countsOnly.update (fun _ _ => rfl) fun _ => rfl
  | chunkSize => exact chunkSize_countsOnly.update (fun _ _ => rfl) fun _ => rfl
  | chunkParameters => exact hparam.update (fun _ _ => rfl) fun _ => rfl
  | chunkSizeAlmostDone =>
      exact chunkSizeAlmostDone_countsOnly.update (fun _ _ => rfl) fun _ => rfl
  | headersAlmostDone => exact headersAlmostDone_countsOnly.update (fun _ _ => rfl) fun _ => rfl
  | headersDone => exact headersDone_countsOnly.update (fun _ _ => rfl) fun _ => rfl
  | chunkData => exact hdata.update (fun _ _ => rfl) fun _ => rfl
  | chunkDataDone => exact chunkDataDone_countsOnly.update (fun _ _ => rfl) fun _ => rfl
  | bodyIdentity => exact (@bodyIdentity_countsOnly ch).update (fun _ _ => rfl) fun _ => rfl
  | bodyIdentityEof => exact pass_countsOnly.update (fun _ _ => rfl) fun _ => rfl
  | messageDone => exact messageComplete_countsOnly.update (fun _ _ => rfl) fun _ => rfl
  | _ => exact expect_countsOnly.update (fun _ _ => rfl) fun _ => rfl

/-! ## Loops across chunks -/

/-- `p`, in the inner loop `loop`, has come as far as `q`, which reads one
byte at a time. Each byte of a loop counts twice for `q`, and for `p` only
the first one does. -/
structure Ahead (p : HttpParser) (loop : Option ℕ) (q : HttpParser) : Prop where
  same : p = q.setNread p.nread
  nread : p.nread + (2 * loop.getD 0 - 1) ≤ q.nread
  limit : q.nread ≤ httpMaxHeaderSize
  httpErrno : q.httpErrno = none

theorem init_ahead : Ahead init none init where
  same := rfl
  nread := Nat.le_refl 0
  limit := Nat.zero_le _
  httpErrno := rfl

theorem Ahead.state (h : Ahead p loop q) : p.state = q.state := by
  rw [h.same]
  rfl

/-- What becomes of a byte, `r` if it is read on its own, and `r'` in the
middle of a chunk. -/
def Follows (r r' : Scanned) : Prop :=
  match r with
  | .next q _ m => ∃ p loop, r' = .next p loop m ∧ Ahead p loop q
  | .leave q m => q.httpErrno = none ∧ q.nread = 0 ∧ r' = .leave q m
  | .error q back => q.httpErrno = some .headerOverflow ∨ ∃ p, r' = .error p back

theorem feed_eq (q : HttpParser) (ch : UInt8) :
    feed q ch = settled (HttpParser.loopHead q (scanState · ch)) := by
  rw [feed, scanByte_none]

/-- The byte is read at the head of the outer loop. -/
theorem Agrees.follows {r r' : Scanned} (h : Agrees r r') : Follows (settled r) r' := by
  cases r with
  | next q loop m =>
      obtain ⟨herrno, hloop, n, hn, rfl⟩ := h
      unfold settled
      simp only
      split
      · exact Or.inl rfl
      · rename_i hsize
        refine ⟨_, loop, rfl, rfl, ?_, Nat.not_lt.mp hsize, herrno⟩
        show n + (2 * loop.getD 0 - 1) ≤ q.nread + loop.getD 0
        rcases hloop with rfl | rfl
        · exact hn
        · exact Nat.succ_le_succ hn
  | leave q m => exact h
  | error q back => exact h

/-- `f` reads a byte in an inner loop as it does where it enters the loop. -/
def LoopsOn (f : HttpParser → ℕ → Scanned) : Prop :=
  ∀ q k n, k + 2 * n ≤ q.nread → q.nread ≤ httpMaxHeaderSize → q.httpErrno = none →
    Follows (settled (f q 0)) (f (q.setNread k) n)

/-- The loop goes on. -/
theorem loop_follows {k n : ℕ} (hk : k + 2 * n ≤ q.nread) (herrno : q.httpErrno = none) :
    Follows (settled (.next q (some 1) none)) (.next (q.setNread k) (some (n + 1)) none) := by
  unfold settled
  simp only
  split
  · exact Or.inl rfl
  · rename_i hsize
    refine ⟨_, some (n + 1), rfl, rfl, ?_, Nat.not_lt.mp hsize, herrno⟩
    show k + (2 * (n + 1) - 1) ≤ q.nread + 1
    omega

/-- The loop is left, and the byte passed. -/
theorem pass_follows {k : ℕ} (hk : k ≤ q.nread) (herrno : q.httpErrno = none) :
    Follows (settled (pass q)) (pass (q.setNread k)) :=
  Agrees.follows ⟨herrno, Or.inl rfl, k, hk, rfl⟩

theorem headerField_loopsOn : LoopsOn (headerField · · ch) := by
  intro q k n hk hlimit herrno
  simp only [headerField]
  split
  · rename_i htoken
    exact loop_follows hk herrno
  · rw [countHeaderSize_of_le (by exact hlimit),
      countHeaderSize_of_le (by rw [setNread_nread]; omega)]
    split
    · exact pass_follows (by show k + n ≤ q.nread; omega) herrno
    · exact Or.inr ⟨_, rfl⟩

theorem headerValue_loopsOn : LoopsOn (headerValue · · ch) := by
  intro q k n hk hlimit herrno
  simp only [headerValue]
  split
  · rw [countHeaderSize_of_le (by exact hlimit),
      countHeaderSize_of_le (by show k + n ≤ httpMaxHeaderSize; omega)]
    exact pass_follows (by show k + n ≤ q.nread; omega) herrno
  · split
    · rw [countHeaderSize_of_le (by exact hlimit),
        countHeaderSize_of_le (by show k + n ≤ httpMaxHeaderSize; omega)]
      have hback : ¬ httpMaxHeaderSize < k + n + n - 1 := by omega
      have hback' : ¬ httpMaxHeaderSize < q.nread + 0 + 0 - 1 := by omega
      rw [if_neg (by exact hback'), if_neg (by exact hback)]
      refine (expect_countsOnly.loopHead { q with
        state := .headerAlmostDone, nread := q.nread + 0 + 0 - 1 } (k + n + n - 1) ?_
          herrno).follows
      show k + n + n - 1 ≤ q.nread + 0 + 0 - 1
      omega
    · split
      · rename_i hlength
        rw [if_pos (by exact hlength)]
        rw [show (q.setNread k).contentLength = q.contentLength from rfl]
        cases lengthChar q.contentLength ch with
        | none => exact Or.inr ⟨_, rfl⟩
        | some v => exact loop_follows hk herrno
      · rename_i hlength
        rw [if_neg (by exact hlength)]
        exact loop_follows hk herrno

/-- A byte in an inner loop, which the outer loop would enter at that byte. -/
theorem Ahead.inLoop {f : HttpParser → ℕ → Scanned} {n : ℕ} (h : Ahead p (some n) q)
    (hf : LoopsOn f) (hheader : q.state.parsingHeader = true)
    (henter : ∀ n, scanState (q.setNread n) ch = f (q.setNread n) 0) :
    Follows (feed q ch) (f p n) := by
  rw [feed_eq, HttpParser.loopHead, if_pos hheader]
  have hnread : p.nread + (2 * n - 1) ≤ q.nread := h.nread
  by_cases hsize : q.nread + 1 ≤ httpMaxHeaderSize
  · rw [countHeaderSize_of_le hsize, henter]
    have hloop := hf (q.setNread (q.nread + 1)) p.nread n
      (by rw [setNread_nread]; omega) hsize h.httpErrno
    rwa [setNread_setNread, ← h.same] at hloop
  · rw [HttpParser.countHeaderSize]
    simp only
    rw [if_pos (Nat.not_le.mp hsize)]
    exact Or.inl rfl

/-- One byte, at the head of the outer loop or in an inner one. -/
theorem Ahead.feed (h : Ahead p loop q) (ch : UInt8) :
    Follows (feed q ch) (scanByte p loop ch) := by
  unfold HttpParser.scanByte
  split
  · rename_i n hfield
    rw [h.state] at hfield
    refine h.inLoop headerField_loopsOn (by rw [hfield]; rfl) ?_
    intro n
    rw [scanState, show (q.setNread n).state = .headerField from hfield]
  · rename_i n hvalue
    rw [h.state] at hvalue
    refine h.inLoop headerValue_loopsOn (by rw [hvalue]; rfl) ?_
    intro n
    rw [scanState, show (q.setNread n).state = .headerValue from hvalue]
  · have hle : p.nread ≤ q.nread := (Nat.le_add_right _ _).trans h.nread
    have hsame : Agrees (HttpParser.loopHead q (scanState · ch))
        (HttpParser.loopHead (q.setNread p.nread) (scanState · ch)) :=
      scanState_countsOnly.loopHead q p.nread hle h.httpErrno
    rw [← h.same] at hsame
    rw [feed_eq]
    exact hsame.follows

theorem feed_of_feedByte (h : feedByte q ch = some (q', m)) :
    ∃ loop, HttpParser.feed q ch = .next q' loop m := by
  unfold feedByte settle at h
  split at h
  · rename_i q₁ loop m₁ hnext
    obtain ⟨rfl, rfl⟩ := Prod.mk.inj (Option.some.inj h)
    exact ⟨loop, hnext⟩
  · cases h

theorem Ahead.scanByte (h : Ahead p loop q) (hfeed : feedByte q ch = some (q', m)) :
    ∃ p' loop', scanByte p loop ch = .next p' loop' m ∧ Ahead p' loop' q' := by
  obtain ⟨loop₁, hnext⟩ := feed_of_feedByte hfeed
  have hfollows := h.feed ch
  rwa [hnext] at hfollows

/-- The byte before its loop is left. -/
theorem next_of_feed {loop₁ : Option ℕ} (h : HttpParser.feed q ch = .next q' loop₁ m) :
    ∃ q₁ loop, HttpParser.scanByte q none ch = .next q₁ loop m ∧
      q' = q₁.setNread (q₁.nread + loop.getD 0) ∧ q'.nread ≤ httpMaxHeaderSize := by
  unfold HttpParser.feed settled at h
  split at h
  · rename_i q₁ loop m₁ hscan
    simp only at h
    split at h
    · cases h
    · rename_i hsize
      cases h
      exact ⟨q₁, loop, hscan, rfl, Nat.not_lt.mp hsize⟩
  · rename_i hscan
    exact absurd h (hscan _ _ _)

/-! ## Each byte counted once -/

/-- A byte that counts once, in a loop or not. -/
def feedOnce (l : HttpParser) (ch : UInt8) : Scanned := scanByte l none ch

/-- The bytes that the inner loop `loop` has passed. -/
def passed (p : HttpParser) (loop : Option ℕ) : ℕ :=
  if p.state = .headerField ∨ p.state = .headerValue then loop.getD 0 else 0

@[simp] theorem passed_none (p : HttpParser) : passed p none = 0 := ite_self 0

/-- `p`, in the inner loop `loop`, has come as far as `l`, for which every
byte has counted once. -/
structure Behind (l p : HttpParser) (loop : Option ℕ) : Prop where
  same : l = p.setNread l.nread
  nread : l.nread + min 1 (passed p loop) ≤ p.nread + passed p loop
  entered : loop ≠ some 0
  httpErrno : p.httpErrno = none

/-- The bytes that the loop has passed are too many, which shows at its end. -/
def Overdue (p : HttpParser) (loop : Option ℕ) : Prop :=
  (p.state = .headerField ∨ p.state = .headerValue) ∧
    ∃ n, loop = some n ∧ httpMaxHeaderSize < p.nread + n

/-- What becomes of a byte, `r` if it counts once, and `r'` in a chunk, where
`inner` is what a byte of an inner loop that has been entered before needs. -/
def Precedes (inner : ParserState → Prop) (r r' : Scanned) : Prop :=
  match r' with
  | .next p loop m =>
      (∃ l entered, r = .next l entered m ∧ Behind l p loop ∧ (entered = none → loop = none)) ∨
        (m = none ∧ inner p.state ∧ Overdue p loop ∧ ∃ l back, r = .error l back ∧
          l.httpErrno = some .headerOverflow ∧ l.state = p.state)
  | .leave p m => p.httpErrno = none ∧ p.nread = 0 ∧ r = .leave p m
  | .error _ _ => True

/-- The byte is read at the head of the outer loop. -/
theorem Agrees.precedes {r r' : Scanned} {inner : ParserState → Prop} (h : Agrees r r') :
    Precedes inner r' r := by
  cases r with
  | next p loop m =>
      obtain ⟨herrno, hloop, n, hn, rfl⟩ := h
      refine Or.inl ⟨_, _, rfl, ⟨rfl, ?_, ?_, herrno⟩, id⟩
      · show n + min 1 (passed p loop) ≤ p.nread + passed p loop
        have hle : min 1 (passed p loop) ≤ passed p loop := Nat.min_le_right _ _
        omega
      · rcases hloop with rfl | rfl <;> nofun
  | leave p m =>
      obtain ⟨herrno, hzero, rfl⟩ := h
      exact ⟨herrno, hzero, rfl⟩
  | error p back => trivial

/-- `f` reads a byte in an inner loop as it does where it enters the loop, if
the count is no larger there. -/
def LoopsBehind (f : HttpParser → ℕ → Scanned) : Prop :=
  ∀ (inner : ParserState → Prop) p k n, p.state = .headerField ∨ p.state = .headerValue →
    k ≤ p.nread + n → k ≤ httpMaxHeaderSize → p.httpErrno = none →
    Precedes inner (f (p.setNread k) 0) (f p n)

theorem loop_precedes {k n : ℕ} {inner : ParserState → Prop}
    (hstate : p.state = .headerField ∨ p.state = .headerValue)
    (hk : k ≤ p.nread + n) (herrno : p.httpErrno = none) :
    Precedes inner (.next (p.setNread k) (some (0 + 1)) none) (.next p (some (n + 1)) none) := by
  refine Or.inl ⟨_, _, rfl, ⟨rfl, ?_, ?_, herrno⟩, nofun⟩
  · show k + min 1 (passed p (some (n + 1))) ≤ p.nread + passed p (some (n + 1))
    rw [passed, if_pos hstate]
    show k + min 1 (n + 1) ≤ p.nread + (n + 1)
    omega
  · rintro ⟨⟩

theorem pass_precedes {k : ℕ} {inner : ParserState → Prop} (hk : k ≤ p.nread)
    (herrno : p.httpErrno = none) :
    Precedes inner (.next (p.setNread k) none none) (pass p) := by
  refine Or.inl ⟨_, _, rfl, ⟨rfl, ?_, nofun, herrno⟩, id⟩
  rw [passed_none]
  exact hk

theorem countHeaderSize_precedes {k : HttpParser → Scanned} {r : Scanned} {n : ℕ}
    {inner : ParserState → Prop}
    (hk : p.nread + n ≤ httpMaxHeaderSize → Precedes inner r (k (p.setNread (p.nread + n)))) :
    Precedes inner r (countHeaderSize p n k) := by
  by_cases hsize : p.nread + n ≤ httpMaxHeaderSize
  · rw [countHeaderSize_of_le hsize]
    exact hk hsize
  · rw [HttpParser.countHeaderSize]
    simp only
    rw [if_pos (Nat.not_le.mp hsize)]
    trivial

theorem headerField_loopsBehind : LoopsBehind (headerField · · ch) := by
  intro inner p k n hstate hk hlimit herrno
  simp only [headerField]
  split
  · exact loop_precedes (p := { p with
      headerState := (fieldChar p.headerState p.index ch).1
      index := (fieldChar p.headerState p.index ch).2 }) hstate hk herrno
  · refine countHeaderSize_precedes fun _ => ?_
    rw [countHeaderSize_of_le (by exact hlimit)]
    split
    · exact pass_precedes (p := { p with
        nread := p.nread + n, state := .headerValueDiscardWs }) hk herrno
    · trivial

theorem headerValue_loopsBehind : LoopsBehind (headerValue · · ch) := by
  intro inner p k n hstate hk hlimit herrno
  simp only [headerValue]
  split
  · refine countHeaderSize_precedes fun _ => ?_
    rw [countHeaderSize_of_le (by exact hlimit)]
    exact pass_precedes (p := { p with
      nread := p.nread + n, state := .headerAlmostDone }) hk herrno
  · split
    · refine countHeaderSize_precedes fun _ => ?_
      rw [countHeaderSize_of_le (by exact hlimit)]
      have hback : ¬ httpMaxHeaderSize < k + 0 + 0 - 1 := by omega
      rw [if_neg (by exact hback)]
      split
      · trivial
      · refine (expect_countsOnly.loopHead { p with
          state := .headerAlmostDone, nread := p.nread + n + n - 1 } (k + 0 + 0 - 1) ?_
            herrno).precedes
        show k + 0 + 0 - 1 ≤ p.nread + n + n - 1
        omega
    · split
      · rename_i hlength
        rw [if_pos (by exact hlength)]
        rw [show (p.setNread k).contentLength = p.contentLength from rfl]
        cases lengthChar p.contentLength ch with
        | none => trivial
        | some v => exact loop_precedes (p := { p with contentLength := v }) hstate hk herrno
      · rename_i hlength
        rw [if_neg (by exact hlength)]
        exact loop_precedes (p := { p with
          headerState := (valueChar p.headerState p.index p.flags ch).1
          index := (valueChar p.headerState p.index p.flags ch).2.1
          flags := (valueChar p.headerState p.index p.flags ch).2.2 }) hstate hk herrno

/-- A loop that has passed too many bytes goes on, and fails where it ends. -/
def LoopsOver (state : ParserState) (f : HttpParser → ℕ → UInt8 → Scanned) : Prop :=
  ∀ p n ch, httpMaxHeaderSize < p.nread + n →
    (∃ q back, f p n ch = .error q back) ∨
      (state.loopsOn ch = true ∧ ∃ q, f p n ch = .next q (some (n + 1)) none ∧
        q.nread = p.nread ∧ q.state = p.state)

theorem countHeaderSize_over {k : HttpParser → Scanned} {n : ℕ}
    (h : httpMaxHeaderSize < p.nread + n) :
    ∃ q back, countHeaderSize p n k = .error q back := by
  rw [HttpParser.countHeaderSize]
  simp only
  rw [if_pos h]
  exact ⟨_, _, rfl⟩

theorem headerField_loopsOver : LoopsOver .headerField headerField := by
  intro p n ch hover
  simp only [headerField]
  split
  · rename_i htoken
    exact Or.inr ⟨decide_eq_true htoken, _, rfl, rfl, rfl⟩
  · exact Or.inl (countHeaderSize_over hover)

theorem headerValue_loopsOver : LoopsOver .headerValue headerValue := by
  intro p n ch hover
  simp only [headerValue]
  split
  · exact Or.inl (countHeaderSize_over hover)
  · rename_i hcr
    split
    · exact Or.inl (countHeaderSize_over hover)
    · rename_i hlf
      have hloops : ParserState.headerValue.loopsOn ch = true := decide_eq_true ⟨hcr, hlf⟩
      split
      · split
        · exact Or.inr ⟨hloops, _, rfl, rfl, rfl⟩
        · exact Or.inl ⟨_, _, rfl⟩
      · exact Or.inr ⟨hloops, _, rfl, rfl, rfl⟩

theorem overdue_scanByte (h : Overdue p loop) (ch : UInt8) :
    (∃ q back, scanByte p loop ch = .error q back) ∨
      (p.state.loopsOn ch = true ∧ ∃ q loop', scanByte p loop ch = .next q loop' none ∧
        Overdue q loop' ∧ q.state = p.state) := by
  obtain ⟨hstate, n, rfl, hover⟩ := h
  have hloop {f : HttpParser → ℕ → UInt8 → Scanned} (hf : LoopsOver p.state f)
      (hscan : scanByte p (some n) ch = f p n ch) :
      (∃ q back, scanByte p (some n) ch = .error q back) ∨
        (p.state.loopsOn ch = true ∧ ∃ q loop', scanByte p (some n) ch = .next q loop' none ∧
          Overdue q loop' ∧ q.state = p.state) := by
    rw [hscan]
    refine (hf p n ch hover).imp id ?_
    rintro ⟨hloops, q, hnext, hnread, hsame⟩
    refine ⟨hloops, q, _, hnext, ⟨?_, n + 1, rfl, ?_⟩, hsame⟩
    · rw [hsame]
      exact hstate
    · rw [hnread]
      omega
  rcases hstate with hfield | hvalue
  · exact hloop (hfield ▸ headerField_loopsOver) (by simp only [HttpParser.scanByte, hfield])
  · exact hloop (hvalue ▸ headerValue_loopsOver) (by simp only [HttpParser.scanByte, hvalue])

theorem Behind.state {l : HttpParser} (h : Behind l p loop) : l.state = p.state := by
  rw [h.same]
  rfl

/-- A byte in an inner loop, which the outer loop would enter at that byte. -/
theorem Behind.inLoop {l : HttpParser} {f : HttpParser → ℕ → UInt8 → Scanned} {n : ℕ}
    (h : Behind l p (some n)) (hf : LoopsBehind (f · · ch)) (hover : LoopsOver p.state f)
    (hstate : p.state = .headerField ∨ p.state = .headerValue)
    (henter : ∀ n, scanState (p.setNread n) ch = f (p.setNread n) 0 ch) :
    Precedes (·.loopsOn ch = true) (feedOnce l ch) (f p n ch) := by
  have hheader : l.state.parsingHeader = true := by
    rw [h.state]
    rcases hstate with hstate | hstate <;> rw [hstate] <;> rfl
  have hpos : n ≠ 0 := fun hzero => h.entered (congrArg some hzero)
  have hnread : l.nread + min 1 n ≤ p.nread + n := by
    have hpassed : passed p (some n) = n := if_pos hstate
    have := h.nread
    rwa [hpassed] at this
  rw [feedOnce, scanByte_none, HttpParser.loopHead, if_pos hheader]
  by_cases hsize : l.nread + 1 ≤ httpMaxHeaderSize
  · rw [countHeaderSize_of_le hsize, h.same, setNread_setNread, henter]
    exact hf _ p (l.nread + 1) n hstate (by omega) hsize h.httpErrno
  · rcases hover p n ch (by omega) with ⟨q, back, herror⟩ | ⟨hloops, q, hnext, hsame, hstate'⟩
    · rw [herror]
      trivial
    · rw [hnext, HttpParser.countHeaderSize]
      simp only
      rw [if_pos (Nat.not_le.mp hsize)]
      refine Or.inr ⟨rfl, hstate' ▸ hloops, ⟨hstate' ▸ hstate, n + 1, rfl, ?_⟩, _, _, rfl, rfl,
        h.state.trans hstate'.symm⟩
      rw [hsame]
      omega

theorem passed_eq_zero (hfield : ∀ n, loop = some n → p.state = .headerField → False)
    (hvalue : ∀ n, loop = some n → p.state = .headerValue → False) : passed p loop = 0 := by
  unfold passed
  split
  · rename_i hstate
    cases loop with
    | none => rfl
    | some n => exact (hstate.elim (hfield n rfl) (hvalue n rfl)).elim
  · rfl

theorem Precedes.imp {inner inner' : ParserState → Prop} {r r' : Scanned}
    (h : Precedes inner r r') (himp : ∀ state, inner state → inner' state) :
    Precedes inner' r r' := by
  cases r' with
  | next p loop m =>
      exact Or.imp id (fun ⟨hnone, hinner, hrest⟩ => ⟨hnone, himp _ hinner, hrest⟩) h
  | leave p m => exact h
  | error p back => exact h

theorem Behind.scanByte {l : HttpParser} (h : Behind l p loop) (ch : UInt8) :
    Precedes (fun state => loop ≠ none ∧ state.loopsOn ch = true) (feedOnce l ch)
      (scanByte p loop ch) := by
  unfold HttpParser.scanByte
  split
  · rename_i n hfield
    refine (h.inLoop headerField_loopsBehind (hfield ▸ headerField_loopsOver) (Or.inl hfield)
      ?_).imp fun _ hloops => ⟨nofun, hloops⟩
    intro n
    rw [scanState, show (p.setNread n).state = .headerField from hfield]
  · rename_i n hvalue
    refine (h.inLoop headerValue_loopsBehind (hvalue ▸ headerValue_loopsOver) (Or.inr hvalue)
      ?_).imp fun _ hloops => ⟨nofun, hloops⟩
    intro n
    rw [scanState, show (p.setNread n).state = .headerValue from hvalue]
  · rename_i hfield hvalue
    have hle : l.nread ≤ p.nread := by
      have := h.nread
      rw [passed_eq_zero hfield hvalue] at this
      exact this
    have hsame : Agrees (HttpParser.loopHead p (scanState · ch))
        (HttpParser.loopHead (p.setNread l.nread) (scanState · ch)) :=
      scanState_countsOnly.loopHead p l.nread hle h.httpErrno
    rw [← h.same] at hsame
    rw [feedOnce, scanByte_none]
    exact hsame.precedes

/-! ## The end of a chunk -/

theorem Ahead.chunkEnd (h : Ahead p loop q) :
    p.nread + loop.getD 0 ≤ httpMaxHeaderSize ∧
      Ahead (p.setNread (p.nread + loop.getD 0)) none q := by
  have hle : p.nread + loop.getD 0 ≤ q.nread := by
    have := h.nread
    omega
  refine ⟨hle.trans h.limit, ?_, hle, h.limit, h.httpErrno⟩
  rw [setNread_nread, h.same]
  rfl

theorem Ahead.self (h : Ahead p loop q) : Ahead q none q where
  same := rfl
  nread := Nat.le_refl _
  limit := h.limit
  httpErrno := h.httpErrno

theorem Behind.chunkEnd {l : HttpParser} (h : Behind l p loop) :
    Behind l (p.setNread (p.nread + loop.getD 0)) none := by
  have hle : passed p loop ≤ loop.getD 0 := by
    unfold passed
    split
    · exact Nat.le_refl _
    · exact Nat.zero_le _
  refine ⟨?_, ?_, nofun, h.httpErrno⟩
  · rw [setNread_setNread]
    exact h.same
  · have := h.nread
    rw [passed_none, setNread_nread]
    omega

/-- A chunk is read like its bytes. -/
theorem scan_of_run : ∀ (chunk : Bytes) {p q q' : HttpParser} {loop : Option ℕ} (done : ℕ)
    {ms : List Completion}, Ahead p loop q → run feedByte q chunk = some (q', ms) →
      ∃ p', scan p loop done chunk = ⟨p', ms, done + chunk.length⟩ ∧ Ahead p' none q'
  | [], p, q, _, loop, done, ms, h, hrun => by
      obtain ⟨rfl, rfl⟩ := Prod.mk.inj (Option.some.inj hrun)
      obtain ⟨hsize, hend⟩ := h.chunkEnd
      rw [HttpParser.scan]
      simp only
      rw [if_neg fun hover => Nat.not_lt.mpr hsize hover.1]
      exact ⟨_, rfl, hend⟩
  | ch :: rest, p, q, _, loop, done, ms, h, hrun => by
      rw [run] at hrun
      split at hrun
      · rename_i q₁ m hfeed
        obtain ⟨⟨q₂, ms'⟩, hrest, heq⟩ := Option.map_eq_some_iff.mp hrun
        obtain ⟨rfl, rfl⟩ := Prod.mk.inj heq
        obtain ⟨p₁, loop₁, hnext, hahead⟩ := h.scanByte hfeed
        obtain ⟨p', hscan, hahead'⟩ := scan_of_run rest (done + 1) hahead hrest
        refine ⟨p', ?_, hahead'⟩
        rw [HttpParser.scan, hnext]
        simp only
        rw [hscan, List.length_cons]
        simp only [Parsed.mk.injEq, true_and]
        omega
      · cases hrun

theorem execute_of_run {chunk : Bytes} {ms : List Completion} (h : Ahead p none q)
    (hchunk : chunk ≠ []) (hrun : run feedByte q chunk = some (q', ms)) :
    ∃ p', execute p chunk = ⟨p', ms, chunk.length⟩ ∧ Ahead p' none q' := by
  have herrno : p.httpErrno = none := by
    rw [h.same]
    exact h.httpErrno
  obtain ⟨p', hscan, hahead⟩ := scan_of_run chunk 0 h hrun
  refine ⟨p', ?_, hahead⟩
  rw [execute, herrno, if_neg (by exact Bool.false_ne_true), if_neg hchunk, hscan, Nat.zero_add]

/-- The end of the stream. Only a body that nothing else ends is complete
there. -/
theorem execute_eof (h : Ahead p none q) (hopen : q.state = .startRes ∨ q.state = .dead) :
    execute p [] = ⟨p, [], 0⟩ := by
  have herrno : p.httpErrno = none := by
    rw [h.same]
    exact h.httpErrno
  rw [execute, herrno, if_neg (by exact Bool.false_ne_true), if_pos rfl, scanEof, h.state]
  rcases hopen with hstate | hstate <;> rw [hstate]

theorem execute_eof_body (h : Ahead p none q) (hbody : q.state = .bodyIdentityEof)
    (hclose : q.shouldKeepAlive = false) :
    ∃ m, m.keepAlive = false ∧ execute p [] = ⟨p, [m], 0⟩ := by
  have herrno : p.httpErrno = none := by
    rw [h.same]
    exact h.httpErrno
  have halive : p.shouldKeepAlive = false := by
    rw [h.same]
    exact hclose
  refine ⟨p.completion, halive, ?_⟩
  rw [execute, herrno, if_neg (by exact Bool.false_ne_true), if_pos rfl, scanEof, h.state, hbody]
  simp only
  rw [if_neg (by rw [halive]; exact Bool.false_ne_true)]

end HttpParser

end WrkQuic
