import WrkQuic.ResponseTable
import WrkQuic.Tcp

/-!
# Requests and their user data

`script_request` calls `request` of the script, or `wrk.request` where there
is no such function, and tells from the height of the stack whether a second
value came back, the user data of the request. `response` gets it with the
answer.

The connections of a thread share its Lua state. A run is any order of the
calls of `sock_writeable` that do not wait, of the callbacks of the response
parser and of new sockets, at a pipeline of 1: a response answers the request
whose first bytes were sent last on the socket.
-/

namespace WrkQuic

open Runs

/-! ## script.c -/

def requestName : Bytes := "request".toUTF8.toList

def responseName : Bytes := "response".toUTF8.toList

def wrkName : Bytes := "wrk".toUTF8.toList

/-- The global `request` is a function. -/
def LuaState.HasRequest (L : LuaState) : Prop := (L.globals requestName).isFunction = true

instance (L : LuaState) : Decidable L.HasRequest := inferInstanceAs (Decidable (_ = _))

/-- `script_request` up to its `lua_call`, with its `pop`. -/
def pushRequest (L : LuaState) : Except LuaFault (ℕ × LuaState) := do
  let L := luaGetglobal L requestName
  if (luaIndex L (-1)).any LuaValue.isFunction then .ok (1, L)
  else do
    let L := luaGetglobal L wrkName
    let L ← luaGetfield L (-1) requestName
    .ok (1 + 2, L)

/-- `script_request` behind its `lua_call`. -/
def takeResults (fmt : BitVec 64 → Bytes) (level pop : ℕ) (L : LuaState) (user : Bytes) :
    Except LuaFault (LuaState × Bytes × Bytes) := do
  let nresults := L.stack.length - level
  let (user, L) ←
    if nresults = 2 then do
      let (strUser, L) := luaTolstring fmt L (-1)
      let L ← luaPop L pop
      .ok (strUser, L)
    else .ok (user, L)
  let (str, L) := luaTolstring fmt L (-1)
  let L ← luaPop L pop
  .ok (L, str, user)

/-- `script_request`. The results are `buf` and `user`. -/
def scriptRequest (fmt : BitVec 64 → Bytes) (L : LuaState) (user : Bytes) (call : ScriptCall) :
    Except LuaFault (LuaState × Bytes × Bytes) := do
  let (pop, called) ← pushRequest L
  let called ← luaCall called 0 none call
  takeResults fmt L.stack.length pop called user

/-- The arguments of `response`. -/
def responseArgs (L : LuaState) (r : ResponseCall) : List LuaValue :=
  [luaInteger r.status, .table L.tables (headersTable r.headers), .string r.body,
    .string r.request]

/-- The calls of `script_response` to Lua. -/
def callResponse (L : LuaState) (r : ResponseCall) (call : ScriptCall) :
    Except LuaFault LuaState :=
  let pushed := luaGetglobal { L with tables := L.tables + 1 } responseName
  luaCall ((responseArgs L r).foldl luaPush pushed) 4 (some 0) call

/-! ## What `request` returns -/

/-- The request and the user data, which is empty when there is none; `none`
when they are no strings. -/
def ScriptCall.returned (call : ScriptCall) : Option (Bytes × Bytes) :=
  match call.results with
  | [.string request] => some (request, [])
  | .string request :: .string user :: _ => some (request, user)
  | _ => none

/-- Two values of the global `request`, or one of either function while there
is no user data of an earlier call. -/
def ScriptCall.Kept (L : LuaState) (user : Bytes) (call : ScriptCall) : Prop :=
  (L.HasRequest ∧ call.results.length = 2) ∨ (call.results.length = 1 ∧ user = [])

instance (L : LuaState) (user : Bytes) (call : ScriptCall) : Decidable (call.Kept L user) :=
  inferInstanceAs (Decidable (_ ∨ _))

/-- The function is pushed, above two more values when it is that of `wrk`. -/
theorem pushRequest_ok {L called : LuaState} {pop : ℕ} (h : pushRequest L = .ok (pop, called)) :
    ∃ f below, called.stack = f :: (below ++ L.stack) ∧ pop = below.length + 1 ∧
      ((L.HasRequest ∧ below.length = 0) ∨ (¬ L.HasRequest ∧ below.length = 2)) := by
  have htop : luaIndex (luaGetglobal L requestName) (-1) = some (L.globals requestName) := by
    rw [luaGetglobal_eq (by decide +kernel)]
    exact luaIndex_top rfl
  unfold pushRequest at h
  simp only [htop, Option.any_some] at h
  by_cases hrequest : (L.globals requestName).isFunction = true
  · rw [if_pos hrequest] at h
    cases h
    exact ⟨_, [], rfl, rfl, .inl ⟨hrequest, rfl⟩⟩
  · rw [if_neg hrequest, except_bind_eq_ok] at h
    obtain ⟨L₁, hfield, h⟩ := h
    cases h
    unfold luaGetfield at hfield
    split at hfield
    · cases hfield
      exact ⟨_, [_, _], rfl, rfl, .inr ⟨hrequest, rfl⟩⟩
    · cases hfield
    · cases hfield

theorem luaTolstring_string {fmt : BitVec 64 → Bytes} {L : LuaState} {bytes : Bytes}
    {rest : List LuaValue} (h : L.stack = .string bytes :: rest) :
    luaTolstring fmt L (-1) = (bytes, L) := by
  unfold luaTolstring
  rw [luaIndex_top h]

theorem luaTolstring_height (fmt : BitVec 64 → Bytes) (L : LuaState) (index : ℤ) :
    (luaTolstring fmt L index).2.stack.length = L.stack.length := by
  unfold luaTolstring
  split
  · rfl
  · exact List.length_set
  · rfl

/-- One of several values is popped, and what is below them. -/
theorem takeResults_height {fmt : BitVec 64 → Bytes} {level pop : ℕ} {L L' : LuaState}
    {user request user' : Bytes} (hne : L.stack.length - level ≠ 2)
    (h : takeResults fmt level pop L user = .ok (L', request, user')) :
    L'.stack.length + pop = L.stack.length := by
  unfold takeResults at h
  simp only [if_neg hne, except_bind_eq_ok] at h
  obtain ⟨_, hkept, L₁, hpop, h⟩ := h
  cases hkept
  cases h
  rw [luaPop_height hpop, luaTolstring_height]

theorem takeResults_one (fmt : BitVec 64 → Bytes) {L : LuaState} {request : Bytes}
    {base : List LuaValue} (below : List LuaValue)
    (hL : L.stack = .string request :: (below ++ base)) (hbelow : below.length ≠ 1) (user : Bytes) :
    takeResults fmt base.length (below.length + 1) L user =
      .ok ({ L with stack := base }, request, user) := by
  have hheight : L.stack.length = below.length + base.length + 1 := by
    rw [hL, List.length_cons, List.length_append]
  have hdrop : L.stack.drop (below.length + 1) = base := by
    rw [hL, List.drop_succ_cons, List.drop_left]
  unfold takeResults luaPop
  rw [if_neg (by omega)]
  simp only [bind, Except.bind, luaTolstring_string hL]
  rw [if_pos (by omega), hdrop]

theorem takeResults_two (fmt : BitVec 64 → Bytes) {L : LuaState} {request user' : Bytes}
    (base : List LuaValue) (hL : L.stack = .string user' :: .string request :: base)
    (user : Bytes) :
    takeResults fmt base.length 1 L user = .ok ({ L with stack := base }, request, user') := by
  have hheight : L.stack.length - base.length = 2 := by
    rw [hL, List.length_cons, List.length_cons]
    omega
  unfold takeResults
  rw [if_pos hheight]
  simp [bind, Except.bind, luaPop, hL, luaTolstring, luaIndex, luaSlot]

/-- After the call its results lie on what was below the function. -/
theorem luaCall_results {L L' : LuaState} {f : LuaValue} {rest : List LuaValue} {call : ScriptCall}
    (hL : L.stack = f :: rest) (h : luaCall L 0 none call = .ok L') :
    L'.stack = call.results.reverse ++ rest := by
  unfold luaCall at h
  rw [List.drop_zero, hL] at h
  simp only at h
  split at h
  · cases h
    rfl
  · cases h

theorem scriptRequest_takeResults {fmt : BitVec 64 → Bytes} {L called after : LuaState} {pop : ℕ}
    {call : ScriptCall} (hpush : pushRequest L = .ok (pop, called))
    (hcall : luaCall called 0 none call = .ok after) (user : Bytes) :
    scriptRequest fmt L user call = takeResults fmt L.stack.length pop after user := by
  rw [scriptRequest, hpush]
  show (luaCall called 0 none call >>= _) = _
  rw [hcall]
  rfl

/-- A call puts in `buf` and `user` what it returned, and leaves the stack at
its height, exactly when it is kept. -/
theorem scriptRequest_iff_kept {fmt : BitVec 64 → Bytes} {L called : LuaState} {pop : ℕ}
    (hpush : pushRequest L = .ok (pop, called)) {call : ScriptCall} {after : LuaState}
    (hcall : luaCall called 0 none call = .ok after) {request user' : Bytes}
    (hret : call.returned = some (request, user')) (user : Bytes) :
    (∃ L', scriptRequest fmt L user call = .ok (L', request, user') ∧
      L'.stack.length = L.stack.length) ↔ call.Kept L user := by
  obtain ⟨f, below, hstack, rfl, hbelow⟩ := pushRequest_ok hpush
  have hafter := luaCall_results hstack hcall
  have htake : scriptRequest fmt L user call =
      takeResults fmt L.stack.length (below.length + 1) after user :=
    scriptRequest_takeResults hpush hcall user
  have hheight : after.stack.length =
      call.results.length + below.length + L.stack.length := by
    rw [hafter, List.length_append, List.length_append, List.length_reverse]
    omega
  have hleft {L' : LuaState} (hne : call.results.length + below.length ≠ 2)
      (h : scriptRequest fmt L user call = .ok (L', request, user')) :
      L'.stack.length + 1 = call.results.length + L.stack.length := by
    rw [htake] at h
    have := takeResults_height (by omega) h
    omega
  unfold ScriptCall.returned at hret
  split at hret
  · rename_i request hresults
    cases hret
    rw [hresults] at hafter
    have hone := takeResults_one fmt below hafter (by omega) user
    rw [htake, hone, ScriptCall.Kept, hresults]
    constructor
    · rintro ⟨L', hok, -⟩
      cases hok
      exact .inr ⟨rfl, rfl⟩
    · rintro (⟨-, hlength⟩ | ⟨-, rfl⟩)
      · cases hlength
      · exact ⟨_, rfl, rfl⟩
  · rename_i request user' rest hresults
    cases hret
    have hlength : call.results.length = rest.length + 2 := by rw [hresults]; rfl
    by_cases hkept : L.HasRequest ∧ rest = []
    · obtain ⟨hrequest, rfl⟩ := hkept
      have hnone : below = [] := by
        rcases hbelow with ⟨-, hzero⟩ | ⟨hnot, -⟩
        · exact List.length_eq_zero_iff.mp hzero
        · exact absurd hrequest hnot
      subst hnone
      rw [hresults] at hafter
      have htwo := takeResults_two fmt L.stack hafter user
      exact ⟨fun _ => .inl ⟨hrequest, hlength⟩, fun _ => ⟨_, htake.trans htwo, rfl⟩⟩
    · have hnot : ¬ call.Kept L user := by
        rintro (⟨hrequest, htwo⟩ | ⟨hone, -⟩)
        · exact hkept ⟨hrequest, List.length_eq_zero_iff.mp (by omega)⟩
        · omega
      have hne : call.results.length + below.length ≠ 2 := by
        intro htwo
        refine hkept ⟨?_, List.length_eq_zero_iff.mp (by omega)⟩
        rcases hbelow with ⟨hrequest, -⟩ | ⟨-, hsome⟩
        · exact hrequest
        · omega
      refine ⟨fun ⟨L', hok, hsame⟩ => ?_, fun h => absurd h hnot⟩
      have := hleft hne hok
      omega
  · cases hret

/-- A kept call that has a result does its part. -/
theorem scriptRequest_of_kept {fmt : BitVec 64 → Bytes} {L : LuaState} {user : Bytes}
    {call : ScriptCall} {result : LuaState × Bytes × Bytes}
    (h : scriptRequest fmt L user call = .ok result) {request user' : Bytes}
    (hret : call.returned = some (request, user')) (hkept : call.Kept L user) :
    ∃ L', scriptRequest fmt L user call = .ok (L', request, user') ∧
      L'.stack.length = L.stack.length := by
  have hpush := h
  unfold scriptRequest at hpush
  simp only [except_bind_eq_ok] at hpush
  obtain ⟨⟨pop, called⟩, hpush, after, hcall, -⟩ := hpush
  exact (scriptRequest_iff_kept hpush hcall hret user).mpr hkept

/-- `script_response` passes on the user data it is given. -/
theorem responseToScript_request {slot slot' : Slot} {status : ℕ} {user : Bytes}
    (h : responseToScript slot status user = some slot') :
    ∀ r ∈ slot'.calls.drop slot.calls.length, r.request = user := by
  unfold responseToScript at h
  split at h
  · simp only [Option.bind_eq_bind, Option.bind_eq_some_iff, scriptResponse] at h
    obtain ⟨headers, -, slot₁, ⟨pairs, -, body, -, h₁⟩, h⟩ := h
    cases h₁
    cases h
    intro r hr
    rw [List.drop_left, List.mem_singleton] at hr
    rw [hr]
  · cases h
    intro r hr
    rw [List.drop_length] at hr
    cases hr

/-! ## A thread -/

/-- What a connection has to do with the script. -/
structure ScriptConn where
  /-- `c->length` bytes. -/
  request : Bytes
  written : ℕ
  user : Bytes
  slot : Slot
  /-- The call that made `request`. -/
  call : Option ScriptCall
  /-- The call whose request was sent on the socket and has no answer yet. -/
  sent : Option ScriptCall

/-- `zcalloc`. -/
def ScriptConn.initial : ScriptConn := ⟨[], 0, [], .initial, none, none⟩

inductive ScriptObservation where
  /-- `script_request` found the stack at `height` and left it at `height'`. -/
  | request (call : ScriptCall) (height height' : ℕ) (buf : Bytes)
  /-- `response` got `args` for the request of `call`. -/
  | response (call : ScriptCall) (args : List LuaValue)

structure ScriptThread where
  lua : LuaState
  conns : ℕ → ScriptConn
  trace : List ScriptObservation

inductive ScriptEvent where
  /-- `call` is what `request` does when it is called. -/
  | writeable (c : ℕ) (call : ScriptCall) (write : Status ℕ)
  /-- A callback of the parser before the end of a response. -/
  | data (c : ℕ) (event : SlotEvent)
  /-- `call` is what `response` does when it is called. -/
  | complete (c status : ℕ) (call : ScriptCall)
  | reconnect (c : ℕ)
  | connected (c : ℕ)

/-- `sock.write` took `n` bytes. -/
def ScriptConn.accept (k : ScriptConn) (n : ℕ) : ScriptConn :=
  let n := min n (k.request.length - k.written)
  { k with
    sent := if k.written = 0 ∧ 0 < n then k.call else k.sent
    written := if k.written + n = k.request.length then 0 else k.written + n }

/-- A new socket, on which nothing is sent. -/
def ScriptConn.reconnect (k : ScriptConn) : ScriptConn := { k with sent := none }

/-- `sock_writeable` from its `sock.write`. -/
def ScriptConn.write (k : ScriptConn) : Status ℕ → ScriptConn
  | .ok n => k.accept n
  | .error => k.reconnect
  | .retry => k
  | .again next => k.write next

namespace ScriptThread

def setConn (s : ScriptThread) (c : ℕ) (k : ScriptConn) : ScriptThread :=
  { s with conns := Function.update s.conns c k }

/-- `script_request` in `sock_writeable`. A call that returns no strings, or
raises an error, has no result. -/
def request (fmt : BitVec 64 → Bytes) (s : ScriptThread) (c : ℕ) (call : ScriptCall) :
    Option ScriptThread := do
  let _ ← call.returned
  let (L, request, user) ← (scriptRequest fmt s.lua (s.conns c).user call).toOption
  some { s.setConn c { s.conns c with request := request, user := user, call := some call } with
    lua := L
    trace := .request call s.lua.stack.length L.stack.length request :: s.trace }

/-- `sock_writeable`, when it is time to send. -/
def writeable (fmt : BitVec 64 → Bytes) (s : ScriptThread) (c : ℕ) (call : ScriptCall)
    (write : Status ℕ) : Option ScriptThread :=
  (if (s.conns c).written = 0 then s.request fmt c call else some s).map fun s =>
    s.setConn c ((s.conns c).write write)

/-- A callback of the parser other than `response_complete`. -/
def data (s : ScriptThread) (c : ℕ) (event : SlotEvent) : Option ScriptThread :=
  match event with
  | .complete _ _ => none
  | event => (slotStep (s.conns c).slot event).map fun slot =>
      s.setConn c { s.conns c with slot := slot }

/-- `response_complete`, for an answer to the request that was sent. -/
def complete (s : ScriptThread) (c status : ℕ) (call : ScriptCall) : Option ScriptThread := do
  let k := s.conns c
  let sent ← k.sent
  let slot ← responseToScript k.slot status k.user
  let s := s.setConn c { k with slot := slot, sent := none }
  match slot.calls.drop k.slot.calls.length with
  | [] => some s
  | r :: _ =>
      let L ← (callResponse s.lua r call).toOption
      some { s with lua := L, trace := .response sent (responseArgs s.lua r) :: s.trace }

def step (fmt : BitVec 64 → Bytes) (s : ScriptThread) : ScriptEvent → Option ScriptThread
  | .writeable c call write => s.writeable fmt c call write
  | .data c event => s.data c event
  | .complete c status call => s.complete c status call
  | .reconnect c => some (s.setConn c (s.conns c).reconnect)
  | .connected c => some (s.setConn c { s.conns c with written := 0 })

end ScriptThread

/-- The thread of a script, whose state may have any stack. -/
def scriptThread (fmt : BitVec 64 → Bytes) : Machine ScriptThread ScriptEvent :=
  ofFun (fun s => s.conns = (fun _ => .initial) ∧ s.trace = []) (ScriptThread.step fmt)

/-- The request is the first value and the stack keeps its height; the fourth
argument is the user data of the call that made the request. -/
def ScriptObservation.Paired : ScriptObservation → Prop
  | .request call height height' buf =>
      call.returned.map Prod.fst = some buf ∧ height' = height
  | .response call args =>
      ∃ request user, call.returned = some (request, user) ∧ args[3]? = some (.string user)

/-- A call of `request` is kept, and comes when the last request on the socket
has its answer. -/
def RequestsPaired (s : ScriptThread) : ScriptEvent → Prop
  | .writeable c call _ => (s.conns c).written = 0 →
      (s.conns c).sent = none ∧ call.Kept s.lua (s.conns c).user
  | _ => True

instance (s : ScriptThread) : (e : ScriptEvent) → Decidable (RequestsPaired s e)
  | .writeable _ _ _ => inferInstanceAs (Decidable (_ → _))
  | .data _ _ => isTrue trivial
  | .complete _ _ _ => isTrue trivial
  | .reconnect _ => isTrue trivial
  | .connected _ => isTrue trivial

/-! ## Pairing -/

/-- `c->user` is that of the call behind `c->request`, and of the one sent. -/
structure ScriptConn.Paired (k : ScriptConn) : Prop where
  call : ∀ call, k.call = some call → ∃ request, call.returned = some (request, k.user)
  sent : ∀ call, k.sent = some call → ∃ request, call.returned = some (request, k.user)

structure ScriptThread.Paired (s : ScriptThread) : Prop where
  conns : ∀ c, (s.conns c).Paired
  trace : ∀ o ∈ s.trace, o.Paired

theorem ScriptConn.Paired.reconnect {k : ScriptConn} (h : k.Paired) : k.reconnect.Paired where
  call := h.call
  sent _ hsent := absurd hsent.symm (Option.some_ne_none _)

theorem ScriptConn.Paired.accept {k : ScriptConn} (h : k.Paired) (n : ℕ) :
    (k.accept n).Paired where
  call := h.call
  sent call hsent := by
    simp only [ScriptConn.accept] at hsent
    split at hsent
    · exact h.call call hsent
    · exact h.sent call hsent

theorem ScriptConn.Paired.write {k : ScriptConn} (h : k.Paired) :
    ∀ write, (k.write write).Paired
  | .ok n => h.accept n
  | .error => h.reconnect
  | .retry => h
  | .again next => h.write next

namespace ScriptThread

theorem Paired.setConn {s : ScriptThread} (h : s.Paired) {c : ℕ} {k : ScriptConn}
    (hk : k.Paired) : (s.setConn c k).Paired where
  conns c' := by
    by_cases hc : c' = c
    · rw [hc]
      simpa [ScriptThread.setConn] using hk
    · simpa [ScriptThread.setConn, hc] using h.conns c'
  trace := h.trace

theorem Paired.request {fmt : BitVec 64 → Bytes} {s s' : ScriptThread} (h : s.Paired) {c : ℕ}
    {call : ScriptCall} (hsent : (s.conns c).sent = none)
    (hkept : call.Kept s.lua (s.conns c).user) (hs : s.request fmt c call = some s') :
    s'.Paired := by
  simp only [ScriptThread.request, Option.bind_eq_bind, Option.bind_eq_some_iff,
    except_toOption_eq_some] at hs
  obtain ⟨⟨request, user⟩, hret, ⟨L, request', user'⟩, hok, hs⟩ := hs
  obtain ⟨L', hok', hheight⟩ := scriptRequest_of_kept hok hret hkept
  rw [hok'] at hok
  cases hok
  cases hs
  have hconn : ScriptConn.Paired
      { s.conns c with request := request, user := user, call := some call } := by
    refine ⟨fun call' hcall => ?_, fun call' hcall => ?_⟩
    · cases hcall
      exact ⟨request, hret⟩
    · rw [hsent] at hcall
      cases hcall
  refine ⟨(h.setConn hconn).conns, fun o ho => ?_⟩
  rcases List.mem_cons.mp ho with rfl | ho
  · exact ⟨by rw [hret]; rfl, hheight⟩
  · exact h.trace o ho

theorem Paired.writeable {fmt : BitVec 64 → Bytes} {s s' : ScriptThread} (h : s.Paired) {c : ℕ}
    {call : ScriptCall} {write : Status ℕ}
    (hok : RequestsPaired s (.writeable c call write))
    (hs : s.writeable fmt c call write = some s') : s'.Paired := by
  obtain ⟨s₁, hs₁, rfl⟩ := Option.map_eq_some_iff.mp hs
  have hpaired : s₁.Paired := by
    split at hs₁
    · rename_i hwritten
      exact h.request (hok hwritten).1 (hok hwritten).2 hs₁
    · cases hs₁
      exact h
  exact hpaired.setConn ((hpaired.conns c).write write)

/-- The fourth argument is `c->user`. -/
theorem Paired.complete {s s' : ScriptThread} (h : s.Paired) {c status : ℕ} {call : ScriptCall}
    (hs : s.complete c status call = some s') : s'.Paired := by
  simp only [ScriptThread.complete, Option.bind_eq_bind, Option.bind_eq_some_iff] at hs
  obtain ⟨sent, hsent, slot, hslot, hs⟩ := hs
  have hconn : ScriptConn.Paired { s.conns c with slot := slot, sent := none } :=
    ⟨(h.conns c).call, fun _ hnone => absurd hnone.symm (Option.some_ne_none _)⟩
  split at hs
  · cases hs
    exact h.setConn hconn
  · rename_i r _ hnew
    simp only [Option.bind_eq_some_iff] at hs
    obtain ⟨L, -, hs⟩ := hs
    cases hs
    refine ⟨(h.setConn hconn).conns, fun o ho => ?_⟩
    rcases List.mem_cons.mp ho with rfl | ho
    · obtain ⟨request, hret⟩ := (h.conns c).sent sent hsent
      have hr := responseToScript_request hslot r (by rw [hnew]; exact List.mem_cons_self)
      exact ⟨request, _, hret, congrArg (fun b => some (LuaValue.string b)) hr⟩
    · exact h.trace o ho

theorem Paired.step {fmt : BitVec 64 → Bytes} {s s' : ScriptThread} (h : s.Paired)
    {e : ScriptEvent} (hok : RequestsPaired s e) (hs : s.step fmt e = some s') : s'.Paired := by
  cases e with
  | writeable c call write => exact h.writeable hok hs
  | complete c status call => exact h.complete hs
  | reconnect c =>
      cases hs
      exact h.setConn (h.conns c).reconnect
  | connected c =>
      cases hs
      exact h.setConn ⟨(h.conns c).call, (h.conns c).sent⟩
  | data c event =>
      simp only [ScriptThread.step, ScriptThread.data] at hs
      split at hs
      · cases hs
      · obtain ⟨slot, -, rfl⟩ := Option.map_eq_some_iff.mp hs
        exact h.setConn ⟨(h.conns c).call, (h.conns c).sent⟩

end ScriptThread

/-- In every run whose calls of `request` are kept, requests and user data
stay paired; and a call that returns is kept exactly when it does its part. -/
theorem requests_and_user_data_paired (fmt : BitVec 64 → Bytes) :
    (∀ s, (scriptThread fmt).ReachableWith RequestsPaired s → ∀ o ∈ s.trace, o.Paired) ∧
    ∀ L user call, ∀ pop called after, pushRequest L = .ok (pop, called) →
      luaCall called 0 none call = .ok after →
      ∀ request user', call.returned = some (request, user') →
        ((∃ L', scriptRequest fmt L user call = .ok (L', request, user') ∧
          L'.stack.length = L.stack.length) ↔ call.Kept L user) := by
  refine ⟨fun s hs => ?_, fun L user call pop called after hpush hcall request user' hret =>
    scriptRequest_iff_kept hpush hcall hret user⟩
  have hpaired : s.Paired := by
    refine hs.invariant (fun s hinit => ?_) fun s e s' h hstep hok => h.step hok hstep
    obtain ⟨hconns, htrace⟩ := hinit
    refine ⟨fun c => ?_, fun o ho => ?_⟩
    · rw [hconns]
      exact ⟨fun _ h => absurd h.symm (Option.some_ne_none _),
        fun _ h => absurd h.symm (Option.some_ne_none _)⟩
    · rw [htrace] at ho
      cases ho
  exact hpaired.trace

/-- A script with functions for all names. -/
def scriptOfFunctions : ScriptThread :=
  ⟨⟨[], fun _ => .other "function", 0⟩, fun _ => .initial, []⟩

/-- A call that leaves its globals alone. -/
def callReturning (results : List LuaValue) : ScriptCall := ⟨results, fun _ => .other "function", 0⟩

/-- One request on connection 0 and its response with one header. -/
def requestCycle (results : List LuaValue) : List ScriptEvent :=
  [.writeable 0 (callReturning results) (.ok 1), .data 0 (.headerField [72]),
    .data 0 (.headerValue [72]), .complete 0 200 (callReturning [])]

/-- Two requests with user data. -/
theorem requests_and_user_data_paired_two :
    ∃ s call args, (scriptThread fun _ => []).ReachableWith RequestsPaired s ∧
      .response call args ∈ s.trace ∧ call.returned = some ([66], [118]) ∧
      ∃ request user, call.returned = some (request, user) ∧ args[3]? = some (.string user) := by
  obtain ⟨s, hrun, call, args, hmem, hret⟩ : ∃ s, runEvents (guarded RequestsPaired
      (ScriptThread.step fun _ => [])) scriptOfFunctions
        (requestCycle [.string [65], .string [117]] ++ requestCycle [.string [66], .string [118]]) =
          some s ∧ ∃ call args, .response call args ∈ s.trace ∧
            call.returned = some ([66], [118]) := by
    refine ⟨_, rfl, _, _, List.mem_cons_self, rfl⟩
  have hinit : (scriptThread fun _ => []).init scriptOfFunctions := ⟨rfl, rfl⟩
  have hs := reachableWith_of_runEvents (.init hinit) hrun
  exact ⟨s, call, args, hs, hmem, hret, (requests_and_user_data_paired _).1 s hs _ hmem⟩

/-- Of three values the last is the request, and two stay on the stack; a call
without user data passes on that of the call before it. -/
theorem requests_unpaired :
    (∃ s call, (scriptThread fun _ => []).Reachable s ∧ .request call 0 2 [120] ∈ s.trace ∧
      call.returned = some ([65], [117])) ∧
    ∃ s call args, (scriptThread fun _ => []).Reachable s ∧ .response call args ∈ s.trace ∧
      call.returned = some ([66], []) ∧ args[3]? = some (.string [117]) := by
  have hreach (es : List ScriptEvent) {s : ScriptThread}
      (h : runEvents (ScriptThread.step fun _ => []) scriptOfFunctions es = some s) :
      (scriptThread fun _ => []).Reachable s := reachable_of_runEvents ⟨rfl, rfl⟩ h
  constructor
  · exact ⟨_, _, hreach [.writeable 0
      (callReturning [.string [65], .string [117], .string [120]]) (.ok 1)] rfl,
      List.mem_cons_self, rfl⟩
  · exact ⟨_, _, _, hreach (requestCycle [.string [65], .string [117]] ++
      requestCycle [.string [66]]) rfl, List.mem_cons_self, rfl, rfl⟩

end WrkQuic
