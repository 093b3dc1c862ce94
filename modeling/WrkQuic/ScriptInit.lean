import WrkQuic.MainLua
import WrkQuic.Lib.Runs
import WrkQuic.RequestTarget
import WrkQuic.ScriptCopy

/-!
# The Lua states before the run

`script_create` makes a Lua state and runs the script in it; `script_resolve`
and `script_init`, once for each thread, then call functions of `wrk` in the
main state. All of them leave the stack as they find it, but for what the file
itself leaves there: `luaL_dofile` does not drop the values that the chunk
returns, nor does `script_create` drop the message of an error.

The state of a thread has `wrk` on its stack while `setup` runs in the main
state. A transfer of a table by `thread:get` takes it away, and one of a
function leaves the function and an error message above it. `thread:get` and
`thread:set` find their arguments from the top of the stack, so they take the
wrong ones when there are more.
-/

namespace WrkQuic

open Outcomes (Ensures)

/-! ## `script_create` -/

/-- How the chunk of a file ends. A message is as `lua_tostring` leaves it. -/
inductive ChunkResult where
  | returns (values : List MainValue)
  | raises (message : MainValue)

/-- What `luaL_dofile` leaves on the stack, the top last. -/
def ChunkResult.left : ChunkResult → List MainValue
  | returns values => values
  | raises message => [message]

/-- A run of a script file, with the heap that it leaves. -/
structure FileRun where
  result : ChunkResult
  heap : LuaHeap

/-- A table with these fields. -/
def fieldsTable (fields : List (LuaName × MainValue)) : LuaName → MainValue :=
  fun key => (fields.lookup key).getD .nil

/-- The table that `wrk.lua` returns; `headers` is the table 1. -/
def wrkFields : List (LuaName × MainValue) :=
  [(luaName "scheme", .string (luaName "http")), (luaName "host", .string (luaName "localhost")),
    (luaName "method", .string (luaName "GET")), (luaName "path", .string (luaName "/")),
    (luaName "headers", .table 1), (luaName "resolve", .function 0),
    (luaName "setup", .function 1), (luaName "init", .function 2),
    (luaName "format", .function 3), (luaName "format09", .function 4),
    (luaName "formatsimple", .function 5)]

def addrlib : List (LuaName × MainValue) :=
  [(luaName "__tostring", .function 6), (luaName "__gc", .function 7)]

def statslib : List (LuaName × MainValue) :=
  [(luaName "__index", .function 8), (luaName "__len", .function 9)]

def threadlib : List (LuaName × MainValue) :=
  [(luaName "__index", .function 10), (luaName "__newindex", .function 11)]

/-- A new state after `wrk = require "wrk"`; the libraries are left out. -/
def luaNewstate : MainLua where
  stack := []
  heap :=
    { globals := fieldsTable [(luaName "wrk", .table 0)]
      registry := fun _ => .nil
      tables := fun ref => fieldsTable (if ref = 0 then wrkFields else [])
      pointers := fun _ => .thread
      metatables := fun _ => .nil
      objects := 2 }
  accesses := []
  calls := []

def pushUrlPart (url : Bytes) (parts : HttpParserUrl) (field : UrlField) : MainValue :=
  if parts.fieldSet field then .string (parts.bytes url field) else .nil

namespace MainLua

/-- `set_fields`, and `set_field` after a push. -/
def setFields (L : MainLua) (index : ℤ) (meant : ℕ) (fields : List (LuaName × MainValue)) :
    Except LuaFault MainLua :=
  fields.foldlM (fun L field => (L.push field.2).setfield index meant field.1) L

/-- `luaL_register` of a library without a name. -/
def register (L : MainLua) (lib : List (LuaName × MainValue)) : Except LuaFault MainLua :=
  L.setFields (-2) L.top lib

/-- One pass of the loop over the headers in `script_create`. -/
def setHeader (meant : ℕ) (L : MainLua) (h : Bytes) : Except LuaFault MainLua :=
  match h.dropWhile (· ≠ colon) with
  | _ :: 32 :: value =>
      ((L.push (.string (h.takeWhile (· ≠ colon)))).push (.string value)).settable 5 meant
  | _ => .ok L

/-- `luaL_dofile`, and the `lua_tostring` of the message of an error. -/
def dofile (L : MainLua) (file : FileRun) : MainLua :=
  let L := (L.setStack (file.result.left.reverse ++ L.stack)).setHeap file.heap
  match file.result with
  | .returns _ => L
  | .raises _ => L.access (-1) L.top

def scriptCreate (url : Bytes) (parts : HttpParserUrl) (headers : List Bytes) (isTcp : Bool)
    (version : ℤ) (file : Option FileRun) : Except LuaFault MainLua := do
  let L ← (luaNewstate.newmetatable (luaName "wrk.addr")).register addrlib
  let L ← (L.newmetatable (luaName "wrk.stats")).register statslib
  let L ← (L.newmetatable (luaName "wrk.thread")).register threadlib
  let L ← (L.push (.integer version)).setglobal (luaName "version")
  let L ← (L.push (.boolean isTcp)).setglobal (luaName "tcp")
  let L := L.getglobal (luaName "wrk")
  let wrk := L.top
  let L ← L.setFields 4 wrk [(luaName "scheme", pushUrlPart url parts .schema),
    (luaName "host", pushUrlPart url parts .host), (luaName "port", pushUrlPart url parts .port)]
  let L ← L.setFields 4 wrk [(luaName "lookup", .function 12), (luaName "connect", .function 13),
    (luaName "time_us", .function 14), (luaName "path", .string (createPath url parts))]
  let L ← L.getfield 4 wrk (luaName "headers")
  let L ← headers.foldlM (setHeader L.top) L
  let L ← L.pop 5
  .ok (file.elim L L.dofile)

/-! ## `script_resolve` and `script_init` -/

/-- `script_resolve`, where `heap` is what `wrk.resolve` leaves. `main` goes
on without an address. -/
def scriptResolve (L : MainLua) (host service : Bytes) (heap : LuaHeap) :
    Except LuaFault MainLua := do
  let L := L.getglobal (luaName "wrk")
  let wrk := L.top
  let L ← L.getfield (-1) wrk (luaName "resolve")
  let L := (L.push (.string host)).push (.string service)
  let L ← L.enter 2
  let L ← (L.leave heap).getfield (-1) wrk (luaName "addrs")
  -- lua_objlen(L, -1)
  (L.access (-1) L.top).pop 2

def scriptPushThread (L : MainLua) : Except LuaFault MainLua :=
  let L := L.newuserdata .thread
  (L.getmetatable (luaName "wrk.thread")).setmetatable (-2) L.top

/-- The calls of `script_init` in the main state, up to the run of `setup`. -/
def enterSetup (L : MainLua) : Except LuaFault MainLua := do
  let L := L.getglobal (luaName "wrk")
  let L ← L.getfield (-1) L.top (luaName "setup")
  let L ← L.scriptPushThread
  L.enter 1

/-- Those after it; `heap` is what `setup` leaves. -/
def leaveSetup (L : MainLua) (heap : LuaHeap) : Except LuaFault MainLua :=
  (L.leave heap).pop 1

end MainLua

/-! ## The state of a thread -/

/-- The state of a thread in `script_init`, and the slot of `wrk` there. -/
structure ThreadLua where
  lua : LuaState
  wrk : ℕ
  accesses : List LuaAccess

def luaTop (L : LuaState) : ℕ := L.stack.length - 1

def luaAccess (L : LuaState) (index : ℤ) (meant : ℕ) : LuaAccess :=
  ⟨stackSlot L.stack.length index, meant⟩

/-- The stack of a call `thread:get(args)` or `thread:set(args)`. -/
def callFrame (args : List LuaValue) : LuaState :=
  ⟨args.reverse ++ [.other "userdata"], fun _ => .nil, 0⟩

namespace ThreadLua

def setLua (t : ThreadLua) (lua : LuaState) : ThreadLua := { t with lua := lua }

def access (t : ThreadLua) (index : ℤ) (meant : ℕ) : ThreadLua :=
  { t with accesses := luaAccess t.lua index meant :: t.accesses }

/-- The calls of `script_init` in the state of the thread, up to `setup`. -/
def enterSetup (L : LuaState) : Except LuaFault ThreadLua := do
  let L := luaGetglobal L (luaName "wrk")
  let t : ThreadLua := ⟨L, luaTop L, []⟩
  -- script_push_thread(t->L, t), with the metatable on top of the userdata
  let L := luaPush L (.other "userdata")
  let t := ((t.setLua (luaPush L (.other "metatable"))).access (-2) (luaTop L)).setLua L
  let L ← luaSetfield L (-2) (luaName "thread")
  -- the table is the global, too
  let wrk := (luaIndex L (-1)).getD .nil
  .ok ((t.access (-2) t.wrk).setLua
    { L with globals := Function.update L.globals (luaName "wrk") wrk })

/-- A pass of the loop over the arguments. -/
def pushArg (args : ℕ) (t : ThreadLua) (arg : Bytes × ℕ) : Except LuaFault ThreadLua := do
  let t := t.setLua (luaPushstring t.lua arg.1)
  let L ← luaRawseti t.lua (-2) arg.2
  .ok ((t.access (-2) args).setLua L)

/-- The calls of `script_init` after `setup`; `init` is what `wrk.init` does. -/
def leaveSetup (t : ThreadLua) (argv : List Bytes) (init : ScriptCall) :
    Except LuaFault ThreadLua := do
  let L ← luaGetfield t.lua (-1) (luaName "init")
  let t := (t.access (-1) t.wrk).setLua (luaNewtable L)
  let t ← argv.zipIdx.foldlM (pushArg (luaTop t.lua)) t
  let L ← luaCall t.lua 1 (some 0) init
  let L ← luaPop L 1
  .ok (t.setLua L)

/-- Notes the use of an index for an argument of `thread:get` or
`thread:set`, whose slot is `meant`. -/
def argument (t : ThreadLua) (args : List LuaValue) (index : ℤ) (meant : ℕ) : ThreadLua :=
  { t with accesses := luaAccess (callFrame args) index meant :: t.accesses }

def nameToGet (t : ThreadLua) (args : List LuaValue) : ThreadLua := t.argument args (-1) 1

def valueToSet (t : ThreadLua) (args : List LuaValue) : ThreadLua :=
  (t.argument args (-2) 1).argument args (-1) 2

/-- `thread:get(args)`, called in the main state. -/
def get (fmt : BitVec 64 → List UInt8) (fuel : ℕ) (t : ThreadLua) (args : List LuaValue) :
    Except LuaFault ThreadLua :=
  (scriptThreadGet fmt fuel (callFrame args) t.lua).map fun states =>
    (t.nameToGet args).setLua states.2

/-- `thread:set(args)`, called in the main state. -/
def set (fmt : BitVec 64 → List UInt8) (fuel : ℕ) (t : ThreadLua) (args : List LuaValue) :
    Except LuaFault ThreadLua :=
  (scriptThreadSet fmt fuel (callFrame args) t.lua).map fun states =>
    (t.valueToSet args).setLua states.2

/-- The value that `thread:get(args)` transfers. -/
def wanted (fmt : BitVec 64 → List UInt8) (t : ThreadLua) (args : List LuaValue) :
    Except LuaFault LuaValue := do
  let (key, _) ← luaTostring fmt (callFrame args) (-1)
  .ok (t.lua.globals (key.takeWhile (· ≠ 0)))

/-- `thread:get(args)` whose error the script catches. It is thrown in the
state of the thread, which keeps the value and the message, or `L` if the value
is a table. -/
def getCaught (fmt : BitVec 64 → List UInt8) (t : ThreadLua) (args : List LuaValue)
    (L : LuaState) : Except LuaFault ThreadLua := do
  let v ← t.wanted fmt args
  let t := t.nameToGet args
  match v with
  | .table _ _ => .ok (t.setLua L)
  | .other typename =>
      .ok (t.setLua (luaPush (luaPush t.lua v)
        (.string (luaName s!"cannot transfer '{typename}' to thread"))))
  -- nothing to catch
  | _ => .ok t

/-- `thread:set(args)` whose error the script catches. It is thrown in the main
state; `L` is what has been transferred of a table. -/
def setCaught (t : ThreadLua) (args : List LuaValue) (L : LuaState) : ThreadLua :=
  match luaIndex (callFrame args) (-1) with
  | some (.table _ _) => (t.valueToSet args).setLua L
  | _ => t.valueToSet args

def Right (t : ThreadLua) : Prop := ∀ a ∈ t.accesses, a.Right

end ThreadLua

/-! ## The loop over the threads -/

structure InitRun where
  main : MainLua
  /-- The thread whose `setup` runs. -/
  thread : Option ThreadLua
  /-- In the states of the threads before it. -/
  accesses : List LuaAccess

inductive InitEvent where
  /-- `script_init` of a thread with this state, up to `setup`. -/
  | enter (L : LuaState)
  | get (args : List LuaValue)
  | set (args : List LuaValue)
  /-- The script catches the error of a transfer; `L` is what is left of the
  state of the thread if it was one of a table. -/
  | getCaught (args : List LuaValue) (L : LuaState)
  | setCaught (args : List LuaValue) (L : LuaState)
  /-- `thread.addr`, read or assigned. -/
  | addr
  | leave (heap : LuaHeap) (argv : List Bytes) (init : ScriptCall)

/-- `none` for an event that is not possible in the state. -/
def initStep (fmt : BitVec 64 → List UInt8) (fuel : ℕ) (s : InitRun) (e : InitEvent) :
    Option (Except LuaFault InitRun) :=
  match s.thread, e with
  | none, .enter L => some do
      let t ← ThreadLua.enterSetup L
      let main ← s.main.enterSetup
      .ok { s with main := main, thread := some t }
  | some t, .get args => some ((t.get fmt fuel args).map fun t => { s with thread := some t })
  | some t, .set args => some ((t.set fmt fuel args).map fun t => { s with thread := some t })
  | some t, .getCaught args L =>
      some ((t.getCaught fmt args L).map fun t => { s with thread := some t })
  | some t, .setCaught args L => some (.ok { s with thread := some (t.setCaught args L) })
  | some _, .addr => some (.ok s)
  | some t, .leave heap argv init => some do
      let main ← s.main.leaveSetup heap
      let t ← t.leaveSetup argv init
      .ok ⟨main, none, t.accesses ++ s.accesses⟩
  | _, _ => none

def initNext (fmt : BitVec 64 → List UInt8) (fuel : ℕ) (s : InitRun) (e : InitEvent) :
    Option InitRun :=
  (initStep fmt fuel s e).bind Except.toOption

/-- What `main` gives `script_create` and `script_resolve`, and what the
script does there. -/
structure ScriptInputs where
  url : Bytes
  parts : HttpParserUrl
  headers : List Bytes
  isTcp : Bool
  version : ℤ
  host : Bytes
  service : Bytes
  file : Option FileRun
  /-- What `wrk.resolve` leaves. -/
  heap : LuaHeap

/-- `main` up to the loop over the threads. -/
def ScriptInputs.started (i : ScriptInputs) : Except LuaFault InitRun := do
  let L ← MainLua.scriptCreate i.url i.parts i.headers i.isTcp i.version i.file
  let L ← L.scriptResolve i.host i.service i.heap
  .ok ⟨L, none, []⟩

def initMachine (i : ScriptInputs) (fmt : BitVec 64 → List UInt8) (fuel : ℕ) :
    Runs.Machine InitRun InitEvent :=
  Runs.ofFun (fun s => i.started = .ok s) (initNext fmt fuel)

/-- A name as `lua_tostring` takes it. -/
def LuaValue.isName : LuaValue → Bool
  | .string _ | .number _ => true
  | _ => false

def LuaValue.isScalar : LuaValue → Bool
  | .table _ _ | .other _ => false
  | _ => true

/-- `setup` calls `thread:get(name)` and `thread:set(name, value)` with
these arguments and no others. It sets no table, and gets scalars only. -/
def movesScalars (fmt : BitVec 64 → List UInt8) (s : InitRun) : InitEvent → Bool
  | .get args | .getCaught args _ =>
      args.length == 1 && s.thread.all fun t =>
        (t.wanted fmt args).toOption.any LuaValue.isScalar
  | .set [name, value] => name.isName && !value.isTable
  | .setCaught [_, value] _ => !value.isTable
  | .set _ | .setCaught _ _ => false
  | _ => true

/-- All accesses in the Lua states so far address the slots that are meant. -/
def InitRun.Right (s : InitRun) : Prop :=
  s.main.Right ∧ (∀ a ∈ s.accesses, a.Right) ∧ ∀ t ∈ s.thread, t.Right

/-! ## The main state keeps its stack -/

/-- What the run of the file leaves on the stack, the top last. -/
def leftBy (file : Option FileRun) : List MainValue := file.elim [] (·.result.left)

namespace MainLua

namespace Follows

variable {L L₁ : MainLua} {st : List MainValue} {v : MainValue} {index : ℤ} {meant : ℕ}

theorem top_eq (h : L.Follows st L₁) : L₁.top = st.length - 1 := by rw [MainLua.top, h.stack_eq]

theorem slot_top (h : L.Follows (v :: st) L₁) : stackSlot (st.length + 1) (-1) = some L₁.top := by
  rw [h.top_eq]
  exact stackSlot_top _

/-- The slot below a value that is pushed. -/
theorem slot_second (h : L.Follows (v :: st) L₁) :
    stackSlot (st.length + 2) (-2) = some L₁.top := by
  rw [h.top_eq]
  exact stackSlot_second _

theorem setFields (h : L.Follows st L₁) (hindex : index ≠ 0)
    (hslot : stackSlot (st.length + 1) index = some meant) (fields : List (LuaName × MainValue)) :
    Meets (L₁.setFields index meant fields) (L.Follows st) :=
  Ensures.foldlM (fun _ field h => (h.push field.2).setfield hindex hslot field.1) fields h

theorem register (h : L.Follows (v :: st) L₁) (lib : List (LuaName × MainValue)) :
    Meets (L₁.register lib) (L.Follows (v :: st)) :=
  h.setFields (by decide) h.slot_second lib

theorem setHeader (h : L.Follows st L₁) (header : Bytes)
    (hslot : stackSlot (st.length + 2) 5 = some meant) :
    Meets (L₁.setHeader meant header) (L.Follows st) := by
  unfold MainLua.setHeader
  split
  · exact ((h.push _).push _).settable (by decide) hslot
  · exact h

theorem dofile (h : L.Follows st L₁) (file : FileRun) :
    L.Follows (file.result.left.reverse ++ st) (L₁.dofile file) := by
  have hleft : L.Follows (file.result.left.reverse ++ st)
      ((L₁.setStack (file.result.left.reverse ++ L₁.stack)).setHeap file.heap) := by
    rw [h.stack_eq]
    exact h.setStack.setHeap _
  unfold MainLua.dofile
  cases hresult : file.result with
  | returns values =>
      rw [hresult] at hleft
      exact hleft
  | raises message =>
      rw [hresult] at hleft
      exact hleft.access hleft.slot_top

theorem scriptPushThread (h : L.Follows st L₁) :
    Meets L₁.scriptPushThread fun L₂ => ∃ v, L.Follows (v :: st) L₂ := by
  have huserdata : L.Follows (_ :: st) (L₁.newuserdata .thread) := (h.setHeap _).push _
  exact ((huserdata.push _).setmetatable (by decide) huserdata.slot_second).mono
    fun L₂ h₂ => ⟨_, h₂⟩

end Follows

/-- `script_create` leaves on the stack what the file does. -/
theorem scriptCreate_meets (url : Bytes) (parts : HttpParserUrl) (headers : List Bytes)
    (isTcp : Bool) (version : ℤ) (file : Option FileRun) :
    Meets (scriptCreate url parts headers isTcp version file) fun L =>
      L.stack = (leftBy file).reverse ∧ L.Right := by
  unfold scriptCreate
  obtain ⟨addr, h⟩ := (Follows.refl luaNewstate).newmetatable (luaName "wrk.addr")
  refine (h.register addrlib).bind fun L₁ h => ?_
  obtain ⟨stats, h⟩ := h.newmetatable (luaName "wrk.stats")
  refine (h.register statslib).bind fun L₂ h => ?_
  obtain ⟨thread, h⟩ := h.newmetatable (luaName "wrk.thread")
  refine (h.register threadlib).bind fun L₃ h => ?_
  refine ((h.push _).setglobal _).bind fun L₄ h => ((h.push _).setglobal _).bind fun L₅ h => ?_
  have hwrk := h.push (L₅.heap.globals (luaName "wrk"))
  have hslot : stackSlot 5 4 = some (L₅.getglobal (luaName "wrk")).top := by
    rw [MainLua.getglobal, hwrk.top_eq]
    rfl
  refine (hwrk.setFields (by decide) hslot _).bind fun L₆ h =>
    (h.setFields (by decide) hslot _).bind fun L₇ h =>
      (h.getfield (by decide) ?_ _).bind ?_
  · rw [MainLua.getglobal, hwrk.top_eq]
    rfl
  rintro L₈ ⟨headersTable, h⟩
  have hheaders : stackSlot 7 5 = some L₈.top := by
    rw [h.top_eq]
    rfl
  refine (Ensures.foldlM (fun _ header h => h.setHeader header hheaders) headers h).bind
    fun L₉ h => (h.pop (Nat.le_refl 5)).bind fun L₁₀ h => ?_
  cases file with
  | none => exact ⟨h.stack_eq, h.right nofun⟩
  | some file =>
      have hfile := h.dofile file
      exact ⟨hfile.stack_eq.trans (List.append_nil _), hfile.right nofun⟩

theorem scriptResolve_meets (L : MainLua) (host service : Bytes) (heap : LuaHeap) :
    Meets (L.scriptResolve host service heap) (L.Follows L.stack) := by
  have hwrk := (Follows.refl L).push (L.heap.globals (luaName "wrk"))
  have hslot : stackSlot (L.stack.length + 1) (-1) = some (L.getglobal (luaName "wrk")).top :=
    stackSlot_top _
  unfold scriptResolve
  refine (hwrk.getfield (by decide) hslot _).bind ?_
  rintro L₁ ⟨resolve, h⟩
  refine Ensures.bind (Follows.enter [_, _] ((h.push _).push _)) fun L₂ h => ?_
  refine ((h.setHeap heap).getfield (by decide) hslot _).bind ?_
  rintro L₃ ⟨addrs, h⟩
  exact (h.access h.slot_top).pop (by simp)

theorem enterSetup_meets (L : MainLua) :
    Meets L.enterSetup fun L₁ => ∃ wrk, L.Follows (wrk :: L.stack) L₁ := by
  have hwrk := (Follows.refl L).push (L.heap.globals (luaName "wrk"))
  have hslot : stackSlot (L.stack.length + 1) (-1) = some (L.getglobal (luaName "wrk")).top :=
    stackSlot_top _
  unfold enterSetup
  refine (hwrk.getfield (by decide) hslot _).bind ?_
  rintro L₁ ⟨setup, h⟩
  refine h.scriptPushThread.bind ?_
  rintro L₂ ⟨thread, h⟩
  exact (Follows.enter [_] h).mono fun L₃ h => ⟨_, h⟩

theorem leaveSetup_meets {L : MainLua} {wrk : MainValue} {st : List MainValue}
    (h : L.stack = wrk :: st) (heap : LuaHeap) : Meets (L.leaveSetup heap) (L.Follows st) := by
  have hpop := ((Follows.refl L).setHeap heap).pop (n := 1) (by simp [h])
  rwa [h] at hpop

end MainLua

/-! ## The state of a thread keeps `wrk` -/

theorem scriptCopyValue_meets {fuel : ℕ} {src dst : LuaState} {index : ℤ} {v : LuaValue}
    (hv : luaIndex src index = some v) (htable : v.isTable = false) :
    Meets (scriptCopyValue fuel src dst index) fun states =>
      states.1 = src ∧ ∃ v', states.2 = luaPush dst v' := by
  cases fuel with
  | zero => exact nofun
  | succ fuel =>
      unfold scriptCopyValue
      rw [hv]
      cases v with
      | table id entries => cases htable
      | other typename => exact nofun
      | _ => exact ⟨rfl, _, rfl⟩

theorem LuaValue.isTable_of_isScalar {v : LuaValue} (h : v.isScalar = true) :
    v.isTable = false := by
  cases v with
  | table id entries => cases h
  | _ => rfl

theorem scriptThreadGet_meets {fmt : BitVec 64 → List UInt8} (fuel : ℕ) {L L' t : LuaState}
    {key : Bytes} (hkey : luaTostring fmt L (-1) = .ok (key, L'))
    (htable : (t.globals (key.takeWhile (· ≠ 0))).isTable = false) :
    Meets (scriptThreadGet fmt fuel L t) fun states => states.2 = t := by
  unfold scriptThreadGet
  refine (Ensures.of_eq hkey).bind ?_
  rintro _ rfl
  refine Ensures.bind (scriptCopyValue_meets (luaIndex_top rfl) htable) ?_
  rintro ⟨t', L'⟩ ⟨rfl, v', -⟩
  exact rfl

/-- `lua_tostring` on a name, which changes no slot but its own. -/
theorem luaTostring_second (fmt : BitVec 64 → List UInt8) {L : LuaState} {name v : LuaValue}
    {rest : List LuaValue} (hL : L.stack = v :: name :: rest) (hname : name.isName = true) :
    ∃ bytes L', luaTostring fmt L (-2) = .ok (bytes, L') ∧ luaIndex L' (-1) = some v := by
  unfold luaTostring
  rw [luaIndex_second hL]
  cases name with
  | string bytes => exact ⟨bytes, L, rfl, luaIndex_top hL⟩
  | number bits =>
      have hset : L.stack.set 1 (.string (fmt bits)) = v :: .string (fmt bits) :: rest := by
        rw [hL]
        rfl
      exact ⟨fmt bits, _, rfl, luaIndex_top hset⟩
  | _ => cases hname

theorem scriptThreadSet_meets (fmt : BitVec 64 → List UInt8) (fuel : ℕ) {L : LuaState}
    (t : LuaState) {name v : LuaValue} {rest : List LuaValue} (hL : L.stack = v :: name :: rest)
    (hname : name.isName = true) (htable : v.isTable = false) :
    Meets (scriptThreadSet fmt fuel L t) fun states => states.2.stack = t.stack := by
  obtain ⟨bytes, L', hkey, hv⟩ := luaTostring_second fmt hL hname
  unfold scriptThreadSet
  refine (Ensures.of_eq hkey).bind ?_
  rintro _ rfl
  refine Ensures.bind (scriptCopyValue_meets hv htable) ?_
  rintro ⟨L', t'⟩ ⟨rfl, v', rfl⟩
  exact rfl

namespace ThreadLua

/-- Where `script_init` is when `setup` runs: `wrk` is on top. -/
structure Ready (t : ThreadLua) : Prop where
  height : t.lua.stack.length = t.wrk + 1
  right : t.Right

theorem Right.access {t : ThreadLua} (h : t.Right) {index : ℤ} {meant : ℕ}
    (hslot : stackSlot t.lua.stack.length index = some meant) : (t.access index meant).Right := by
  intro a ha
  obtain rfl | ha := List.mem_cons.mp ha
  · exact hslot
  · exact h a ha

theorem Ready.setLua {t : ThreadLua} (h : t.Ready) {L : LuaState}
    (hstack : L.stack = t.lua.stack) : (t.setLua L).Ready :=
  ⟨(congrArg List.length hstack).trans h.height, h.right⟩

theorem Ready.argument {t : ThreadLua} (h : t.Ready) {args : List LuaValue} {index : ℤ}
    {meant : ℕ} (hslot : stackSlot (callFrame args).stack.length index = some meant) :
    (t.argument args index meant).Ready :=
  ⟨h.height, List.forall_mem_cons.mpr ⟨hslot, h.right⟩⟩

/-- The arguments of `thread:get(name)`. -/
theorem Ready.nameToGet {t : ThreadLua} (h : t.Ready) {args : List LuaValue}
    (hargs : args.length = 1) : (t.nameToGet args).Ready := by
  refine h.argument ?_
  rw [callFrame, List.length_append, List.length_reverse, hargs]
  rfl

/-- The arguments of `thread:set(name, value)`. -/
theorem Ready.valueToSet {t : ThreadLua} (h : t.Ready) (name value : LuaValue) :
    (t.valueToSet [name, value]).Ready := (h.argument rfl).argument rfl

theorem get_meets (fmt : BitVec 64 → List UInt8) (fuel : ℕ) {t : ThreadLua}
    {args : List LuaValue} (h : t.Ready) (hargs : args.length = 1)
    (hscalar : (t.wanted fmt args).toOption.any LuaValue.isScalar = true) :
    Meets (t.get fmt fuel args) Ready := by
  obtain ⟨v, hv, hscalar⟩ := (Option.any_eq_true _ _).mp hscalar
  obtain ⟨⟨key, L'⟩, hkey, hglobal⟩ := except_bind_eq_ok.mp (except_toOption_eq_some.mp hv)
  obtain rfl := Except.ok.inj hglobal
  exact (scriptThreadGet_meets fuel hkey (LuaValue.isTable_of_isScalar hscalar)).map
    fun _ hlua => (h.nameToGet hargs).setLua (congrArg _ hlua)

theorem set_meets (fmt : BitVec 64 → List UInt8) (fuel : ℕ) {t : ThreadLua}
    {name value : LuaValue} (h : t.Ready) (hname : name.isName = true)
    (htable : value.isTable = false) : Meets (t.set fmt fuel [name, value]) Ready :=
  (scriptThreadSet_meets fmt fuel t.lua rfl hname htable).map
    fun _ hstack => (h.valueToSet name value).setLua hstack

theorem getCaught_meets (fmt : BitVec 64 → List UInt8) {t : ThreadLua} {args : List LuaValue}
    (h : t.Ready) (L : LuaState) (hargs : args.length = 1)
    (hscalar : (t.wanted fmt args).toOption.any LuaValue.isScalar = true) :
    Meets (t.getCaught fmt args L) Ready := by
  obtain ⟨v, hv, hscalar⟩ := (Option.any_eq_true _ _).mp hscalar
  unfold getCaught
  rw [except_toOption_eq_some.mp hv]
  show Meets (match v with | .table _ _ => _ | .other _ => _ | _ => _) Ready
  cases v with
  | table id entries => cases hscalar
  | other typename => cases hscalar
  | _ => exact h.nameToGet hargs

theorem Ready.setCaught {t : ThreadLua} (h : t.Ready) (name : LuaValue) {value : LuaValue}
    (L : LuaState) (htable : value.isTable = false) :
    (t.setCaught [name, value] L).Ready := by
  unfold ThreadLua.setCaught
  rw [luaIndex_top (v := value) rfl]
  cases value with
  | table id entries => cases htable
  | _ => exact h.valueToSet name _

theorem luaSetfield_meets {L : LuaState} {v w : LuaValue} {rest : List LuaValue}
    (hL : L.stack = w :: v :: rest) (name : Bytes) :
    Meets (luaSetfield L (-2) name) fun L' => L'.stack.length = rest.length + 1 := by
  unfold luaSetfield
  rw [luaIndex_second hL, hL]
  cases v with
  | table id entries =>
      show (((w :: LuaValue.table id entries :: rest).set (luaSlot L (-2)) _).drop 1).length = _
      simp
  | _ => exact nofun

theorem enterSetup_meets (L : LuaState) : Meets (enterSetup L) Ready := by
  unfold enterSetup
  refine Ensures.bind (luaSetfield_meets rfl (luaName "thread")) fun L' hL' => ?_
  refine ⟨hL', List.forall_mem_cons.mpr ⟨?_, List.forall_mem_cons.mpr ⟨?_, nofun⟩⟩⟩
  · exact stackSlot_second _
  · exact stackSlot_second _

theorem luaGetfield_meets {L : LuaState} {v : LuaValue} {rest : List LuaValue}
    (hL : L.stack = v :: rest) (name : Bytes) :
    Meets (luaGetfield L (-1) name) fun L' => ∃ w, L'.stack = w :: L.stack := by
  unfold luaGetfield
  rw [luaIndex_top hL]
  cases v with
  | table id entries => exact ⟨_, rfl⟩
  | _ => exact nofun

theorem luaRawseti_meets {L : LuaState} {id n : ℕ} {entries : LuaEntries} {v : LuaValue}
    {rest : List LuaValue} (hL : L.stack = v :: .table id entries :: rest) :
    Meets (luaRawseti L (-2) n) fun L' => ∃ entries', L'.stack = .table id entries' :: rest := by
  unfold luaRawseti
  rw [luaIndex_second hL, hL]
  exact ⟨_, rfl⟩

/-- A call without results takes function and arguments off the stack. -/
theorem luaCall_meets {L : LuaState} {v f : LuaValue} {rest : List LuaValue}
    (hL : L.stack = v :: f :: rest) (call : ScriptCall) :
    Meets (luaCall L 1 (some 0) call) fun L' => L'.stack = rest := by
  unfold luaCall
  rw [hL]
  show Meets (if f.isFunction then _ else _) _
  split_ifs
  · show (adjustResults (some 0) call.results).reverse ++ rest = rest
    simp [adjustResults]
  · exact nofun

theorem pushArg_meets {t : ThreadLua} {below : List LuaValue}
    (hstack : ∃ id entries, t.lua.stack = .table id entries :: below) (h : t.Right)
    (arg : Bytes × ℕ) : Meets (pushArg below.length t arg) fun t' =>
      (∃ id entries, t'.lua.stack = .table id entries :: below) ∧ t'.Right := by
  obtain ⟨id, entries, hstack⟩ := hstack
  have hpush : (luaPushstring t.lua arg.1).stack =
      .string (arg.1.takeWhile (· ≠ 0)) :: .table id entries :: below := congrArg _ hstack
  unfold pushArg
  refine Ensures.bind (luaRawseti_meets hpush) ?_
  rintro L' ⟨entries', hL'⟩
  have hright : (t.setLua (luaPushstring t.lua arg.1)).Right := h
  refine ⟨⟨id, entries', hL'⟩, hright.access ?_⟩
  show stackSlot (luaPushstring t.lua arg.1).stack.length (-2) = _
  rw [hpush]
  exact stackSlot_second _

theorem leaveSetup_meets {t : ThreadLua} (h : t.Ready) (argv : List Bytes) (init : ScriptCall) :
    Meets (t.leaveSetup argv init) Right := by
  obtain ⟨wrk, rest, hstack⟩ : ∃ wrk rest, t.lua.stack = wrk :: rest :=
    List.exists_cons_of_length_eq_add_one h.height
  have haccess : (t.access (-1) t.wrk).Right := h.right.access (by
    rw [h.height]
    exact stackSlot_top _)
  unfold leaveSetup
  refine (luaGetfield_meets hstack _).bind ?_
  rintro L₁ ⟨f, hL₁⟩
  let t₁ := (t.access (-1) t.wrk).setLua (luaNewtable L₁)
  have h₁ : (∃ id entries, t₁.lua.stack = .table id entries :: L₁.stack) ∧ t₁.Right :=
    ⟨⟨_, _, rfl⟩, haccess⟩
  refine (Ensures.foldlM (fun t' arg ht' => pushArg_meets ht'.1 ht'.2 arg) _ h₁).bind ?_
  rintro t₂ ⟨⟨id, entries, hstack₂⟩, hright₂⟩
  rw [hL₁] at hstack₂
  refine (luaCall_meets hstack₂ init).bind fun L₃ hL₃ => ?_
  refine Ensures.bind (P := fun _ => True) ?_ fun L₄ _ => hright₂
  rw [luaPop, hL₃, h.height, if_pos (Nat.le_add_left 1 _)]
  trivial

end ThreadLua

/-! ## Runs -/

namespace InitRun

/-- The main stack as the file leaves it, with `wrk` on it while a `setup`
runs. -/
structure Inv (left : List MainValue) (s : InitRun) : Prop where
  idle : s.thread = none → s.main.stack = left
  inSetup : ∀ t, s.thread = some t → t.Ready ∧ ∃ wrk, s.main.stack = wrk :: left
  main_right : s.main.Right
  accesses_right : ∀ a ∈ s.accesses, a.Right

variable {fmt : BitVec 64 → List UInt8} {fuel : ℕ} {s : InitRun} {left : List MainValue}

theorem Inv.right (h : s.Inv left) : s.Right :=
  ⟨h.main_right, h.accesses_right, fun t ht => (h.inSetup t ht).1.right⟩

/-- The main state stays as it is while the thread changes. -/
theorem Inv.setThread (h : s.Inv left) {t t' : ThreadLua} (ht : s.thread = some t)
    (hready : t'.Ready) : Inv left { s with thread := some t' } where
  idle := nofun
  inSetup _ := by
    rintro ⟨⟩
    exact ⟨hready, (h.inSetup t ht).2⟩
  main_right := h.main_right
  accesses_right := h.accesses_right

theorem Inv.enter (h : s.Inv left) (hnone : s.thread = none) (L : LuaState) :
    Meets (do
      let t ← ThreadLua.enterSetup L
      let main ← s.main.enterSetup
      .ok { s with main := main, thread := some t }) (Inv left) := by
  refine (ThreadLua.enterSetup_meets L).bind fun t hready =>
    s.main.enterSetup_meets.bind ?_
  rintro main ⟨wrk, hmain⟩
  refine ⟨nofun, ?_, hmain.right h.main_right, h.accesses_right⟩
  rintro _ ⟨⟩
  exact ⟨hready, wrk, hmain.stack_eq.trans (congrArg _ (h.idle hnone))⟩

theorem Inv.leave (h : s.Inv left) {t : ThreadLua} (ht : s.thread = some t) (heap : LuaHeap)
    (argv : List Bytes) (init : ScriptCall) :
    Meets (do
      let main ← s.main.leaveSetup heap
      let t ← t.leaveSetup argv init
      .ok ⟨main, none, t.accesses ++ s.accesses⟩) (Inv left) := by
  obtain ⟨hready, wrk, hstack⟩ := h.inSetup t ht
  refine (MainLua.leaveSetup_meets hstack heap).bind fun main hmain =>
    (ThreadLua.leaveSetup_meets hready argv init).bind fun t' hright => ?_
  refine ⟨fun _ => hmain.stack_eq, nofun, hmain.right h.main_right, fun a ha => ?_⟩
  exact (List.mem_append.mp ha).elim (hright a) (h.accesses_right a)

/-- A step keeps to the contract of the API and to the invariant. -/
theorem Inv.step (h : s.Inv left) {e : InitEvent} (hok : movesScalars fmt s e = true)
    {r : Except LuaFault InitRun} (hr : initStep fmt fuel s e = some r) : Meets r (Inv left) := by
  unfold initStep at hr
  cases ht : s.thread with
  | none =>
      rw [ht] at hr
      cases e with
      | enter L =>
          cases hr
          exact h.enter ht L
      | _ => cases hr
  | some t =>
      have hready := (h.inSetup t ht).1
      rw [ht] at hr
      cases e with
      | enter L => cases hr
      | get args =>
          cases hr
          obtain ⟨hargs, hscalar⟩ : args.length = 1 ∧
              (t.wanted fmt args).toOption.any LuaValue.isScalar = true := by
            simpa [movesScalars, ht] using hok
          exact (ThreadLua.get_meets fmt fuel hready hargs hscalar).map fun _ => h.setThread ht
      | getCaught args L =>
          cases hr
          obtain ⟨hargs, hscalar⟩ : args.length = 1 ∧
              (t.wanted fmt args).toOption.any LuaValue.isScalar = true := by
            simpa [movesScalars, ht] using hok
          exact (ThreadLua.getCaught_meets fmt hready L hargs hscalar).map fun _ => h.setThread ht
      | set args =>
          cases hr
          match args with
          | [name, value] =>
              obtain ⟨hname, htable⟩ : name.isName = true ∧ value.isTable = false := by
                simpa [movesScalars] using hok
              exact (ThreadLua.set_meets fmt fuel hready hname htable).map fun _ => h.setThread ht
          | [] | [_] | _ :: _ :: _ :: _ => cases hok
      | setCaught args L =>
          cases hr
          match args with
          | [name, value] =>
              have htable : value.isTable = false := by simpa [movesScalars] using hok
              exact h.setThread ht (hready.setCaught name L htable)
          | [] | [_] | _ :: _ :: _ :: _ => cases hok
      | addr =>
          cases hr
          exact h
      | leave heap argv init =>
          cases hr
          exact h.leave ht heap argv init

end InitRun

theorem ScriptInputs.started_meets (i : ScriptInputs) :
    Meets i.started (InitRun.Inv (leftBy i.file).reverse) := by
  refine (MainLua.scriptCreate_meets ..).bind ?_
  rintro L₁ ⟨hstack, hright⟩
  refine (L₁.scriptResolve_meets ..).bind fun L₂ hL₂ => ?_
  exact ⟨fun _ => hL₂.stack_eq.trans hstack, nofun, hL₂.right hright, nofun⟩

/-- As long as `setup` transfers scalars only, the main stack is what the file
has left there whenever no `setup` runs. -/
theorem initMachine_inv {i : ScriptInputs} {fmt : BitVec 64 → List UInt8} {fuel : ℕ}
    {s : InitRun} (h : (initMachine i fmt fuel).ReachableWith (movesScalars fmt · ·) s) :
    s.Inv (leftBy i.file).reverse := by
  refine h.invariant (fun s (hs : i.started = .ok s) => i.started_meets.of_ok hs)
    fun s e s' hinv hstep hok => ?_
  obtain ⟨r, hr, hok'⟩ := Option.bind_eq_some_iff.mp hstep
  exact (hinv.step hok hr).of_ok (except_toOption_eq_some.mp hok')

end WrkQuic
