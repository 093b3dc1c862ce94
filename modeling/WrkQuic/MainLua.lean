import WrkQuic.Lua
import WrkQuic.Lib.Outcomes

/-!
# The Lua API on the main state

The slice of the Lua API that `script_create`, `script_resolve`, `script_init`
and the functions around `done` use. Tables and userdata have an identity and
a content of their own, since the values of the stack refer to them.

The functions that take an index also take the slot that the caller means,
counted from the bottom of the stack, which has no part in what they do: every
use of an index is noted with the slot that it addresses and the one meant.
-/

namespace WrkQuic

open Outcomes (Ensures)

/-! ## Indices -/

/-- The slot that `index2adr` finds in a stack of this height. -/
def stackSlot (height : ℕ) (index : ℤ) : Option ℕ :=
  if 0 < index then if index.toNat ≤ height then some (index.toNat - 1) else none
  else if (-index).toNat ≤ height then some (height - (-index).toNat) else none

/-- The slot that an index addresses, if it does, and the one that is meant. -/
structure LuaAccess where
  slot : Option ℕ
  meant : ℕ
deriving DecidableEq

def LuaAccess.Right (a : LuaAccess) : Prop := a.slot = some a.meant

/-! ## Values and states -/

abbrev LuaName := List UInt8

/-- The bytes of a literal. -/
def luaName (s : String) : LuaName := s.toUTF8.data.toList

theorem luaName_inj {s s' : String} : luaName s = luaName s' ↔ s = s' := by
  refine ⟨fun h => ?_, congrArg luaName⟩
  exact String.toByteArray_inj.mp (ByteArray.ext (Array.ext' h))

/-- A Lua value. `integer` is the number that `lua_pushinteger` makes. -/
inductive MainValue where
  | nil
  | boolean (b : Bool)
  | integer (n : ℤ)
  | string (bytes : List UInt8)
  | function (ref : ℕ)
  | table (ref : ℕ)
  | userdata (ref : ℕ)
  /-- A value that only scripts make. -/
  | other
deriving DecidableEq

/-- What the pointer in a userdata points to. -/
inductive MainPointer where
  | latency
  | requests
  | thread
deriving DecidableEq

/-- What is not on the stack. A key of a table has the value that a lookup
gives, be it by a metamethod. -/
structure LuaHeap where
  globals : LuaName → MainValue
  registry : LuaName → MainValue
  /-- The string keys of the tables. -/
  tables : ℕ → LuaName → MainValue
  pointers : ℕ → MainPointer
  /-- Of the tables and the userdata. -/
  metatables : ℕ → MainValue
  /-- The objects so far, the identity of the next one. -/
  objects : ℕ

namespace LuaHeap

/-- A new table, with the identity `objects`. -/
def newtable (heap : LuaHeap) : LuaHeap :=
  { heap with
    tables := Function.update heap.tables heap.objects fun _ => .nil
    metatables := Function.update heap.metatables heap.objects .nil
    objects := heap.objects + 1 }

/-- A new userdata, with the identity `objects`. -/
def newuserdata (heap : LuaHeap) (pointer : MainPointer) : LuaHeap :=
  { heap with
    pointers := Function.update heap.pointers heap.objects pointer
    metatables := Function.update heap.metatables heap.objects .nil
    objects := heap.objects + 1 }

/-- `t[key] = v` -/
def setEntry (heap : LuaHeap) (ref : ℕ) (key : LuaName) (v : MainValue) : LuaHeap :=
  { heap with
    tables := Function.update heap.tables ref (Function.update (heap.tables ref) key v) }

def setMetatable (heap : LuaHeap) (ref : ℕ) (v : MainValue) : LuaHeap :=
  { heap with metatables := Function.update heap.metatables ref v }

end LuaHeap

/-- A call of `lua_call`, with the heap it finds. -/
structure LuaCallRecord where
  function : MainValue
  args : List MainValue
  heap : LuaHeap

structure MainLua where
  /-- Top of the stack first. -/
  stack : List MainValue
  heap : LuaHeap
  accesses : List LuaAccess
  calls : List LuaCallRecord

namespace MainLua

variable (L : MainLua)

/-! ## The API -/

/-- The slot on top. -/
def top : ℕ := L.stack.length - 1

def slot (index : ℤ) : Option ℕ := stackSlot L.stack.length index

/-- Notes the use of an index. -/
def access (index : ℤ) (meant : ℕ) : MainLua :=
  { L with accesses := ⟨L.slot index, meant⟩ :: L.accesses }

/-- The value at an index; `none` is `LUA_TNONE`. -/
def at? (index : ℤ) : Option MainValue :=
  (L.slot index).bind fun slot => L.stack.reverse[slot]?

def setStack (stack : List MainValue) : MainLua := { L with stack := stack }

def setHeap (heap : LuaHeap) : MainLua := { L with heap := heap }

def push (v : MainValue) : MainLua := L.setStack (v :: L.stack)

def pop (n : ℕ) : Except LuaFault MainLua :=
  if n ≤ L.stack.length then .ok (L.setStack (L.stack.drop n)) else .error .misuse

def getglobal (name : LuaName) : MainLua := L.push (L.heap.globals name)

def setglobal (name : LuaName) : Except LuaFault MainLua :=
  match L.stack with
  | v :: rest =>
      .ok ((L.setStack rest).setHeap { L.heap with
        globals := Function.update L.heap.globals name v })
  | [] => .error .misuse

def newtable : MainLua := (L.setHeap L.heap.newtable).push (.table L.heap.objects)

/-- `lua_newuserdata`, and the pointer stored in it. -/
def newuserdata (pointer : MainPointer) : MainLua :=
  (L.setHeap (L.heap.newuserdata pointer)).push (.userdata L.heap.objects)

def setfield (index : ℤ) (meant : ℕ) (name : LuaName) : Except LuaFault MainLua :=
  match L.at? index, L.stack with
  | some (.table ref), v :: rest =>
      .ok (((L.access index meant).setHeap (L.heap.setEntry ref name v)).setStack rest)
  | some _, _ => .error (.error "attempt to index a value that is no table")
  | none, _ => .error .misuse

def getfield (index : ℤ) (meant : ℕ) (name : LuaName) : Except LuaFault MainLua :=
  match L.at? index with
  | some (.table ref) => .ok ((L.access index meant).push (L.heap.tables ref name))
  | some _ => .error (.error "attempt to index a value that is no table")
  | none => .error .misuse

/-- `lua_settable` with a string for a key. -/
def settable (index : ℤ) (meant : ℕ) : Except LuaFault MainLua :=
  match L.at? index, L.stack with
  | some (.table ref), v :: .string key :: rest =>
      .ok (((L.access index meant).setHeap (L.heap.setEntry ref key v)).setStack rest)
  | some _, _ => .error (.error "attempt to index a value that is no table")
  | none, _ => .error .misuse

def pushvalue (index : ℤ) (meant : ℕ) : Except LuaFault MainLua :=
  match L.at? index with
  | some v => .ok ((L.access index meant).push v)
  | none => .error .misuse

def getmetatable (name : LuaName) : MainLua := L.push (L.heap.registry name)

/-- `luaL_newmetatable` -/
def newmetatable (name : LuaName) : MainLua :=
  if L.heap.registry name = .nil then
    L.newtable.setHeap { L.newtable.heap with
      registry := Function.update L.heap.registry name (.table L.heap.objects) }
  else L.getmetatable name

/-- `lua_setmetatable`; the metatable of a whole type is left out. -/
def setmetatable (index : ℤ) (meant : ℕ) : Except LuaFault MainLua :=
  match L.at? index, L.stack with
  | none, _ | _, [] => .error .misuse
  | some (.table ref), v :: rest | some (.userdata ref), v :: rest =>
      .ok (((L.access index meant).setHeap (L.heap.setMetatable ref v)).setStack rest)
  | some _, _ :: rest => .ok ((L.access index meant).setStack rest)

/-- The beginning of `lua_call`: function and arguments leave the stack of the
caller. -/
def enter (nargs : ℕ) : Except LuaFault MainLua :=
  match L.stack.drop nargs with
  | .function ref :: rest =>
      .ok { L with
        stack := rest
        calls := ⟨.function ref, (L.stack.take nargs).reverse, L.heap⟩ :: L.calls }
  | _ :: _ => .error (.error "attempt to call a value that is no function")
  | [] => .error .misuse

/-- The end of a `lua_call` without results; `heap` is what the function leaves. -/
def leave (heap : LuaHeap) : MainLua := L.setHeap heap

/-- All indices address the slots that are meant. -/
def Right : Prop := ∀ a ∈ L.accesses, a.Right

/-! ## What the calls do to the stack -/

/-- The state `L'` has this stack, and no access since `L` is wrong. -/
structure Follows (stack : List MainValue) (L' : MainLua) : Prop where
  stack_eq : L'.stack = stack
  right : L.Right → L'.Right

end MainLua

/-- The calls keep to their contract. -/
abbrev Meets {α : Type} (x : Except LuaFault α) (P : α → Prop) : Prop :=
  Ensures (· ≠ .misuse) x P

theorem stackSlot_top (n : ℕ) : stackSlot (n + 1) (-1) = some n := by simp [stackSlot]

theorem stackSlot_second (n : ℕ) : stackSlot (n + 2) (-2) = some n := by simp [stackSlot]

theorem stackSlot_lt {height slot : ℕ} {index : ℤ} (hindex : index ≠ 0)
    (h : stackSlot height index = some slot) : slot < height := by
  unfold stackSlot at h
  split_ifs at h <;> cases h <;> omega

namespace MainLua

variable {L L₁ : MainLua} {st rest : List MainValue} {v : MainValue} {index : ℤ} {meant : ℕ}

theorem Right.access (h : L.Right) (hslot : L.slot index = some meant) :
    (L.access index meant).Right := by
  intro a ha
  obtain rfl | ha := List.mem_cons.mp ha
  · exact hslot
  · exact h a ha

namespace Follows

theorem refl (L : MainLua) : L.Follows L.stack L := ⟨rfl, id⟩

theorem push (h : L.Follows st L₁) (v : MainValue) : L.Follows (v :: st) (L₁.push v) :=
  ⟨congrArg (v :: ·) h.stack_eq, h.right⟩

theorem setHeap (h : L.Follows st L₁) (heap : LuaHeap) : L.Follows st (L₁.setHeap heap) :=
  ⟨h.stack_eq, h.right⟩

theorem slot_eq (h : L.Follows st L₁) : L₁.slot index = stackSlot st.length index := by
  rw [slot, h.stack_eq]

/-- A valid index addresses a value. -/
theorem at?_ne_none (h : L.Follows st L₁) (hindex : index ≠ 0)
    (hslot : stackSlot st.length index = some meant) : L₁.at? index ≠ none := by
  have hlt : meant < L₁.stack.reverse.length := by
    rw [List.length_reverse, h.stack_eq]
    exact stackSlot_lt hindex hslot
  simp [at?, h.slot_eq.trans hslot, List.getElem?_eq_getElem hlt]

theorem access (h : L.Follows st L₁) (hslot : stackSlot st.length index = some meant) :
    L.Follows st (L₁.access index meant) :=
  ⟨h.stack_eq, fun hright => (h.right hright).access (h.slot_eq.trans hslot)⟩

theorem setStack (h : L.Follows st L₁) : L.Follows rest (L₁.setStack rest) := ⟨rfl, h.right⟩

theorem newmetatable (h : L.Follows st L₁) (name : LuaName) :
    ∃ v, L.Follows (v :: st) (L₁.newmetatable name) := by
  unfold MainLua.newmetatable
  split_ifs
  · exact ⟨_, (h.push _).setHeap _⟩
  · exact ⟨_, h.push _⟩

theorem pop (h : L.Follows st L₁) {n : ℕ} (hn : n ≤ st.length) :
    Meets (L₁.pop n) (L.Follows (st.drop n)) := by
  rw [MainLua.pop, h.stack_eq, if_pos hn]
  exact h.setStack

theorem setglobal (h : L.Follows (v :: rest) L₁) (name : LuaName) :
    Meets (L₁.setglobal name) (L.Follows rest) := by
  rw [MainLua.setglobal, h.stack_eq]
  exact h.setStack.setHeap _

theorem getfield (h : L.Follows st L₁) (hindex : index ≠ 0)
    (hslot : stackSlot st.length index = some meant) (name : LuaName) :
    Meets (L₁.getfield index meant name) fun L₂ => ∃ v, L.Follows (v :: st) L₂ := by
  unfold MainLua.getfield
  split
  · exact ⟨_, (h.access hslot).push _⟩
  · exact nofun
  · rename_i hnone
    exact absurd hnone (h.at?_ne_none hindex hslot)

theorem setfield (h : L.Follows (v :: rest) L₁) (hindex : index ≠ 0)
    (hslot : stackSlot (v :: rest).length index = some meant) (name : LuaName) :
    Meets (L₁.setfield index meant name) (L.Follows rest) := by
  unfold MainLua.setfield
  rw [h.stack_eq]
  split
  · rename_i hstack
    cases hstack
    exact ((h.access hslot).setHeap _).setStack
  · exact nofun
  · rename_i hnone
    exact absurd hnone (h.at?_ne_none hindex hslot)

theorem settable {key : LuaName} (h : L.Follows (v :: .string key :: rest) L₁)
    (hindex : index ≠ 0)
    (hslot : stackSlot (v :: .string key :: rest).length index = some meant) :
    Meets (L₁.settable index meant) (L.Follows rest) := by
  unfold MainLua.settable
  rw [h.stack_eq]
  split
  · rename_i hstack
    cases hstack
    exact ((h.access hslot).setHeap _).setStack
  · exact nofun
  · rename_i hnone
    exact absurd hnone (h.at?_ne_none hindex hslot)

theorem setmetatable (h : L.Follows (v :: rest) L₁) (hindex : index ≠ 0)
    (hslot : stackSlot (v :: rest).length index = some meant) :
    Meets (L₁.setmetatable index meant) (L.Follows rest) := by
  unfold MainLua.setmetatable
  rw [h.stack_eq]
  split
  · rename_i hnone
    exact absurd hnone (h.at?_ne_none hindex hslot)
  · rename_i hstack hne
    cases hstack
  · rename_i hstack
    cases hstack
    exact ((h.access hslot).setHeap _).setStack
  · rename_i hstack
    cases hstack
    exact ((h.access hslot).setHeap _).setStack
  · rename_i hstack
    cases hstack
    exact (h.access hslot).setStack

theorem enter (args : List MainValue) (h : L.Follows (args ++ v :: rest) L₁) :
    Meets (L₁.enter args.length) (L.Follows rest) := by
  unfold MainLua.enter
  rw [h.stack_eq, List.drop_left]
  cases v with
  | function ref => exact ⟨rfl, h.right⟩
  | _ => exact nofun

end Follows

end MainLua

end WrkQuic
