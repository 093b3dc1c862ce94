import Mathlib.Algebra.Group.Nat.Defs
import Mathlib.Data.Int.Notation
import Mathlib.Data.List.Basic
import Mathlib.Data.List.TakeWhile
import Mathlib.Logic.Function.Basic

/-!
# The slice of the Lua API that script.c copies values with

A `lua_State` is its value stack, its globals and the number of tables it
has created. Values are trees; a table also carries an identity, because
Lua compares table keys by identity. Calls outside their contract (too
few values on the stack, `lua_next` on something that is no table) are
`misuse`: the API checks are compiled out and the C code then reads or
writes below the stack.
-/

namespace WrkQuic

/-- A Lua value. `number` holds the bits of a double, `string` any bytes,
and `other` stands for the types that have no case of their own
(functions, userdata, threads), by type name. -/
inductive LuaValue where
  | nil
  | boolean (b : Bool)
  | number (bits : BitVec 64)
  | string (bytes : List UInt8)
  | table (id : ℕ) (entries : List (LuaValue × LuaValue))
  | other (typename : String)

structure LuaState where
  /-- Top of the stack first. -/
  stack : List LuaValue
  globals : List UInt8 → LuaValue
  /-- Tables created so far, the identity of the next one. -/
  tables : ℕ

inductive LuaFault where
  /-- A Lua error, thrown by `longjmp`. -/
  | error (msg : String)
  | misuse
  /-- The fuel of a loop or recursion ran out. -/
  | running
deriving DecidableEq, Repr

/-! ## Numbers and keys -/

/-- All exponent bits set and a non-zero fraction. -/
def isNaN (bits : BitVec 64) : Bool :=
  bits.extractLsb' 52 11 == 0x7ff#11 && bits.extractLsb' 0 52 != 0#52

/-- The negative zero becomes the integer key 0. -/
def normalizeKey : LuaValue → LuaValue
  | .number bits => .number (if bits = 0x8000000000000000#64 then 0#64 else bits)
  | key => key

def rawEq : LuaValue → LuaValue → Bool
  | .nil, .nil => true
  | .boolean a, .boolean b => a == b
  | .number a, .number b => a == b
  | .string a, .string b => a == b
  | .table a _, .table b _ => a == b
  | _, _ => false

def LuaValue.isNil : LuaValue → Bool
  | .nil => true
  | _ => false

def LuaValue.isTable : LuaValue → Bool
  | .table _ _ => true
  | _ => false

def LuaValue.isFunction : LuaValue → Bool
  | .other typename => typename == "function"
  | _ => false

/-! ## Tables -/

abbrev LuaEntries := List (LuaValue × LuaValue)

/-- The entries that follow `key` in the traversal order; `none` when the
table has no such key. -/
def entriesAfter (key : LuaValue) : LuaEntries → Option LuaEntries
  | [] => none
  | (k, _) :: rest => if rawEq k key then some rest else entriesAfter key rest

/-- `lj_tab_next`: `none` for an invalid key, `some none` at the end. -/
def tabNext (entries : LuaEntries) (key : LuaValue) : Option (Option (LuaValue × LuaValue)) :=
  let rest := if key.isNil then some entries else entriesAfter key entries
  rest.map fun es => es.find? fun e => !e.2.isNil

def tabSet (key value : LuaValue) : LuaEntries → LuaEntries
  | [] => if value.isNil then [] else [(key, value)]
  | (k, v) :: rest =>
      if rawEq k key then
        if value.isNil then rest else (k, value) :: rest
      else (k, v) :: tabSet key value rest

/-- `lua_rawget`; `none` is `nil`. -/
def tabGet (entries : LuaEntries) (key : LuaValue) : Option LuaValue :=
  (entries.find? fun e => rawEq e.1 key).map Prod.snd

/-! ## Stack operations -/

/-- `index2adr`, as a position counted from the top. -/
def luaSlot (L : LuaState) (index : ℤ) : ℕ :=
  if 0 < index then L.stack.length - index.toNat else (-index).toNat - 1

/-- The value at a non-zero index; `none` is `LUA_TNONE`. -/
def luaIndex (L : LuaState) (index : ℤ) : Option LuaValue :=
  if 0 < index ∧ L.stack.length < index.toNat then none
  else L.stack[luaSlot L index]?

def luaPush (L : LuaState) (v : LuaValue) : LuaState := { L with stack := v :: L.stack }

/-- The C string passed ends at the first NUL. -/
def luaPushstring (L : LuaState) (bytes : List UInt8) : LuaState :=
  luaPush L (.string (bytes.takeWhile (· ≠ 0)))

/-- `lua_pushinteger` of a number below 2^53, which is a double. -/
def luaInteger (n : ℕ) : LuaValue :=
  let e := Nat.log2 n
  .number (if n = 0 then 0#64 else .ofNat 64 ((1023 + e) * 2 ^ 52 + (n - 2 ^ e) * 2 ^ (52 - e)))

def luaNewtable (L : LuaState) : LuaState :=
  luaPush { L with tables := L.tables + 1 } (.table L.tables [])

def luaPop (L : LuaState) (n : ℕ) : Except LuaFault LuaState :=
  if n ≤ L.stack.length then .ok { L with stack := L.stack.drop n } else .error .misuse

/-- Pops a key and pushes the next entry of the table at `index`, or
nothing at the end of the traversal. -/
def luaNext (L : LuaState) (index : ℤ) : Except LuaFault (Bool × LuaState) :=
  match luaIndex L index, L.stack with
  | some (.table _ entries), key :: rest =>
      match tabNext entries key with
      | none => .error (.error "invalid key to 'next'")
      | some none => .ok (false, { L with stack := rest })
      | some (some (k, v)) => .ok (true, { L with stack := v :: k :: rest })
  | _, _ => .error .misuse

/-- `t[k] = v` for the value `v` on top and the key `k` below it. -/
def luaSettable (L : LuaState) (index : ℤ) : Except LuaFault LuaState :=
  match luaIndex L index, L.stack with
  | some (.table id entries), value :: key :: _ =>
      match key with
      | .nil => .error (.error "table index is nil")
      | .number bits =>
          if isNaN bits then .error (.error "table index is NaN")
          else
            let t := LuaValue.table id (tabSet (normalizeKey key) value entries)
            .ok { L with stack := (L.stack.set (luaSlot L index) t).drop 2 }
      | _ =>
          let t := LuaValue.table id (tabSet key value entries)
          .ok { L with stack := (L.stack.set (luaSlot L index) t).drop 2 }
  | _, _ => .error .misuse

/-- `lua_tostring` turns a number in the slot into the string `fmt` prints
it as. -/
def luaTostring (fmt : BitVec 64 → List UInt8) (L : LuaState) (index : ℤ) :
    Except LuaFault (List UInt8 × LuaState) :=
  match luaIndex L index with
  | some (.string bytes) => .ok (bytes, L)
  | some (.number bits) =>
      .ok (fmt bits, { L with stack := L.stack.set (luaSlot L index) (.string (fmt bits)) })
  | _ => .error .misuse

def luaGetglobal (L : LuaState) (name : List UInt8) : LuaState :=
  luaPush L (L.globals (name.takeWhile (· ≠ 0)))

def luaSetglobal (L : LuaState) (name : List UInt8) : Except LuaFault LuaState :=
  match L.stack with
  | v :: rest => .ok { L with
      stack := rest
      globals := Function.update L.globals (name.takeWhile (· ≠ 0)) v }
  | [] => .error .misuse

/-- Of a table without a metatable. -/
def luaGetfield (L : LuaState) (index : ℤ) (name : List UInt8) : Except LuaFault LuaState :=
  match luaIndex L index with
  | some (.table _ entries) =>
      .ok (luaPush L ((tabGet entries (.string (name.takeWhile (· ≠ 0)))).getD .nil))
  | some _ => .error (.error "attempt to index a value that is no table")
  | none => .error .misuse

/-- `t[name] = v` for the value `v` on top. -/
def luaSetfield (L : LuaState) (index : ℤ) (name : List UInt8) : Except LuaFault LuaState :=
  match luaIndex L index, L.stack with
  | some (.table id entries), v :: _ =>
      let t := LuaValue.table id (tabSet (.string (name.takeWhile (· ≠ 0))) v entries)
      .ok { L with stack := (L.stack.set (luaSlot L index) t).drop 1 }
  | some _, _ => .error (.error "attempt to index a value that is no table")
  | none, _ => .error .misuse

/-- `t[n] = v` for the value `v` on top. -/
def luaRawseti (L : LuaState) (index : ℤ) (n : ℕ) : Except LuaFault LuaState :=
  match luaIndex L index, L.stack with
  | some (.table id entries), v :: _ =>
      let t := LuaValue.table id (tabSet (luaInteger n) v entries)
      .ok { L with stack := (L.stack.set (luaSlot L index) t).drop 1 }
  | _, _ => .error .misuse

/-- `lua_tolstring`, which makes a number in the slot a string. What is no
string has no bytes. -/
def luaTolstring (fmt : BitVec 64 → List UInt8) (L : LuaState) (index : ℤ) :
    List UInt8 × LuaState :=
  match luaIndex L index with
  | some (.string bytes) => (bytes, L)
  | some (.number bits) =>
      (fmt bits, { L with stack := L.stack.set (luaSlot L index) (.string (fmt bits)) })
  | _ => ([], L)

/-! ## Calls -/

/-- What a function of the script does in one call: the values it returns,
the first one first, and the globals and tables it leaves. -/
structure ScriptCall where
  results : List LuaValue
  globals : List UInt8 → LuaValue
  tables : ℕ

/-- Cut to `nresults` or filled up with `nil`; `none` is `LUA_MULTRET`. -/
def adjustResults (nresults : Option ℕ) (results : List LuaValue) : List LuaValue :=
  match nresults with
  | none => results
  | some n => results.take n ++ List.replicate (n - results.length) .nil

/-- The arguments are on top of the function; the results take their place. -/
def luaCall (L : LuaState) (nargs : ℕ) (nresults : Option ℕ) (call : ScriptCall) :
    Except LuaFault LuaState :=
  match L.stack.drop nargs with
  | f :: rest =>
      if f.isFunction then
        .ok ⟨(adjustResults nresults call.results).reverse ++ rest, call.globals, call.tables⟩
      else .error (.error "attempt to call a value that is no function")
  | [] => .error .misuse

/-! ## C strings -/

theorem takeWhile_ne_zero {bytes : List UInt8} :
    bytes.takeWhile (· ≠ 0) = bytes ↔ 0 ∉ bytes := by
  rw [List.takeWhile_eq_self_iff]
  refine ⟨fun hall hmem => ?_, fun hnot b hb => ?_⟩
  · simpa using hall 0 hmem
  · rw [decide_eq_true_iff]
    rintro rfl
    exact hnot hb

theorem luaGetglobal_eq {name : List UInt8} (h : 0 ∉ name) (L : LuaState) :
    luaGetglobal L name = luaPush L (L.globals name) := by
  rw [luaGetglobal, takeWhile_ne_zero.mpr h]

/-! ## The top of the stack -/

theorem luaIndex_top {L : LuaState} {v : LuaValue} {rest : List LuaValue}
    (h : L.stack = v :: rest) : luaIndex L (-1) = some v := by
  simp [luaIndex, luaSlot, h]

theorem luaIndex_second {L : LuaState} {v w : LuaValue} {rest : List LuaValue}
    (h : L.stack = w :: v :: rest) : luaIndex L (-2) = some v := by
  simp [luaIndex, luaSlot, h]

/-! ## Stack heights -/

/-- A sequence of two calls succeeds when both do. -/
theorem except_bind_eq_ok {α β : Type} {x : Except LuaFault α} {f : α → Except LuaFault β}
    {b : β} : (x >>= f) = .ok b ↔ ∃ a, x = .ok a ∧ f a = .ok b := by
  cases x with
  | error e => simp [bind, Except.bind]
  | ok a => simp [bind, Except.bind]

theorem except_toOption_eq_some {α : Type} {x : Except LuaFault α} {a : α} :
    x.toOption = some a ↔ x = .ok a := by
  cases x with
  | error e => simp [Except.toOption]
  | ok a => simp [Except.toOption]

theorem luaPop_height {L L' : LuaState} {n : ℕ} (h : luaPop L n = .ok L') :
    L'.stack.length + n = L.stack.length := by
  unfold luaPop at h
  split at h
  · cases h
    rw [List.length_drop]
    omega
  · cases h

theorem luaNext_height {L L' : LuaState} {index : ℤ} {more : Bool}
    (h : luaNext L index = .ok (more, L')) :
    L'.stack.length = if more then L.stack.length + 1 else L.stack.length - 1 := by
  unfold luaNext at h
  split at h
  · rename_i hstack
    rw [hstack]
    split at h
    · cases h
    · cases h
      simp
    · cases h
      simp
  · cases h

end WrkQuic
