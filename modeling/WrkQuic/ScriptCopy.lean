import WrkQuic.Lua

/-!
# Copying values between Lua states

`script_copy_value` carries the arguments of `thread:set` and the results
of `thread:get` from one Lua state to another. It works for scalars only.
For a table it pushes the copy of the value before the copy of the key,
which `lua_settable` then takes the wrong way round; a string is copied
as a C string, so it ends at its first NUL; and after its loop, where
`lua_next` has already removed the last key, one more `lua_pop` takes the
table itself off the source stack.

The last point decides the matter: no call ever raises the source stack,
and a call on a table lowers it (`scriptCopyValue_height`), so no table
is copied with the source stack intact.
-/

namespace WrkQuic

mutual

/-- `script_copy_value`; recursion and loop share the fuel. -/
def scriptCopyValue : ℕ → LuaState → LuaState → ℤ →
    Except LuaFault (LuaState × LuaState)
  | 0, _, _, _ => .error .running
  | fuel + 1, src, dst, index =>
      match luaIndex src index with
      | some (.boolean b) => .ok (src, luaPush dst (.boolean b))
      | some .nil => .ok (src, luaPush dst .nil)
      | some (.number bits) => .ok (src, luaPush dst (.number bits))
      | some (.string bytes) => .ok (src, luaPushstring dst bytes)
      | some (.table _ _) => do
          let dst := luaNewtable dst
          let src := luaPush src .nil
          let (src, dst) ← copyEntries fuel src dst index
          let src ← luaPop src 1
          .ok (src, dst)
      | some (.other typename) =>
          .error (.error s!"cannot transfer '{typename}' to thread")
      | none => .error (.error "cannot transfer 'no value' to thread")

/-- The `while (lua_next(src, index - 1))` loop. -/
def copyEntries : ℕ → LuaState → LuaState → ℤ →
    Except LuaFault (LuaState × LuaState)
  | 0, _, _, _ => .error .running
  | fuel + 1, src, dst, index => do
      let (more, src) ← luaNext src (index - 1)
      if more then
        let (src, dst) ← scriptCopyValue fuel src dst (-1)
        let (src, dst) ← scriptCopyValue fuel src dst (-2)
        let dst ← luaSettable dst (-3)
        let src ← luaPop src 1
        copyEntries fuel src dst index
      else .ok (src, dst)

end

/-- `script_thread_get`, after `checkthread` has found the thread whose
state is `t`; its result is the value on top of `L`. -/
def scriptThreadGet (fmt : BitVec 64 → List UInt8) (fuel : ℕ) (L t : LuaState) :
    Except LuaFault (LuaState × LuaState) := do
  let (key, L) ← luaTostring fmt L (-1)
  let t := luaGetglobal t key
  let (t, L) ← scriptCopyValue fuel t L (-1)
  let t ← luaPop t 1
  .ok (L, t)

def scriptThreadSet (fmt : BitVec 64 → List UInt8) (fuel : ℕ) (L t : LuaState) :
    Except LuaFault (LuaState × LuaState) := do
  let (name, L) ← luaTostring fmt L (-2)
  let (L, t) ← scriptCopyValue fuel L t (-1)
  let t ← luaSetglobal t name
  .ok (L, t)

/-! ## What a deep copy is -/

mutual

/-- Equality up to table identities and the order of table entries. -/
inductive StructEq : LuaValue → LuaValue → Prop where
  | nil : StructEq .nil .nil
  | boolean (b : Bool) : StructEq (.boolean b) (.boolean b)
  | number (bits : BitVec 64) : StructEq (.number bits) (.number bits)
  | string (bytes : List UInt8) : StructEq (.string bytes) (.string bytes)
  | table {id id' : ℕ} {es es₁ es' : LuaEntries} : EntriesEq es es₁ → es₁.Perm es' →
      StructEq (.table id es) (.table id' es')

inductive EntriesEq : LuaEntries → LuaEntries → Prop where
  | nil : EntriesEq [] []
  | cons {k k' v v' : LuaValue} {es es' : LuaEntries} : StructEq k k' → StructEq v v' →
      EntriesEq es es' → EntriesEq ((k, v) :: es) ((k', v') :: es')

end

/-- Wherever `v` is on top of the source stack, exactly one value, equal
to `v`, is pushed on the destination stack, and the source state is left
as it was. -/
def FaithfulCopy (v : LuaValue) : Prop :=
  ∀ (src dst : LuaState) (rest : List LuaValue), src.stack = v :: rest →
    ∃ fuel v' dst', scriptCopyValue fuel src dst (-1) = .ok (src, dst') ∧
      dst'.stack = v' :: dst.stack ∧ StructEq v v'

/-- `thread:set(name, v)` and a later `thread:get(name)` give `v` back. -/
def RoundTrips (v : LuaValue) : Prop :=
  ∀ (fmt : BitVec 64 → List UInt8) (name : List UInt8) (L t : LuaState)
    (rest : List LuaValue), L.stack = v :: .string name :: rest →
    ∃ fuel L₁ t₁, scriptThreadSet fmt fuel L t = .ok (L₁, t₁) ∧
      ∀ (L₂ : LuaState) (rest₂ : List LuaValue), L₂.stack = .string name :: rest₂ →
        ∃ fuel₂ L₃ t₃ v', scriptThreadGet fmt fuel₂ L₂ t₁ = .ok (L₃, t₃) ∧
          L₃.stack = v' :: L₂.stack ∧ StructEq v v'

/-- The values that are copied whole. -/
def CopiedWhole : LuaValue → Prop
  | .nil | .boolean _ | .number _ => True
  | .string bytes => 0 ∉ bytes
  | .table _ _ | .other _ => False

/-! ## The height of the source stack -/

/-- Any type but a table leaves the source stack alone. -/
theorem scriptCopyValue_scalar {fuel : ℕ} {src dst src' dst' : LuaState} {index : ℤ}
    (h : scriptCopyValue (fuel + 1) src dst index = .ok (src', dst'))
    (htable : ∀ id entries, luaIndex src index ≠ some (.table id entries)) :
    src' = src := by
  unfold scriptCopyValue at h
  split at h
  · cases h
    rfl
  · cases h
    rfl
  · cases h
    rfl
  · cases h
    rfl
  · rename_i htab
    exact absurd htab (htable _ _)
  · cases h
  · cases h

mutual

/-- No call raises the source stack; on a table it lowers it. -/
theorem scriptCopyValue_height : ∀ (fuel : ℕ) {src dst src' dst' : LuaState} {index : ℤ},
    scriptCopyValue fuel src dst index = .ok (src', dst') →
      src'.stack.length ≤ src.stack.length ∧
      ∀ id entries, luaIndex src index = some (.table id entries) →
        src'.stack.length < src.stack.length
  | 0, _, _, _, _, _, h => by cases h
  | fuel + 1, src, dst, src', dst', index, h => by
      by_cases htable : ∃ id entries, luaIndex src index = some (.table id entries)
      · obtain ⟨id, entries, htab⟩ := htable
        unfold scriptCopyValue at h
        simp only [htab, except_bind_eq_ok] at h
        obtain ⟨⟨src₁, dst₁⟩, hcopy, src₂, hpop, hret⟩ := h
        cases hret
        have hpush : (luaPush src .nil).stack.length = src.stack.length + 1 := rfl
        have hloop : src₁.stack.length ≤ (luaPush src .nil).stack.length - 1 :=
          copyEntries_height fuel hcopy
        have hheight : src'.stack.length + 1 = src₁.stack.length := luaPop_height hpop
        exact ⟨by omega, fun _ _ _ => by omega⟩
      · have hscalar := scriptCopyValue_scalar h fun id entries htab => htable ⟨id, entries, htab⟩
        subst hscalar
        exact ⟨Nat.le_refl _, fun id entries htab => absurd ⟨id, entries, htab⟩ htable⟩

/-- The loop consumes the key it starts with. -/
theorem copyEntries_height : ∀ (fuel : ℕ) {src dst src' dst' : LuaState} {index : ℤ},
    copyEntries fuel src dst index = .ok (src', dst') →
      src'.stack.length ≤ src.stack.length - 1
  | 0, _, _, _, _, _, h => by cases h
  | fuel + 1, src, dst, src', dst', index, h => by
      unfold copyEntries at h
      simp only [except_bind_eq_ok] at h
      obtain ⟨⟨more, src₁⟩, hnext, h⟩ := h
      have hheight := luaNext_height hnext
      cases more with
      | false =>
          cases h
          rw [if_neg (by decide)] at hheight
          exact Nat.le_of_eq hheight
      | true =>
          simp only [if_true, except_bind_eq_ok] at h hheight
          obtain ⟨⟨src₂, dst₂⟩, hvalue, ⟨src₃, dst₃⟩, hkey, dst₄, -, src₄, hpop, hrest⟩ := h
          have h₂ : src₂.stack.length ≤ src₁.stack.length :=
            (scriptCopyValue_height fuel hvalue).1
          have h₃ : src₃.stack.length ≤ src₂.stack.length :=
            (scriptCopyValue_height fuel hkey).1
          have h₄ : src₄.stack.length + 1 = src₃.stack.length := luaPop_height hpop
          have hloop := copyEntries_height fuel hrest
          omega

end

/-! ## Scalars -/

/-- One call copies a value that is copied whole. -/
theorem scriptCopyValue_whole {v : LuaValue} (hv : CopiedWhole v) {src : LuaState}
    {rest : List LuaValue} (hsrc : src.stack = v :: rest) (dst : LuaState) :
    scriptCopyValue 1 src dst (-1) = .ok (src, luaPush dst v) := by
  unfold scriptCopyValue
  rw [luaIndex_top hsrc]
  cases v with
  | nil => rfl
  | boolean b => rfl
  | number bits => rfl
  | string bytes =>
      have hbytes := takeWhile_ne_zero.mpr hv
      simp only [luaPushstring, hbytes]
  | table id entries => exact hv.elim
  | other typename => exact hv.elim

theorem CopiedWhole.structEq {v : LuaValue} (hv : CopiedWhole v) : StructEq v v := by
  cases v with
  | nil => exact .nil
  | boolean b => exact .boolean b
  | number bits => exact .number bits
  | string bytes => exact .string bytes
  | table id entries => exact hv.elim
  | other typename => exact hv.elim

theorem CopiedWhole.faithfulCopy {v : LuaValue} (hv : CopiedWhole v) : FaithfulCopy v :=
  fun _ dst _ hsrc =>
    ⟨1, v, luaPush dst v, scriptCopyValue_whole hv hsrc dst, rfl, hv.structEq⟩

theorem CopiedWhole.roundTrips {v : LuaValue} (hv : CopiedWhole v) : RoundTrips v := by
  intro fmt name L t rest hL
  let t₁ : LuaState := { t with
    globals := Function.update t.globals (name.takeWhile (· ≠ 0)) v }
  have hname : luaTostring fmt L (-2) = .ok (name, L) := by
    rw [luaTostring, luaIndex_second hL]
  have hcopy := scriptCopyValue_whole hv hL t
  have hset : scriptThreadSet fmt 1 L t = .ok (L, t₁) := by
    simp only [scriptThreadSet, hname, hcopy, luaSetglobal, luaPush, bind, Except.bind, t₁]
  refine ⟨1, L, t₁, hset, fun L₂ rest₂ hL₂ => ?_⟩
  have hkey : luaTostring fmt L₂ (-1) = .ok (name, L₂) := by
    rw [luaTostring, luaIndex_top hL₂]
  have hglobal : luaGetglobal t₁ name = luaPush t₁ v := by
    simp only [luaGetglobal, t₁, Function.update_self]
  have htop : (luaPush t₁ v).stack = v :: t₁.stack := rfl
  have hback := scriptCopyValue_whole hv htop L₂
  have hpop : luaPop (luaPush t₁ v) 1 = .ok t₁ := by
    simp [luaPop, luaPush]
  refine ⟨1, luaPush L₂ v, t₁, v, ?_, rfl, hv.structEq⟩
  simp only [scriptThreadGet, hkey, hglobal, hback, hpop, bind, Except.bind]

/-! ## Tables and the rest -/

theorem table_not_faithfulCopy (id : ℕ) (entries : LuaEntries) :
    ¬FaithfulCopy (.table id entries) := by
  intro h
  obtain ⟨fuel, v', dst', hcopy, -⟩ := h
    ⟨[.table id entries], fun _ => .nil, 0⟩ ⟨[], fun _ => .nil, 0⟩ [] rfl
  have hheight := (scriptCopyValue_height fuel hcopy).2 id entries (luaIndex_top rfl)
  exact absurd hheight (Nat.lt_irrefl _)

theorem FaithfulCopy.copiedWhole {v : LuaValue} (h : FaithfulCopy v) : CopiedWhole v := by
  obtain ⟨fuel, v', dst', hcopy, hpush, heq⟩ :=
    h ⟨[v], fun _ => .nil, 0⟩ ⟨[], fun _ => .nil, 0⟩ [] rfl
  have htop : luaIndex ⟨[v], fun _ => .nil, 0⟩ (-1) = some v := luaIndex_top rfl
  cases fuel with
  | zero => cases hcopy
  | succ fuel =>
      unfold scriptCopyValue at hcopy
      rw [htop] at hcopy
      cases v with
      | nil => trivial
      | boolean b => trivial
      | number bits => trivial
      | string bytes =>
          cases hcopy
          cases hpush
          generalize hcut : bytes.takeWhile (· ≠ 0) = cut at heq
          cases heq
          exact takeWhile_ne_zero.mp hcut
      | table id entries => exact absurd h (table_not_faithfulCopy id entries)
      | other typename => cases hcopy

/-- `script_copy_value` is a faithful deep copy, and `set` then `get` a
round trip, exactly for nil, booleans, numbers and strings without a NUL
byte: never for a table, whatever it holds. -/
theorem scriptCopyValue_faithful_iff (v : LuaValue) :
    FaithfulCopy v ∧ RoundTrips v ↔ CopiedWhole v :=
  ⟨fun h => h.1.copiedWhole, fun hv => ⟨hv.faithfulCopy, hv.roundTrips⟩⟩

/-- `{a = "b"}` arrives as `{b = "a"}` and is gone from the source stack. -/
theorem scriptCopyValue_swaps_entry :
    (∃ src' dst', scriptCopyValue 3
        ⟨[.table 7 [(.string [97], .string [98])]], fun _ => .nil, 8⟩
        ⟨[], fun _ => .nil, 0⟩ (-1) = .ok (src', dst') ∧
      src'.stack = [] ∧ dst'.stack = [.table 0 [(.string [98], .string [97])]]) ∧
    ¬FaithfulCopy (.table 7 [(.string [97], .string [98])]) :=
  ⟨⟨_, _, rfl, rfl, rfl⟩, table_not_faithfulCopy _ _⟩

end WrkQuic
