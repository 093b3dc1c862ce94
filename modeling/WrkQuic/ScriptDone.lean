import WrkQuic.ScriptInit

/-!
# The call of `done`

After the run `script_summary`, `script_errors` and `script_done` put together
the arguments of `done` on the main stack, which they take to be empty: they
address their objects by the indices 1 to 5. It is empty when the file of the
script returns no value and raises no error.
-/

namespace WrkQuic

open Outcomes (Ensures)

/-! ## script.c -/

/-- `struct errors`, as `main` adds it up. -/
structure ErrorCounts where
  connect : BitVec 32
  read : BitVec 32
  write : BitVec 32
  status : BitVec 32
  timeout : BitVec 32

/-- A `uint64_t` read as a `lua_Integer`. -/
def pushUint64 (n : BitVec 64) : MainValue := .integer n.toInt

def summaryFields (duration requests bytes : BitVec 64) : List (LuaName × MainValue) :=
  [(luaName "duration", pushUint64 duration), (luaName "requests", pushUint64 requests),
    (luaName "bytes", pushUint64 bytes)]

def errorFields (errors : ErrorCounts) : List (LuaName × MainValue) :=
  [(luaName "connect", pushUint64 (errors.connect.setWidth 64)),
    (luaName "read", pushUint64 (errors.read.setWidth 64)),
    (luaName "write", pushUint64 (errors.write.setWidth 64)),
    (luaName "status", pushUint64 (errors.status.setWidth 64)),
    (luaName "timeout", pushUint64 (errors.timeout.setWidth 64))]

def MainValue.isFunction : MainValue → Bool
  | .function _ => true
  | _ => false

namespace MainLua

def scriptIsFunction (L : MainLua) (name : LuaName) : Except LuaFault (Bool × MainLua) :=
  let L := L.getglobal name
  let isFunction := ((L.at? (-1)).getD .nil).isFunction
  ((L.access (-1) L.top).pop 1).map fun L => (isFunction, L)

def scriptHasDone (L : MainLua) : Except LuaFault (Bool × MainLua) :=
  L.scriptIsFunction (luaName "done")

def scriptSummary (L : MainLua) (duration requests bytes : BitVec 64) : Except LuaFault MainLua :=
  let L := L.newtable
  L.setFields 1 L.top (summaryFields duration requests bytes)

/-- The summary is on top of the stack. -/
def scriptErrors (L : MainLua) (errors : ErrorCounts) : Except LuaFault MainLua := do
  let summary := L.top
  let L := L.newtable
  let L ← L.setFields 2 L.top (errorFields errors)
  L.setfield 1 summary (luaName "errors")

/-- The summary is on top of the stack; `heap` is what `done` leaves. -/
def scriptDone (L : MainLua) (heap : LuaHeap) : Except LuaFault MainLua := do
  let summary := L.top
  let L := L.getglobal (luaName "done")
  let L ← L.pushvalue 1 summary
  let L := L.newuserdata .latency
  let L ← (L.getmetatable (luaName "wrk.stats")).setmetatable 4 L.top
  let L := L.newuserdata .requests
  let L ← (L.getmetatable (luaName "wrk.stats")).setmetatable 5 L.top
  let L ← L.enter 3
  (L.leave heap).pop 1

end MainLua

/-! ## The right objects -/

/-- What `main` tells the script. -/
structure RunReport where
  duration : BitVec 64
  requests : BitVec 64
  bytes : BitVec 64
  errors : ErrorCounts

/-- The call has the summary table and the two stats for its arguments, and
the summary has the table of the errors. -/
structure RightObjects (report : RunReport) (record : LuaCallRecord) (s e l r : ℕ) : Prop where
  args_eq : record.args = [.table s, .userdata l, .userdata r]
  summary_eq : record.heap.tables s =
    fieldsTable (summaryFields report.duration report.requests report.bytes ++
      [(luaName "errors", .table e)])
  errors_eq : record.heap.tables e = fieldsTable (errorFields report.errors)
  latency_eq : record.heap.pointers l = .latency
  requests_eq : record.heap.pointers r = .requests
  metatables_eq : record.heap.metatables l = record.heap.registry (luaName "wrk.stats") ∧
    record.heap.metatables r = record.heap.registry (luaName "wrk.stats")

/-- The three functions call `done` once, with the right objects, and address
no other slot than they mean to. -/
def DoneRight (L : MainLua) (report : RunReport) (heap : LuaHeap) : Prop :=
  ∃ L₁ L₂ L₃ record s e l r,
    L.scriptSummary report.duration report.requests report.bytes = .ok L₁ ∧
    L₁.scriptErrors report.errors = .ok L₂ ∧ L₂.scriptDone heap = .ok L₃ ∧
    L₁.Right ∧ L₂.Right ∧ L₃.Right ∧
    L₃.calls = record :: L.calls ∧ record.function = L.heap.globals (luaName "done") ∧
    RightObjects report record s e l r

/-! ## Symbolic execution -/

namespace LuaHeap

/-- What `set_fields` does to the heap. -/
def setEntries (heap : LuaHeap) (ref : ℕ) (fields : List (LuaName × MainValue)) : LuaHeap :=
  fields.foldl (fun heap field => heap.setEntry ref field.1 field.2) heap

theorem setEntries_tables (ref : ℕ) : ∀ (fields : List (LuaName × MainValue)) (heap : LuaHeap),
    (fields.map Prod.fst).Nodup → ∀ key,
      (heap.setEntries ref fields).tables ref key = (fields.lookup key).getD (heap.tables ref key)
  | [], _, _, _ => rfl
  | (name, v) :: fields, heap, hnodup, key => by
      obtain ⟨hnotMem, hnodup⟩ := List.nodup_cons.mp hnodup
      refine (setEntries_tables ref fields (heap.setEntry ref name v) hnodup key).trans ?_
      by_cases hkey : key = name
      · subst hkey
        have hnone : fields.lookup key = none := List.lookup_eq_none_iff.mpr fun p hp =>
          bne_iff_ne.mpr fun heq => hnotMem (List.mem_map.mpr ⟨p, hp, heq.symm⟩)
        simp [hnone, setEntry]
      · have hbeq : (key == name) = false := beq_false_of_ne hkey
        simp [List.lookup_cons, hbeq, hkey, setEntry]

/-- The rest of the heap. -/
theorem setEntries_frame (ref : ℕ) : ∀ (fields : List (LuaName × MainValue)) (heap : LuaHeap),
    ∃ table, heap.setEntries ref fields =
      { heap with tables := Function.update heap.tables ref table }
  | [], heap => ⟨heap.tables ref, by rw [Function.update_eq_self]; rfl⟩
  | (name, v) :: fields, heap => by
      obtain ⟨table, htable⟩ := setEntries_frame ref fields (heap.setEntry ref name v)
      refine ⟨table, htable.trans ?_⟩
      simp [setEntry]

variable {heap : LuaHeap} {ref : ℕ} {fields : List (LuaName × MainValue)}

theorem setEntries_objects : (heap.setEntries ref fields).objects = heap.objects := by
  obtain ⟨table, htable⟩ := setEntries_frame ref fields heap
  rw [htable]

theorem setEntry_globals (ref : ℕ) (key : LuaName) (v : MainValue) :
    (heap.setEntry ref key v).globals = heap.globals := rfl

theorem setEntries_globals : (heap.setEntries ref fields).globals = heap.globals := by
  obtain ⟨table, htable⟩ := setEntries_frame ref fields heap
  rw [htable]

theorem setEntries_tables_ne {ref' : ℕ} (hne : ref' ≠ ref) :
    (heap.setEntries ref fields).tables ref' = heap.tables ref' := by
  obtain ⟨table, htable⟩ := setEntries_frame ref fields heap
  rw [htable]
  exact Function.update_of_ne hne ..

/-- A new table that is filled has the fields and nothing else. -/
theorem newtable_setEntries (heap : LuaHeap) (hnodup : (fields.map Prod.fst).Nodup) :
    (heap.newtable.setEntries heap.objects fields).tables heap.objects = fieldsTable fields := by
  have hnew : heap.newtable.tables heap.objects = fun _ => .nil := Function.update_self ..
  funext key
  rw [setEntries_tables _ fields _ hnodup, hnew]
  rfl

/-- The heap after `script_summary`. -/
def withSummary (heap : LuaHeap) (duration requests bytes : BitVec 64) : LuaHeap :=
  heap.newtable.setEntries heap.objects (summaryFields duration requests bytes)

/-- The heap after `script_errors`, for the summary `s`. -/
def withErrors (heap : LuaHeap) (s : ℕ) (errors : ErrorCounts) : LuaHeap :=
  (heap.newtable.setEntries heap.objects (errorFields errors)).setEntry s (luaName "errors")
    (.table heap.objects)

/-- The heap in the call of `done`. -/
def withStats (heap : LuaHeap) : LuaHeap :=
  let stats := heap.registry (luaName "wrk.stats")
  ((((heap.newuserdata .latency).setMetatable heap.objects stats).newuserdata
    .requests).setMetatable (heap.objects + 1) stats)

theorem withSummary_objects (duration requests bytes : BitVec 64) :
    (heap.withSummary duration requests bytes).objects = heap.objects + 1 := setEntries_objects

theorem withSummary_globals (duration requests bytes : BitVec 64) :
    (heap.withSummary duration requests bytes).globals = heap.globals := setEntries_globals

theorem withErrors_globals (s : ℕ) (errors : ErrorCounts) :
    (heap.withErrors s errors).globals = heap.globals := by
  rw [withErrors, setEntry_globals, setEntries_globals]
  rfl

theorem withStats_tables (heap : LuaHeap) : heap.withStats.tables = heap.tables := rfl

theorem withStats_pointers (heap : LuaHeap) :
    heap.withStats.pointers heap.objects = .latency ∧
      heap.withStats.pointers (heap.objects + 1) = .requests := by
  simp [withStats, newuserdata, setMetatable]

theorem withStats_metatables (heap : LuaHeap) :
    heap.withStats.metatables heap.objects = heap.withStats.registry (luaName "wrk.stats") ∧
      heap.withStats.metatables (heap.objects + 1) =
        heap.withStats.registry (luaName "wrk.stats") := by
  simp [withStats, newuserdata, setMetatable]

theorem withSummary_tables (heap : LuaHeap) (duration requests bytes : BitVec 64) :
    (heap.withSummary duration requests bytes).tables heap.objects =
      fieldsTable (summaryFields duration requests bytes) :=
  newtable_setEntries heap (by simp [summaryFields, luaName_inj])

theorem withErrors_summary {s : ℕ} (hs : s ≠ heap.objects) (errors : ErrorCounts) :
    (heap.withErrors s errors).tables s =
      Function.update (heap.tables s) (luaName "errors") (.table heap.objects) := by
  refine (Function.update_self ..).trans ?_
  rw [setEntries_tables_ne hs]
  exact congrArg (Function.update · _ _) (Function.update_of_ne hs ..)

theorem withErrors_errors {s : ℕ} (hs : s ≠ heap.objects) (errors : ErrorCounts) :
    (heap.withErrors s errors).tables heap.objects = fieldsTable (errorFields errors) :=
  (Function.update_of_ne hs.symm ..).trans
    (newtable_setEntries heap (by simp [errorFields, luaName_inj]))

end LuaHeap

/-- The calls succeed. -/
abbrev Succeeds {α : Type} (x : Except LuaFault α) (P : α → Prop) : Prop :=
  Ensures (fun _ => False) x P

namespace MainLua

/-- The state `L'` has this stack and this heap, and there has been neither a
wrong access nor a call since `L`. -/
structure Ends (L : MainLua) (st : List MainValue) (heap : LuaHeap) (L' : MainLua) : Prop
    extends L.Follows st L' where
  heap_eq : L'.heap = heap
  calls_eq : L'.calls = L.calls

namespace Ends

variable {L L₁ : MainLua} {st : List MainValue} {heap : LuaHeap} {v : MainValue} {index : ℤ}
  {meant ref : ℕ}

theorem at?_eq (h : L.Ends st heap L₁) (hslot : stackSlot st.length index = some meant) :
    L₁.at? index = st.reverse[meant]? := by
  rw [at?, h.slot_eq, hslot, h.stack_eq]
  rfl

theorem push (h : L.Ends st heap L₁) (v : MainValue) : L.Ends (v :: st) heap (L₁.push v) :=
  ⟨h.toFollows.push v, h.heap_eq, h.calls_eq⟩

theorem access (h : L.Ends st heap L₁) (hslot : stackSlot st.length index = some meant) :
    L.Ends st heap (L₁.access index meant) :=
  ⟨h.toFollows.access hslot, h.heap_eq, h.calls_eq⟩

theorem pop (h : L.Ends st heap L₁) {n : ℕ} (hn : n ≤ st.length) :
    Succeeds (L₁.pop n) (L.Ends (st.drop n) heap) := by
  rw [MainLua.pop, h.stack_eq, if_pos hn]
  exact ⟨h.toFollows.setStack, h.heap_eq, h.calls_eq⟩

theorem getglobal (h : L.Ends st heap L₁) (name : LuaName) :
    L.Ends (heap.globals name :: st) heap (L₁.getglobal name) := by
  obtain rfl := h.heap_eq
  exact h.push _

theorem getmetatable (h : L.Ends st heap L₁) (name : LuaName) :
    L.Ends (heap.registry name :: st) heap (L₁.getmetatable name) := by
  obtain rfl := h.heap_eq
  exact h.push _

theorem newtable (h : L.Ends st heap L₁) :
    L.Ends (.table heap.objects :: st) heap.newtable L₁.newtable := by
  obtain rfl := h.heap_eq
  exact ⟨(h.toFollows.setHeap _).push _, rfl, h.calls_eq⟩

theorem newuserdata (h : L.Ends st heap L₁) (pointer : MainPointer) :
    L.Ends (.userdata heap.objects :: st) (heap.newuserdata pointer)
      (L₁.newuserdata pointer) := by
  obtain rfl := h.heap_eq
  exact ⟨(h.toFollows.setHeap _).push _, rfl, h.calls_eq⟩

theorem pushvalue (h : L.Ends st heap L₁) (hslot : stackSlot st.length index = some meant)
    (hat : st.reverse[meant]? = some v) :
    Succeeds (L₁.pushvalue index meant) (L.Ends (v :: st) heap) := by
  rw [MainLua.pushvalue, h.at?_eq hslot, hat]
  exact ⟨(h.toFollows.access hslot).push v, h.heap_eq, h.calls_eq⟩

theorem setfield (h : L.Ends (v :: st) heap L₁)
    (hslot : stackSlot (v :: st).length index = some meant)
    (hat : (v :: st).reverse[meant]? = some (.table ref)) (name : LuaName) :
    Succeeds (L₁.setfield index meant name) (L.Ends st (heap.setEntry ref name v)) := by
  obtain rfl := h.heap_eq
  rw [MainLua.setfield, h.at?_eq hslot, hat, h.stack_eq]
  exact ⟨((h.toFollows.access hslot).setHeap _).setStack, rfl, h.calls_eq⟩

theorem setFields (hslot : stackSlot (st.length + 1) index = some meant)
    (hat : st.reverse[meant]? = some (.table ref)) :
    ∀ (fields : List (LuaName × MainValue)) {heap : LuaHeap} {L₁ : MainLua}, L.Ends st heap L₁ →
      Succeeds (L₁.setFields index meant fields) (L.Ends st (heap.setEntries ref fields))
  | [], _, _, h => h
  | field :: fields, heap, L₁, h => by
      have hat' : (field.2 :: st).reverse[meant]? = some (.table ref) := by
        rw [List.reverse_cons, List.getElem?_append_left (List.getElem?_eq_some_iff.mp hat).1, hat]
      exact ((h.push field.2).setfield hslot hat' field.1).bind fun L₂ h₂ =>
        setFields hslot hat fields h₂

theorem setmetatable (h : L.Ends (v :: st) heap L₁)
    (hslot : stackSlot (v :: st).length index = some meant)
    (hat : (v :: st).reverse[meant]? = some (.userdata ref)) :
    Succeeds (L₁.setmetatable index meant) (L.Ends st (heap.setMetatable ref v)) := by
  obtain rfl := h.heap_eq
  rw [MainLua.setmetatable, h.at?_eq hslot, hat, h.stack_eq]
  exact ⟨((h.toFollows.access hslot).setHeap _).setStack, rfl, h.calls_eq⟩

theorem enter {f : ℕ} (args : List MainValue) (h : L.Ends (args ++ .function f :: st) heap L₁) :
    Succeeds (L₁.enter args.length) fun L₂ => L.Follows st L₂ ∧
      L₂.calls = ⟨.function f, args.reverse, heap⟩ :: L.calls := by
  obtain rfl := h.heap_eq
  unfold MainLua.enter
  rw [h.stack_eq, List.drop_left, List.take_left, h.calls_eq]
  exact ⟨⟨rfl, h.right⟩, rfl⟩

end Ends

variable {L L₁ L₂ : MainLua} {h₁ : LuaHeap} {s : ℕ}

theorem scriptSummary_ends (hL : L.stack = []) (duration requests bytes : BitVec 64) :
    Succeeds (L.scriptSummary duration requests bytes) (L.Ends [.table L.heap.objects]
      (L.heap.withSummary duration requests bytes)) := by
  have h : L.Ends [] L.heap L := ⟨⟨hL, id⟩, rfl, rfl⟩
  have htable : L.newtable.top = 0 := h.newtable.top_eq
  exact Ends.setFields (by rw [htable]; rfl) (by rw [htable]; rfl) _ h.newtable

theorem scriptErrors_ends (h : L.Ends [.table s] h₁ L₁) (errors : ErrorCounts) :
    Succeeds (L₁.scriptErrors errors) (L.Ends [.table s] (h₁.withErrors s errors)) := by
  have hsummary : L₁.top = 0 := h.top_eq
  have htable : L₁.newtable.top = 1 := h.newtable.top_eq
  refine Ensures.bind (Ends.setFields (by rw [htable]; rfl) (by rw [htable]; rfl) _ h.newtable)
    fun L₂ h₂ => ?_
  exact h₂.setfield (by rw [hsummary]; rfl) (by rw [hsummary]; rfl) _

theorem scriptDone_ends (h : L.Ends [.table s] h₁ L₁) {f : ℕ}
    (hf : h₁.globals (luaName "done") = .function f) (heap : LuaHeap) :
    Succeeds (L₁.scriptDone heap) fun L₂ => L.Follows [] L₂ ∧
      L₂.calls = ⟨.function f, [.table s, .userdata h₁.objects, .userdata (h₁.objects + 1)],
        h₁.withStats⟩ :: L.calls := by
  have hsummary : L₁.top = 0 := h.top_eq
  have hdone := h.getglobal (luaName "done")
  rw [hf] at hdone
  refine Ensures.bind (hdone.pushvalue (by rw [hsummary]; rfl) (by rw [hsummary]; rfl))
    fun L₂ h₂ => ?_
  have hlatency := h₂.newuserdata .latency
  have hlatency_top : (L₂.newuserdata .latency).top = 3 := hlatency.top_eq
  refine Ensures.bind ((hlatency.getmetatable (luaName "wrk.stats")).setmetatable
    (by rw [hlatency_top]; rfl) (by rw [hlatency_top]; rfl)) fun L₃ h₃ => ?_
  have hrequests := h₃.newuserdata .requests
  have hrequests_top : (L₃.newuserdata .requests).top = 4 := hrequests.top_eq
  refine Ensures.bind ((hrequests.getmetatable (luaName "wrk.stats")).setmetatable
    (by rw [hrequests_top]; rfl) (by rw [hrequests_top]; rfl)) fun L₄ h₄ => ?_
  refine Ensures.bind (h₄.enter [_, _, _]) ?_
  rintro L₅ ⟨h₅, hcalls⟩
  have hpop : (L₅.leave heap).pop 1 = .ok ((L₅.leave heap).setStack []) := by
    rw [MainLua.pop, MainLua.leave, (h₅.setHeap heap).stack_eq]
    rfl
  rw [hpop]
  exact ⟨(h₅.setHeap heap).setStack, hcalls⟩

end MainLua

/-! ## The objects -/

theorem errors_notMem_summaryFields (duration requests bytes : BitVec 64) :
    (summaryFields duration requests bytes).lookup (luaName "errors") = none := by
  rw [List.lookup_eq_none_iff]
  simp [summaryFields, luaName_inj]

theorem fieldsTable_concat {fields : List (LuaName × MainValue)} {name : LuaName}
    (hnone : fields.lookup name = none) (v : MainValue) :
    fieldsTable (fields ++ [(name, v)]) = Function.update (fieldsTable fields) name v := by
  funext key
  by_cases hkey : key = name
  · subst hkey
    simp [fieldsTable, hnone, List.lookup_append]
  · have hbeq : (key == name) = false := beq_false_of_ne hkey
    simp [fieldsTable, hkey, List.lookup_append, List.lookup_cons, hbeq]

/-- On an empty stack the three functions do what they are meant to. -/
theorem doneRight_of_empty {L : MainLua} (hL : L.stack = []) (hright : L.Right) {f : ℕ}
    (hf : L.heap.globals (luaName "done") = .function f) (report : RunReport) (heap : LuaHeap) :
    DoneRight L report heap := by
  let h₁ := L.heap.withSummary report.duration report.requests report.bytes
  let h₂ := h₁.withErrors L.heap.objects report.errors
  obtain ⟨L₁, hsummary, hL₁⟩ := (MainLua.scriptSummary_ends hL report.duration report.requests
    report.bytes).exists_ok
  obtain ⟨L₂, herrors, hL₂⟩ := (MainLua.scriptErrors_ends hL₁ report.errors).exists_ok
  have hf₂ : h₂.globals (luaName "done") = .function f := by
    rw [LuaHeap.withErrors_globals, LuaHeap.withSummary_globals, hf]
  obtain ⟨L₃, hdone, hL₃, hcalls⟩ := (MainLua.scriptDone_ends hL₂ hf₂ heap).exists_ok
  refine ⟨L₁, L₂, L₃, _, L.heap.objects, h₁.objects, h₂.objects, h₂.objects + 1, hsummary,
    herrors, hdone, hL₁.right hright, hL₂.right hright, hL₃.right hright, hcalls, hf.symm, ?_⟩
  have hne : L.heap.objects ≠ h₁.objects := by
    rw [LuaHeap.withSummary_objects]
    exact Nat.ne_of_lt (Nat.lt_succ_self _)
  exact
    { args_eq := rfl
      summary_eq := by
        rw [fieldsTable_concat (errors_notMem_summaryFields ..), ← LuaHeap.withSummary_tables,
          LuaHeap.withStats_tables, LuaHeap.withErrors_summary hne]
      errors_eq := by rw [LuaHeap.withStats_tables, LuaHeap.withErrors_errors hne]
      latency_eq := h₂.withStats_pointers.1
      requests_eq := h₂.withStats_pointers.2
      metatables_eq := h₂.withStats_metatables }

/-! ## Values below the summary -/

namespace MainLua

variable {L L' : MainLua} {index : ℤ} {meant : ℕ}

theorem setfield_accesses {name : LuaName} (h : L.setfield index meant name = .ok L') :
    L'.accesses = ⟨L.slot index, meant⟩ :: L.accesses := by
  unfold setfield at h
  split at h
  · cases h
    rfl
  · cases h
  · cases h

theorem setFields_accesses : ∀ (fields : List (LuaName × MainValue)) {L : MainLua},
    L.setFields index meant fields = .ok L' → L.accesses ⊆ L'.accesses
  | [], _, h => by
      cases h
      exact List.Subset.refl _
  | field :: fields, L, h => by
      obtain ⟨L₁, (hfield : (L.push field.2).setfield index meant field.1 = .ok L₁), hrest⟩ :=
        except_bind_eq_ok.mp h
      have haccesses := setfield_accesses hfield
      have hrest := setFields_accesses fields hrest
      rw [haccesses] at hrest
      exact List.Subset.trans (List.subset_cons_self ..) hrest

/-- With a value below it the summary is not at the index 1. -/
theorem scriptSummary_empty {duration requests bytes : BitVec 64}
    (h : L.scriptSummary duration requests bytes = .ok L') (hright : L'.Right) : L.stack = [] := by
  obtain ⟨L₁, hfield, hrest⟩ := except_bind_eq_ok.mp h
  have haccesses : L₁.accesses = ⟨stackSlot (L.stack.length + 2) 1, L.stack.length⟩ :: L.accesses :=
    setfield_accesses hfield
  have haccess := hright _ (setFields_accesses _ hrest (haccesses ▸ List.mem_cons_self))
  have hslot : stackSlot (L.stack.length + 2) 1 = some 0 := by simp [stackSlot]
  exact List.length_eq_zero_iff.mp (Option.some.inj (hslot.symm.trans haccess)).symm

theorem scriptHasDone_ends (L : MainLua) : Succeeds L.scriptHasDone fun result =>
    result.1 = (L.heap.globals (luaName "done")).isFunction ∧
      L.Ends L.stack L.heap result.2 := by
  have h : L.Ends L.stack L.heap L := ⟨.refl L, rfl, rfl⟩
  have hglobal := h.getglobal (luaName "done")
  have hslot := hglobal.slot_top
  have hat : (L.getglobal (luaName "done")).at? (-1) = some (L.heap.globals (luaName "done")) := by
    rw [hglobal.at?_eq hslot, hglobal.top_eq]
    simp
  refine ((hglobal.access hslot).pop (Nat.le_add_left 1 _)).map fun L' hL' => ⟨?_, hL'⟩
  rw [hat]
  rfl

end MainLua

theorem DoneRight.empty {L : MainLua} {report : RunReport} {heap : LuaHeap}
    (h : DoneRight L report heap) : L.stack = [] := by
  obtain ⟨L₁, -, -, -, -, -, -, -, hsummary, -, -, hright, -⟩ := h
  exact MainLua.scriptSummary_empty hsummary hright

/-! ## All runs -/

/-- No call of the Lua API before the run addresses another slot than it means
to, be it in the main state or in the state of a thread, as long as `setup`
transfers scalars only, with a name for each. Then `done` gets the right
objects if and only if the file of the script has left nothing on the main
stack. -/
theorem done_objects_iff (i : ScriptInputs) (fmt : BitVec 64 → List UInt8) (fuel : ℕ) :
    (∀ file, Meets (MainLua.scriptCreate i.url i.parts i.headers i.isTcp i.version file)
      MainLua.Right) ∧
    i.started ≠ .error .misuse ∧
    ∀ s, (initMachine i fmt fuel).ReachableWith (movesScalars fmt · ·) s →
      s.Right ∧
      (∀ e, movesScalars fmt s e = true → initStep fmt fuel s e ≠ some (.error .misuse)) ∧
      (s.thread = none → ∀ L, s.main.scriptHasDone = .ok (true, L) →
        ∀ report heap, DoneRight L report heap ↔ leftBy i.file = []) := by
  refine ⟨fun file => (MainLua.scriptCreate_meets ..).mono fun L hL => hL.2,
    fun hstarted => i.started_meets.of_error hstarted rfl, fun s h => ?_⟩
  have hinv := initMachine_inv h
  refine ⟨hinv.right, fun e hok hstep => (hinv.step hok hstep).of_error rfl rfl, ?_⟩
  intro hidle L hhasDone report heap
  obtain ⟨hfunction, hL⟩ := s.main.scriptHasDone_ends.of_ok hhasDone
  have hstack : L.stack = (leftBy i.file).reverse := hL.stack_eq.trans (hinv.idle hidle)
  constructor
  · intro hdone
    exact List.reverse_eq_nil_iff.mp (hstack.symm.trans hdone.empty)
  · intro hleft
    rw [hleft] at hstack
    cases hglobal : s.main.heap.globals (luaName "done") with
    | function f =>
        exact doneRight_of_empty hstack (hL.right hinv.main_right) (hL.heap_eq ▸ hglobal) report
          heap
    | _ =>
        rw [hglobal] at hfunction
        cases hfunction

/-- The heap after a file that defines `done`, and that has made the table 5. -/
def heapWithDone : LuaHeap where
  globals := fieldsTable [(luaName "wrk", .table 0), (luaName "done", .function 15)]
  registry := fieldsTable [(luaName "wrk.addr", .table 2), (luaName "wrk.stats", .table 3),
    (luaName "wrk.thread", .table 4)]
  tables ref := fieldsTable (if ref = 0 then wrkFields else [])
  pointers _ := .thread
  metatables _ := .nil
  objects := 6

/-- A file that defines `done` and returns these values. -/
def inputsWithDone (values : List MainValue) : ScriptInputs where
  url := "http://localhost/".toUTF8.toList
  parts := .zeroed
  headers := ["A: b".toUTF8.toList]
  isTcp := true
  version := 11
  host := luaName "localhost"
  service := luaName "http"
  file := some ⟨.returns values, heapWithDone⟩
  heap := heapWithDone

/-- One thread, whose `setup` reads `x`, sets `y` and reads the address. -/
def setupEvents : List InitEvent :=
  let globals (name : List UInt8) : LuaValue :=
    if name = luaName "wrk" then .table 0 [(.string (luaName "init"), .other "function")]
    else luaInteger 3
  [.enter ⟨[], globals, 1⟩, .get [.string (luaName "x")],
    .set [.string (luaName "y"), .boolean true], .addr,
    .leave heapWithDone [luaName "a"] ⟨[], globals, 1⟩]

theorem exists_setupRun (values : List MainValue) {α : Type} (f : InitRun → α) {a : α}
    (h : ((inputsWithDone values).started.toOption.bind fun s =>
      (Runs.runEvents (Runs.guarded (movesScalars (fun _ => []) · ·) (initNext (fun _ => []) 1)) s
        setupEvents).map f) = some a) :
    ∃ s, (initMachine (inputsWithDone values) (fun _ => []) 1).ReachableWith
      (movesScalars (fun _ => []) · ·) s ∧ f s = a := by
  obtain ⟨s, hs, hrun⟩ := Option.bind_eq_some_iff.mp h
  exact Runs.exists_reachableWith_of_runEvents f setupEvents (except_toOption_eq_some.mp hs) hrun

def smallReport : RunReport := ⟨1000000, 10, 2000, ⟨0, 0, 0, 0, 0⟩⟩

theorem done_objects_iff_silent : ∃ s L,
    (initMachine (inputsWithDone []) (fun _ => []) 1).ReachableWith
      (movesScalars (fun _ => []) · ·) s ∧
    s.main.scriptHasDone = .ok (true, L) ∧ DoneRight L smallReport heapWithDone := by
  obtain ⟨s, hs, hobserved⟩ := exists_setupRun []
    (fun s => (s.thread.isNone, s.main.scriptHasDone.toOption.map Prod.fst))
    (a := (true, some true)) (by decide +kernel)
  obtain ⟨hidle, hhasDone⟩ := Prod.mk.inj hobserved
  obtain ⟨⟨hasDone, L⟩, hL, rfl⟩ := Option.map_eq_some_iff.mp hhasDone
  have hL := except_toOption_eq_some.mp hL
  have hright := ((done_objects_iff (inputsWithDone []) (fun _ => []) 1).2.2 s hs).2.2
    (Option.isNone_iff_eq_none.mp hidle) L hL smallReport heapWithDone
  exact ⟨s, L, hs, hL, hright.mpr rfl⟩

def metatableOf (heap : LuaHeap) : MainValue → MainValue
  | .table ref | .userdata ref => heap.metatables ref
  | _ => .nil

/-- The arguments of the call of `done`, with their metatables. -/
def doneArguments (L : MainLua) (report : RunReport) (heap : LuaHeap) :
    Option (List (MainValue × MainValue)) := do
  let L ← (L.scriptSummary report.duration report.requests report.bytes).toOption
  let L ← (L.scriptErrors report.errors).toOption
  let L ← (L.scriptDone heap).toOption
  L.calls.head?.map fun record => record.args.map fun v => (v, metatableOf record.heap v)

set_option synthInstance.maxSize 400 in
/-- When the file returns the table 5, `done` gets that table for its summary,
with the metatable of the stats, and request stats without a metatable. -/
theorem done_gets_returned_table : ∃ s L,
    (initMachine (inputsWithDone [.table 5]) (fun _ => []) 1).ReachableWith
      (movesScalars (fun _ => []) · ·) s ∧
    s.thread = none ∧ s.main.scriptHasDone = .ok (true, L) ∧
    doneArguments L smallReport heapWithDone =
      some [(.table 5, .table 3), (.userdata 8, .table 3), (.userdata 9, .nil)] ∧
    ¬DoneRight L smallReport heapWithDone := by
  obtain ⟨s, hs, hobserved⟩ := exists_setupRun [.table 5]
    (fun s => (s.thread.isNone, s.main.scriptHasDone.toOption.map fun result =>
      (result.1, doneArguments result.2 smallReport heapWithDone)))
    (a := (true, some (true, some [(.table 5, .table 3), (.userdata 8, .table 3),
      (.userdata 9, .nil)]))) (by decide +kernel)
  obtain ⟨hidle, hhasDone⟩ := Prod.mk.inj hobserved
  have hidle := Option.isNone_iff_eq_none.mp hidle
  obtain ⟨⟨hasDone, L⟩, hL, hresult⟩ := Option.map_eq_some_iff.mp hhasDone
  obtain ⟨rfl, hargs⟩ := Prod.mk.inj hresult
  have hL := except_toOption_eq_some.mp hL
  have hstack : L.stack = [.table 5] :=
    (s.main.scriptHasDone_ends.of_ok hL).2.stack_eq.trans ((initMachine_inv hs).idle hidle)
  refine ⟨s, L, hs, hidle, hL, hargs, fun hright => ?_⟩
  rw [hright.empty] at hstack
  cases hstack

end WrkQuic
