import Mathlib.Data.List.Induction
import WrkQuic.Lua
import WrkQuic.ResponseLeak

/-!
# The header table

`script_response` sets the headers of a response one by one in a new Lua
table, so that a name that comes twice keeps its last value. A response that
starts with empty buffers reaches the script as it was delivered, and no
store on the way falls outside of a buffer: `Buffer.store` has no result
there, and neither has a run that contains it.
-/

namespace WrkQuic

/-- The table of `script_response` after its calls of `lua_rawset`. -/
def headersTable (rawsets : List (Bytes × Bytes)) : LuaEntries :=
  rawsets.foldl (fun entries p => tabSet (.string p.1) (.string p.2) entries) []

/-! ## Setting and getting -/

theorem rawEq_string {key : LuaValue} {bytes : Bytes} :
    rawEq key (.string bytes) = true ↔ key = .string bytes := by
  cases key with
  | string s => rw [rawEq, beq_iff_eq, LuaValue.string.injEq]
  | _ => exact ⟨fun h => (Bool.false_ne_true h).elim, fun h => by cases h⟩

theorem string_rawEq {key : LuaValue} {bytes : Bytes} :
    rawEq (.string bytes) key = true ↔ key = .string bytes := by
  cases key with
  | string s => rw [rawEq, beq_iff_eq, LuaValue.string.injEq, eq_comm]
  | _ => exact ⟨fun h => (Bool.false_ne_true h).elim, fun h => by cases h⟩

theorem tabGet_cons (key k v : LuaValue) (entries : LuaEntries) :
    tabGet ((k, v) :: entries) key = if rawEq k key then some v else tabGet entries key := by
  unfold tabGet
  rw [List.find?_cons]
  cases rawEq k key with
  | true => rfl
  | false => rfl

theorem tabGet_tabSet (name value : Bytes) (key : LuaValue) (entries : LuaEntries) :
    tabGet (tabSet (.string name) (.string value) entries) key =
      if rawEq (.string name) key then some (.string value) else tabGet entries key := by
  induction entries with
  | nil => exact tabGet_cons key (.string name) (.string value) []
  | cons entry entries ih =>
      obtain ⟨k, v⟩ := entry
      by_cases hsame : rawEq k (.string name) = true
      · have hset : tabSet (.string name) (.string value) ((k, v) :: entries) =
            (k, .string value) :: entries := by
          rw [tabSet, if_pos hsame]
          rfl
        obtain rfl := rawEq_string.mp hsame
        rw [hset, tabGet_cons, tabGet_cons]
        by_cases hkey : rawEq (.string name) key = true
        · rw [if_pos hkey, if_pos hkey]
        · rw [if_neg hkey, if_neg hkey, if_neg hkey]
      · have hset : tabSet (.string name) (.string value) ((k, v) :: entries) =
            (k, v) :: tabSet (.string name) (.string value) entries := by
          rw [tabSet, if_neg hsame]
        rw [hset, tabGet_cons, tabGet_cons, ih]
        by_cases hkey : rawEq (.string name) key = true
        · obtain rfl := string_rawEq.mp hkey
          rw [if_neg hsame, if_pos hkey, if_pos hkey]
        · rw [if_neg hkey, if_neg hkey]

/-- What a name is set to last, in a list of names and values. -/
def lastValue (hs : List (Bytes × Bytes)) (name : Bytes) : Option Bytes :=
  (hs.filter fun p => p.1 = name).getLast?.map Prod.snd

theorem lastValue_concat (hs : List (Bytes × Bytes)) (p : Bytes × Bytes) (name : Bytes) :
    lastValue (hs ++ [p]) name = if p.1 = name then some p.2 else lastValue hs name := by
  unfold lastValue
  rw [List.filter_append]
  by_cases hname : p.1 = name
  · have hlast : [p].filter (fun p => p.1 = name) = [p] :=
      List.filter_cons_of_pos (decide_eq_true hname)
    rw [if_pos hname, hlast, List.getLast?_concat]
    rfl
  · have hnone : [p].filter (fun p => p.1 = name) = [] :=
      List.filter_cons_of_neg fun h => hname (of_decide_eq_true h)
    rw [if_neg hname, hnone, List.append_nil]

/-- The table maps each name to its last value, and nothing else. -/
theorem tabGet_headersTable (hs : List (Bytes × Bytes)) (key v : LuaValue) :
    tabGet (headersTable hs) key = some v ↔
      ∃ name value, key = .string name ∧ v = .string value ∧
        lastValue hs name = some value := by
  induction hs using List.reverseRecOn with
  | nil =>
      constructor
      · intro h
        cases h
      · rintro ⟨name, value, -, -, h⟩
        cases h
  | append_singleton hs p ih =>
      have htable : headersTable (hs ++ [p]) =
          tabSet (.string p.1) (.string p.2) (headersTable hs) := by
        rw [headersTable, List.foldl_concat]
        rfl
      rw [htable, tabGet_tabSet]
      by_cases hkey : rawEq (.string p.1) key = true
      · obtain rfl := string_rawEq.mp hkey
        rw [if_pos hkey]
        constructor
        · intro h
          refine ⟨p.1, p.2, rfl, (Option.some.inj h).symm, ?_⟩
          rw [lastValue_concat, if_pos rfl]
        · rintro ⟨name, value, hname, rfl, hlast⟩
          obtain rfl := LuaValue.string.inj hname
          rw [lastValue_concat, if_pos rfl] at hlast
          rw [Option.some.inj hlast]
      · rw [if_neg hkey, ih]
        have hother {name : Bytes} (hname : key = .string name) : p.1 ≠ name := by
          rintro rfl
          exact hkey (string_rawEq.mpr hname)
        constructor
        · rintro ⟨name, value, hname, hv, hlast⟩
          refine ⟨name, value, hname, hv, ?_⟩
          rw [lastValue_concat, if_neg (hother hname)]
          exact hlast
        · rintro ⟨name, value, hname, hv, hlast⟩
          refine ⟨name, value, hname, hv, ?_⟩
          rw [lastValue_concat, if_neg (hother hname)] at hlast
          exact hlast

/-! ## A response -/

/-- A buffer as `zcalloc` or `buffer_reset` leaves it. -/
def Buffer.Empty (b : Buffer) : Prop := b = .zeroed ∨ ∃ used : Buffer, b = bufferReset used

theorem Buffer.Empty.holds {b : Buffer} (h : b.Empty) : b.Holds [] := by
  rcases h with rfl | ⟨used, rfl⟩
  · exact Buffer.holds_zeroed
  · exact Buffer.holds_reset used

theorem nulCount_nulFree {hs : List (Bytes × Bytes)} (h : ∀ p ∈ hs, 0 ∉ p.1 ∧ 0 ∉ p.2) :
    nulCount hs = 0 := by
  refine List.sum_eq_zero fun n hn => ?_
  obtain ⟨p, hp, rfl⟩ := List.mem_map.mp hn
  show p.1.count 0 + p.2.count 0 = 0
  rw [List.count_eq_zero_of_not_mem (h p hp).1, List.count_eq_zero_of_not_mem (h p hp).2]

/-- A response that starts with empty buffers, however its headers and its
body are delivered: every store falls inside its buffer, `response` is called
once, its table maps each name to the last value of that name and nothing
else, and its body is the body. The buffers are empty again. -/
theorem response_round_trip (c : Slot) (hheaders : c.headers.Empty) (hbody : c.body.Empty)
    (hstate : c.state = .field) (r : DeliveredResponse) (hne : r.headerList ≠ [])
    (hnul : ∀ p ∈ r.headerList, 0 ∉ p.1 ∧ 0 ∉ p.2) :
    ∃ c' call, runSlot c (r.dataEvents ++ [.complete r.status r.user]) = some c' ∧
      c'.calls = c.calls ++ [call] ∧
      (∀ key v, tabGet (headersTable call.headers) key = some v ↔
        ∃ name value, key = .string name ∧ v = .string value ∧
          lastValue r.headerList name = some value) ∧
      call.body = r.bodyText ∧ call.status = r.status ∧
      c'.state = .field ∧ c'.headers.cursor = 0 ∧ c'.body.cursor = 0 := by
  have hfilling : c.Filling [] [] := ⟨Or.inl ⟨rfl, hstate, hheaders.holds⟩, hbody.holds⟩
  have heven : Even (nulCount r.headerList) := by
    rw [nulCount_nulFree hnul]
    exact Even.zero
  obtain ⟨c₁, hdata, hfilled, hcalls⟩ := deliverData hfilling r
  obtain ⟨c₂, hcomplete, hempty, hcalls'⟩ :=
    responseToScript_filling hfilled hne heven r.status r.user
  rw [hcalls, tableOf_nulFree hnul] at hcalls'
  refine ⟨c₂, _, ?_, hcalls', tabGet_headersTable r.headerList, rfl, rfl, ?_⟩
  · rw [runSlot_append, hdata, Option.bind_some, runSlot_cons, slotStep, hcomplete]
    rfl
  · rcases hempty.headers with ⟨-, hfield, hholds⟩ | ⟨-, -, unended, hend, -⟩
    · exact ⟨hfield, hholds.cursor, hempty.body.cursor⟩
    · exact absurd hend.symm (List.append_ne_nil_of_right_ne_nil unended (List.cons_ne_nil 0 []))

/-- A body in two parts, a name in three, one of them empty, and an empty
value. -/
theorem response_round_trip_one : ∃ c' call,
    runSlot Slot.initial ([.headerField [65], .headerField [], .headerField [66],
      .headerValue [], .body [104], .body [105], .complete 200 []]) = some c' ∧
    c'.calls = [] ++ [call] ∧
    tabGet (headersTable call.headers) (.string [65, 66]) = some (.string []) ∧
    call.body = [104, 105] := by
  obtain ⟨c', call, hrun, hcalls, htable, hbody, -⟩ :=
    response_round_trip .initial (Or.inl rfl) (Or.inl rfl) rfl
      ⟨200, [⟨⟨[65], [[], [66]]⟩, ⟨[], []⟩⟩], [[104], [105]], [], true, []⟩
      (by decide) (by decide)
  exact ⟨c', call, hrun, hcalls, (htable _ _).mpr ⟨[65, 66], [], rfl, rfl, by decide⟩, hbody⟩

end WrkQuic
