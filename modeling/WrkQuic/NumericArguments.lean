import Mathlib.Data.List.TakeWhile
import WrkQuic.Options
import WrkQuic.Recording

/-!
# Numeric arguments

The number that an argument stands for, and what `scan_units`, `parse_args`
and `main` make of it in 64 bits. Nothing is checked on the way, so each
result is right exactly as long as it fits.
-/

namespace WrkQuic

/-! ## The arguments as numbers -/

/-- The scale of `unit`, starting from `scale`, without overflow. -/
def exactScale (unit : Arg) (step : ℕ) : ℕ → List Arg → Option ℕ
  | _, [] => none
  | scale, u :: us =>
      if strncasecmp3 unit u then some (scale * step) else exactScale unit step (scale * step) us

/-- The scale that the table gives `unit`, when there is one. -/
def scaleOf (unit : Arg) (m : Units) : Option ℕ :=
  if unit ≠ [] && !strncasecmp3 unit m.base then exactScale unit m.scale 1 m.units else some 1

/-- The number in `s`, as `sscanf` reads it, times the scale of its unit. -/
def exactUnits (s : Arg) (m : Units) : Option ℕ := do
  let (base, rest) ← scanNumber s
  let scale ← scaleOf (scanWord rest) m
  some (base * scale)

theorem unitScale_eq (unit : Arg) (step : ℕ) (us : List Arg) : ∀ scale,
    unitScale unit step (scale % 2 ^ 64) us =
      (exactScale unit step scale us).map (· % 2 ^ 64) := by
  induction us with
  | nil => exact fun _ => rfl
  | cons u us ih =>
      intro scale
      rw [unitScale, exactScale, Nat.mod_mul_mod]
      split
      · rfl
      · exact ih (scale * step)

theorem scanUnits_eq (s : Arg) (m : Units) :
    scanUnits s m = (exactUnits s m).map (· % 2 ^ 64) := by
  unfold scanUnits exactUnits
  cases scanNumber s with
  | none => rfl
  | some r =>
      obtain ⟨base, rest⟩ := r
      simp only [Option.bind_eq_bind, Option.bind_some, scaleOf]
      split
      · have hscale := unitScale_eq (scanWord rest) m.scale m.units 1
        rw [Nat.mod_eq_of_lt (by decide)] at hscale
        rw [hscale]
        cases exactScale (scanWord rest) m.scale 1 m.units with
        | none => rfl
        | some scale => simp [Nat.mul_mod]
      · rfl

/-! ## Numerals -/

/-- Two units that differ in case only. -/
theorem scaleOf_congr {unit unit' : Arg} (h : unit.map Char.toLower = unit'.map Char.toLower)
    (m : Units) : scaleOf unit m = scaleOf unit' m := by
  have hsame (t : Arg) : strncasecmp3 unit t = strncasecmp3 unit' t := by
    rw [strncasecmp3, strncasecmp3, List.map_take, List.map_take, List.map_take, h]
  have hscale (step : ℕ) (us : List Arg) : ∀ scale,
      exactScale unit step scale us = exactScale unit' step scale us := by
    induction us with
    | nil => exact fun _ => rfl
    | cons u us ih =>
        intro scale
        rw [exactScale, exactScale, hsame, ih]
  have hnil : unit = [] ↔ unit' = [] := by
    rw [← List.map_eq_nil_iff (f := Char.toLower), h, List.map_eq_nil_iff]
  simp only [scaleOf, hsame, hscale, ne_eq, hnil]

theorem isAlpha_of_toLower {c : Char} (h : c.toLower.isLower = true) : c.isAlpha = true := by
  unfold Char.toLower at h
  split at h
  · rename_i hupper
    have hupper : c.isUpper = true := decide_eq_true hupper
    exact Bool.or_eq_true_iff.mpr (Or.inl hupper)
  · exact Bool.or_eq_true_iff.mpr (Or.inr h)

theorem isAlpha_only {c : Char} (h : c.isAlpha = true) :
    c.isDigit = false ∧ isSpace c = false := by
  change (decide (c.val ≥ 'A'.val ∧ c.val ≤ 'Z'.val) ||
    (c.val ≥ 'a'.val && c.val ≤ 'z'.val)) = true at h
  simp only [Char.isDigit, isSpace, Char.le_def, Bool.or_eq_true, Bool.and_eq_true,
    decide_eq_true_eq, Bool.or_eq_false_iff, Bool.and_eq_false_iff, decide_eq_false_iff_not,
    Char.ext_iff] at *
  simp [UInt32.le_iff_toNat_le, ← UInt32.toNat_inj] at *
  omega

theorem isDigit_only {c : Char} (h : c.isDigit = true) :
    isSpace c = false ∧ c ≠ '-' ∧ c ≠ '+' := by
  simp only [Char.isDigit, isSpace, Char.le_def, Bool.and_eq_true, decide_eq_true_eq,
    Bool.or_eq_false_iff, Bool.and_eq_false_iff, decide_eq_false_iff_not, Char.ext_iff,
    ne_eq] at *
  simp [UInt32.le_iff_toNat_le, ← UInt32.toNat_inj] at *
  omega

theorem scanDigits_numeral {digits unit : Arg} (hne : digits ≠ [])
    (hdigits : ∀ c ∈ digits, c.isDigit = true) (hunit : ∀ c ∈ unit, c.isAlpha = true) :
    scanDigits (digits ++ unit) = (false, digits, unit) := by
  have htake : (digits ++ unit).takeWhile Char.isDigit = digits := by
    have hstop : unit.takeWhile Char.isDigit = [] := by
      cases unit with
      | nil => rfl
      | cons c rest =>
          exact List.takeWhile_cons_of_neg (by simp [(isAlpha_only (hunit c (by simp))).1])
    rw [List.takeWhile_append_of_pos hdigits, hstop, List.append_nil]
  cases digits with
  | nil => exact absurd rfl hne
  | cons c rest =>
      obtain ⟨hspace, hminus, hplus⟩ := isDigit_only (hdigits c (by simp))
      have hstart : (c :: rest ++ unit).dropWhile isSpace = c :: rest ++ unit :=
        List.dropWhile_cons_of_neg (by simp [hspace])
      unfold scanDigits
      simp only [hstart]
      split
      · rename_i heq
        exact absurd (List.cons.inj heq).1 hminus
      · rename_i heq
        exact absurd (List.cons.inj heq).1 hplus
      · simp only [htake, List.drop_left]

theorem scanWord_unit {unit : Arg} (hunit : ∀ c ∈ unit, c.isAlpha = true)
    (hlength : unit.length ≤ 2) : scanWord unit = unit := by
  have hword : ∀ c ∈ unit, (!isSpace c) = true := by
    intro c hc
    rw [(isAlpha_only (hunit c hc)).2]
    rfl
  have hstart : unit.dropWhile isSpace = unit := by
    cases unit with
    | nil => rfl
    | cons c rest =>
        exact List.dropWhile_cons_of_neg (by simp [(isAlpha_only (hunit c (by simp))).2])
  rw [scanWord, hstart, List.takeWhile_eq_self_iff.mpr hword, List.take_of_length_le hlength]

/-- The units of a table with their scales. -/
def Units.scales (m : Units) : List (Arg × ℕ) :=
  (m.base, 1) :: m.units.zipIdx.map fun (u, i) => (u, m.scale ^ (i + 1))

/-- The scale of one unit, or of none, in either case. -/
def Units.Denotes (m : Units) (unit : Arg) (scale : ℕ) : Prop :=
  unit = [] ∧ scale = 1 ∨
    ∃ u, (u, scale) ∈ m.scales ∧ unit.map Char.toLower = u.map Char.toLower

/-- The tables that arguments are read with. -/
def scanned : List Units := [metricUnits, timeUnitsS]

theorem scales_scanned : ∀ m ∈ scanned, ∀ e ∈ m.scales, scaleOf e.1 m = some e.2 ∧
    e.1.length ≤ 1 ∧ (e.1.all fun c => c.toLower.isLower) = true := by
  decide +kernel

theorem Units.Denotes.scaleOf {m : Units} (hm : m ∈ scanned) {unit : Arg} {scale : ℕ}
    (h : m.Denotes unit scale) :
    WrkQuic.scaleOf unit m = some scale ∧ unit.length ≤ 2 ∧ ∀ c ∈ unit, c.isAlpha = true := by
  rcases h with ⟨rfl, rfl⟩ | ⟨u, hu, hsame⟩
  · exact ⟨rfl, by decide, by simp⟩
  · obtain ⟨hscale, hlength, hletters⟩ := scales_scanned m hm _ hu
    have hlengths := congrArg List.length hsame
    rw [List.length_map, List.length_map] at hlengths
    refine ⟨(scaleOf_congr hsame m).trans hscale, by simp only at hlength; omega, fun c hc => ?_⟩
    obtain ⟨c', hc', hlower⟩ := List.mem_map.mp (hsame ▸ List.mem_map_of_mem hc)
    exact isAlpha_of_toLower (hlower ▸ List.all_eq_true.mp hletters c' hc')

/-- An unsigned decimal number that fits in 64 bits, and at most one unit
behind it. -/
structure Numeral (m : Units) where
  digits : Arg
  unit : Arg
  scale : ℕ
  digits_ne_nil : digits ≠ []
  isDigit : ∀ c ∈ digits, c.isDigit = true
  fits : decimalValue digits < 2 ^ 64
  denotes : m.Denotes unit scale

namespace Numeral

variable {m : Units}

def text (a : Numeral m) : Arg := a.digits ++ a.unit

def value (a : Numeral m) : ℕ := decimalValue a.digits * a.scale

theorem exactUnits_text (hm : m ∈ scanned) (a : Numeral m) :
    exactUnits a.text m = some a.value := by
  obtain ⟨hscale, hlength, hletters⟩ := a.denotes.scaleOf hm
  have hscan := scanDigits_numeral a.digits_ne_nil a.isDigit hletters
  have hfits : ¬ 2 ^ 64 ≤ decimalValue a.digits := Nat.not_le.mpr a.fits
  have hnumber : scanNumber a.text = some (decimalValue a.digits, a.unit) := by
    unfold scanNumber text
    rw [hscan]
    simp only [if_neg a.digits_ne_nil, if_neg hfits]
    rfl
  rw [exactUnits, hnumber]
  simp only [Option.bind_eq_bind, Option.bind_some, scanWord_unit hletters hlength, hscale]
  rfl

/-- Every numeral is read, but its value is reduced. -/
theorem scanUnits_text (hm : m ∈ scanned) (a : Numeral m) :
    scanUnits a.text m = some (a.value % 2 ^ 64) := by
  rw [scanUnits_eq, a.exactUnits_text hm]
  rfl

end Numeral

/-! ## Durations and timeouts -/

/-- The seconds that the last option `c` asks for. -/
def givenSeconds (c : Char) (default : ℕ) (argv : List Arg) : ℕ :=
  ((lastOf c (options argv)).bind (exactUnits · timeUnitsS)).getD default

/-- Nothing has wrapped between options that ask for `d` and `t` seconds and
the two places where the times are used: the end of the run, for a clock that
reads `now`, and the age at which `check_timeouts` counts a connection. -/
structure TimesExact (cfg : ParsedConfig) (now d t : ℕ) : Prop where
  duration : cfg.duration = d
  timeout : cfg.timeout = t * 1000
  stop : stopTime now cfg.duration = now + d * 1000000
  after : now < stopTime now cfg.duration
  age : cfg.timeout * 1000 % 2 ^ 64 = t * 1000 * 1000

section

variable {inetAddr : Arg → ℕ} {scriptParseUrl : Arg → Bool} {argv : List Arg} {r : ParsedArgs}

theorem parseArgs_duration_ne_zero (h : parseArgs inetAddr scriptParseUrl argv = some r) :
    r.cfg.duration ≠ 0 := by
  obtain ⟨⟨cfg, headers⟩, -, hchecks⟩ := Option.bind_eq_some_iff.mp h
  simp only at hchecks
  split at hchecks
  · cases hchecks
  · split at hchecks
    · cases hchecks
    rename_i hzero
    split at hchecks
    · cases hchecks
    split at hchecks
    · cases hchecks
    cases hchecks
    have hduration : cfg.duration ≠ 0 := fun h => hzero (Or.inr h)
    simp only
    split
    · exact hduration
    · exact hduration

theorem parseArgs_times (h : parseArgs inetAddr scriptParseUrl argv = some r) :
    r.cfg.duration = givenSeconds 'd' 10 argv % 2 ^ 64 ∧
      r.cfg.timeout = givenSeconds 'T' 2 argv * 1000 % 2 ^ 64 := by
  have hscan (s : Arg) : scanTime s = (exactUnits s timeUnitsS).map (· % 2 ^ 64) :=
    scanUnits_eq s timeUnitsS
  rw [parseArgs_cfg h]
  constructor
  · show ((lastOf 'd' (options argv)).bind scanTime).getD 10 = _
    rw [givenSeconds]
    cases lastOf 'd' (options argv) with
    | none => rfl
    | some s =>
        rw [Option.bind_some, Option.bind_some, hscan]
        cases exactUnits s timeUnitsS <;> rfl
  · show (((lastOf 'T' (options argv)).bind scanTime).map (· * 1000 % 2 ^ 64)).getD 2000 = _
    rw [givenSeconds]
    cases lastOf 'T' (options argv) with
    | none => rfl
    | some s =>
        rw [Option.bind_some, Option.bind_some, hscan]
        cases exactUnits s timeUnitsS with
        | none => rfl
        | some n => exact Nat.mod_mul_mod n 1000 (2 ^ 64)

theorem timesExact_iff (h : parseArgs inetAddr scriptParseUrl argv = some r) (now : ℕ) :
    TimesExact r.cfg now (givenSeconds 'd' 10 argv) (givenSeconds 'T' 2 argv) ↔
      now + givenSeconds 'd' 10 argv * 1000000 < 2 ^ 64 ∧
        givenSeconds 'T' 2 argv * 1000000 < 2 ^ 64 := by
  obtain ⟨hduration, htimeout⟩ := parseArgs_times h
  have hpos := parseArgs_duration_ne_zero h
  generalize givenSeconds 'd' 10 argv = d at *
  generalize givenSeconds 'T' 2 argv = t at *
  constructor
  · intro hexact
    have hstop := hexact.stop
    have hage := hexact.age
    rw [stopTime] at hstop
    omega
  · rintro ⟨hstop, hage⟩
    have hd : r.cfg.duration = d := by omega
    have ht : r.cfg.timeout = t * 1000 := by omega
    have hnow : stopTime now d = now + d * 1000000 := Nat.mod_eq_of_lt hstop
    exact
      { duration := hd
        timeout := ht
        stop := by rw [hd, hnow]
        after := by
          rw [hd, hnow]
          omega
        age := by
          rw [ht]
          omega }

end

/-- A number is read right exactly when its value fits in 64 bits, and the
times of a run are right exactly when they fit in microseconds. -/
theorem numeric_arguments_exact_iff (inetAddr : Arg → ℕ) (scriptParseUrl : Arg → Bool) :
    (∀ (a : Numeral metricUnits) (n : ℕ), scanMetric a.text = some n →
      (n = a.value ↔ a.value < 2 ^ 64)) ∧
    (∀ (a : Numeral timeUnitsS) (n : ℕ), scanTime a.text = some n →
      (n = a.value ↔ a.value < 2 ^ 64)) ∧
    ∀ (argv : List Arg) (r : ParsedArgs) (now : ℕ),
      parseArgs inetAddr scriptParseUrl argv = some r →
      (TimesExact r.cfg now (givenSeconds 'd' 10 argv) (givenSeconds 'T' 2 argv) ↔
        now + givenSeconds 'd' 10 argv * 1000000 < 2 ^ 64 ∧
          givenSeconds 'T' 2 argv * 1000000 < 2 ^ 64) := by
  have hreduced (v n : ℕ) (h : v % 2 ^ 64 = n) : n = v ↔ v < 2 ^ 64 := by
    constructor
    · intro heq
      omega
    · intro hlt
      omega
  refine ⟨fun a n h => ?_, fun a n h => ?_, fun argv r now h => timesExact_iff h now⟩
  · rw [scanMetric, a.scanUnits_text (by simp [scanned])] at h
    exact hreduced _ _ (Option.some.inj h)
  · rw [scanTime, a.scanUnits_text (by simp [scanned])] at h
    exact hreduced _ _ (Option.some.inj h)

theorem numeric_arguments_exact_iff_short :
    2000 = decimalValue ['2'] * 1000 ∧ 120 = decimalValue ['2'] * 60 ∧
      ∃ r, parseArgs (fun _ => 0) (fun _ => true)
          ["wrk".toList, "-d1h".toList, "http://h/".toList] = some r ∧
        TimesExact r.cfg 1000000 3600 2 := by
  let k : Numeral metricUnits :=
    ⟨['2'], ['k'], 1000, by decide, List.all_eq_true.mp (by decide), by decide,
      Or.inr ⟨['k'], by decide, rfl⟩⟩
  let m : Numeral timeUnitsS :=
    ⟨['2'], ['m'], 60, by decide, List.all_eq_true.mp (by decide), by decide,
      Or.inr ⟨['m'], by decide, rfl⟩⟩
  have hr : parseArgs (fun _ => 0) (fun _ => true)
      ["wrk".toList, "-d1h".toList, "http://h/".toList] =
        some ⟨{ defaultConfig with duration := 3600, rate := 2 ^ 64 - 1 },
          "http://h/".toList, []⟩ := by
    decide +kernel
  have hseconds : givenSeconds 'd' 10 ["wrk".toList, "-d1h".toList, "http://h/".toList] = 3600 ∧
      givenSeconds 'T' 2 ["wrk".toList, "-d1h".toList, "http://h/".toList] = 2 := by
    decide +kernel
  obtain ⟨hmetric, htime, htimes⟩ := numeric_arguments_exact_iff (fun _ => 0) (fun _ => true)
  refine ⟨(hmetric k 2000 (by decide +kernel)).mpr (by decide),
    (htime m 120 (by decide +kernel)).mpr (by decide), _, hr, ?_⟩
  have hexact := htimes _ _ 1000000 hr
  rw [hseconds.1, hseconds.2] at hexact
  exact hexact.mpr ⟨by decide, by decide⟩

/-- `-R 18446744073709552k` is a rate of 384, and with `-d 18446744073709` the
end of the run comes before its start. -/
theorem numeric_arguments_wrap :
    (∃ a : Numeral metricUnits, a.text = "18446744073709552k".toList ∧
      scanMetric a.text = some 384 ∧ a.value = 18446744073709552000) ∧
      ∃ r, parseArgs (fun _ => 0) (fun _ => true)
          ["wrk".toList, "-d18446744073709".toList, "http://h/".toList] = some r ∧
        r.cfg.duration = 18446744073709 ∧ stopTime 1000000000 r.cfg.duration < 1000000000 := by
  let a : Numeral metricUnits :=
    ⟨"18446744073709552".toList, ['k'], 1000, by decide, List.all_eq_true.mp (by decide +kernel),
      by decide +kernel, Or.inr ⟨['k'], by decide, rfl⟩⟩
  refine ⟨⟨a, by decide +kernel, by decide +kernel, by decide +kernel⟩,
    ⟨{ defaultConfig with duration := 18446744073709, rate := 2 ^ 64 - 1 },
      "http://h/".toList, []⟩, ?_, rfl, ?_⟩
  · decide +kernel
  · decide

end WrkQuic
