import Mathlib.Data.List.Induction
import WrkQuic.Units

/-!
# The command line

`parse_args` reads the options that `getopt_long` finds among the arguments,
one after the other, into `cfg`. Each of them sets the field of `cfg` that is
its own; `-p` sets `affinity` besides, since its case runs on into that of
`-a`.
-/

namespace WrkQuic

/-! ## getopt_long -/

/-- What a call of `getopt_long` returns, with `optarg`, which is empty for an
option without argument. -/
structure Opt where
  c : Char
  optarg : Arg
deriving DecidableEq

/-- An entry of `longopts`: the name, whether an argument is required, and the
value. -/
structure LongOpt where
  name : Arg
  hasArg : Bool
  val : Char

/-- With QUIC configured in. -/
def longopts : List LongOpt :=
  [⟨"connections".toList, true, 'c'⟩, ⟨"duration".toList, true, 'd'⟩,
    ⟨"threads".toList, true, 't'⟩, ⟨"affinity".toList, false, 'a'⟩,
    ⟨"script".toList, true, 's'⟩, ⟨"header".toList, true, 'H'⟩,
    ⟨"latency".toList, false, 'L'⟩, ⟨"u_latency".toList, false, 'U'⟩,
    ⟨"batch_latency".toList, false, 'B'⟩, ⟨"bind".toList, true, 'b'⟩,
    ⟨"timeout".toList, true, 'T'⟩, ⟨"help".toList, false, 'h'⟩,
    ⟨"version".toList, false, 'v'⟩, ⟨"rate".toList, true, 'R'⟩,
    ⟨"raw".toList, false, 'r'⟩, ⟨"quic".toList, false, 'q'⟩,
    ⟨"http".toList, true, 'p'⟩]

/-- Whether a letter of "t:c:d:s:H:b:T:R:p:LUBrqaVv?" is followed by a colon;
`none` is a letter that is not in it. -/
def shortArg (c : Char) : Option Bool :=
  if c ∈ ['t', 'c', 'd', 's', 'H', 'b', 'T', 'R', 'p'] then some true
  else if c ∈ ['L', 'U', 'B', 'r', 'q', 'a', 'V', 'v', '?'] then some false
  else none

/-- The letters behind one `-`. An argument is what is left of them, or else
the next argument, which then is used up. -/
def shortOptions (next : Option Arg) : Arg → List Opt × Bool
  | [] => ([], false)
  | c :: cs =>
      match shortArg c with
      | none =>
          let (opts, used) := shortOptions next cs
          (⟨'?', []⟩ :: opts, used)
      | some false =>
          let (opts, used) := shortOptions next cs
          (⟨c, []⟩ :: opts, used)
      | some true =>
          if cs ≠ [] then ([⟨c, cs⟩], false)
          else match next with
            | some arg => ([⟨c, arg⟩], true)
            | none => ([⟨'?', []⟩], false)

/-- The name behind `--`, which may be cut short as long as it fits one entry
only. -/
def longOption (next : Option Arg) (arg : Arg) : Opt × Bool :=
  let name := arg.takeWhile (· ≠ '=')
  let value := arg.dropWhile (· ≠ '=')
  let found : Option LongOpt :=
    match longopts.find? (·.name = name) with
    | some o => some o
    | none =>
        match longopts.filter fun o => name.isPrefixOf o.name with
        | [o] => some o
        | _ => none
  match found with
  | none => (⟨'?', []⟩, false)
  | some o =>
      if value ≠ [] then
        if o.hasArg then (⟨o.val, value.tail⟩, false) else (⟨'?', []⟩, false)
      else if o.hasArg then
        match next with
        | some arg => (⟨o.val, arg⟩, true)
        | none => (⟨'?', []⟩, false)
      else (⟨o.val, []⟩, false)

/-- All that `getopt_long` returns before -1, and the arguments it moves behind
the options. `used` says that an option has taken the first one. -/
def getoptLong : Bool → List Arg → List Opt × List Arg
  | _, [] => ([], [])
  | true, _ :: args => getoptLong false args
  | false, arg :: args =>
      match arg with
      | ['-', '-'] => ([], args)
      | '-' :: '-' :: name =>
          let (opt, used) := longOption args.head? name
          let (opts, operands) := getoptLong used args
          (opt :: opts, operands)
      | '-' :: c :: cs =>
          let (opts, used) := shortOptions args.head? (c :: cs)
          let (opts', operands) := getoptLong used args
          (opts ++ opts', operands)
      | _ =>
          let (opts, operands) := getoptLong false args
          (opts, arg :: operands)

/-! ## parse_args -/

inductive Proto where
  | tcp
  | quic
deriving DecidableEq

/-- `struct config`. -/
structure ParsedConfig where
  threads : ℕ
  connections : ℕ
  duration : ℕ
  timeout : ℕ
  pipeline : ℕ
  rate : ℕ
  delayMs : ℕ
  bind : ℕ
  affinity : Bool
  latency : Bool
  uLatency : Bool
  dynamic : Bool
  recordAllResponses : Bool
  raw : Bool
  verbose : Bool
  host : Option Arg
  script : Option Arg
  httpVersion : ℤ
  proto : Proto
  ctx : Option ℕ
deriving DecidableEq

/-- `cfg` before the first option. -/
def defaultConfig : ParsedConfig where
  threads := 2
  connections := 10
  duration := 10
  timeout := 2000
  pipeline := 0
  rate := 0
  delayMs := 0
  bind := 0
  affinity := false
  latency := false
  uLatency := false
  dynamic := false
  recordAllResponses := true
  raw := false
  verbose := false
  host := none
  script := none
  httpVersion := 11
  proto := .tcp
  ctx := none

/-- `*url`, `headers` and `cfg` after a successful `parse_args`. -/
structure ParsedArgs where
  cfg : ParsedConfig
  url : Arg
  headers : List Arg
deriving DecidableEq

section

variable (inetAddr : Arg → ℕ) (scriptParseUrl : Arg → Bool)

/-- The switch; `none` is the result -1. -/
def parseOption : ParsedConfig × List Arg → Opt → Option (ParsedConfig × List Arg)
  | (cfg, headers), ⟨c, optarg⟩ =>
      match c with
      | 't' => (scanMetric optarg).map fun threads => ({ cfg with threads }, headers)
      | 'c' => (scanMetric optarg).map fun connections => ({ cfg with connections }, headers)
      | 'q' => some ({ cfg with proto := .quic }, headers)
      | 'd' => (scanTime optarg).map fun duration => ({ cfg with duration }, headers)
      | 's' => some ({ cfg with script := some optarg }, headers)
      | 'H' => some (cfg, headers ++ [optarg])
      | 'L' => some ({ cfg with latency := true }, headers)
      -- without a break
      | 'p' => some ({ cfg with httpVersion := atoi optarg, affinity := true }, headers)
      | 'a' => some ({ cfg with affinity := true }, headers)
      | 'b' => some ({ cfg with bind := inetAddr optarg }, headers)
      | 'B' => some ({ cfg with recordAllResponses := false }, headers)
      | 'U' => some ({ cfg with uLatency := true }, headers)
      | 'T' => (scanTime optarg).map fun timeout =>
          ({ cfg with timeout := timeout * 1000 % 2 ^ 64 }, headers)
      | 'r' => some ({ cfg with raw := true }, headers)
      | 'R' => (scanMetric optarg).map fun rate => ({ cfg with rate }, headers)
      | 'V' => some ({ cfg with verbose := true }, headers)
      | 'v' => some (cfg, headers)
      | _ => none

/-- `argv` starts with the name of the program. -/
def parseArgs (argv : List Arg) : Option ParsedArgs := do
  let (opts, operands) := getoptLong false argv.tail
  let (cfg, headers) ← opts.foldlM (parseOption inetAddr) (defaultConfig, [])
  match operands with
  | [] => none
  | url :: _ =>
      if cfg.threads = 0 ∨ cfg.duration = 0 then none
      else if scriptParseUrl url = false then none
      else if cfg.connections = 0 ∨ cfg.connections < cfg.threads then none
      else
        let cfg := if cfg.rate = 0 then { cfg with rate := 2 ^ 64 - 1 } else cfg
        some ⟨cfg, url, headers⟩

end

example : getoptLong false ["-LR".toList, "1k".toList, "x".toList, "--thr=4".toList] =
    ([⟨'L', []⟩, ⟨'R', "1k".toList⟩, ⟨'t', "4".toList⟩], ["x".toList]) := by decide +kernel

/-! ## Each field from its own option -/

/-- The last occurrence of an option. -/
def lastOf (c : Char) (opts : List Opt) : Option Arg :=
  ((opts.filter (·.c = c)).getLast?).map Opt.optarg

def given (c : Char) (opts : List Opt) : Bool := (lastOf c opts).isSome

theorem lastOf_snoc (c : Char) (opts : List Opt) (o : Opt) :
    lastOf c (opts ++ [o]) = if o.c = c then some o.optarg else lastOf c opts := by
  rw [lastOf, List.filter_append]
  split
  · rename_i h
    rw [List.filter_cons_of_pos (by simpa using h), List.filter_nil, List.getLast?_concat]
    rfl
  · rename_i h
    rw [List.filter_cons_of_neg (by simpa using h), List.filter_nil, List.append_nil]
    rfl

/-- An option is not seen by the others. -/
theorem lastOf_insert {c : Char} {o : Opt} (h : o.c ≠ c) (opts opts' : List Opt) :
    lastOf c (opts ++ o :: opts') = lastOf c (opts ++ opts') := by
  rw [lastOf, lastOf, List.filter_append, List.filter_append,
    List.filter_cons_of_neg (by simpa using h)]

theorem given_iff {c : Char} {opts : List Opt} : given c opts = true ↔ ∃ o ∈ opts, o.c = c := by
  rw [given, lastOf, Option.isSome_map, List.getLast?_isSome, ne_eq, List.filter_eq_nil_iff]
  push Not
  simp only [decide_eq_true_eq]

section

variable (inetAddr : Arg → ℕ)

/-- `cfg` with every field taken from the last occurrence of its own option,
or else the default. -/
def ownConfig (opts : List Opt) : ParsedConfig :=
  { defaultConfig with
    threads := ((lastOf 't' opts).bind scanMetric).getD 2
    connections := ((lastOf 'c' opts).bind scanMetric).getD 10
    proto := bif given 'q' opts then .quic else .tcp
    duration := ((lastOf 'd' opts).bind scanTime).getD 10
    script := lastOf 's' opts
    latency := given 'L' opts
    httpVersion := ((lastOf 'p' opts).map atoi).getD 11
    affinity := given 'a' opts
    bind := ((lastOf 'b' opts).map inetAddr).getD 0
    recordAllResponses := !given 'B' opts
    uLatency := given 'U' opts
    timeout := ((lastOf 'T' opts).bind scanTime |>.map (· * 1000 % 2 ^ 64)).getD 2000
    raw := given 'r' opts
    rate :=
      let rate := ((lastOf 'R' opts).bind scanMetric).getD 0
      if rate = 0 then 2 ^ 64 - 1 else rate
    verbose := given 'V' opts }

/-- `cfg` in the loop: `rate` is as it was given, and `affinity` stands for
`-p` too. -/
def loopConfig (opts : List Opt) : ParsedConfig :=
  { ownConfig inetAddr opts with
    rate := ((lastOf 'R' opts).bind scanMetric).getD 0
    affinity := given 'a' opts || given 'p' opts }

variable {inetAddr}

/-- One round of the switch. -/
theorem parseOption_loopConfig {opts : List Opt} {o : Opt} {headers headers' : List Arg}
    {cfg : ParsedConfig}
    (h : parseOption inetAddr (loopConfig inetAddr opts, headers) o = some (cfg, headers')) :
    cfg = loopConfig inetAddr (opts ++ [o]) := by
  obtain ⟨c, optarg⟩ := o
  simp only [parseOption] at h
  split at h
  -- the options with a number
  case h_1 | h_2 | h_4 | h_13 | h_15 =>
    obtain ⟨value, hvalue, heq⟩ := Option.map_eq_some_iff.mp h
    cases heq
    simp [loopConfig, ownConfig, given, lastOf_snoc, hvalue]
  case h_18 => cases h
  all_goals
    cases h
    simp [loopConfig, ownConfig, given, lastOf_snoc]

theorem foldlM_loopConfig {opts : List Opt} {cfg : ParsedConfig} {headers : List Arg}
    (h : opts.foldlM (parseOption inetAddr) (defaultConfig, []) = some (cfg, headers)) :
    cfg = loopConfig inetAddr opts := by
  induction opts using List.reverseRecOn generalizing cfg headers with
  | nil =>
      cases h
      rfl
  | append_singleton opts o ih =>
      rw [List.foldlM_append] at h
      obtain ⟨⟨cfg', headers'⟩, hloop, hlast⟩ := Option.bind_eq_some_iff.mp h
      rw [ih hloop, List.foldlM_cons] at hlast
      obtain ⟨⟨cfg'', headers''⟩, hstep, hnil⟩ := Option.bind_eq_some_iff.mp hlast
      cases hnil
      exact parseOption_loopConfig hstep

/-- The options among the arguments. -/
def options (argv : List Arg) : List Opt := (getoptLong false argv.tail).1

variable {scriptParseUrl : Arg → Bool}

def ParsedConfig.setAffinity (cfg : ParsedConfig) (affinity : Bool) : ParsedConfig :=
  { cfg with affinity }

theorem setAffinity_inj {cfg : ParsedConfig} {b b' : Bool} :
    cfg.setAffinity b = cfg.setAffinity b' ↔ b = b' :=
  ⟨congrArg ParsedConfig.affinity, congrArg cfg.setAffinity⟩

theorem parseArgs_cfg {argv : List Arg} {r : ParsedArgs}
    (h : parseArgs inetAddr scriptParseUrl argv = some r) :
    r.cfg = (ownConfig inetAddr (options argv)).setAffinity
      (given 'a' (options argv) || given 'p' (options argv)) := by
  obtain ⟨⟨cfg, headers⟩, hloop, hchecks⟩ := Option.bind_eq_some_iff.mp h
  simp only [foldlM_loopConfig hloop] at hchecks
  split at hchecks
  · cases hchecks
  · split at hchecks
    · cases hchecks
    split at hchecks
    · cases hchecks
    split at hchecks
    · cases hchecks
    cases hchecks
    by_cases hrate : (loopConfig inetAddr (options argv)).rate = 0
    · refine (if_pos hrate).trans ?_
      have hown : (ownConfig inetAddr (options argv)).rate = 2 ^ 64 - 1 := if_pos hrate
      rw [ParsedConfig.setAffinity, hown]
      rfl
    · refine (if_neg hrate).trans ?_
      have hown : (ownConfig inetAddr (options argv)).rate =
          (loopConfig inetAddr (options argv)).rate := if_neg hrate
      rw [ParsedConfig.setAffinity, hown]
      rfl

/-- `cfg` without the field that belongs to an option. -/
def ParsedConfig.forget (c : Char) (cfg : ParsedConfig) : ParsedConfig :=
  match c with
  | 't' => { cfg with threads := 0 }
  | 'c' => { cfg with connections := 0 }
  | 'q' => { cfg with proto := .tcp }
  | 'd' => { cfg with duration := 0 }
  | 's' => { cfg with script := none }
  | 'L' => { cfg with latency := false }
  | 'p' => { cfg with httpVersion := 0 }
  | 'a' => { cfg with affinity := false }
  | 'b' => { cfg with bind := 0 }
  | 'B' => { cfg with recordAllResponses := false }
  | 'U' => { cfg with uLatency := false }
  | 'T' => { cfg with timeout := 0 }
  | 'r' => { cfg with raw := false }
  | 'R' => { cfg with rate := 0 }
  | 'V' => { cfg with verbose := false }
  | _ => cfg

theorem forget_setAffinity (c : Char) (cfg : ParsedConfig) (affinity : Bool) :
    (cfg.setAffinity affinity).forget c =
      if c = 'a' then cfg.forget c else (cfg.forget c).setAffinity affinity := by
  unfold ParsedConfig.forget ParsedConfig.setAffinity
  split <;> simp_all

/-- An inserted option sets its own field only. -/
theorem ownConfig_insert (o : Opt) (opts opts' : List Opt) :
    (ownConfig inetAddr (opts ++ o :: opts')).forget o.c =
      (ownConfig inetAddr (opts ++ opts')).forget o.c := by
  have hother {c : Char} (h : o.c ≠ c) := lastOf_insert h opts opts'
  unfold ParsedConfig.forget
  split
  all_goals
    rename_i heq
    simp_all [ownConfig, given]

/-- Every field of `cfg` comes from its own option, and an option that is
inserted leaves the fields of the others alone, exactly when `-a` is given
wherever `-p` is. -/
theorem options_independent_iff (inetAddr : Arg → ℕ) (scriptParseUrl : Arg → Bool)
    (argv : List Arg) (r : ParsedArgs) (h : parseArgs inetAddr scriptParseUrl argv = some r) :
    (r.cfg = ownConfig inetAddr (options argv) ↔
      (given 'p' (options argv) = true → given 'a' (options argv) = true)) ∧
    ∀ (argv' : List Arg) (r' : ParsedArgs) (opts opts' : List Opt) (o : Opt),
      parseArgs inetAddr scriptParseUrl argv' = some r' →
      options argv = opts ++ opts' → options argv' = opts ++ o :: opts' →
      (r'.cfg.forget o.c = r.cfg.forget o.c ↔
        (o.c = 'p' → given 'p' (options argv) = true ∨ given 'a' (options argv) = true)) := by
  refine ⟨?_, ?_⟩
  · have hown : ownConfig inetAddr (options argv) =
        (ownConfig inetAddr (options argv)).setAffinity (given 'a' (options argv)) := rfl
    rw [parseArgs_cfg h]
    nth_rewrite 2 [hown]
    rw [setAffinity_inj, Bool.or_eq_left_iff_imp]
  · intro argv' r' opts opts' o h' hargv hargv'
    rw [parseArgs_cfg h, parseArgs_cfg h', hargv, hargv', forget_setAffinity, forget_setAffinity,
      ownConfig_insert]
    by_cases ha : o.c = 'a'
    · rw [if_pos ha, if_pos ha]
      refine ⟨fun _ hp => ?_, fun _ => rfl⟩
      exact absurd (ha.symm.trans hp) (by decide)
    rw [if_neg ha, if_neg ha, setAffinity_inj]
    have hinserted : given 'a' (opts ++ o :: opts') = given 'a' (opts ++ opts') := by
      rw [given, lastOf_insert ha, given]
    by_cases hp : o.c = 'p'
    · have hpgiven : given 'p' (opts ++ o :: opts') = true :=
        given_iff.mpr ⟨o, by simp, hp⟩
      rw [hpgiven, Bool.or_true, eq_comm, Bool.or_eq_true, Or.comm]
      exact ⟨fun h _ => h, fun h => h hp⟩
    · have hpinserted : given 'p' (opts ++ o :: opts') = given 'p' (opts ++ opts') := by
        rw [given, lastOf_insert hp, given]
      rw [hinserted, hpinserted]
      exact ⟨fun _ h => absurd h hp, fun _ => rfl⟩

theorem options_independent_iff_threads :
    ∃ r r', r.cfg = ownConfig (fun _ => 0) [⟨'t', "4".toList⟩] ∧
      parseArgs (fun _ => 0) (fun _ => true)
        ["wrk".toList, "-t4".toList, "http://h/".toList] = some r ∧
      parseArgs (fun _ => 0) (fun _ => true)
        ["wrk".toList, "-t4".toList, "-c".toList, "20".toList, "http://h/".toList] = some r' ∧
      r'.cfg.forget 'c' = r.cfg.forget 'c' := by
  have h : parseArgs (fun _ => 0) (fun _ => true)
      ["wrk".toList, "-t4".toList, "http://h/".toList] =
      some ⟨{ defaultConfig with threads := 4, rate := 2 ^ 64 - 1 }, "http://h/".toList, []⟩ := by
    decide +kernel
  have h' : parseArgs (fun _ => 0) (fun _ => true)
      ["wrk".toList, "-t4".toList, "-c".toList, "20".toList, "http://h/".toList] =
      some ⟨{ defaultConfig with threads := 4, connections := 20, rate := 2 ^ 64 - 1 },
        "http://h/".toList, []⟩ := by
    decide +kernel
  obtain ⟨hown, hframe⟩ := options_independent_iff _ _ _ _ h
  refine ⟨_, _, hown.mpr (by decide +kernel), h, h', ?_⟩
  exact (hframe _ _ [⟨'t', "4".toList⟩] [] ⟨'c', "20".toList⟩ h' (by decide +kernel)
    (by decide +kernel)).mpr (by decide)

/-- `-p 11` alone sets `affinity`. -/
theorem http_sets_affinity :
    ∃ r, parseArgs (fun _ => 0) (fun _ => true)
        ["wrk".toList, "-p11".toList, "http://h/".toList] = some r ∧
      options ["wrk".toList, "-p11".toList, "http://h/".toList] = [⟨'p', "11".toList⟩] ∧
      r.cfg.affinity = true ∧ (ownConfig (fun _ => 0) [⟨'p', "11".toList⟩]).affinity = false := by
  refine ⟨⟨{ defaultConfig with affinity := true, rate := 2 ^ 64 - 1 }, "http://h/".toList, []⟩,
    ?_, ?_, rfl, ?_⟩
  all_goals decide +kernel

end

end WrkQuic
