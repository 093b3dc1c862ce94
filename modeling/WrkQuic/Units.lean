import Mathlib.Algebra.Group.Int.Defs
import Mathlib.Algebra.Group.Nat.Defs

/-!
# units.c

`scan_units` reads a decimal number and at most one unit behind it.
-/

namespace WrkQuic

/-- A C string, one character for each byte and without its terminator. -/
abbrev Arg := List Char

def isSpace (c : Char) : Bool := c = ' ' || '\t' ≤ c && c ≤ '\r'

/-- The sign and the digits that `strtol` and `strtoul` begin with, and what
follows them. -/
def scanDigits (s : Arg) : Bool × Arg × Arg :=
  let s := s.dropWhile isSpace
  let (negative, s) : Bool × Arg :=
    match s with
    | '-' :: s => (true, s)
    | '+' :: s => (false, s)
    | _ => (false, s)
  let digits := s.takeWhile Char.isDigit
  (negative, digits, s.drop digits.length)

def decimalValue (digits : Arg) : ℕ := digits.foldl (fun n d => 10 * n + (d.toNat - 48)) 0

/-- `%lu` of `sscanf`: what does not fit becomes `UINT64_MAX`, and a minus sign
negates. -/
def scanNumber (s : Arg) : Option (ℕ × Arg) :=
  let (negative, digits, rest) := scanDigits s
  let n := decimalValue digits
  if digits = [] then none
  else if 2 ^ 64 ≤ n then some (2 ^ 64 - 1, rest)
  else if negative then some ((2 ^ 64 - n) % 2 ^ 64, rest)
  else some (n, rest)

/-- `%2s` of `sscanf`; empty when nothing is assigned. -/
def scanWord (s : Arg) : Arg :=
  ((s.dropWhile isSpace).takeWhile fun c => !isSpace c).take 2

/-- `strncasecmp(s, t, 3) == 0` -/
def strncasecmp3 (s t : Arg) : Bool := (s.take 3).map Char.toLower = (t.take 3).map Char.toLower

structure Units where
  scale : ℕ
  base : Arg
  units : List Arg

def timeUnitsS : Units := ⟨60, ['s'], [['m'], ['h']]⟩

def metricUnits : Units := ⟨1000, [], [['k'], ['M'], ['G'], ['T'], ['P']]⟩

/-- The loop over `m->units`. -/
def unitScale (unit : Arg) (step : ℕ) : ℕ → List Arg → Option ℕ
  | _, [] => none
  | scale, u :: us =>
      let scale := scale * step % 2 ^ 64
      if strncasecmp3 unit u then some scale else unitScale unit step scale us

/-- `none` is the result -1, which leaves `*n` alone. -/
def scanUnits (s : Arg) (m : Units) : Option ℕ := do
  let (base, rest) ← scanNumber s
  let unit := scanWord rest
  let scale ← if unit ≠ [] && !strncasecmp3 unit m.base then unitScale unit m.scale 1 m.units
    else some 1
  some (base * scale % 2 ^ 64)

def scanMetric (s : Arg) : Option ℕ := scanUnits s metricUnits

def scanTime (s : Arg) : Option ℕ := scanUnits s timeUnitsS

/-- `atoi`, which narrows the result of `strtol`. -/
def atoi (s : Arg) : ℤ :=
  let (negative, digits, _) := scanDigits s
  let n : ℤ := decimalValue digits
  (if negative then max (-n) (-2 ^ 63) else min n (2 ^ 63 - 1)).bmod (2 ^ 32)

example : scanTime "2m".toList = some 120 := by decide +kernel

example : scanMetric "10kx".toList = none := by decide +kernel

end WrkQuic
