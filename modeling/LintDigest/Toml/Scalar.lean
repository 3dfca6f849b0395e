import LintDigest.Text.Decimal
import LintDigest.Text.Split
import LintDigest.Toml.Item

/-!
# TOML scalars without quotes

Booleans, integers, floats, dates and times, recognised from their whole text.
-/

namespace LintDigest.Toml

/-- An ASCII digit. -/
def isDigit (c : Char) : Bool := '0' ≤ c && c ≤ '9'

/-- Digits of a radix with single underscores between them. -/
def groupedDigits? (radix : Nat) (cs : List Char) : Option Nat :=
  let groups := Text.split (· == '_') cs
  if groups.all (· ≠ []) then Text.digitsFrom? radix 0 groups.flatten else none

/-- The sign of a number and what follows it. -/
def signOf : List Char → Int × List Char
  | '+' :: cs => (1, cs)
  | '-' :: cs => (-1, cs)
  | cs => (1, cs)

/-- A decimal number without sign; only 0 itself starts with 0. -/
def natural? (cs : List Char) : Option Nat :=
  match cs with
  | ['0'] => some 0
  | '0' :: _ => none
  | _ => groupedDigits? 10 cs

/-- An integer: decimal with an optional sign, or with a radix mark and without a sign. -/
def integer? (cs : List Char) : Option Int :=
  match cs with
  | '0' :: 'x' :: ds => (groupedDigits? 16 ds).map Int.ofNat
  | '0' :: 'o' :: ds => (groupedDigits? 8 ds).map Int.ofNat
  | '0' :: 'b' :: ds => (groupedDigits? 2 ds).map Int.ofNat
  | _ =>
    let (sign, ds) := signOf cs
    (natural? ds).map fun n => sign * n

/-- Integers beyond 128 bits are refused wherever they stand. -/
def inRange (n : Int) : Bool :=
  -0x80000000000000000000000000000000 ≤ n && n < 0x100000000000000000000000000000000

/-- The number of decimal digits of a number. -/
def digitCount (n : Nat) : Nat := (Nat.toDigits 10 n).length

/-- Whether `mantissa * 10 ^ exponent` is too large for a float of 64 bits: it is not below the
midpoint between the largest float and the next power of two. -/
def overflows (mantissa : Nat) (exponent : Int) : Bool :=
  let magnitude : Int := digitCount mantissa + exponent
  if mantissa = 0 ∨ magnitude < 309 then false
  else if 309 < magnitude then true
  else
    let limit := Nat.pow 2 1024 - Nat.pow 2 970
    if 0 ≤ exponent then limit ≤ mantissa * Nat.pow 10 exponent.toNat
    else limit * Nat.pow 10 (-exponent).toNat ≤ mantissa

/-- A float: a whole part, then a fraction or an exponent or both; or an infinity or no number. -/
def isFloat (cs : List Char) : Bool :=
  let (_, ds) := signOf cs
  if ds = ['i', 'n', 'f'] ∨ ds = ['n', 'a', 'n'] then true
  else
    let significand := ds.takeWhile fun c => c != 'e' && c != 'E'
    let power := ds.drop significand.length
    let parts := Text.split (· == '.') significand
    let exponent? : Option Int :=
      match power with
      | [] => some 0
      | _ :: e =>
        let (sign, digits) := signOf e
        (groupedDigits? 10 digits).map fun n => sign * n
    match parts, exponent? with
    | [whole], some exponent =>
      match natural? whole with
      | some n => power ≠ [] && !overflows n exponent
      | none => false
    | [whole, fraction], some exponent =>
      match natural? whole, groupedDigits? 10 fraction with
      | some n, some f =>
        let places := (fraction.filter (· ≠ '_')).length
        !overflows (n * Nat.pow 10 places + f) (exponent - places)
      | _, _ => false
    | _, _ => false

/-- Two digits, as a number. -/
def twoDigits? (a b : Char) : Option Nat :=
  Text.digitsFrom? 10 0 [a, b]

/-- The number of days in a month. -/
def daysIn (year month : Nat) : Nat :=
  if month = 2 then
    if year % 4 = 0 ∧ (year % 100 ≠ 0 ∨ year % 400 = 0) then 29 else 28
  else if month = 4 ∨ month = 6 ∨ month = 9 ∨ month = 11 then 30
  else 31

/-- Reads a date, and gives what follows it. -/
def date? : List Char → Option (List Char)
  | y1 :: y2 :: y3 :: y4 :: '-' :: m1 :: m2 :: '-' :: d1 :: d2 :: rest => do
    let year ← Text.digitsFrom? 10 0 [y1, y2, y3, y4]
    let month ← twoDigits? m1 m2
    let day ← twoDigits? d1 d2
    if 1 ≤ month ∧ month ≤ 12 ∧ 1 ≤ day ∧ day ≤ daysIn year month then some rest else none
  | _ => none

/-- Reads the fraction of a second, if there is one. -/
def fraction? : List Char → Option (List Char)
  | '.' :: cs => if (cs.takeWhile isDigit) = [] then none else some (cs.dropWhile isDigit)
  | cs => some cs

/-- Reads the seconds of a time, if there are any. -/
def seconds? : List Char → Option (List Char)
  | ':' :: s1 :: s2 :: cs => do
    if (← twoDigits? s1 s2) ≤ 60 then fraction? cs else none
  | ':' :: _ => none
  | cs => some cs

/-- Reads a time of day, and gives what follows it. -/
def time? : List Char → Option (List Char)
  | h1 :: h2 :: ':' :: m1 :: m2 :: cs => do
    if (← twoDigits? h1 h2) ≤ 23 ∧ (← twoDigits? m1 m2) ≤ 59 then seconds? cs else none
  | _ => none

/-- An offset from universal time, which may be absent. -/
def isOffset : List Char → Bool
  | [] | ['Z'] | ['z'] => true
  | [sign, h1, h2, ':', m1, m2] =>
    (sign == '+' || sign == '-') &&
      match twoDigits? h1 h2, twoDigits? m1 m2 with
      | some h, some m => h ≤ 23 && m ≤ 59
      | _, _ => false
  | _ => false

/-- A date, a time, or both with an optional offset. -/
def isMoment (cs : List Char) : Bool :=
  match date? cs with
  | some [] => true
  | some (c :: rest) =>
    (c == 'T' || c == 't' || c == ' ') &&
      match time? rest with
      | some offset => isOffset offset
      | none => false
  | none => time? cs == some []

/-- The item of a scalar without quotes. -/
def scalar (cs : List Char) : Except Fault Item :=
  if cs = "true".toList then .ok (.boolean true)
  else if cs = "false".toList then .ok (.boolean false)
  else
    match integer? cs with
    | some n => if inRange n then .ok (.integer n) else .error .badNumber
    | none =>
      if isFloat cs then .ok .float
      else if isMoment cs then .ok (.moment (String.ofList cs))
      else .error .malformed

end LintDigest.Toml
