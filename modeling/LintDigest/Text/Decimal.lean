/-!
# Bounded whole numbers

Numbers are read with an optional `+`, in digits of a given radix, up to a bound; nothing wraps.
-/

namespace LintDigest.Text

/-- The value of a digit in radix 16 or below. -/
def digitValue? (radix : Nat) (c : Char) : Option Nat :=
  let n := c.toNat
  let value? :=
    if 0x30 ≤ n ∧ n ≤ 0x39 then some (n - 0x30)
    else if 0x41 ≤ n ∧ n ≤ 0x46 then some (n - 0x41 + 10)
    else if 0x61 ≤ n ∧ n ≤ 0x66 then some (n - 0x61 + 10)
    else none
  value?.filter (· < radix)

/-- The number that digits write behind the digits already read as `acc`. -/
def digitsFrom? (radix : Nat) (acc : Nat) : List Char → Option Nat
  | [] => some acc
  | c :: cs => do digitsFrom? radix (acc * radix + (← digitValue? radix c)) cs

/-- The number that a non-empty list of digits writes, if it is at most `bound`. -/
def digits? (radix bound : Nat) : List Char → Option Nat
  | [] => none
  | cs => (digitsFrom? radix 0 cs).filter (· ≤ bound)

/-- A decimal number up to `bound`, with an optional leading `+`. -/
def decimal? (bound : Nat) : List Char → Option Nat
  | '+' :: cs => digits? 10 bound cs
  | cs => digits? 10 bound cs

/-- The largest number of 8, 32 or 64 bits. -/
def maxByte : Nat := 255

@[inherit_doc maxByte]
def maxWord : Nat := 4294967295

@[inherit_doc maxByte]
def maxLong : Nat := 18446744073709551615

end LintDigest.Text
