/-!
# Decimal numbers

Reading and writing natural numbers in ASCII digits.  Readers take the whole text or nothing.
-/

namespace RuleLens.Text

/-- The value of a non-empty run of ASCII digits. -/
def ofDigits? (s : List Char) : Option Nat :=
  if !s.isEmpty && s.all Char.isDigit then some (Nat.ofDigitChars 10 s 0) else none

/-- A number of at most `bound`: ASCII digits, after an optional plus sign. -/
def readUpTo? (bound : Nat) (s : List Char) : Option Nat := do
  let digits := match s with
    | '+' :: rest => rest
    | _ => s
  let n ← ofDigits? digits
  if n ≤ bound then some n else none

/-- The decimal digits of a number, most significant first. -/
def decimal (n : Nat) : List Char :=
  Nat.toDigits 10 n

/-- The largest number of 32 bits. -/
def max32 : Nat := 4294967295

/-- The next number of 32 bits: after the largest one they start again from 0. -/
def next32 (n : Nat) : Nat := (n + 1) % (max32 + 1)

/-- The largest number of 64 bits. -/
def max64 : Nat := 18446744073709551615

end RuleLens.Text
