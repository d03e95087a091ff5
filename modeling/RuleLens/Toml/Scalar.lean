import RuleLens.Text.Decimal
import RuleLens.Toml.Value

/-!
# Numbers, dates and truth values

Each is a run of characters of which none may follow a value, so it is cut out as a whole and then
recognised.
-/

namespace RuleLens.Toml

/-- The characters of unquoted scalars. -/
def isScalarChar (c : Char) : Bool :=
  c.isAlphanum || c == '_' || c == '+' || c == '-' || c == '.' || c == ':'

/-- Digits, with single underscores between them. -/
def isDigits (isDigit : Char → Bool) (s : List Char) : Bool :=
  (s.splitOn '_').all fun part => !part.isEmpty && part.all isDigit

/-- The value of a digit in any base up to 16. -/
def digitValue (c : Char) : Nat :=
  if c.isDigit then c.toNat - '0'.toNat
  else if 'a' ≤ c then c.toNat - 'a'.toNat + 10
  else c.toNat - 'A'.toNat + 10

/-- The number that digits denote, underscores apart. -/
def digitsValue (base : Nat) (s : List Char) : Nat :=
  (s.filter (· != '_')).foldl (fun n c => n * base + digitValue c) 0

/-- A sign, and what follows it. -/
def cutSign : List Char → Bool × List Char
  | '-' :: rest => (true, rest)
  | '+' :: rest => (false, rest)
  | s => (false, s)

/-- Decimal digits without a leading zero. -/
def isWhole (s : List Char) : Bool :=
  isDigits Char.isDigit s && (s.head? != some '0' || s == ['0'])

def isHexDigit (c : Char) : Bool :=
  c.isDigit || ('a' ≤ c && c ≤ 'f') || ('A' ≤ c && c ≤ 'F')

/-- An integer of 64 bits. -/
def inRange? (n : Int) : Option Int :=
  let bound : Int := 9223372036854775808
  if -bound ≤ n && n < bound then some n else none

def radixInteger? (base : Nat) (isDigit : Char → Bool) (s : List Char) : Option Int :=
  if isDigits isDigit s then inRange? (digitsValue base s) else none

def integer? (s : List Char) : Option Int :=
  match s with
  | '0' :: 'x' :: rest => radixInteger? 16 isHexDigit rest
  | '0' :: 'o' :: rest => radixInteger? 8 (fun c => '0' ≤ c && c ≤ '7') rest
  | '0' :: 'b' :: rest => radixInteger? 2 (fun c => c == '0' || c == '1') rest
  | _ =>
    let (negative, digits) := cutSign s
    if isWhole digits then
      let n : Int := digitsValue 10 digits
      inRange? (if negative then -n else n)
    else
      none

/-- Whether `mantissa * 10 ^ exponent` is so large that the nearest double is infinite. -/
def isInfinite (mantissa : Nat) (exponent : Int) : Bool :=
  let magnitude := exponent + (Nat.toDigits 10 mantissa).length
  if mantissa = 0 || magnitude < 300 then false
  else if magnitude > 320 then true
  else
    let bound : Nat := Nat.pow 2 1024 - Nat.pow 2 970
    if 0 ≤ exponent then mantissa * Nat.pow 10 exponent.toNat ≥ bound
    else mantissa ≥ bound * Nat.pow 10 (-exponent).toNat

/-- A text cut at the first character that `p` accepts, which is dropped. -/
def cutAt (p : Char → Bool) (s : List Char) : List Char × Option (List Char) :=
  (s.takeWhile (!p ·), (s.dropWhile (!p ·)).tail?)

/-- A finite number with a fraction or an exponent, or a special one.  Too large a positive number
is refused. -/
def isFloat (s : List Char) : Bool :=
  let (negative, number) := cutSign s
  if number == ['i', 'n', 'f'] || number == ['n', 'a', 'n'] then true
  else
    let (mantissa, exponent) := cutAt (fun c => c == 'e' || c == 'E') number
    let (whole, fraction) := cutAt (· == '.') mantissa
    let exponentDigits := exponent.map cutSign
    isWhole whole && (fraction.isSome || exponent.isSome) &&
      fraction.all (isDigits Char.isDigit) &&
      exponentDigits.all (fun e => isDigits Char.isDigit e.2) &&
      (negative ||
        let digits := whole ++ fraction.getD []
        let shift : Int := ((fraction.getD []).filter (· != '_')).length
        let power : Int := match exponentDigits with
          | some (true, e) => -(digitsValue 10 e : Int)
          | some (false, e) => digitsValue 10 e
          | none => 0
        !isInfinite (digitsValue 10 digits) (power - shift))

/-- The number of exactly `n` digits at the start of a text. -/
def cutDigits? (n : Nat) (s : List Char) : Option (Nat × List Char) :=
  if (s.take n).length = n && (s.take n).all Char.isDigit then
    some (digitsValue 10 (s.take n), s.drop n)
  else
    none

/-- What follows one of the given characters. -/
def cutChar? (p : Char → Bool) : List Char → Option (List Char)
  | c :: rest => if p c then some rest else none
  | [] => none

def daysInMonth (year month : Nat) : Nat :=
  if month = 2 then
    if year % 4 = 0 && (year % 100 != 0 || year % 400 = 0) then 29 else 28
  else if month = 4 || month = 6 || month = 9 || month = 11 then 30
  else 31

/-- A calendar day, and what follows it. -/
def cutDate? (s : List Char) : Option (List Char) := do
  let (year, s) ← cutDigits? 4 s
  let (month, s) ← cutDigits? 2 (← cutChar? (· == '-') s)
  let (day, s) ← cutDigits? 2 (← cutChar? (· == '-') s)
  if 1 ≤ month && month ≤ 12 && 1 ≤ day && day ≤ daysInMonth year month then some s else none

/-- A time of day, and what follows it. -/
def cutTime? (s : List Char) : Option (List Char) := do
  let (hour, s) ← cutDigits? 2 s
  let (minute, s) ← cutDigits? 2 (← cutChar? (· == ':') s)
  let (second, s) ← cutDigits? 2 (← cutChar? (· == ':') s)
  if hour ≤ 23 && minute ≤ 59 && second ≤ 60 then
    match s with
    | '.' :: c :: rest => if c.isDigit then some (rest.dropWhile Char.isDigit) else none
    | ['.'] => none
    | _ => some s
  else
    none

/-- The whole of a text is an offset from universal time. -/
def isOffset (s : List Char) : Bool :=
  if s == ['Z'] || s == ['z'] then true
  else
    let parts : Option (Nat × Nat × List Char) := do
      let (hour, s) ← cutDigits? 2 (← cutChar? (fun c => c == '+' || c == '-') s)
      let (minute, s) ← cutDigits? 2 (← cutChar? (· == ':') s)
      some (hour, minute, s)
    parts.any fun (hour, minute, s) => hour ≤ 23 && minute ≤ 59 && s.isEmpty

/-- A day, a time, or both, then perhaps with an offset. -/
def isDatetime (s : List Char) : Bool :=
  match cutDate? s with
  | some [] => true
  | some (c :: rest) =>
    (c == 'T' || c == 't' || c == ' ') &&
      (cutTime? rest).any fun behind => behind.isEmpty || isOffset behind
  | none => (cutTime? s).any (·.isEmpty)

/-- The value that a run of scalar characters denotes. -/
def scalar? (s : List Char) : Option Value :=
  if s = ['t', 'r', 'u', 'e'] then some (.boolean true)
  else if s = ['f', 'a', 'l', 's', 'e'] then some (.boolean false)
  else if let some n := integer? s then some (.integer n)
  else if isFloat s then some (.float (String.ofList s))
  else if isDatetime s then some (.datetime (String.ofList s))
  else none

/-- Cut out the scalar at the start of a text.  Only a day may be followed by a space that belongs
to it, with a time behind. -/
def cutScalar? (s : List Char) : Option (Value × List Char) := do
  let first := s.takeWhile isScalarChar
  let rest := s.dropWhile isScalarChar
  let spaced := match rest with
    | ' ' :: c :: _ => c.isDigit && cutDate? first == some []
    | _ => false
  if spaced then
    let second := rest.tail.takeWhile isScalarChar
    some (← scalar? (first ++ ' ' :: second), rest.tail.dropWhile isScalarChar)
  else
    some (← scalar? first, rest)

end RuleLens.Toml
