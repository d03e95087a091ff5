/-!
# UTF-8

A decoder that reads bytes one at a time.  Bytes that do not form a character are grouped as the
Unicode standard recommends: one error for every longest start of a character that is then not
continued.  The lossy reading puts U+FFFD for each error, the strict reading refuses the text.
-/

namespace RuleLens.Text.Utf8

/-- What has been read of the character in progress. -/
inductive Pending where
  /-- Between two characters. -/
  | none
  /-- `more` further bytes are due, the next one between `low` and `high`; `code` holds the bits
  read so far. -/
  | some (more : Nat) (low high : UInt8) (code : Nat)
deriving Repr, DecidableEq

/-- The first byte of a character: a whole character, the start of one, or an error. -/
def start (b : UInt8) : Pending × List (Option Char) :=
  if b < 0x80 then (.none, [some (Char.ofNat b.toNat)])
  else if b < 0xc2 then (.none, [none])
  else if b < 0xe0 then (.some 1 0x80 0xbf (b.toNat % 32), [])
  else if b = 0xe0 then (.some 2 0xa0 0xbf 0, [])
  else if b = 0xed then (.some 2 0x80 0x9f 13, [])
  else if b < 0xf0 then (.some 2 0x80 0xbf (b.toNat % 16), [])
  else if b = 0xf0 then (.some 3 0x90 0xbf 0, [])
  else if b < 0xf4 then (.some 3 0x80 0xbf (b.toNat % 8), [])
  else if b = 0xf4 then (.some 3 0x80 0x8f 4, [])
  else (.none, [none])

/-- One more byte: the new state and what is now complete, `none` for an error. -/
def step : Pending → UInt8 → Pending × List (Option Char)
  | .none, b => start b
  | .some more low high code, b =>
    if low ≤ b && b ≤ high then
      let code := code * 64 + b.toNat % 64
      if more ≤ 1 then (.none, [some (Char.ofNat code)])
      else (.some (more - 1) 0x80 0xbf code, [])
    else
      ((start b).1, none :: (start b).2)

/-- What the end of the text completes: a character in progress is an error. -/
def finish : Pending → List (Option Char)
  | .none => []
  | .some .. => [none]

/-- The units read from `bytes`, behind those of `units`, which are in reverse. -/
def run (pending : Pending) (units : List (Option Char)) : List UInt8 → List (Option Char)
  | [] => ((finish pending).reverse ++ units).reverse
  | b :: rest => run (step pending b).1 ((step pending b).2.reverse ++ units) rest

/-- The characters of a byte string, `none` standing for an error. -/
def units (bytes : List UInt8) : List (Option Char) :=
  run .none [] bytes

/-- The character that stands for undecodable bytes. -/
def replacement : Char := '\uFFFD'

def decodeLossy (bytes : List UInt8) : List Char :=
  (units bytes).map (·.getD replacement)

def decode? (bytes : List UInt8) : Option (List Char) :=
  (units bytes).mapM id

end RuleLens.Text.Utf8
