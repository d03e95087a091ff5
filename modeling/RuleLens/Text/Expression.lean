import RuleLens.Text.Automaton

/-!
# Expressions

What an automaton is made for: bytes in a row, a choice between parts, parts that may be missing and
parts that may be repeated.  Expressions are kept short, because their automata are limited in size:
neighbouring words are one word, a choice of choices is one choice, and what all the ways of a
choice start with stands in front of it.
-/

namespace RuleLens

inductive Expression where
  | nothing
  | word (bytes : List UInt8)
  /-- One byte out of some ranges. -/
  | oneOf (ranges : List (UInt8 × UInt8))
  | optional (part : Expression)
  | many (part : Expression)
  | sequence (parts : List Expression)
  | choice (ways : List Expression)
deriving Repr, Inhabited

namespace Expression

mutual

/-- Whether two expressions are the same. -/
def same : Expression → Expression → Bool
  | .nothing, .nothing => true
  | .word a, .word b => a == b
  | .oneOf a, .oneOf b => a == b
  | .optional a, .optional b => same a b
  | .many a, .many b => same a b
  | .sequence a, .sequence b => sameAll a b
  | .choice a, .choice b => sameAll a b
  | _, _ => false

def sameAll : List Expression → List Expression → Bool
  | [], [] => true
  | a :: as, b :: bs => same a b && sameAll as bs
  | _, _ => false

end

/-! ## Bytes -/

/-- The ranges of the bytes that `p` accepts, from the byte `b` on, `n` bytes long; `first` is where
the range starts that goes on here. -/
def rangesFrom (p : UInt8 → Bool) (first : Option UInt8) : (n b : Nat) → List (UInt8 × UInt8)
  | 0, b => (first.map fun low => (low, .ofNat (b - 1))).toList
  | n + 1, b =>
    if p (.ofNat b) then rangesFrom p (some (first.getD (.ofNat b))) n (b + 1)
    else (first.map fun low => (low, .ofNat (b - 1))).toList ++ rangesFrom p none n (b + 1)

/-- One of the bytes that `p` accepts.  A single one is a word. -/
def byte (p : UInt8 → Bool) : Expression :=
  match rangesFrom p none 256 0 with
  | [(low, high)] => if low = high then .word [low] else .oneOf [(low, high)]
  | ranges => .oneOf ranges

/-- The ranges of a part that stands for one byte. -/
def byteRanges? : Expression → Option (List (UInt8 × UInt8))
  | .oneOf ranges => some ranges
  | _ => none

/-- The byte of a word of one. -/
def singleByte? : Expression → Option (UInt8 × UInt8)
  | .word [b] => some (b, b)
  | _ => none

/-! ## Sequences -/

/-- Put a part in front of others.  It becomes one with a word behind it. -/
def prepend (part : Expression) (parts : List Expression) : List Expression :=
  match part, parts with
  | .nothing, parts => parts
  | .word a, .word b :: rest => .word (a ++ b) :: rest
  | part, parts => part :: parts

/-- Put some parts in front of others. -/
def prependAll (front parts : List Expression) : List Expression :=
  front.foldr prepend parts

def ofParts : List Expression → Expression
  | [] => .nothing
  | [part] => part
  | parts => .sequence parts

/-- The parts of a sequence of more than one. -/
def parts? : Expression → Option (List Expression)
  | .sequence parts => some parts
  | _ => none

/-! ## Choices -/

/-- How many parts two sequences start with in common. -/
def commonLength : List Expression → List Expression → Nat
  | a :: as, b :: bs => if same a b then commonLength as bs + 1 else 0
  | _, _ => 0

/-- The ways of a choice, with those of a choice in it among them. -/
def flatWays (ways : List Expression) : List Expression :=
  ways.flatMap fun
    | .choice inner => inner
    | way => [way]

/-- A choice between bytes is one byte. -/
def ofWays (ways : List Expression) : Expression :=
  let ways := flatWays ways
  match ways, ways.mapM singleByte?, ways.mapM byteRanges? with
  | [], _, _ => .nothing
  | [way], _, _ => way
  | _, some ranges, _ => byte fun b => ranges.any fun r => r.1 ≤ b && b ≤ r.2
  | _, _, some ranges => byte fun b => ranges.flatten.any fun r => r.1 ≤ b && b ≤ r.2
  | ways, _, _ => .choice ways

/-- The parts of a choice: what all sequences in it start with, and a choice between their rests. -/
def choiceParts (ways : List Expression) : List Expression :=
  match ofWays ways with
  | .choice ways =>
    match ways.mapM parts? with
    | some (first :: rest) =>
      let n := rest.foldl (fun n parts => min n (commonLength first parts)) first.length
      if n = 0 then [.choice ways]
      else
        prependAll (first.take n)
          [ofWays ((first :: rest).map fun parts => ofParts (parts.drop n))]
    | _ => [.choice ways]
  | .nothing => []
  | .sequence parts => parts
  | part => [part]

/-! ## Sizes -/

def word? : Expression → Option (List UInt8)
  | .word bytes => some bytes
  | _ => none

mutual

/-- The size of the part of an automaton for an expression, which reads forwards or backwards. -/
def size [Automaton.Engine] (backwards : Bool) : Expression → Nat
  | .nothing => Automaton.stateSize
  | .word bytes => bytes.length * Automaton.stateSize
  | .oneOf ranges => Automaton.setSize ranges.length
  | .optional part => Automaton.forkSize 2 + size backwards part
  | .many part => Automaton.loopSize (size backwards part)
  | .sequence parts => sizeAll backwards parts
  | .choice ways =>
    match ways.mapM word? with
    | some words => Automaton.treeSize (if backwards then words.map List.reverse else words)
    | none => Automaton.forkSize ways.length + sizeAll backwards ways

def sizeAll [Automaton.Engine] (backwards : Bool) : List Expression → Nat
  | [] => 0
  | part :: parts => size backwards part + sizeAll backwards parts

end

end Expression

end RuleLens
