/-!
# Glob patterns

The patterns of ignore files.  A pattern is a list of tokens, each of which stands for some byte
strings; a path matches if it is a string for the first token, followed by one for the second, and
so on.  Stars and question marks do not reach over slashes.

A text is matched with all ways of reading it at once: marks say which places of the text the tokens
so far can end at, and every token moves the marks.
-/

namespace RuleLens

inductive GlobToken where
  | literal (c : Char)
  /-- One byte other than a slash. -/
  | any
  /-- Bytes other than slashes. -/
  | star
  /-- Whole directories at the start, or nothing. -/
  | leading
  /-- A slash, and whole directories behind it. -/
  | inner
  /-- A slash, and all behind it. -/
  | trailing
  /-- A byte of a set, or with `negated` any other. -/
  | oneOf (negated : Bool) (ranges : List (Char × Char))
  | alternatives (branches : List (List GlobToken))
deriving Repr, Inhabited

namespace Glob

/-- The byte of a slash. -/
def slash : UInt8 := 0x2f

def bytesOf (c : Char) : List UInt8 :=
  String.utf8EncodeChar c

/-! ## Sets of bytes -/

/-- The byte ranges of a character range: the last byte of the first character and the first byte
of the last one are its ends, their other bytes stand for themselves. -/
def byteRanges (range : Char × Char) : List (UInt8 × UInt8) :=
  let first := bytesOf range.1
  let last := bytesOf range.2
  if range.1 = range.2 then first.map fun b => (b, b)
  else
    first.dropLast.map (fun b => (b, b)) ++ [(first.getLastD 0, last.headD 0)] ++
      last.tail.map fun b => (b, b)

def inRanges (ranges : List (UInt8 × UInt8)) (b : UInt8) : Bool :=
  ranges.any fun r => r.1 ≤ b && b ≤ r.2

/-! ## Groups with nothing in them -/

mutual

/-- Whether a token asks for nothing: a group without anything in it. -/
def isVoid : GlobToken → Bool
  | .alternatives branches => areVoidBranches branches
  | _ => false

def areVoid : List GlobToken → Bool
  | [] => true
  | token :: tokens => isVoid token && areVoid tokens

def areVoidBranches : List (List GlobToken) → Bool
  | [] => true
  | branch :: branches => areVoid branch && areVoidBranches branches

end

/-! ## Marks -/

/-- The places of a text that count: one before each of its bytes, and one behind the last. -/
abbrev Marks := List Bool

namespace Marks

/-- Only the place at the start of a text. -/
def atStart (s : List UInt8) : Marks :=
  true :: List.replicate s.length false

/-- The places of either set. -/
def union (a b : Marks) : Marks :=
  List.zipWith (· || ·) a b

/-- Go on by one byte that `p` accepts. -/
def advance (p : UInt8 → Bool) (s : List UInt8) (marks : Marks) : Marks :=
  false :: List.zipWith (fun b mark => mark && p b) s marks

/-- Go on by any number of bytes that `p` accepts; `on` says that the bytes so far lead here. -/
def spreadFrom (p : UInt8 → Bool) (on : Bool) : List UInt8 → Marks → Marks
  | b :: s, mark :: marks => (on || mark) :: spreadFrom p ((on || mark) && p b) s marks
  | [], mark :: _ => [on || mark]
  | _, [] => []

/-- Go on by any number of bytes that `p` accepts. -/
def spread (p : UInt8 → Bool) (s : List UInt8) (marks : Marks) : Marks :=
  spreadFrom p false s marks

/-- Go on to right behind any later slash. -/
def behindSlash (s : List UInt8) (marks : Marks) : Marks :=
  advance (· == slash) s (spread (fun _ => true) s marks)

/-- Whether the end of the text is marked. -/
def atEnd (marks : Marks) : Bool :=
  marks.getLast? = some true

end Marks

/-! ## Matching -/

mutual

/-- Move the marks of a text by a token. -/
def step (s : List UInt8) (marks : Marks) : GlobToken → Marks
  | .literal c => (bytesOf c).foldl (fun marks b => marks.advance (· == b) s) marks
  | .any => marks.advance (· != slash) s
  | .star => marks.spread (· != slash) s
  | .leading => marks.union (marks.behindSlash s)
  | .inner =>
    let marks := marks.advance (· == slash) s
    marks.union (marks.behindSlash s)
  | .trailing => (marks.advance (· == slash) s).spread (fun _ => true) s
  | .oneOf negated ranges =>
    let set := ranges.flatMap byteRanges
    marks.advance (fun b => inRanges set b != negated) s
  | .alternatives branches =>
    if areVoidBranches branches then marks else stepAny s marks branches

/-- Move the marks of a text by one token after the other. -/
def stepAll (s : List UInt8) (marks : Marks) : List GlobToken → Marks
  | [] => marks
  | token :: tokens => stepAll s (step s marks token) tokens

/-- Move the marks of a text by one of the branches.  Branches that ask for nothing do not count. -/
def stepAny (s : List UInt8) (marks : Marks) : List (List GlobToken) → Marks
  | [] => marks.map fun _ => false
  | branch :: branches =>
    let others := stepAny s marks branches
    if areVoid branch then others else (stepAll s marks branch).union others

end

/-! ## Paths without a name -/

def isLiteral : GlobToken → Bool
  | .literal _ => true
  | _ => false

def isSlash : GlobToken → Bool
  | .literal c => c = '/'
  | _ => false

def isDot : GlobToken → Bool
  | .literal c => c = '.'
  | _ => false

/-- Whether a pattern is a plain text, which is compared with the end of a path as it stands. -/
def isPlain : List GlobToken → Bool
  | .leading :: tokens => tokens.all isLiteral && tokens.any isSlash
  | tokens => tokens.all isLiteral

/-- Whether a pattern asks for a file name with a dot at its end. -/
def asksForName (tokens : List GlobToken) : Bool :=
  tokens.getLast?.any isDot && !isPlain tokens

/-- Whether a path ends in two dots, and so has no file name. -/
def isNameless (s : List UInt8) : Bool :=
  (s.splitOn slash).getLastD [] = [0x2e, 0x2e]

/-- Whether a pattern matches a whole path.  A pattern of whole directories alone matches all. -/
def accepts (tokens : List GlobToken) (s : List UInt8) : Bool :=
  match tokens with
  | [.leading] => true
  | _ => !(asksForName tokens && isNameless s) && (stepAll s (.atStart s) tokens).atEnd

end Glob

end RuleLens
