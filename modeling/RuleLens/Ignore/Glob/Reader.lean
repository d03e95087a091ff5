import RuleLens.Ignore.Glob.Basic

/-!
# Reading glob patterns

Two stars in a row stand for whole directories if slashes or the ends of a branch stand around them,
and else for a star each.  Braces hold alternatives that commas separate, brackets hold a set of
characters, and a backslash takes the next character for itself.
-/

namespace RuleLens.Glob

/-- A pattern in the making: the tokens of the open branches, innermost first, each branch in
reverse, and how many branches each open group has. -/
structure Draft where
  branches : List (List GlobToken)
  groups : List Nat
  /-- The character read last. -/
  last : Option Char
  /-- A bracket was left open: brackets stand for themselves from there on. -/
  bracketsPlain : Bool

namespace Draft

def start : Draft := ⟨[[]], [], none, false⟩

def push (d : Draft) (token : GlobToken) : Draft :=
  match d.branches with
  | branch :: rest => { d with branches := (token :: branch) :: rest }
  | [] => d

/-- Open a group of alternatives. -/
def openGroup (d : Draft) : Draft :=
  { d with branches := [] :: d.branches, groups := 1 :: d.groups }

/-- Go on to the next alternative, or take a comma for itself outside of groups. -/
def comma (d : Draft) : Draft :=
  match d.groups with
  | n :: rest => { d with branches := [] :: d.branches, groups := (n + 1) :: rest }
  | [] => d.push (.literal ',')

/-- Close the innermost group. -/
def closeGroup? (d : Draft) : Option Draft :=
  match d.groups with
  | n :: rest =>
    let group := (d.branches.take n).reverse.map List.reverse
    some ({ d with branches := d.branches.drop n, groups := rest }.push (.alternatives group))
  | [] => none

/-- Two stars that stand for themselves. -/
def twoStars (d : Draft) : Draft :=
  (d.push .star).push .star

/-- Replace the token pushed last by one for whole directories, unless it is one already. -/
def pushDirectories (d : Draft) (token : GlobToken) : Draft :=
  match d.branches with
  | (.leading :: branch) :: rest => { d with branches := (.leading :: branch) :: rest }
  | (.trailing :: branch) :: rest => { d with branches := (.trailing :: branch) :: rest }
  | (_ :: branch) :: rest => { d with branches := (token :: branch) :: rest }
  | _ => d.push token

end Draft

/-- Whether a character lets two stars behind it stand for whole directories.  In a group the marks
of groups do so even if they stand for themselves. -/
def startsDirectories (c : Char) (inGroup : Bool) : Bool :=
  c = '/' || (inGroup && (c = ',' || c = '\x7b'))

/-- Two stars with `rest` behind them, read into `d`: whole directories if slashes or the ends of
the pattern stand around them, else just stars.  A slash behind whole directories belongs to
them. -/
def readStars (d : Draft) (rest : List Char) : Draft × List Char :=
  let afterStar (d : Draft) : Draft := { d with last := some '*' }
  let afterSlash (d : Draft) : Draft := { d with last := some '/' }
  let opening := d.branches.head?.all (·.isEmpty)
  let inGroup := !d.groups.isEmpty
  if opening then
    match rest with
    | [] => (afterStar (d.push .leading), [])
    | c :: behind =>
      if c = '/' then (afterSlash (d.push .leading), behind) else (afterStar d.twoStars, rest)
  else if !d.last.any (startsDirectories · inGroup) then (afterStar d.twoStars, rest)
  else
    match rest with
    | [] => (afterStar (d.pushDirectories .trailing), [])
    | c :: behind =>
      if inGroup && (c = ',' || c = '\x7d') then (afterStar (d.pushDirectories .trailing), rest)
      else if c = '/' then (afterSlash (d.pushDirectories .inner), behind)
      else (afterStar d.twoStars, rest)

/-- What a bracket turns out to be. -/
inductive BracketResult where
  | closed (ranges : List (Char × Char)) (rest : List Char)
  | unclosed
  | invalid

/-- The ranges of a bracket, `ranges` being read already, in reverse.  A hyphen between two
characters makes a range, which must not go down.  The closing bracket may stand first, for
itself. -/
def readBracket (isFirst inRange : Bool) (ranges : List (Char × Char)) :
    List Char → BracketResult
  | [] => .unclosed
  | c :: rest =>
    if c = ']' && !isFirst then
      .closed ((if inRange then ('-', '-') :: ranges else ranges).reverse) rest
    else if c = '-' && !isFirst && !inRange then readBracket false true ranges rest
    else if inRange then
      match ranges with
      | (low, _) :: more =>
        if c < low then .invalid else readBracket false false ((low, c) :: more) rest
      | [] => .invalid
    else readBracket false false ((c, c) :: ranges) rest

/-- Read a pattern.  Faulty ones have no tokens. -/
def readTokens? : (fuel : Nat) → Draft → List Char → Option Draft
  | 0, _, _ => none
  | _ + 1, d, [] => some d
  | fuel + 1, d, c :: rest =>
    let next (d : Draft) (c : Char) : Draft := { d with last := some c }
    match c with
    | '?' => readTokens? fuel (next (d.push .any) c) rest
    | '*' =>
      match rest with
      | '*' :: behind =>
        let (d', remaining) := readStars d behind
        readTokens? fuel d' remaining
      | _ => readTokens? fuel (next (d.push .star) c) rest
    | '\x7b' => readTokens? fuel (next d.openGroup c) rest
    | '\x7d' => do readTokens? fuel (next (← d.closeGroup?) c) rest
    | ',' => readTokens? fuel (next d.comma c) rest
    | '\\' =>
      match rest with
      | e :: behind => readTokens? fuel (next (d.push (.literal e)) e) behind
      | [] => none
    | '[' =>
      let (negated, inside) := match rest with
        | '!' :: behind => (true, behind)
        | '^' :: behind => (true, behind)
        | _ => (false, rest)
      if d.bracketsPlain then readTokens? fuel (next (d.push (.literal c)) c) rest
      else
        match readBracket true false [] inside with
        | .closed ranges behind =>
          readTokens? fuel (next (d.push (.oneOf negated ranges)) ']') behind
        | .unclosed =>
          readTokens? fuel (next { d.push (.literal c) with bracketsPlain := true } c) rest
        | .invalid => none
    | _ => readTokens? fuel (next (d.push (.literal c)) c) rest

/-- The tokens of a pattern, unless it is faulty. -/
def ofChars? (text : List Char) : Option (List GlobToken) := do
  let d ← readTokens? (text.length + 1) .start text
  if d.groups.isEmpty then d.branches.head?.map List.reverse else none

end RuleLens.Glob
