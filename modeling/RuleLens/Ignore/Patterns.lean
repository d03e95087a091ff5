import RuleLens.Ignore.Glob.Limits
import RuleLens.Ignore.Glob.Reader
import RuleLens.Text.Blank
import RuleLens.Text.Utf8

/-!
# Ignore files

An ignore file has one pattern on each line.  A pattern excludes what it matches, or with an
exclamation mark in front brings it back; the last pattern that matches decides.
-/

namespace RuleLens

/-- What a list of patterns says about a path. -/
inductive Verdict where
  | undecided
  | ignored
  | restored
deriving Repr, DecidableEq

namespace Verdict

/-- The first verdict that decides. -/
def orElse (v w : Verdict) : Verdict :=
  if v = .undecided then w else v

end Verdict

structure IgnorePattern where
  tokens : List GlobToken
  restores : Bool
  onlyDirectories : Bool
deriving Repr

namespace IgnorePattern

/-- A pattern without a slash matches in any directory. -/
def anywhere (text : List Char) : List Char :=
  if ['*', '*', '/'].isPrefixOf text || text == ['*', '*'] then text
  else ['*', '*', '/'] ++ text

/-- A pattern that ends in all of a directory leaves out the directory itself. -/
def contents (text : List Char) : List Char :=
  if ['/', '*', '*'].isSuffixOf text then text ++ ['/', '*'] else text

/-- Drop the slash at the end of a pattern for directories, with a backslash in front of it. -/
def cutFinalSlash (text : List Char) : Bool × List Char :=
  if text.getLast? = some '/' then
    let body := text.dropLast
    (true, if body.getLast? = some '\\' then body.dropLast else body)
  else
    (false, text)

/-- The sign and the anchor of a pattern, and its text without them.  A backslash keeps a sign or a
comment mark from being one. -/
def cutSigns (text : List Char) : Bool × Bool × List Char :=
  match text with
  | '\\' :: '!' :: rest => (false, false, '!' :: rest)
  | '\\' :: '#' :: rest => (false, false, '#' :: rest)
  | '!' :: '/' :: rest => (true, true, rest)
  | '!' :: rest => (true, false, rest)
  | '/' :: rest => (false, true, rest)
  | _ => (false, false, text)

/-- The pattern on a line: none on a blank line, on a comment, or if it is faulty. -/
def ofLine? (line : List Char) : Option IgnorePattern :=
  if line.head? = some '#' then none
  else
    let text := if ['\\', ' '].isSuffixOf line then line else Text.trimEnd line
    if text.isEmpty then none
    else do
      let (restores, anchored, text) := cutSigns text
      let (onlyDirectories, text) := cutFinalSlash text
      let glob := if anchored || text.contains '/' then text else anywhere text
      let tokens ← Glob.ofChars? (contents glob)
      some { tokens, restores, onlyDirectories }

/-- Whether the pattern applies to a path, as seen from the directory of its file. -/
def applies (p : IgnorePattern) (path : List UInt8) (isDirectory : Bool) : Bool :=
  (!p.onlyDirectories || isDirectory) && Glob.accepts p.tokens path

def verdict (p : IgnorePattern) : Verdict :=
  if p.restores then .restored else .ignored

end IgnorePattern

/-- The patterns of one ignore file, in order. -/
abbrev IgnorePatterns := List IgnorePattern

namespace IgnorePatterns

/-- The lines of a file, each without its line feed and a carriage return right before that.  Behind
the last line feed there is a line only if it has any bytes. -/
def byteLines (bytes : List UInt8) : List (List UInt8) :=
  let lines := bytes.splitOn 0x0a
  let rest := lines.getLastD []
  lines.dropLast.map (fun line => if line.getLast? = some 0x0d then line.dropLast else line) ++
    if rest.isEmpty then [] else [rest]

/-- The text of the first line of a file. -/
def firstLine? (bytes : List UInt8) : Option (List Char) :=
  (byteLines bytes).head?.bind Text.Utf8.decode?

/-- The lines of an ignore file.  Nothing is read from a line on that is not UTF-8, and a byte order
mark at the start does not count. -/
def textLines (bytes : List UInt8) : List (List Char) :=
  match ((byteLines bytes).map Text.Utf8.decode?).takeWhile Option.isSome |>.filterMap id with
  | first :: rest => first.dropWhile (· == '\uFEFF') :: rest
  | [] => []

/-- The patterns of an ignore file: all of them, or none if they cannot be used together. -/
def ofBytes [Automaton.Engine] (bytes : List UInt8) : IgnorePatterns :=
  let patterns := (textLines bytes).filterMap IgnorePattern.ofLine?
  if Glob.areUsable (patterns.map (·.tokens)) then patterns else []

/-- What the patterns say about a path, as seen from the directory of their file. -/
def verdict (patterns : IgnorePatterns) (path : List UInt8) (isDirectory : Bool) : Verdict :=
  match patterns.reverse.find? (·.applies path isDirectory) with
  | some p => p.verdict
  | none => .undecided

end IgnorePatterns

end RuleLens
