import RuleLens.Position
import RuleLens.Text.Blank

/-!
# Documents

A document is the list of its lines.  Line feeds separate lines, so a text with a final one has an
empty last line, and a carriage return at the end of a line does not belong to it.

Positions have 32 bits for each number, so documents are meant that have fewer than 2 ^ 32 lines and
fewer than 2 ^ 32 characters on each of them.  For these every index is a number of its own.
-/

namespace RuleLens

/-- The characters of one line, without its ending. -/
abbrev Line := List Char

/-- The characters of an identifier: ASCII letters, digits and the underscore. -/
def isIdentChar (c : Char) : Bool :=
  c.isAlphanum || c == '_'

structure Document where
  lines : List Line
deriving Repr, DecidableEq

namespace Document

/-- A line without the carriage return at its end. -/
def dropReturn (line : Line) : Line :=
  if line.getLast? = some '\r' then line.dropLast else line

def ofChars (text : List Char) : Document :=
  ⟨(text.splitOn '\n').map dropReturn⟩

def ofString (text : String) : Document :=
  ofChars text.toList

def lineCount (doc : Document) : Nat :=
  doc.lines.length

/-- The index of the last line. -/
def lastLine (doc : Document) : Nat :=
  doc.lineCount - 1

def line? (doc : Document) (n : Nat) : Option Line :=
  doc.lines[n]?

/-- The lines with their indices. -/
def numbered (doc : Document) : List (Line × Nat) :=
  doc.lines.zipIdx

def char? (doc : Document) (p : Position) : Option Char := do
  (← doc.line? p.line)[p.character]?

/-- The character in front of `p` on its line: none at column 0. -/
def charBefore? (doc : Document) (p : Position) : Option Char :=
  match p.character with
  | 0 => none
  | column + 1 => doc.char? ⟨p.line, column⟩

/-- The columns of the word that contains or ends at column `col`: where it starts and where it has
ended. -/
def wordAt? (text : Line) (col : Nat) : Option (Nat × Nat) :=
  let isWord (n : Nat) := text[n]?.any isIdentChar
  let around (anchor : Nat) :=
    (anchor - ((text.take anchor).reverse.takeWhile isIdentChar).length,
      anchor + ((text.drop anchor).takeWhile isIdentChar).length)
  if isWord col then some (around col)
  else if col > 0 && isWord (col - 1) then some (around (col - 1))
  else none

/-- The word that contains `p` or ends there. -/
def wordRange? (doc : Document) (p : Position) : Option Range := do
  let (first, stop) ← wordAt? (← doc.line? p.line) p.character
  some ⟨⟨p.line, first⟩, ⟨p.line, stop⟩⟩

/-- The text of a range within one line; columns past the end of the line hold nothing. -/
def textIn? (doc : Document) (r : Range) : Option Line := do
  if r.isSingleLine then
    let line ← doc.line? r.start.line
    some ((line.drop r.start.character).take (r.stop.character - r.start.character))
  else
    none

/-- The column of the first character that is not blank, or the length of a blank line. -/
def indent (line : Line) : Nat :=
  (line.takeWhile Text.isBlank).length

def indent? (doc : Document) (n : Nat) : Option Nat :=
  (doc.line? n).map indent

/-- What stands on the line of `p` in front of it. -/
def textBefore? (doc : Document) (p : Position) : Option Line :=
  (doc.line? p.line).map (·.take p.character)

/-- The column of the character that starts `offset` bytes into the UTF-8 form of a line.  An offset
inside a character or past the end has no column and counts as 0. -/
def columnOfOffset (line : Line) (offset : Nat) : Nat :=
  go 0 offset line
where
  go (col : Nat) : Nat → Line → Nat
    | 0, _ => col
    | _, [] => 0
    | rest, c :: line => if c.utf8Size ≤ rest then go (col + 1) (rest - c.utf8Size) line else 0
  termination_by structural _ line => line

end Document

end RuleLens
