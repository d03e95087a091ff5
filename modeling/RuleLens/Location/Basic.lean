import RuleLens.Path
import RuleLens.Position
import RuleLens.Text.Blank
import RuleLens.Text.Search

/-!
# Locations

A place in a file as users write it, `file:line[:column]`, both numbers counted from 1.  The line
number follows the first colon with a digit behind it; a drive letter at the start keeps its colon.
-/

namespace RuleLens

/-- Which number of a location is meant. -/
inductive LocationPart where
  | line
  | column
deriving Repr, DecidableEq

def LocationPart.name : LocationPart → String
  | .line => "line"
  | .column => "column"

/-- Why a text is no location. -/
inductive LocationError where
  | empty
  | noLine
  | negativeLine
  | columnRequired
  | invalidNumber (part : LocationPart) (text : List Char)
  | zeroNumber (part : LocationPart)
  | fileNotFound (path : Path)
  | unreadable (path : Path)
deriving Repr, DecidableEq

namespace LocationError

def formatHint : String :=
  "Expected: file:line[:column]\nExample: rules/pe.yara:12:9"

def message : LocationError → String
  | .empty => "Location cannot be empty"
  | .noLine => "Invalid location format. " ++ formatHint
  | .negativeLine =>
    "Invalid line number: negative values not allowed. Line numbers are 1-indexed.\n" ++ formatHint
  | .columnRequired => "A column is required. " ++ formatHint
  | .invalidNumber part text =>
    "Invalid " ++ part.name ++ " number '" ++ String.ofList text ++
      "': must be a positive integer (1-indexed)"
  | .zeroNumber part =>
    part.name ++ " number must be >= 1 (got 0). Positions are 1-indexed."
  | .fileNotFound path => "File not found: " ++ path.text
  | .unreadable path => "Failed to read " ++ path.text

end LocationError

structure Location where
  file : Path
  line : Nat
  column : Option Nat
deriving Repr, DecidableEq

namespace Location

/-- Whether the line number may follow: it starts with a digit, or wrongly with a minus sign. -/
def startsNumber (text : List Char) : Bool :=
  text.head?.any fun c => c.isDigit || c == '-'

/-- Split at the first colon with a number behind it, `file` being read already, in reverse. -/
def splitFrom (file : List Char) : List Char → Option (List Char × List Char)
  | [] => none
  | c :: rest =>
    if c = ':' && startsNumber rest then some (file.reverse, rest) else splitFrom (c :: file) rest

/-- The file and the numbers behind it. -/
def split (text : List Char) : Except LocationError (List Char × List Char) :=
  let parts := match text with
    | drive :: ':' :: c :: rest =>
      if drive.isAlpha then splitFrom [':', drive] (c :: rest) else splitFrom [] text
    | _ => splitFrom [] text
  match parts with
  | none => .error .noLine
  | some (file, numbers) =>
    if numbers.head? = some '-' then .error .negativeLine else .ok (file, numbers)

def readNumber (part : LocationPart) (text : List Char) : Except LocationError Nat :=
  match Text.readUpTo? Text.max32 text with
  | none => .error (.invalidNumber part text)
  | some 0 => .error (.zeroNumber part)
  | some n => .ok n

/-- The text in front of the first colon, and the text behind it if there is one. -/
def cutColon (text : List Char) : List Char × Option (List Char) :=
  (text.takeWhile (· != ':'), (text.dropWhile (· != ':')).tail?)

def ofChars (input : List Char) : Except LocationError Location := do
  let text := Text.trim input
  if text.isEmpty then throw .empty
  let (file, numbers) ← split text
  let (line, column) := cutColon numbers
  let line ← readNumber .line line
  let column ← column.mapM (readNumber .column)
  return ⟨⟨String.ofList file⟩, line, column⟩

def ofString (input : String) : Except LocationError Location :=
  ofChars input.toList

/-- Whether the text names a column, as far as it is a location at all. -/
def namesColumn (input : String) : Except LocationError Bool := do
  let (_, numbers) ← split (Text.trim input.toList)
  return numbers.contains ':'

/-- The position meant; without a column, the start of the line. -/
def position (l : Location) : Position :=
  .ofDisplay l.line (l.column.getD 1)

def toChars (l : Location) : List Char :=
  l.file.text.toList ++ ':' :: Text.decimal l.line ++
    match l.column with
    | some column => ':' :: Text.decimal column
    | none => []

def toString (l : Location) : String :=
  String.ofList l.toChars

end Location

end RuleLens
