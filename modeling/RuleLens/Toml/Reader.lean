import RuleLens.Toml.Quoted
import RuleLens.Toml.Table

/-!
# Reading TOML

A reader for TOML 1.0 documents.  It answers with the table of the whole document, or with nothing:
callers do not ask where a faulty document is wrong.
-/

namespace RuleLens.Toml

/-- Values and keys nest less deep than this. -/
def nestingLimit : Nat := 80

/-- What follows a comment, which stands at the start of the text or not at all. -/
def skipComment : List Char → List Char
  | '#' :: rest => rest.dropWhile isTextChar
  | s => s

/-- Drop the blanks and the comment at the end of a line, and its line break. -/
def cutLineEnd? (s : List Char) : Option (List Char) :=
  match skipComment (skipSpace s) with
  | [] => some []
  | rest => cutNewline? rest

/-- Drop blanks, comments and line breaks. -/
def skipLines : (fuel : Nat) → List Char → List Char
  | 0, s => s
  | fuel + 1, s =>
    match cutNewline? (skipComment (skipSpace s)) with
    | some rest => skipLines fuel rest
    | none => skipSpace s

/-- One part of a key. -/
def cutKeyPart? (s : List Char) : Option (String × List Char) :=
  let isBare (c : Char) := c.isAlphanum || c == '_' || c == '-'
  match s with
  | '"' :: _ | '\'' :: _ => (cutString? s).map fun (name, rest) => (String.ofList name, rest)
  | _ =>
    let name := s.takeWhile isBare
    if name.isEmpty then none else some (String.ofList name, s.dropWhile isBare)

/-- A key: its parts, blanks around them, with dots between. -/
def cutKeyParts? : (fuel : Nat) → List Char → Option (List String × List Char)
  | 0, _ => none
  | fuel + 1, s => do
    let (part, rest) ← cutKeyPart? (skipSpace s)
    match skipSpace rest with
    | '.' :: rest =>
      let (parts, rest) ← cutKeyParts? fuel rest
      some (part :: parts, rest)
    | rest => some ([part], rest)

/-- A key as the path to a table and a name in it. -/
def cutKey? (s : List Char) : Option ((List String × String) × List Char) := do
  let (parts, rest) ← cutKeyParts? nestingLimit s
  if parts.length < nestingLimit then
    some ((parts.dropLast, ← parts.getLast?), rest)
  else
    none

mutual

/-- The value at the start of a text, inside `depth` arrays and inline tables. -/
def cutValue? : (fuel depth : Nat) → List Char → Option (Value × List Char)
  | 0, _, _ => none
  | fuel + 1, depth, s =>
    match s with
    | '"' :: _ | '\'' :: _ =>
      (cutAnyString? s).map fun (text, rest) => (.string (String.ofList text), rest)
    | '[' :: rest =>
      if depth + 1 < nestingLimit then do
        let (items, rest) ← cutItems? fuel (depth + 1) rest
        some (.array items, rest)
      else
        none
    | '\x7b' :: rest =>
      if depth + 1 < nestingLimit then do
        let (entries, rest) ← cutEntries? fuel (depth + 1) rest
        some (.table entries, rest)
      else
        none
    | _ => cutScalar? s

/-- The rest of an array: values with commas between them, also behind the last one. -/
def cutItems? : (fuel depth : Nat) → List Char → Option (List Value × List Char)
  | 0, _, _ => none
  | fuel + 1, depth, s =>
    match skipLines fuel s with
    | ']' :: rest => some ([], rest)
    | s => do
      let (item, rest) ← cutValue? fuel depth s
      match skipLines fuel rest with
      | ',' :: rest =>
        let (items, rest) ← cutItems? fuel depth rest
        some (item :: items, rest)
      | ']' :: rest => some ([item], rest)
      | _ => none

/-- The rest of an inline table: it stands on one line. -/
def cutEntries? : (fuel depth : Nat) → List Char → Option (List (String × Value) × List Char)
  | 0, _, _ => none
  | fuel + 1, depth, s =>
    match skipSpace s with
    | '\x7d' :: rest => some ([], rest)
    | s => do
      let (t, rest) ← cutPairs? fuel depth (.empty .explicit) s
      some (t.close, rest)

/-- Keys and values with commas between them, up to a closing brace. -/
def cutPairs? : (fuel depth : Nat) → Table → List Char → Option (Table × List Char)
  | 0, _, _, _ => none
  | fuel + 1, depth, t, s => do
    let ((path, key), rest) ← cutKey? s
    let rest ← cutChar? (· == '=') rest
    let (v, rest) ← cutValue? fuel depth (skipSpace rest)
    let t ← t.insert path key v
    match skipSpace rest with
    | ',' :: rest => cutPairs? fuel depth t rest
    | '\x7d' :: rest => some (t, rest)
    | _ => none

end

/-- A document as read so far: its table, and the path of the table that is open. -/
structure Progress where
  root : Table
  current : List String

/-- A header, behind its first bracket. -/
def cutHeader? (p : Progress) (s : List Char) : Option (Progress × List Char) := do
  let (isElement, s) := match s with
    | '[' :: rest => (true, rest)
    | _ => (false, s)
  let ((path, key), rest) ← cutKey? s
  let rest ← cutChar? (· == ']') rest
  let rest ← if isElement then cutChar? (· == ']') rest else some rest
  let rest ← cutLineEnd? rest
  let root ← if isElement then p.root.openElement path key else p.root.openTable path key
  some (⟨root, path ++ [key]⟩, rest)

/-- A key with its value.  The fuel is twice the length of the text. -/
def cutPair? (fuel : Nat) (p : Progress) (s : List Char) : Option (Progress × List Char) := do
  let ((path, key), rest) ← cutKey? s
  let rest ← cutChar? (· == '=') rest
  let (v, rest) ← cutValue? fuel 0 (skipSpace rest)
  let rest ← cutLineEnd? rest
  let root ← p.root.modifyOpen (·.insert path key v) p.current
  some (⟨root, p.current⟩, rest)

/-- The rest of a document, statement by statement. -/
def readStatements : (fuel : Nat) → Progress → List Char → Option Progress
  | 0, _, _ => none
  | fuel + 1, p, s =>
    match skipSpace s with
    | [] => some p
    | '#' :: rest => do readStatements fuel p (← cutLineEnd? ('#' :: rest))
    | '[' :: rest => do
      let (p, rest) ← cutHeader? p rest
      readStatements fuel p rest
    | c :: rest =>
      match cutNewline? (c :: rest) with
      | some rest => readStatements fuel p rest
      | none => do
        let (p, rest) ← cutPair? (2 * fuel + 2) p (c :: rest)
        readStatements fuel p rest

/-- The entries of a document.  A byte order mark at its start does not count. -/
def read? (text : List Char) : Option (List (String × Value)) := do
  let text := match text with
    | '\uFEFF' :: rest => rest
    | _ => text
  let p ← readStatements (text.length + 1) ⟨.empty .explicit, []⟩ text
  some p.root.close

end RuleLens.Toml
