import RuleLens.Toml.Scalar

/-!
# Quoted strings

Basic strings, between double quotes, know escapes; literal strings, between single quotes, do not.
Three quotes in place of one make a string that may span lines.
-/

namespace RuleLens.Toml

/-- The characters that may stand unescaped in a document, line breaks apart. -/
def isTextChar (c : Char) : Bool :=
  c == '\t' || (0x20 ≤ c.toNat && c.toNat != 0x7f)

/-- Blanks within a line. -/
def isSpace (c : Char) : Bool :=
  c == ' ' || c == '\t'

def skipSpace (s : List Char) : List Char :=
  s.dropWhile isSpace

/-- What follows a line break. -/
def cutNewline? : List Char → Option (List Char)
  | '\n' :: rest => some rest
  | '\r' :: '\n' :: rest => some rest
  | _ => none

/-- The character with the code that exactly `n` hexadecimal digits denote. -/
def cutCode? (n : Nat) (s : List Char) : Option (Char × List Char) :=
  if (s.take n).length = n && (s.take n).all isHexDigit then
    let code := digitsValue 16 (s.take n)
    if code.isValidChar then some (Char.ofNat code, s.drop n) else none
  else
    none

/-- The character that the text behind a backslash stands for. -/
def cutEscape? : List Char → Option (Char × List Char)
  | 'b' :: rest => some ('\x08', rest)
  | 't' :: rest => some ('\t', rest)
  | 'n' :: rest => some ('\n', rest)
  | 'f' :: rest => some ('\x0c', rest)
  | 'r' :: rest => some ('\r', rest)
  | '"' :: rest => some ('"', rest)
  | '\\' :: rest => some ('\\', rest)
  | 'u' :: rest => cutCode? 4 rest
  | 'U' :: rest => cutCode? 8 rest
  | _ => none

/-- Drop blanks and line breaks. -/
def skipBlankLines : List Char → List Char
  | [] => []
  | '\r' :: '\n' :: rest => skipBlankLines rest
  | c :: rest => if isSpace c || c == '\n' then skipBlankLines rest else c :: rest

/-- What follows a backslash at the end of a line, with the blanks and line breaks behind it. -/
def cutContinuation? (s : List Char) : Option (List Char) :=
  (cutNewline? (skipSpace s)).map skipBlankLines

/-- The rest of a basic string, behind the characters in `read`, which are in reverse. -/
def cutBasic? : (fuel : Nat) → (read : List Char) → List Char → Option (List Char × List Char)
  | 0, _, _ => none
  | _, _, [] => none
  | fuel + 1, read, c :: rest =>
    if c = '"' then some (read.reverse, rest)
    else if c = '\\' then
      match cutEscape? rest with
      | some (d, rest) => cutBasic? fuel (d :: read) rest
      | none => none
    else if isTextChar c then cutBasic? fuel (c :: read) rest
    else none

/-- The rest of a literal string. -/
def cutLiteral? (s : List Char) : Option (List Char × List Char) :=
  let body := s.takeWhile fun c => isTextChar c && c != '\''
  match s.drop body.length with
  | '\'' :: rest => some (body, rest)
  | _ => none

/-- The end of a string in triple quotes: up to two quotes in front of the last three belong to the
string. -/
def cutTripleEnd? (quote : Char) (s : List Char) : Option (List Char × List Char) :=
  let quotes := (s.takeWhile (· == quote)).length
  if quotes < 3 then none
  else
    let kept := min 2 (quotes - 3)
    some (List.replicate kept quote, s.drop (kept + 3))

/-- The rest of a string in triple quotes, behind the characters in `read`, which are in reverse.
A line break counts as a line feed. -/
def cutTriple? (quote : Char) :
    (fuel : Nat) → (read : List Char) → List Char → Option (List Char × List Char)
  | 0, _, _ => none
  | _, _, [] => none
  | fuel + 1, read, c :: rest =>
    if c = quote then
      match cutTripleEnd? quote (c :: rest) with
      | some (quotes, rest) => some (read.reverse ++ quotes, rest)
      | none => cutTriple? quote fuel (c :: read) rest
    else if let some rest := cutNewline? (c :: rest) then cutTriple? quote fuel ('\n' :: read) rest
    else if quote = '"' && c = '\\' then
      match cutContinuation? rest with
      | some rest => cutTriple? quote fuel read rest
      | none =>
        match cutEscape? rest with
        | some (d, rest) => cutTriple? quote fuel (d :: read) rest
        | none => none
    else if isTextChar c then cutTriple? quote fuel (c :: read) rest
    else none

/-- A line break right behind the opening quotes does not belong to the string. -/
def cutTripleBody? (quote : Char) (s : List Char) : Option (List Char × List Char) :=
  cutTriple? quote (s.length + 1) [] ((cutNewline? s).getD s)

/-- The string within one line at the start of a text. -/
def cutString? : List Char → Option (List Char × List Char)
  | '"' :: rest => cutBasic? (rest.length + 1) [] rest
  | '\'' :: rest => cutLiteral? rest
  | _ => none

/-- The string at the start of a text. -/
def cutAnyString? : List Char → Option (List Char × List Char)
  | '"' :: '"' :: '"' :: rest => cutTripleBody? '"' rest
  | '\'' :: '\'' :: '\'' :: rest => cutTripleBody? '\'' rest
  | s => cutString? s

end RuleLens.Toml
