/-!
# JSON

The values that the command line prints, and their printed form: indented by two spaces, the members
of an object in the order of their keys.
-/

namespace RuleLens

inductive Json where
  | null
  | bool (b : Bool)
  | int (n : Int)
  | str (s : String)
  | arr (items : List Json)
  | obj (members : List (String × Json))

namespace Json

/-- A natural number. -/
def nat (n : Nat) : Json := .int n

def ofChars (s : List Char) : Json := .str (String.ofList s)

/-- A member that is left out without a value. -/
def optional (key : String) (value : Option Json) : List (String × Json) :=
  match value with
  | some v => [(key, v)]
  | none => []

/-- Put a member into an object, in place of one with the same key. -/
def insert (json : Json) (key : String) (value : Json) : Json :=
  match json with
  | .obj members => .obj ((key, value) :: members.filter (·.1 != key))
  | other => other

/-- A digit of a hexadecimal number, in small letters. -/
def hexDigit (n : Nat) : Char :=
  (Nat.toDigits 16 (n % 16)).headD '0'

/-- How a character is written between quotes. -/
def escape (c : Char) : List Char :=
  if c = '"' then ['\\', '"']
  else if c = '\\' then ['\\', '\\']
  else if c = '\n' then ['\\', 'n']
  else if c = '\r' then ['\\', 'r']
  else if c = '\t' then ['\\', 't']
  else if c = '\x08' then ['\\', 'b']
  else if c = '\x0c' then ['\\', 'f']
  else if c.toNat < 0x20 then ['\\', 'u', '0', '0', hexDigit (c.toNat / 16), hexDigit c.toNat]
  else [c]

def quote (s : String) : String :=
  String.ofList ('"' :: s.toList.flatMap escape ++ ['"'])

/-- A new line, indented by `depth` steps. -/
def newline (depth : Nat) : String :=
  String.ofList ('\n' :: List.replicate (2 * depth) ' ')

/-- Items between brackets, each on a line of its own. -/
def bracketed (depth : Nat) (opening closing : String) (items : List String) : String :=
  if items.isEmpty then opening ++ closing
  else
    opening ++ newline (depth + 1) ++ (String.intercalate ("," ++ newline (depth + 1)) items) ++
      newline depth ++ closing

/-- Members ordered by their keys. -/
def sortMembers (members : List (String × α)) : List (String × α) :=
  members.mergeSort fun a b => a.1 ≤ b.1

mutual

/-- The printed form of a value that starts `depth` steps in. -/
def pretty (depth : Nat) : Json → String
  | .null => "null"
  | .bool b => if b then "true" else "false"
  | .int n => ToString.toString n
  | .str s => quote s
  | .arr items => bracketed depth "[" "]" (prettyItems (depth + 1) items)
  | .obj members =>
    bracketed depth "\x7b" "\x7d"
      ((sortMembers (prettyMembers (depth + 1) members)).map fun m => quote m.1 ++ ": " ++ m.2)

def prettyItems (depth : Nat) : List Json → List String
  | [] => []
  | item :: rest => pretty depth item :: prettyItems depth rest

def prettyMembers (depth : Nat) : List (String × Json) → List (String × String)
  | [] => []
  | (key, value) :: rest => (key, pretty depth value) :: prettyMembers depth rest

end

/-- The printed form of a value. -/
def toText (v : Json) : String :=
  pretty 0 v

end Json

end RuleLens
