/-!
# Searching in a line

Where a pattern occurs in a text, as columns counted in characters.
-/

namespace RuleLens.Text

/-- The first occurrence of `pat` in a text whose first character has column `col`. -/
def findFrom (pat : List Char) (col : Nat) : List Char → Option Nat
  | [] => if pat.isEmpty then some col else none
  | c :: rest => if pat.isPrefixOf (c :: rest) then some col else findFrom pat (col + 1) rest

/-- The column of the first occurrence of `pat`. -/
def find? (pat text : List Char) : Option Nat :=
  findFrom pat 0 text

/-- The occurrences of `pat` that start after the next `skip` characters, where the first character
has column `col`.  An occurrence covers its characters: the next one starts behind them. -/
def occurrencesFrom (pat : List Char) : (skip col : Nat) → List Char → List Nat
  | _, _, [] => []
  | skip + 1, col, _ :: rest => occurrencesFrom pat skip (col + 1) rest
  | 0, col, c :: rest =>
    if pat.isPrefixOf (c :: rest) then
      col :: occurrencesFrom pat (pat.length - 1) (col + 1) rest
    else
      occurrencesFrom pat 0 (col + 1) rest

/-- The columns of the occurrences of a non-empty pattern, from left to right, none overlapping the
one before it. -/
def occurrences (pat text : List Char) : List Nat :=
  occurrencesFrom pat 0 0 text

/-- The fields of a text that colons followed by a space separate, with `field` read already, in
reverse. -/
def fieldsFrom (field : List Char) : List Char → List (List Char)
  | [] => [field.reverse]
  | ':' :: ' ' :: rest => field.reverse :: fieldsFrom [] rest
  | c :: rest => fieldsFrom (c :: field) rest

/-- The fields of a text that colons followed by a space separate.  There is always a first one. -/
def fields (text : List Char) : List (List Char) :=
  fieldsFrom [] text

end RuleLens.Text
