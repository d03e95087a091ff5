import RuleLens.Document
import RuleLens.Module.Schema

/-!
# Completion

What may follow a chain of members such as `pe.sections[0].` in front of the cursor.  The last word
of the chain is still being typed, so it does not narrow the answer.
-/

namespace RuleLens.Completion

/-- The characters of a member chain. -/
def isChainChar (c : Char) : Bool :=
  isIdentChar c || c == '.' || c == '[' || c == ']'

/-- The member chain that a text ends in, without its subscripts. -/
def accessPath (text : Line) : List Line :=
  let chain := (text.reverse.takeWhile isChainChar).reverse
  (chain.splitOn '.').map (·.takeWhile (· != '['))

/-- The members of the structure that a path leads to. -/
def follow? (members : List (String × Member)) : List Line → Option (List (String × Member))
  | [] => some members
  | name :: rest =>
    match members.lookup (String.ofList name) with
    | some (.nested inner) => follow? inner rest
    | _ => none

/-- The members of a structure in the order of their names. -/
def listing (members : List (String × Member)) : List (String × MemberKind) :=
  (members.map fun m => (m.1, m.2.kind)).mergeSort fun a b => a.1 ≤ b.1

/-- What the last word of a path may be: none for a path to nowhere. -/
def membersAt (path : List Line) : List (String × MemberKind) :=
  if path.isEmpty then []
  else ((follow? Schema.modules path.dropLast).map listing).getD []

/-- The module that a line imports, if it is an import of a known one. -/
def importOf? (line : Line) : Option String :=
  Schema.modules.findSome? fun m =>
    let start := ("import \"" ++ m.1 ++ "\"").toList
    if start.isPrefixOf line && (line.drop start.length).all Text.isBlank then some m.1 else none

/-- The imported modules in the order of the document. -/
def imports (doc : Document) : List String :=
  doc.lines.filterMap importOf?

/-- What may stand at `p`.  There is no answer for a line that does not exist, nor, if imports are
required, for a module that is not imported. -/
def complete (doc : Document) (p : Position) (requireImports : Bool) :
    Option (List (String × MemberKind)) := do
  let path := accessPath (← doc.textBefore? p)
  if requireImports then
    let root ← path.head?
    if (imports doc).contains (String.ofList root) then some (membersAt path) else none
  else
    some (membersAt path)

end RuleLens.Completion
