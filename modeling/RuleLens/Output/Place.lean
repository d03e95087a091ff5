import RuleLens.Output.Json
import RuleLens.Path
import RuleLens.Symbol.Basic
import RuleLens.Symbol.Scope

/-!
# Places and symbols for users

Files are shown as seen from the root of the workspace, lines and columns are counted from 1.
-/

namespace RuleLens

/-- A place in a file, as users read it. -/
structure Place where
  file : String
  line : Nat
  column : Nat
deriving Repr, DecidableEq

namespace Place

def of (root file : Path) (p : Position) : Place :=
  ⟨file.relativeTo root, p.toDisplay.1, p.toDisplay.2⟩

def toJson (p : Place) : Json :=
  .obj [("file", .str p.file), ("line", .nat p.line), ("column", .nat p.column)]

end Place

/-- The lines of a block as users count them. -/
def scopeJson (s : RuleScope) : Json :=
  .obj [("start_line", .nat (Text.next32 s.first)), ("end_line", .nat (Text.next32 s.last))]

/-- What users read about the symbol in `file` and the rule around it. -/
def symbolJson (root file : Path) (symbol : Symbol) (scope : Option RuleScope) : Json :=
  .obj ([("name", .ofChars symbol.name), ("kind", .str symbol.kind.name),
    ("text", .ofChars symbol.surface),
    ("location", (Place.of root file symbol.range.start).toJson),
    ("end_location", (Place.of root file symbol.range.stop).toJson)] ++
    Json.optional "sigil" (symbol.kind.sigil?.map fun s => .ofChars [s.toChar]) ++
    Json.optional "rule" (scope.map scopeJson))

end RuleLens
