import RuleLens.Location.Basic
import RuleLens.Symbol.Basic
import RuleLens.World.Basic

/-!
# Locations in files

A location is taken from the current directory.  Without a column it means the first word of its
line.
-/

namespace RuleLens.Location

/-- The location with the path of its file, which has to be there. -/
def toAbsolute (l : Location) (w : World) : Except LocationError Location :=
  let p := if l.file.isAbsolute then l.file else w.cwdPath.join l.file
  match w.canonical p with
  | .ok file => .ok { l with file }
  | .error _ => .error (.fileNotFound p)

/-- The column, as shown to users, where the first word of a line starts.  A sigil in front of it
is passed over. -/
def indentColumn (doc : Document) (n : Nat) : Nat :=
  match doc.indent? n with
  | none => 1
  | some col =>
    match (doc.char? ⟨n, col⟩).bind Sigil.ofChar? with
    | some _ => col + 2
    | none => col + 1

/-- The location with a column. -/
def withColumn (l : Location) (w : World) : Except LocationError Location :=
  match l.column with
  | some _ => .ok l
  | none =>
    match w.readText l.file with
    | .error _ => .error (.unreadable l.file)
    | .ok text => .ok { l with column := some (indentColumn (.ofChars text) (l.line - 1)) }

/-- Read a location and find its file and column. -/
def resolve (w : World) (input : String) : Except LocationError Location := do
  let l ← ofString input
  let l ← l.toAbsolute w
  l.withColumn w

/-- Read a location that has to name its column. -/
def resolveExact (w : World) (input : String) : Except LocationError Location := do
  if ← namesColumn input then resolve w input else throw .columnRequired

end RuleLens.Location
