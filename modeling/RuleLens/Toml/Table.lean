import RuleLens.Toml.Value

/-!
# Tables under construction

A document names its tables piece by piece, and may name none twice.  Each table remembers how it
came about: by its own header, by the header of a table inside it, or by a dotted key.
-/

namespace RuleLens.Toml

/-- How a table came about. -/
inductive Origin where
  /-- By a header or braces of its own. -/
  | explicit
  /-- By the header of a table inside it. -/
  | implicit
  /-- By a key with dots. -/
  | dotted
deriving Repr, DecidableEq

inductive Item where
  /-- A value, complete in itself. -/
  | value (v : Value)
  | table (origin : Origin) (entries : List (String × Item))
  /-- Tables with the same header: the newest one, and those before it. -/
  | tables (newest : List (String × Item)) (older : List (List (String × Item)))

/-- A table that is still open.  Its newest entry stands first. -/
structure Table where
  origin : Origin
  entries : List (String × Item)

namespace Table

def empty (origin : Origin) : Table := ⟨origin, []⟩

def get? (t : Table) (key : String) : Option Item :=
  t.entries.lookup key

/-- Put an item under a key, in place of the one there. -/
def set (t : Table) (key : String) (item : Item) : Table :=
  if (t.get? key).isSome then
    { t with entries := t.entries.map fun e => if e.1 = key then (key, item) else e }
  else
    { t with entries := (key, item) :: t.entries }

/-- Change the table at the end of a path.  Missing tables on the way are made, the newest of
several with one header is meant, and a dotted path may not pass a table with a header of its
own. -/
def modify (dotted : Bool) (f : Table → Option Table) : List String → Table → Option Table
  | [], t => f t
  | key :: rest, t =>
    match t.get? key with
    | none => do
      let inner ← modify dotted f rest (.empty (if dotted then .dotted else .implicit))
      some (t.set key (.table inner.origin inner.entries))
    | some (.value _) => none
    | some (.table origin entries) =>
      if dotted && origin = .explicit then none
      else do
        let inner ← modify dotted f rest ⟨origin, entries⟩
        some (t.set key (.table inner.origin inner.entries))
    | some (.tables newest older) => do
      let inner ← modify dotted f rest ⟨.explicit, newest⟩
      some (t.set key (.tables inner.entries older))

/-- Put a value under a new key.  A dotted path leads to a table that only such paths name. -/
def insert (path : List String) (key : String) (v : Value) : Table → Option Table :=
  modify true (fun t =>
    if (t.origin == .dotted) == path.isEmpty || (t.get? key).isSome then none
    else some (t.set key (.value v))) path

/-- Open the table of a header. -/
def openTable (path : List String) (key : String) : Table → Option Table :=
  modify false (fun t =>
    match t.get? key with
    | none => some (t.set key (.table .explicit []))
    | some (.table .implicit entries) => some (t.set key (.table .explicit entries))
    | some _ => none) path

/-- Open one more table of a header in double brackets. -/
def openElement (path : List String) (key : String) : Table → Option Table :=
  modify false (fun t =>
    match t.get? key with
    | none => some (t.set key (.tables [] []))
    | some (.tables newest older) => some (t.set key (.tables [] (newest :: older)))
    | some _ => none) path

/-- Change the table that a header opened last. -/
def modifyOpen (f : Table → Option Table) (path : List String) : Table → Option Table :=
  modify false f path

end Table

mutual

/-- The finished value of an item. -/
def Item.close : Item → Value
  | .value v => v
  | .table _ entries => .table (closeEntries entries).reverse
  | .tables newest older =>
    .array (.table (closeEntries newest).reverse :: closeTables older).reverse

/-- The finished entries of a table, newest first. -/
def closeEntries : List (String × Item) → List (String × Value)
  | [] => []
  | (key, item) :: rest => (key, item.close) :: closeEntries rest

/-- Finished tables, newest first. -/
def closeTables : List (List (String × Item)) → List Value
  | [] => []
  | entries :: rest => .table (closeEntries entries).reverse :: closeTables rest

end

/-- The finished entries of a table, in order. -/
def Table.close (t : Table) : List (String × Value) :=
  (closeEntries t.entries).reverse

end RuleLens.Toml
