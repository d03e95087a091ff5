import RuleLens.Command.Arguments

/-!
# Help

What the program says about its commands: what each is for, how it is written, and in tables what it
takes.
-/

namespace RuleLens

/-- A line of a table: what it is about, and what there is to say. -/
structure HelpRow where
  head : String
  text : String
deriving Repr, DecidableEq

/-- What there is to say about a command. -/
structure HelpPage where
  about : String
  /-- The words behind the name of the program that lead to the command. -/
  words : List String := []
  /-- How it is written behind these words. -/
  usage : String
  commands : List HelpRow := []
  operands : List HelpRow := []
  options : List HelpRow := []
  /-- Whether options are told about on lines of their own. -/
  isLong : Bool := false
  footer : Option String := none
deriving Repr, DecidableEq

namespace HelpRow

/-- The width of the heads of a table. -/
def headWidth (rows : List HelpRow) : Nat :=
  rows.foldl (fun n row => max n row.head.length) 0

/-- A line of a table whose heads have the given width. -/
def line (width : Nat) (row : HelpRow) : String :=
  "  " ++ String.ofList (row.head.toList.rightpad width ' ') ++ "  " ++ row.text

/-- A table under a title. -/
def table (title : String) (rows : List HelpRow) : List String :=
  if rows.isEmpty then []
  else ["\n".intercalate ((title ++ ":") :: rows.map (line (headWidth rows)))]

/-- A table under a title, the texts on lines of their own. -/
def longTable (title : String) (rows : List HelpRow) : List String :=
  [title ++ ":\n" ++
    "\n\n".intercalate (rows.map fun row => "  " ++ row.head ++ "\n          " ++ row.text)]

end HelpRow

namespace HelpPage

/-- The text of a page for a program that was started by the given name. -/
def render (program : String) (page : HelpPage) : String :=
  let usage := "Usage: " ++ " ".intercalate (program :: page.words ++ [page.usage])
  let options :=
    if page.isLong then HelpRow.longTable "Options" page.options
    else HelpRow.table "Options" page.options
  "\n\n".intercalate ([page.about, usage] ++ HelpRow.table "Commands" page.commands ++
    HelpRow.table "Arguments" page.operands ++ options ++ page.footer.toList) ++ "\n"

end HelpPage

namespace OptionSpec

/-- How an option is written, with room for a letter. -/
def helpHead (o : OptionSpec) : String :=
  (match o.short with
    | some c => String.ofList ['-', c] ++ ", "
    | none => "    ") ++
  "--" ++ o.long ++
  (match o.valueName with
    | some name => " <" ++ name ++ ">"
    | none => "")

def helpRow (o : OptionSpec) : HelpRow :=
  ⟨o.helpHead, o.about⟩

/-- By what options of the same rank are ordered: their letter, or else their word. -/
def sortKey (o : OptionSpec) : String :=
  match o.short with
  | some c => String.ofList [c.toLower, if c.isLower then '0' else '1']
  | none => o.long

/-- The options of a command as help lists them.  They are ranked as the command names them, the one
that all commands share with the first; the requests for help and for the version come last. -/
def listed (options : List OptionSpec) : List OptionSpec :=
  let ranked := (0, verbose) :: options.zipIdx.map fun (o, rank) => (rank, o)
  let sorted := ranked.mergeSort fun a b =>
    a.1 < b.1 || (a.1 = b.1 && a.2.sortKey ≤ b.2.sortKey)
  sorted.map (·.2) ++ [help, version]

end OptionSpec

/-- The command that gives help on the commands of a group. -/
def helpCommandRow : HelpRow :=
  ⟨"help", "Print this message or the help of the given subcommand(s)"⟩

namespace CommandSpec

def helpRow (c : CommandSpec) : HelpRow :=
  ⟨c.name, c.about⟩

/-- Help on a command that the words lead to. -/
def helpPage (c : CommandSpec) (words : List String) : HelpPage where
  about := c.about
  words := words
  usage := match c.operand with
    | some operand => "[OPTIONS] <" ++ operand.name ++ ">"
    | none => "[OPTIONS]"
  operands := c.operand.toList.map fun operand => ⟨"<" ++ operand.name ++ ">", operand.about⟩
  options := (OptionSpec.listed c.options).map (·.helpRow)

end CommandSpec

namespace HelpPage

/-- Help on a group of commands that the words lead to. -/
def ofGroup (about : String) (words : List String) (commands : List HelpRow) : HelpPage where
  about := about
  words := words
  usage := "[OPTIONS] <COMMAND>"
  commands := commands ++ [helpCommandRow]
  options := (OptionSpec.listed []).map (·.helpRow)

/-- Help on the command for help of a group that the words lead to. -/
def ofHelp (words : List String) : HelpPage where
  about := helpCommandRow.text
  words := words ++ [helpCommandRow.head]
  usage := "[COMMAND]..."
  operands := [⟨"[COMMAND]...", "Print help for the subcommand(s)"⟩]

end HelpPage

end RuleLens
