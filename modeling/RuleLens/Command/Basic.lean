import RuleLens.Command.Help
import RuleLens.Diagnostic.Basic

/-!
# Commands

What the command line can be asked for, and how each request is written.
-/

namespace RuleLens

inductive Command where
  | definition (location : String)
  | references (location : String) (limit : Option Nat)
  | symbol (location : String)
  | compileFile (file : Path) (severities : Option (List String))
  | compileAll (root : Option Path) (limit : Option Nat)
  | complete (location : String)
  | configInit (isGlobal force : Bool)
  | configShow (isGlobal : Bool)
  | configPath (isGlobal : Bool)
  | configEdit (isGlobal : Bool)
  | doctor (missingOnly : Bool)
deriving Repr, DecidableEq

/-- What a command line asks for. -/
inductive Request where
  | run (command : Command)
  /-- The version of the command with this name. -/
  | version (name : String)
  | help (page : HelpPage)
  | wrong
deriving Repr, DecidableEq

namespace Command

/-! ## What the commands take -/

/-- A location may be any text. -/
def locationOperand (about : String) : OperandSpec := { name := "LOCATION", about }

/-- The operand of the commands that look for something. -/
def placeOperand : OperandSpec := locationOperand "File path with position (file:line[:column])"

/-- A path may not be empty. -/
def isPathText (text : String) : Bool := !text.isEmpty

def readCount? (text : String) : Option Nat :=
  Text.readUpTo? Text.max64 text.toList

def limitOption (about : String) : OptionSpec :=
  { long := "limit", valueName := some "LIMIT", accepts := fun text => (readCount? text).isSome
    about }

def globalOption (about : String) : OptionSpec := { long := "global", about }

def operandOf (g : Given) : String := g.operand.getD ""

def limitOf (g : Given) : Option Nat := (g.valuesOf "limit").head?.bind readCount?

/-- A command with what it asks for. -/
structure Entry where
  spec : CommandSpec
  make : Given → Command

/-- Commands under a common name. -/
structure Group where
  name : String
  about : String
  entries : List Entry

def findGroup : Group where
  name := "find"
  about := "Classify tokens, find definitions and references"
  entries := [
    { spec :=
        { name := "def", about := "Go to the declaration of the variable or rule at position"
          operand := some placeOperand }
      make := fun g => .definition (operandOf g) },
    { spec :=
        { name := "refs", about := "Find all references to the variable or rule at position"
          operand := some placeOperand, options := [limitOption "Maximum results"] }
      make := fun g => .references (operandOf g) (limitOf g) },
    { spec :=
        { name := "symbol", about := "Classify the token at position"
          operand := some placeOperand }
      make := fun g => .symbol (operandOf g) }]

/-- Severities are divided by commas. -/
def severitiesOf (g : Given) : Option (List String) :=
  let values := g.valuesOf "severity"
  if values.isEmpty then none
  else some (values.flatMap fun v => (v.toList.splitOn ',').map String.ofList)

def severityOption : OptionSpec :=
  { long := "severity", short := some 's', valueName := some "SEVERITY", repeats := true
    about := "Filter by severity (error, warning)" }

def pathOption : OptionSpec :=
  { long := "path", valueName := some "PATH", accepts := isPathText
    about := "Root directory (defaults to the current directory)" }

def compileGroup : Group where
  name := "compile"
  about := "Compile rule files with yarac and report diagnostics"
  entries := [
    { spec :=
        { name := "file", about := "Compile one rule file"
          operand := some { name := "FILE", accepts := isPathText, about := "Rule file path" }
          options := [severityOption] }
      make := fun g => .compileFile ⟨operandOf g⟩ (severitiesOf g) },
    { spec :=
        { name := "all", about := "Compile every .yara/.yar file under a directory"
          options := [pathOption,
            limitOption "Maximum number of files (default from config: workspace.max_files)"] }
      make := fun g => .compileAll ((g.valuesOf "path").head?.map (⟨·⟩)) (limitOf g) }]

def forceOption : OptionSpec :=
  { long := "force", short := some 'f', about := "Force overwrite existing config" }

def configGroup : Group where
  name := "config"
  about := "Configuration management"
  entries := [
    { spec :=
        { name := "init", about := "Initialize configuration file"
          options := [globalOption "Initialize global config (~/.config/yaralens)", forceOption] }
      make := fun g => .configInit (g.has "global") (g.has "force") },
    { spec :=
        { name := "show", about := "Show current configuration"
          options := [globalOption "Show global config only"] }
      make := fun g => .configShow (g.has "global") },
    { spec :=
        { name := "path", about := "Show config file path"
          options := [globalOption "Show global config path"] }
      make := fun g => .configPath (g.has "global") },
    { spec :=
        { name := "edit", about := "Edit configuration with default editor"
          options := [globalOption "Edit global config"] }
      make := fun g => .configEdit (g.has "global") }]

def completeEntry : Entry where
  spec :=
    { name := "complete", about := "Complete module members after a `.`"
      operand := some (locationOperand "Cursor right after a `.` (file:line:column)") }
  make g := .complete (operandOf g)

def doctorEntry : Entry where
  spec :=
    { name := "doctor", about := "Check the compiler and configuration files"
      options := [{ long := "missing-only", about := "Only list what is missing" }] }
  make g := .doctor (g.has "missing-only")

/-- What the first word of a command line may name. -/
inductive Topic where
  | group (g : Group)
  | entry (e : Entry)

namespace Topic

def helpRow : Topic → HelpRow
  | .group g => ⟨g.name, g.about⟩
  | .entry e => e.spec.helpRow

end Topic

def topics : List Topic :=
  [.group findGroup, .group compileGroup, .entry completeEntry, .group configGroup,
    .entry doctorEntry]

def topic? (name : String) : Option Topic :=
  topics.find? (·.helpRow.head = name)

def Group.entry? (g : Group) (name : String) : Option Entry :=
  g.entries.find? (·.spec.name = name)

/-! ## Help -/

/-- The name of the program. -/
def programName : String := "yaralens"

/-- What the program says about itself to those who want to know all. -/
def programAbout : String :=
  "yaralens - Editor intelligence for YARA rule files\n\n" ++
  "yaralens classifies the token under the cursor, resolves definitions and\n" ++
  "references of string variables and rules, completes module members and\n" ++
  "turns yarac output into positioned diagnostics.\n\n" ++
  "Positions are 1-indexed: file:line[:column].\n\n" ++
  "QUICK START:\n" ++
  "  1. Check the compiler:      yaralens doctor\n" ++
  "  2. Inspect a token:         yaralens find symbol rules/pe.yara:12:9\n" ++
  "  3. Go to definition:        yaralens find def rules/pe.yara:20:10\n" ++
  "  4. Compile a file:          yaralens compile file rules/pe.yara\n\n" ++
  "MORE EXAMPLES:\n" ++
  "  yaralens find refs rules/pe.yara:20:10 --limit 20\n" ++
  "  yaralens complete rules/pe.yara:8:12              # right after \"pe.\"\n" ++
  "  yaralens compile all --path rules --limit 50\n" ++
  "  yaralens config init --global"

/-- Help on the program, which tells of its longer form in the shorter one and the other way
round. -/
def programHelp (isLong : Bool) : HelpPage :=
  let hint := if isLong then " (see a summary with '-h')" else " (see more with '--help')"
  let about :=
    if isLong then programAbout
    else "Symbol navigation and compiler diagnostics for YARA rule files"
  let page := HelpPage.ofGroup about [] (topics.map (·.helpRow))
  { page with
    options := page.options.map fun row =>
      if row = OptionSpec.help.helpRow then { row with text := row.text ++ hint } else row
    isLong
    footer := some "Use 'yaralens <COMMAND> --help' for more information about a command." }

def Group.helpPage (g : Group) : HelpPage :=
  .ofGroup g.about [g.name] (g.entries.map (·.spec.helpRow))

/-- Help on a command of a group that `words` lead to. -/
def Group.helpOn (g : Group) : List String → Request
  | [] => .help g.helpPage
  | [name] =>
    if name = helpCommandRow.head then .help (.ofHelp [g.name])
    else
      match g.entry? name with
      | some e => .help (e.spec.helpPage [g.name, name])
      | none => .wrong
  | _ => .wrong

/-- Help on a command that `words` lead to. -/
def helpOn : List String → Request
  | [] => .help (programHelp true)
  | name :: words =>
    if name = helpCommandRow.head then if words.isEmpty then .help (.ofHelp []) else .wrong
    else
      match topic? name with
      | some (.group g) => g.helpOn words
      | some (.entry e) => if words.isEmpty then .help (e.spec.helpPage [name]) else .wrong
      | none => .wrong

/-! ## Reading a command line -/

/-- The request for what a detour asks for in the command `name`, which has the help page. -/
def ofDetour (name : String) (page : HelpPage) : Detour → Request
  | .version => .version name
  | .help _ => .help page
  | .wrong => .wrong

/-- Read the arguments of a command that `words` lead to. -/
def Entry.read (e : Entry) (words args : List String) : Request :=
  match Arguments.read e.spec args with
  | .ok g => .run (e.make g)
  | .error d => ofDetour ("-".intercalate (programName :: words)) (e.spec.helpPage words) d

/-- Read the arguments of a group. -/
def Group.read (g : Group) (args : List String) : Request :=
  match Arguments.cutName {} args with
  | .error d => ofDetour (programName ++ "-" ++ g.name) g.helpPage d
  | .ok (name, args) =>
    if name = helpCommandRow.head then g.helpOn args
    else
      match g.entry? name with
      | some e => e.read [g.name, name] args
      | none => .wrong

/-- Read a command line. -/
def ofArgs (args : List String) : Request :=
  match Arguments.cutName {} args with
  | .error (.help isLong) => .help (programHelp isLong)
  | .error d => ofDetour programName (programHelp true) d
  | .ok (name, args) =>
    if name = helpCommandRow.head then helpOn args
    else
      match topic? name with
      | some (.group g) => g.read args
      | some (.entry e) => e.read [name] args
      | none => .wrong

end Command

end RuleLens
