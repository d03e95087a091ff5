import RuleLens.Text.Decimal

/-!
# Arguments

The grammar of a command line.  Commands form groups; a command in the end takes options and at most
one operand.  Arguments are read from left to right, so a request for the version counts only if
nothing before it was wrong.
-/

namespace RuleLens

/-- An option: a word behind two hyphens, perhaps also a letter behind one. -/
structure OptionSpec where
  long : String
  short : Option Char := none
  /-- What its value is called, if it takes one. -/
  valueName : Option String := none
  /-- Whether it may be given more than once. -/
  repeats : Bool := false
  /-- Which values it takes. -/
  accepts : String → Bool := fun _ => true
  about : String

/-- What a command is given without an option in front. -/
structure OperandSpec where
  name : String
  accepts : String → Bool := fun _ => true
  about : String

/-- What a command takes.  An operand that it takes has to be given. -/
structure CommandSpec where
  name : String
  about : String
  options : List OptionSpec := []
  operand : Option OperandSpec := none

/-- What was given to a command. -/
structure Given where
  flags : List String := []
  values : List (String × String) := []
  operand : Option String := none
deriving Repr, DecidableEq

/-- Why arguments do not lead to a command: they ask for the version or for help, or they are
wrong. -/
inductive Detour where
  | version
  /-- With `isLong` all there is to say is asked for. -/
  | help (isLong : Bool)
  | wrong
deriving Repr, DecidableEq

namespace OptionSpec

def takesValue (o : OptionSpec) : Bool :=
  o.valueName.isSome

def verbose : OptionSpec :=
  { long := "verbose", short := some 'v', about := "Verbose output (debug logging on stderr)" }

def help : OptionSpec := { long := "help", short := some 'h', about := "Print help" }

def version : OptionSpec := { long := "version", short := some 'V', about := "Print version" }

/-- The options that every command and every group takes. -/
def common : List OptionSpec := [verbose, help, version]

end OptionSpec

namespace Given

/-- Note an option without a value; `isLong` says that it was written in full. -/
def addFlag (g : Given) (o : OptionSpec) (isLong : Bool) : Except Detour Given :=
  if o.long = "help" then .error (.help isLong)
  else if o.long = "version" then .error .version
  else if o.takesValue || g.flags.contains o.long then .error .wrong
  else .ok { g with flags := o.long :: g.flags }

/-- Note an option with its value. -/
def addValue (g : Given) (o : OptionSpec) (value : String) : Except Detour Given :=
  if !o.takesValue || !o.accepts value || (!o.repeats && g.values.any (·.1 = o.long)) then
    .error .wrong
  else
    .ok { g with values := g.values ++ [(o.long, value)] }

/-- Note an operand. -/
def addOperand (g : Given) (spec : Option OperandSpec) (value : String) : Except Detour Given :=
  match spec with
  | some spec =>
    if spec.accepts value && g.operand.isNone then .ok { g with operand := some value }
    else .error .wrong
  | none => .error .wrong

def has (g : Given) (long : String) : Bool :=
  g.flags.contains long

def valuesOf (g : Given) (long : String) : List String :=
  (g.values.filter (·.1 = long)).map (·.2)

end Given

namespace Arguments

/-- Whether an argument is read as an option. -/
def isOption (arg : String) : Bool :=
  match arg.toList with
  | '-' :: _ :: _ => true
  | _ => false

/-- An argument in two hyphens, with its value if it has one. -/
def cutLong (body : List Char) : String × Option String :=
  (String.ofList (body.takeWhile (· != '=')),
    (body.dropWhile (· != '=')).tail?.map String.ofList)

/-- The letters behind one hyphen.  An option with a value takes what follows it in the same
argument; if nothing does, it is returned to get the next argument. -/
def readShort (options : List OptionSpec) (g : Given) :
    List Char → Except Detour (Given × Option OptionSpec)
  | [] => .ok (g, none)
  | c :: rest =>
    match options.find? (·.short = some c) with
    | none => .error .wrong
    | some o =>
      if o.takesValue then
        match rest with
        | [] => .ok (g, some o)
        | '=' :: value => do return (← g.addValue o (String.ofList value), none)
        | _ => do return (← g.addValue o (String.ofList rest), none)
      else do readShort options (← g.addFlag o false) rest

/-- One argument that is an option. -/
def readOption (options : List OptionSpec) (g : Given) (arg : String) :
    Except Detour (Given × Option OptionSpec) :=
  match arg.toList with
  | '-' :: '-' :: body =>
    let (name, value) := cutLong body
    match options.find? (·.long = name), value with
    | none, _ => .error .wrong
    | some o, some value => do return (← g.addValue o value, none)
    | some o, none =>
      if o.takesValue then .ok (g, some o) else do return (← g.addFlag o true, none)
  | _ => readShort options g (arg.toList.drop 1)

/-- The arguments of a command.  Behind two lone hyphens all are operands. -/
def readAll (spec : CommandSpec) (g : Given) : List String → Except Detour Given
  | [] => .ok g
  | arg :: rest =>
    if arg = "--" then rest.foldlM (fun g value => g.addOperand spec.operand value) g
    else if isOption arg then do
      match ← readOption (spec.options ++ OptionSpec.common) g arg with
      | (g, none) => readAll spec g rest
      | (g, some o) =>
        match rest with
        | value :: rest =>
          if isOption value then throw .wrong else readAll spec (← g.addValue o value) rest
        | [] => throw .wrong
    else do
      let g ← g.addOperand spec.operand arg
      readAll spec g rest

/-- Read the arguments of a command. -/
def read (spec : CommandSpec) (args : List String) : Except Detour Given := do
  let g ← readAll spec {} args
  if spec.operand.isSome && g.operand.isNone then throw .wrong
  return g

/-- The first argument of a group that is no option: the name of a command, with the arguments
behind it. -/
def cutName (g : Given) : List String → Except Detour (String × List String)
  | [] => .error .wrong
  | arg :: rest =>
    if arg = "--" then .error .wrong
    else if isOption arg then do
      let (g, _) ← readOption OptionSpec.common g arg
      cutName g rest
    else .ok (arg, rest)

end Arguments

end RuleLens
