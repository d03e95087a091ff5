import RuleLens.World.Basic

/-!
# The ignore file of a user

The settings of a user's version control may name an ignore file that counts everywhere, as the
value of `excludesfile`, behind an equals sign and perhaps between quotes.  The first line with such
a setting decides, whatever section it stands in.  Settings stand in the user's directories, and
variables may name further files of them.  Without a setting the ignore file has a place of its own.
-/

namespace RuleLens.IgnoreSettings

def newline : UInt8 := 0x0a

def quote : UInt8 := 0x22

/-- The bytes that count as blank in settings. -/
def isBlank (b : UInt8) : Bool :=
  b = 0x20 || (0x09 ≤ b && b ≤ 0x0d)

def skipBlanks (s : List UInt8) : List UInt8 :=
  s.dropWhile isBlank

/-- Whether a line ends here, but for blanks. -/
def endsLine : List UInt8 → Bool
  | [] => true
  | b :: rest => b = newline || (isBlank b && endsLine rest)

/-- Whether a value ends here: with its line, or with a quote and then its line. -/
def endsValue (s : List UInt8) : Bool :=
  endsLine s ||
    match skipBlanks s with
    | b :: rest => b = quote && endsLine rest
    | [] => false

/-- The shortest word at the start of a text that a value can be. -/
def word? : List UInt8 → Option (List UInt8)
  | [] => none
  | b :: rest =>
    if isBlank b then none
    else if endsValue rest then some [b]
    else (word? rest).map (b :: ·)

/-- The value behind an equals sign.  It may stand on a later line. -/
def value? (s : List UInt8) : Option (List UInt8) :=
  match skipBlanks s with
  | b :: rest =>
    if b = quote then word? (skipBlanks rest) <|> word? (b :: rest) else word? (b :: rest)
  | [] => none

/-- What follows a word in small letters, whatever the case of its letters in the text. -/
def dropWord? : (word s : List UInt8) → Option (List UInt8)
  | [], s => some s
  | w :: word, b :: s =>
    if w = b || (0x41 ≤ b && b ≤ 0x5a && w = b + 0x20) then dropWord? word s else none
  | _ :: _, [] => none

/-- The name of the setting. -/
def settingName : List UInt8 := "excludesfile".toUTF8.data.toList

/-- The value of the setting, if it starts here. -/
def setting? (s : List UInt8) : Option (List UInt8) := do
  match skipBlanks (← dropWord? settingName s) with
  | b :: rest => if b = 0x3d then value? rest else none
  | [] => none

/-- The value of the first setting on a line of its own; `opening` says that there are only blanks
between here and the start of the line. -/
def firstSetting? (opening : Bool) : List UInt8 → Option (List UInt8)
  | [] => none
  | b :: rest =>
    match if opening then setting? (b :: rest) else none with
    | some value => some value
    | none => firstSetting? (b = newline || (opening && isBlank b)) rest

/-- The ignore file that settings name, where a tilde stands for the home directory. -/
def excludesFile? (home : Path) (settings : List UInt8) : Option Path := do
  let name ← Text.Utf8.decode? (← firstSetting? true settings)
  some ⟨String.ofList (name.flatMap fun c => if c = '~' then home.text.toList else [c])⟩

/-- The directory for the settings of a user. -/
def directory (w : World) : Path :=
  match w.env.lookup "XDG_CONFIG_HOME" with
  | some dir => if dir.isEmpty then w.homeDirectory.join ⟨".config"⟩ else ⟨dir⟩
  | none => w.homeDirectory.join ⟨".config"⟩

/-- The file that a variable names. -/
def namedBy (w : World) (variableName : String) : List Path :=
  (w.env.lookup variableName).toList.map fun path => ⟨path⟩

/-- The files that may hold the settings, the one that wins first: those of the user, and behind
them those of the system. -/
def files (w : World) : List Path :=
  namedBy w "GIT_CONFIG_GLOBAL" ++
    [w.homeDirectory.join ⟨".gitconfig"⟩, (directory w).join ⟨"git/config"⟩] ++
    namedBy w "GIT_CONFIG_SYSTEM"

/-- The ignore file of the user. -/
def userFile (w : World) : Path :=
  let named := (files w).findSome? fun p =>
    match w.read p with
    | .ok content => excludesFile? w.homeDirectory content.data.toList
    | .error _ => none
  named.getD ((directory w).join ⟨"git/ignore"⟩)

end RuleLens.IgnoreSettings
