import LayeredConfig.Chain.Resolution

/-!
# LayeredConfig.Logging.Settings

The settings of the log, as a chain gives them.

1. `logging.level`, `logging.format` and `logging.output` are read from their texts.  A text that
   cannot be read is noted, and the default stands: level info, compact format, standard output.
2. `logging.file-path` is taken as it is.
3. Directives are `logging.directives[0]`, `logging.directives[1]` and so on, up to the first that
   is missing.
-/

namespace LayeredConfig

/-! ## Levels, formats, outputs -/

/-- Reads a natural number, with or without a plus sign. -/
def readCount? (s : String) : Option Nat :=
  match s.toList with
  | '+' :: cs => Decimal.read? cs
  | cs => Decimal.read? cs

/-- Reads a level: its name in any case, or its number from 1, the most important, to 5. -/
def Level.parse? (s : String) : Option Level :=
  match readCount? s with
  | some 1 => some .error
  | some 2 => some .warn
  | some 3 => some .info
  | some 4 => some .debug
  | some 5 => some .trace
  | _ =>
    let name := Text.asciiLowercase s
    [Level.error, .warn, .info, .debug, .trace].find? fun l =>
      Text.asciiLowercase l.display == name

/-- Why a text is no level. -/
def Level.parseError : String :=
  "error parsing level: expected one of \"error\", \"warn\", \"info\", \"debug\", \"trace\", "
    ++ "or a number 1-5"

/-- How log lines look. -/
inductive LogFormat where
  | compact
  | full
  | pretty
deriving Repr, DecidableEq

def LogFormat.name : LogFormat → String
  | .compact => "compact"
  | .full => "full"
  | .pretty => "pretty"

/-- Reads the name of a format in any case; the error is in words. -/
def LogFormat.parse (s : String) : Except String LogFormat :=
  let name := Text.asciiLowercase s
  match [LogFormat.compact, .full, .pretty].find? (·.name == name) with
  | some f => .ok f
  | none => .error s!"unknown log format '{name}'"

/-- Where log lines go. -/
inductive LogOutput where
  | stdout
  | stderr
  | file
deriving Repr, DecidableEq

def LogOutput.name : LogOutput → String
  | .stdout => "stdout"
  | .stderr => "stderr"
  | .file => "file"

/-- Reads the name of an output in any case; the error is in words. -/
def LogOutput.parse (s : String) : Except String LogOutput :=
  let name := Text.asciiLowercase s
  match [LogOutput.stdout, .stderr, .file].find? (·.name == name) with
  | some o => .ok o
  | none => .error s!"unknown log output '{name}'"

/-! ## Settings -/

/-- The settings of the log. -/
structure LogSettings where
  level : Level
  format : LogFormat
  output : LogOutput
  filePath : Option String
  directives : List String
deriving Repr, DecidableEq

namespace LogSettings

def root : Name :=
  ⟨[.literal (.ofChars ['l', 'o', 'g', 'g', 'i', 'n', 'g'] (by decide) (by decide))], by simp⟩

/-- The name of a setting. -/
def settingName (l : Literal) : Name := root.push (.literal l)

def levelName : Name :=
  settingName (.ofChars ['l', 'e', 'v', 'e', 'l'] (by decide) (by decide))

def formatName : Name :=
  settingName (.ofChars ['f', 'o', 'r', 'm', 'a', 't'] (by decide) (by decide))

def outputName : Name :=
  settingName (.ofChars ['o', 'u', 't', 'p', 'u', 't'] (by decide) (by decide))

def filePathName : Name :=
  settingName (.ofChars ['f', 'i', 'l', 'e', '-', 'p', 'a', 't', 'h'] (by decide) (by decide))

def directivesName : Name :=
  settingName (.ofChars ['d', 'i', 'r', 'e', 'c', 't', 'i', 'v', 'e', 's'] (by decide) (by decide))

/-- The text of a property of the chain. -/
def textOf (c : Chain) (n : Name) : Run (Option String) := do
  return (← c.resolve n).map (·.value.display)

/-- Reads a setting; one that cannot be read is noted and has its default. -/
def readOr {α : Type} (c : Chain) (n : Name) (parse : String → Except String α) (default : α) :
    Run α := do
  match ← textOf c n with
  | none => pure default
  | some text =>
    match parse text with
    | .ok a => pure a
    | .error e =>
      Run.note (.invalidSetting n.canonical text e)
      pure default

/-- The directives from a number on, for so many numbers at most. -/
def directivesFrom (c : Chain) : Nat → Nat → Run (List String)
  | 0, _ => pure []
  | count + 1, i => do
    match ← textOf c (directivesName.push (.index (UInt64.ofNat i))) with
    | none => pure []
    | some text => return text :: (← directivesFrom c count (i + 1))

/-- The count of numbers that a directive can have. -/
def indexCount : Nat := UInt64.size

/-- The settings that a chain gives. -/
def ofChain (c : Chain) : Run LogSettings := do
  let level ← readOr c levelName
    (fun s => ((Level.parse? s).map .ok).getD (.error Level.parseError)) .info
  let format ← readOr c formatName LogFormat.parse .compact
  let output ← readOr c outputName LogOutput.parse .stdout
  let filePath ← textOf c filePathName
  let directives ← directivesFrom c indexCount 0
  return ⟨level, format, output, filePath, directives⟩

end LogSettings

end LayeredConfig
