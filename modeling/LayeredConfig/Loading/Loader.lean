import LayeredConfig.Chain.Basic
import LayeredConfig.Files.Tree
import LayeredConfig.Loading.Profile
import LayeredConfig.Loading.Settings
import LayeredConfig.Loading.Wrapped
import LayeredConfig.Mapping.Dotted
import LayeredConfig.Mapping.Environment
import LayeredConfig.Provider.Environment
import LayeredConfig.Toml.Parser

/-!
# LayeredConfig.Loading.Loader

Making a chain from what an application is started with.  The sources are, from the front:

1. `overrides`, if there are any;
2. the environment, unless it is switched off;
3. the configuration files: the one file asked for, or else those of the first search directory
   that holds any, the file of the profile before the main file;
4. `defaults`, if there are any.

Without search directories the working directory and the user's configuration directory are
searched.  What lies outside of the program, the reader of configuration files among it, is taken
from a *host*.
-/

namespace LayeredConfig

/-! ## Hosts -/

/-- What a loader finds where it runs. -/
structure Host where
  env : Environment
  tree : FileTree
  /-- The directory of the user's configuration. -/
  configDir? : Option String
  /-- The fields at the top of the configuration file with the given content. -/
  parse : String → Option (List (String × Document))

/-! ## Files -/

/-- Why no chain can be made. -/
inductive LoaderError where
  | fileNotFound (path : String)
  | unsupportedFormat (path : String)
  | unreadable (path : String)
deriving Repr, DecidableEq

def LoaderError.message : LoaderError → String
  | .fileNotFound path => s!"Configuration file not found: {path}"
  | .unsupportedFormat path => s!"Unsupported or disabled configuration file format: {path}"
  | .unreadable path => s!"Failed to parse configuration file {path}"

/-- A configuration file as a table of entries. -/
structure ConfigFile where
  name : String
  entries : Entries

def ConfigFile.provider (f : ConfigFile) : Provider := f.entries.provider f.name

/-- Reads the content of a file in TOML. -/
def ConfigFile.ofToml? (content : String) : Option (List (String × Document)) :=
  (Toml.parse? content).bind Document.unwrapFields?

/-- Reads a configuration file. -/
def ConfigFile.load (host : Host) (path : String) : Run (Except LoaderError ConfigFile) :=
  match host.tree.read? path with
  | none => pure (.error (.fileNotFound path))
  | some content =>
    if Path.extension? path ≠ some "toml" then pure (.error (.unsupportedFormat path))
    else
      match host.parse content with
      | none => pure (.error (.unreadable path))
      | some fields => do
        let flat := Document.flattenTop fields
        Run.note (.parsedFile path flat.length)
        pure (.ok ⟨"config:" ++ path, Entries.ofList flat⟩)

/-! ## Loaders -/

/-- What a chain is made from. -/
structure Loader where
  settings : LoaderSettings
  profile : Profile
  searchPaths : List String
  file : Option String
  useEnv : Bool
  restrictedEnv : Bool
  /-- Variables to use instead of those of the process. -/
  givenVars : Option (List (String × String))
  overrides : Entries
  defaults : Entries

namespace Loader

/-- A loader with the usual settings and the profile that the environment selects. -/
def create (env : Environment) : Loader where
  settings := {}
  profile := Profile.ofLookup fun key => (env.find? key).join
  searchPaths := []
  file := none
  useEnv := true
  restrictedEnv := false
  givenVars := none
  overrides := []
  defaults := []

/-- The directory of this program's files in the user's configuration. -/
def userDir? (host : Host) : Option String := host.configDir?.map (Path.join · "relaxed")

def search (l : Loader) (path : String) : Loader :=
  { l with searchPaths := l.searchPaths ++ [path] }

/-- Adds the working directory to those to search. -/
def searchHome (l : Loader) (host : Host) : Loader := l.search host.tree.workDir

/-- Adds the user's configuration directory to those to search. -/
def searchUserDir (l : Loader) (host : Host) : Loader :=
  match userDir? host with
  | some dir => l.search dir
  | none => l

/-- The directories to search, in order. -/
def directories (l : Loader) (host : Host) : List String :=
  if l.searchPaths = [] then host.tree.workDir :: (userDir? host).toList else l.searchPaths

/-- The files that a directory may hold, that of the profile first. -/
def candidateFiles (l : Loader) (dir : String) : List String :=
  [Path.join dir (l.settings.baseName ++ "-" ++ l.profile.name ++ ".toml"),
    Path.join dir (l.settings.baseName ++ ".toml")]

/-- The files that a directory holds, that of the profile first. -/
def held (l : Loader) (host : Host) (dir : String) : List String :=
  (l.candidateFiles dir).filter host.tree.isFile

/-- The files of the first directory that holds any. -/
def firstFound (l : Loader) (host : Host) : List String → List String
  | [] => []
  | dir :: dirs =>
    if l.held host dir = [] then l.firstFound host dirs else l.held host dir

/-- The files to load, in order of precedence. -/
def files (l : Loader) (host : Host) : Run (Except LoaderError (List String)) :=
  match l.file with
  | some path =>
    pure (if host.tree.isFile path then .ok [path] else .error (.fileNotFound path))
  | none =>
    match l.firstFound host (l.directories host) with
    | [] => do
      Run.note .noFileFound
      pure (.ok [])
    | found => pure (.ok found)

/-- The provider of the environment. -/
def environmentProvider (l : Loader) (env : Environment) : Provider :=
  match l.givenVars with
  | some vars => Environment.ofVariables Environment.sourceName l.settings.envPrefix vars
  | none =>
    if l.restrictedEnv then Environment.live Environment.sourceName l.settings.envPrefix env
    else Environment.snapshot Environment.sourceName l.settings.envPrefix env

/-- The source of the environment, with a cache of its own. -/
def environmentSource (l : Loader) (env : Environment) : Run Source := do
  let number ← Run.fresh
  let s ← Source.create (l.environmentProvider env)
    ⟨Mapping.environment l.settings.envLists, some (.own number)⟩
  pure (if l.restrictedEnv then s.restricted else s)

/-- A source of entries with dotted keys. -/
def dottedSource (p : Provider) : Run Source := Source.create p ⟨Mapping.dotted, none⟩

/-- Loads files and puts them at the end of a chain. -/
def addFiles (host : Host) : Chain → List String → Run (Except LoaderError Chain)
  | c, [] => pure (.ok c)
  | c, path :: paths => do
    Run.note (.loadingFile path)
    match ← ConfigFile.load host path with
    | .error e => pure (.error e)
    | .ok f =>
      let c ← c.pushLast (← dottedSource f.provider)
      addFiles host c paths

def load (l : Loader) (host : Host) : Run (Except LoaderError Chain) := do
  match ← l.files host with
  | .error e => pure (.error e)
  | .ok paths =>
    let c ← if l.useEnv then Chain.empty.pushLast (← l.environmentSource host.env) else pure .empty
    match ← addFiles host c paths with
    | .error e => pure (.error e)
    | .ok c =>
      let c ← if l.overrides.isEmpty then pure c
        else c.pushFirst (← dottedSource (l.overrides.provider "overrides"))
      let c ← if l.defaults.isEmpty then pure c
        else c.pushLast (← dottedSource (l.defaults.provider "defaults"))
      Run.note (.sourcesLoaded l.profile.name c.names)
      pure (.ok c)

end Loader

end LayeredConfig
