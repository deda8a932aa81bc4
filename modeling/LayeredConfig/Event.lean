import LayeredConfig.Mapping.Basic
import LayeredConfig.Provider.Basic
import LayeredConfig.Text.Quoted

/-!
# LayeredConfig.Event

Diagnostic events.  Each has a level, a message, and named fields in words.
-/

namespace LayeredConfig

/-- How important an event is. -/
inductive Level where
  | error
  | warn
  | info
  | debug
  | trace
deriving Repr, DecidableEq

/-- The name of a level in capitals. -/
def Level.display : Level → String
  | .error => "ERROR"
  | .warn => "WARN"
  | .info => "INFO"
  | .debug => "DEBUG"
  | .trace => "TRACE"

/-- Something worth a note. -/
inductive Event where
  /-- A name has no candidates. -/
  | mappingFailed (dialect : Dialect) (name : Name) (error : MappingError)
  /-- A raw key stands for no name. -/
  | reverseMappingFailed (dialect : Dialect) (key : String) (error : MappingError)
  /-- A candidate could not use the value stored under its key. -/
  | extractionFailed (source key : String) (error : MappingError)
  /-- A source failed and was passed over. -/
  | sourceSkipped (source : String) (name : Name) (error : ProviderError)
  | addedFirst (source : String)
  | addedLast (source : String)
  | insertedBefore (source anchor : String)
  | insertedAfter (source anchor : String)
  | replaced (old new : String)
  | removed (source : String)
  /-- A deprecated name was found and its value goes to the replacement. -/
  | migrating (source : String) (deprecated : Name) (replacement : Name)
  /-- A deprecated name was found and nothing can take its place. -/
  | noReplacement (source : String) (deprecated : Name)
  /-- A source failed for a deprecated name. -/
  | deprecatedSkipped (source : String) (name : Name) (error : ProviderError)
  /-- A generated source has nothing to hold any more. -/
  | staleRemoved (source : String)
  /-- A generated source has lost the source it was made from. -/
  | orphanRemoved (source : String)
  /-- A summary of a migration. -/
  | summary (text : String)
  | loadingFile (path : String)
  | parsedFile (path : String) (keys : Nat)
  | noFileFound
  | sourcesLoaded (profile : String) (sources : List String)
  | invalidSetting (key value error : String)
  | invalidDirective (directive : String)
  | noLogFile

namespace Event

def level : Event → Level
  | mappingFailed .. | reverseMappingFailed .. | extractionFailed .. => .trace
  | addedFirst _ | addedLast _ | insertedBefore .. | insertedAfter .. | replaced .. | removed _
  | noReplacement .. | staleRemoved _ | orphanRemoved _ | parsedFile .. | sourcesLoaded .. => .debug
  | migrating .. | loadingFile _ => .info
  | sourceSkipped .. | deprecatedSkipped .. | summary _ | noFileFound | invalidSetting ..
  | invalidDirective _ | noLogFile => .warn

def message : Event → String
  | mappingFailed .. => "Mapping failed"
  | reverseMappingFailed .. => "Reverse mapping failed"
  | extractionFailed .. => "Value extraction failed"
  | sourceSkipped .. => "Property source failed, skipping it"
  | addedFirst _ => "Adding property source first"
  | addedLast _ => "Adding property source last"
  | insertedBefore .. => "Inserting property source before anchor"
  | insertedAfter .. => "Inserting property source after anchor"
  | replaced .. => "Replacing property source"
  | removed _ => "Removing property source"
  | migrating .. => "Migrating deprecated key"
  | noReplacement .. => "Deprecated key has no compatible replacement"
  | deprecatedSkipped .. => "Skipping deprecated key lookup"
  | staleRemoved _ => "Removing stale migrated source"
  | orphanRemoved _ => "Removing migrated source without origin"
  | summary text => text
  | loadingFile _ => "Loading configuration file"
  | parsedFile .. => "Parsed configuration file"
  | noFileFound => "No configuration file found, using defaults"
  | sourcesLoaded .. => "Property sources loaded"
  | invalidSetting .. => "Invalid logging setting, using default"
  | invalidDirective _ => "Ignoring invalid log directive"
  | noLogFile => "File output requested but no file path configured, falling back to stdout"

def fields : Event → List (String × String)
  | mappingFailed d n e =>
    [("dialect", d.display), ("name", n.canonical), ("error", e.message)]
  | reverseMappingFailed d k e => [("dialect", d.display), ("key", k), ("error", e.message)]
  | extractionFailed s k e => [("source", s), ("key", k), ("error", e.message)]
  | sourceSkipped s n e | deprecatedSkipped s n e =>
    [("source", s), ("name", n.canonical), ("error", e.message)]
  | addedFirst s | addedLast s | removed s | staleRemoved s | orphanRemoved s => [("source", s)]
  | insertedBefore s a | insertedAfter s a => [("source", s), ("anchor", a)]
  | replaced old new => [("old", old), ("new", new)]
  | migrating s d r =>
    [("source", s), ("deprecated", d.canonical), ("replacement", r.canonical)]
  | noReplacement s d => [("source", s), ("deprecated", d.canonical)]
  | summary _ | noFileFound | noLogFile => []
  | loadingFile p => [("path", p)]
  | parsedFile p n => [("path", p), ("keys", String.ofList (Decimal.digits n))]
  | sourcesLoaded p ss => [("profile", p), ("sources", Text.quotedList ss)]
  | invalidSetting k v e => [("key", k), ("value", v), ("error", e)]
  | invalidDirective d => [("directive", d)]

end Event

end LayeredConfig
