import LayeredConfig.Json.Parser
import LayeredConfig.Json.Record

/-!
# LayeredConfig.Loading.Settings

The settings of a loader, as a record in JSON: the base name of the configuration files, the prefix
of the environment variables, and whether these hold lists in the short form.
-/

namespace LayeredConfig

/-- What is usually fixed for an application. -/
structure LoaderSettings where
  baseName : String := "application"
  envPrefix : Option String := none
  envLists : Bool := false
deriving Repr, DecidableEq

namespace LoaderSettings

def fieldNames : List String := ["base_name", "env_prefix", "env_list_shortcut"]

/-- Reads settings; what is missing has its default. -/
def ofJson? (j : Json) : Option LoaderSettings := do
  match ← j.readRecord? fieldNames with
  | [base, pre, lists] =>
    return {
      baseName := ← Json.withDefault Json.asText? "application" base
      envPrefix := ← Json.optional Json.asText? pre
      envLists := ← Json.withDefault Json.asBool? false lists }
  | _ => none

def parse? (text : String) : Option LoaderSettings := (Json.parse? text).bind ofJson?

def toJson (s : LoaderSettings) : Json :=
  .record [
    ("base_name", .text s.baseName),
    ("env_prefix", .ofOption (s.envPrefix.map .text)),
    ("env_list_shortcut", .bool s.envLists)]

end LoaderSettings

end LayeredConfig
