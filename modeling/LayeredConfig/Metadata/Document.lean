import LayeredConfig.Files.Tree
import LayeredConfig.Json.Parser
import LayeredConfig.Json.Record
import LayeredConfig.Metadata.Basic

/-!
# LayeredConfig.Metadata.Document

Metadata tables as JSON documents:

    { "properties": [ { "name": …, "type": …, "description": …, "deprecation": … }, … ] }

1. Only the name is required.  A deprecation has a `level`, which is `warning` unless given, and
   may have a `replacement` and a `reason`.
2. A document must be well-formed as a whole before any of its names is looked at.  Tables are made
   with any reader of documents, of which `MetadataTable.properties?` is one.
-/

namespace LayeredConfig

/-- Why no table can be made from a document. -/
inductive MetadataError where
  | unreadable (e : FileError)
  | notADocument
  | invalidName (m : Malformed)
deriving Repr, DecidableEq

def MetadataError.message : MetadataError → String
  | .unreadable e => "Failed to read metadata: " ++ e.message
  | .notADocument => "Failed to parse metadata"
  | .invalidName m => "Invalid property name in metadata: " ++ m.message

/-! ## Reading -/

/-- Reads a severity: its name, or an object with its name for a field that is `null`. -/
def Severity.ofJson? (j : Json) : Option Severity :=
  let named (s : String) : Option Severity :=
    [Severity.warning, .error].find? (·.name == s)
  match j with
  | .string (some s) => named s
  | .object [(some s, .null)] => named s
  | _ => none

def Deprecation.ofJson? (j : Json) : Option Deprecation := do
  match ← j.readRecord? ["level", "replacement", "reason"] with
  | [level, replacement, reason] =>
    return ⟨← Json.withDefault Severity.ofJson? .warning level,
      ← Json.optional Json.asText? replacement, ← Json.optional Json.asText? reason⟩
  | _ => none

def Metadata.ofJson? (j : Json) : Option Metadata := do
  match ← j.readRecord? ["name", "type", "description", "deprecation"] with
  | [name, type, description, deprecation] =>
    return ⟨← Json.required Json.asText? name, ← Json.optional Json.asText? type,
      ← Json.optional Json.asText? description,
      ← Json.optional Deprecation.ofJson? deprecation⟩
  | _ => none

namespace MetadataTable

/-- Reads the properties of a document. -/
def properties? (text : String) : Option (List Metadata) := do
  match ← (← Json.parse? text).readRecord? ["properties"] with
  | [properties] =>
    Json.withDefault (fun j => j.asArray?.bind (·.mapM Metadata.ofJson?)) [] properties
  | _ => none

section

variable (read? : String → Option (List Metadata))

/-- The table of a document. -/
def parse (text : String) : Except MetadataError MetadataTable :=
  match read? text with
  | none => .error .notADocument
  | some ms => (empty.insertAll ms).mapError .invalidName

/-- The table of a document in a file. -/
def load (tree : FileTree) (path : String) : Except MetadataError MetadataTable :=
  match tree.find path with
  | .error e => .error (.unreadable e)
  | .ok (.dir _) => .error .notADocument
  | .ok (.file _ content) => parse read? content

end

end MetadataTable

/-! ## Writing -/

/-- A deprecation in JSON; what is absent is left out. -/
def Deprecation.toJson (d : Deprecation) : Json :=
  .record (("level", .text d.level.name)
    :: (d.replacement.map fun s => ("replacement", Json.text s)).toList
    ++ (d.reason.map fun s => ("reason", Json.text s)).toList)

/-- What is known of a property in JSON; what is absent is left out. -/
def Metadata.toJson (m : Metadata) : Json :=
  .record (("name", .text m.name)
    :: (m.type.map fun s => ("type", Json.text s)).toList
    ++ (m.description.map fun s => ("description", Json.text s)).toList
    ++ (m.deprecation.map fun d => ("deprecation", d.toJson)).toList)

end LayeredConfig
