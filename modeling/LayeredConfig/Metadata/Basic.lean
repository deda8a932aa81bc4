import LayeredConfig.Metadata.TypeText
import LayeredConfig.Name.Filed
import LayeredConfig.Name.Parser

/-!
# LayeredConfig.Metadata.Basic

What is known of properties in advance: their types, and which of them are deprecated.

1. A table holds one entry for each name, spelling apart, in the order in which the names were
   first entered.
2. An entry for a name that is there already takes the place of the old one.
3. An entry whose name is malformed is refused, and the table stays as it is.
-/

namespace LayeredConfig

/-- How severe a deprecation is. -/
inductive Severity where
  /-- The property still works under its name. -/
  | warning
  /-- The property no longer works. -/
  | error
deriving Repr, DecidableEq

def Severity.name : Severity → String
  | .warning => "warning"
  | .error => "error"

/-- What is known of a deprecation. -/
structure Deprecation where
  level : Severity
  replacement : Option String
  reason : Option String
deriving Repr, DecidableEq

/-- What is known of a property. -/
structure Metadata where
  name : String
  type : Option String
  description : Option String
  deprecation : Option Deprecation
deriving Repr, DecidableEq

/-- What is known of properties, by name. -/
structure MetadataTable where
  entries : List (Filed Metadata)

namespace MetadataTable

def empty : MetadataTable := ⟨[]⟩

/-- Adds an entry under its own name. -/
def insert (t : MetadataTable) (m : Metadata) : Except Malformed MetadataTable :=
  match Name.parse m.name with
  | .ok n => .ok ⟨Filed.place (fun _ new => new) (.under n m) t.entries⟩
  | .error e => .error e

/-- Adds entries up to the first whose name is malformed. -/
def insertAll (t : MetadataTable) : List Metadata → Except Malformed MetadataTable
  | [] => .ok t
  | m :: ms =>
    match t.insert m with
    | .ok t => t.insertAll ms
    | .error e => .error e

def get? (t : MetadataTable) (n : Name) : Option Metadata := Filed.find? n t.entries

/-- The deprecated entries, in order. -/
def deprecated (t : MetadataTable) : List (Name × Metadata × Deprecation) :=
  t.entries.filterMap fun f => f.item.deprecation.map fun d => (f.name, f.item, d)

end MetadataTable

end LayeredConfig
