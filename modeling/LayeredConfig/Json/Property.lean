import LayeredConfig.Json.Number
import LayeredConfig.Json.Record
import LayeredConfig.Name.Parser
import LayeredConfig.Property

/-!
# LayeredConfig.Json.Property

Names, values, origins and properties as JSON.

1. A name is a string that holds it.
2. A value is a flag, a number, a string or an array of values.  A number that is a signed 64-bit
   integer is read as an integer, any other as a float.  Values nest to a limited depth.
3. An origin is a record of source, key and, where it is known, position.
-/

namespace LayeredConfig

/-! ## Reading -/

def Name.ofJson? (j : Json) : Option Name :=
  match j with
  | .string (some s) => (Name.parse s).toOption
  | _ => none

/-- Reads a number as an integer if it is one of 64 bits with sign, else as a float. -/
def Value.ofNumber? (n : Json.Number) : Option Value :=
  match n.toInt? with
  | some i =>
    match Decimal.int64? i with
    | some i => some (.integer i)
    | none => n.toFloat?.map .float
  | none => n.toFloat?.map .float

/-- Reads a value whose lists nest to the given depth. -/
def Value.readJson? : Nat → Json → Option Value
  | _, .bool b => some (.bool b)
  | _, .number n => Value.ofNumber? n
  | _, .string s => s.map .text
  | depth + 1, .array items => (items.mapM (Value.readJson? depth)).map .list
  | _, _ => none

/-- The depth to which values nest in JSON. -/
def Value.jsonDepth : Nat := 127

def Value.ofJson? (j : Json) : Option Value := Value.readJson? Value.jsonDepth j

def Location.ofJson? (j : Json) : Option Location := do
  match ← j.readRecord? ["line", "column"] with
  | [line, column] =>
    return ⟨UInt32.ofNat (← Json.required (Json.asNatBelow? UInt32.size) line),
      UInt32.ofNat (← Json.required (Json.asNatBelow? UInt32.size) column)⟩
  | _ => none

def Origin.ofJson? (j : Json) : Option Origin := do
  match ← j.readRecord? ["source", "key", "location"] with
  | [source, key, location] =>
    return ⟨← Json.required Json.asText? source, ← Json.required Json.asText? key,
      ← Json.optional Location.ofJson? location⟩
  | _ => none

/-! ## Writing -/

def Name.toJson (n : Name) : Json := .text n.canonical

mutual

def Value.toJson : Value → Json
  | .bool b => .bool b
  | .integer i => .ofInt i.toInt
  | .float x => .ofFloat x
  | .text s => .text s
  | .list items => .array (Value.itemsToJson items)

def Value.itemsToJson : List Value → List Json
  | [] => []
  | v :: vs => v.toJson :: Value.itemsToJson vs

end

def Location.toJson (l : Location) : Json :=
  .record [("line", .ofNat l.line.toNat), ("column", .ofNat l.column.toNat)]

/-- An origin in JSON; a position that is not known is left out. -/
def Origin.toJson (o : Origin) : Json :=
  .record ([("source", .text o.source), ("key", .text o.key)]
    ++ (o.location.map fun l => ("location", l.toJson)).toList)

def Property.toJson (p : Property) : Json :=
  .record [("name", p.name.toJson), ("value", p.value.toJson), ("origin", p.origin.toJson)]

end LayeredConfig
