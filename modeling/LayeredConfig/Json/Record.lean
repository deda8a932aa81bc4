import LayeredConfig.Json.Number

/-!
# LayeredConfig.Json.Record

Records in JSON.

1. A record is an object, read by the names of its fields, or an array that holds the fields in
   order; an array may end early but may not be longer than the record.
2. In an object every field of the record occurs at most once.  Other fields are not looked at.
3. What a missing field means depends on the field: it is required, optional, or has a default.
   An optional field may also be `null`.
-/

namespace LayeredConfig.Json

/-- The contents of the fields of a record, in the order of the given names. -/
def readRecord? (names : List String) : Json → Option (List (Option Json))
  | .object fields =>
    if fields.any (·.1.isNone) then none
    else
      names.mapM fun name =>
        match fields.filter (·.1 == some name) with
        | [] => some none
        | [(_, j)] => some (some j)
        | _ => none
  | .array items =>
    if items.length ≤ names.length then
      some (items.map some ++ List.replicate (names.length - items.length) none)
    else none
  | _ => none

/-- Reads a field that must be there. -/
def required {α : Type} (read : Json → Option α) : Option Json → Option α
  | some j => read j
  | none => none

/-- Reads a field that may be missing or `null`. -/
def optional {α : Type} (read : Json → Option α) : Option Json → Option (Option α)
  | none | some .null => some none
  | some j => (read j).map some

/-- Reads a field that has a default. -/
def withDefault {α : Type} (read : Json → Option α) (default : α) : Option Json → Option α
  | none => some default
  | some j => read j

end LayeredConfig.Json
